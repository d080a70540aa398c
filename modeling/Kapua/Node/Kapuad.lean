import Kapua.Configuration.StartUp
import Kapua.Node.StartStop

/-!
# The life of kapuad

`main` of kapuad beside the threads that it starts and the signals that it gets. It loads the
configuration, starts the core and the network, waits for a signal, stops the network and returns.
Its locals are then destroyed in the reverse order, the network before the core, and `~UDPNetwork`
calls `stop` once more if `_running` is set. A step of a run is a statement of `main` or one access
of a thread as in `StartStop`, or the arrival of a `SIGINT`.

Nothing calls `Core::stop`, so the core is always destroyed under its thread. Whether the network is
depends on where its thread is when the destructor tests the flag (`objects_destroyed`): a thread
that has not yet got as far as `_running = true` is overlooked by both calls of `stop`.

What a thread does once its object is destroyed is not defined, and it takes no step here. The key
files, the log and the splash are left out.
-/

set_option autoImplicit false
set_option relaxedAutoImplicit false

namespace Kapua

namespace Kapuad

/-- `EXIT_SUCCESS`, and `EXIT_FAILURE`, which is also the status of the `exit` in `signal_stop`. -/
inductive ExitStatus
  | success
  | failure
deriving DecidableEq

/-- The statements that the main thread can be about to execute.
* `loadYaml`, `loadCmdLine`, `coreStart`: the calls of `load_yaml`, `load_cmd_line` and
  `Core::start`.
* `networkStart`, `networkStarting`: the call of `UDPNetwork::start`, and the rest of it.
* `signal`: the call of `signal`.
* `whileRunning`: the test of the loop.
* `networkStop`, `networkStopping`: the call of `UDPNetwork::stop`, and the rest of it.
* `testRunning`, `destroyStop`, `destroyStopping`: `~UDPNetwork`, the test of `_running` and then
  the call of `stop` and the rest of it.
* `destroyCore`: `~Core`, once the network is destroyed.
* `returned`: the destructors are done.
* `ended`: the process is gone, with `none` for one that a signal has killed. -/
inductive Main
  | loadYaml
  | loadCmdLine
  | coreStart
  | networkStart
  | networkStarting
  | signal
  | whileRunning
  | networkStop
  | networkStopping
  | testRunning (status : ExitStatus)
  | destroyStop (status : ExitStatus)
  | destroyStopping (status : ExitStatus)
  | destroyCore (status : ExitStatus)
  | returned (status : ExitStatus)
  | ended (status : Option ExitStatus)
deriving DecidableEq

/-- The `Core` has not yet been destroyed. -/
def Main.hasCore : Main → Bool
  | .returned _ | .ended _ => false
  | _ => true

/-- The `UDPNetwork` has not yet been destroyed. -/
def Main.hasNetwork : Main → Bool
  | .destroyCore _ | .returned _ | .ended _ => false
  | _ => true

/-- The main thread, the two flags of `signal_stop`, whether it has been installed, and the threads
of the core and of the network. -/
structure Process where
  main : Main
  running : Bool
  stopping : Bool
  installed : Bool
  core : Core.Threading
  network : UDPNetwork.Threading
deriving DecidableEq

/-- `main` after its constructors. -/
def initial : Process where
  main := .loadYaml
  running := true
  stopping := false
  installed := false
  core := Core.initial
  network := UDPNetwork.initial

/-- A statement of `main`, a `SIGINT`, or a step of a thread of the core or of the network, with the
result of `_listen`. -/
inductive Event
  | main
  | interrupt
  | core (index : ℕ)
  | network (index : ℕ) (listens : Bool)

/-- What the loaders read: the configuration file and the command line. -/
structure Sources where
  libs : Libraries
  file : Except Thrown Yaml
  arguments : List Argument

/-- What `load_yaml` makes of a new `Config`. -/
def Sources.afterYaml (sources : Sources) : Loaded :=
  Config.loadYaml sources.libs "config.yaml" sources.file (.construct sources.libs)

/-- What `load_cmd_line` makes of it after that. -/
def Sources.afterCmdLine (sources : Sources) : Loaded :=
  Config.loadCmdLine sources.libs sources.arguments sources.afterYaml.config

/-- Both loaders return true. -/
def Sources.Accepted (sources : Sources) : Prop :=
  sources.afterYaml.verdict = true ∧ sources.afterCmdLine.verdict = true

/-- The next statement of `main`. -/
def mainStep (sources : Sources) (s : Process) : Option Process :=
  match s.main with
  | .loadYaml =>
    some { s with main :=
      if sources.afterYaml.verdict then .loadCmdLine else .testRunning .failure }
  | .loadCmdLine =>
    some { s with main :=
      if sources.afterCmdLine.verdict then .coreStart else .testRunning .failure }
  | .coreStart => do
    let core ← Core.step s.core .start
    return { s with core, main := .networkStart }
  | .networkStart => do
    let network ← UDPNetwork.step s.network .start
    return { s with
      network
      main := if s.network.crew.running then .testRunning .failure else .networkStarting }
  | .networkStarting => do
    let network ← UDPNetwork.step s.network .owner
    return { s with network, main := .signal }
  | .signal => some { s with installed := true, main := .whileRunning }
  | .whileRunning => some { s with main := if s.running then .whileRunning else .networkStop }
  | .networkStop => do
    let network ← UDPNetwork.step s.network .stop
    return { s with
      network
      main := if s.network.crew.running then .networkStopping else .testRunning .success }
  | .networkStopping => do
    let network ← UDPNetwork.step s.network .owner
    return { s with
      network
      main := if network.owner = .idle then .testRunning .success else .networkStopping }
  | .testRunning status =>
    some { s with main :=
      if s.network.crew.running then .destroyStop status else .destroyCore status }
  | .destroyStop status => do
    let network ← UDPNetwork.step s.network .stop
    return { s with
      network
      main := if s.network.crew.running then .destroyStopping status else .destroyCore status }
  | .destroyStopping status => do
    let network ← UDPNetwork.step s.network .owner
    return { s with
      network
      main := if network.owner = .idle then .destroyCore status else .destroyStopping status }
  | .destroyCore status => some { s with main := .returned status }
  | .returned status => some { s with main := .ended (some status) }
  | .ended _ => none

/-- A `SIGINT`: `signal_stop`, or the end of the process before it is installed. -/
def interrupt (s : Process) : Option Process :=
  match s.main with
  | .ended _ => none
  | _ =>
    if s.installed then
      if s.stopping then some { s with main := .ended (some .failure) }
      else some { s with running := false, stopping := true }
    else some { s with main := .ended none }

/-- One step of a run. -/
def step (sources : Sources) (s : Process) : Event → Option Process
  | .main => mainStep sources s
  | .interrupt => interrupt s
  | .core index =>
    if s.main.hasCore then do
      let core ← Core.step s.core (.thread index ())
      return { s with core }
    else none
  | .network index listens =>
    if s.main.hasNetwork then do
      let network ← UDPNetwork.step s.network (.thread index listens)
      return { s with network }
    else none

/-! ### The threads -/

/-- The core has been started: its thread is in `_main_loop`, and has set the flag once it has got
to the loop. -/
structure CoreUp (core : Core.Threading) : Prop where
  owner : core.owner = .idle
  thread : ∃ pc, pc ≠ .exited ∧ core.crew.threads = [pc] ∧
    core.crew.running = decide (pc = .whileRunning)

/-- The network has been started, and `stop` has not cleared the flag: the flag is set while the
thread is in its loop. -/
structure NetworkUp (network : UDPNetwork.Threading) : Prop where
  owner : network.owner = .idle
  mainThread : network.mainThread = some 0
  thread : ∃ pc, network.crew.threads = [pc] ∧
    network.crew.running = decide (pc = .whileRunning)

/-- The network is in `stop`, before or after it has cleared the flag. -/
structure NetworkStopping (network : UDPNetwork.Threading) : Prop where
  mainThread : network.mainThread = some 0
  thread : (network.owner = .lowering ∧ network.crew.running = true ∧
      network.crew.threads = [.whileRunning]) ∨
    network.owner = .joining ∧ network.crew.running = false ∧
      ∃ pc, pc.raises = false ∧ network.crew.threads = [pc]

/-- `stop` has returned true. -/
structure NetworkJoined (network : UDPNetwork.Threading) : Prop where
  owner : network.owner = .idle
  running : network.crew.running = false
  threads : network.crew.threads = [.exited]

/-- The only thread of a list. -/
theorem index_eq_zero {Pc : Type} {pc pc' : Pc} {index : ℕ}
    (hat : [pc][index]? = some pc') : index = 0 ∧ pc' = pc := by
  obtain ⟨hlt, rfl⟩ := List.getElem?_eq_some_iff.mp hat
  obtain rfl : index = 0 := Nat.lt_one_iff.mp hlt
  exact ⟨rfl, rfl⟩

/-- A step of its thread leaves a started core started. -/
theorem CoreUp.step_thread {core core' : Core.Threading} {index : ℕ} (h : CoreUp core)
    (hstep : Core.step core (.thread index ()) = some core') : CoreUp core' := by
  obtain ⟨howner, pc, hlive, hthreads, hrunning⟩ := h
  obtain ⟨pc', crew, hat, hcrew, rfl⟩ := Core.step_thread_eq_some_iff.mp hstep
  rw [hthreads] at hat
  obtain ⟨rfl, rfl⟩ := index_eq_zero hat
  refine ⟨howner, ?_⟩
  cases pc' with
  | testRunning =>
    have hdown : core.crew.running = false := hrunning
    obtain rfl := Option.some.inj hcrew
    exact ⟨.setRunning, by decide, by simp [Crew.advance, hthreads, hdown], hdown⟩
  | setRunning =>
    obtain rfl := Option.some.inj hcrew
    exact ⟨.whileRunning, by decide, by simp [Crew.raise, hthreads], rfl⟩
  | whileRunning =>
    have hup : core.crew.running = true := hrunning
    obtain rfl := Option.some.inj hcrew
    exact ⟨.whileRunning, by decide, by simp [Crew.advance, hthreads, hup], hup⟩
  | exited => exact absurd rfl hlive

/-- A step of its thread leaves a started network started. -/
theorem NetworkUp.step_thread {network network' : UDPNetwork.Threading} {index : ℕ} {listens : Bool}
    (h : NetworkUp network)
    (hstep : UDPNetwork.step network (.thread index listens) = some network') :
    NetworkUp network' := by
  obtain ⟨howner, hmainThread, pc, hthreads, hrunning⟩ := h
  obtain ⟨pc', crew, hat, hcrew, rfl⟩ := UDPNetwork.step_thread_eq_some_iff.mp hstep
  rw [hthreads] at hat
  obtain ⟨rfl, rfl⟩ := index_eq_zero hat
  refine ⟨howner, hmainThread, ?_⟩
  cases pc' with
  | listen =>
    obtain rfl := Option.some.inj hcrew
    refine ⟨_, by rw [Crew.advance, hthreads]; rfl, hrunning.trans ?_⟩
    cases listens <;> rfl
  | setRunning =>
    obtain rfl := Option.some.inj hcrew
    exact ⟨.whileRunning, by simp [Crew.raise, hthreads], rfl⟩
  | whileRunning =>
    have hup : network.crew.running = true := hrunning
    obtain rfl := Option.some.inj hcrew
    exact ⟨.whileRunning, by simp [Crew.advance, hthreads, hup], hup⟩
  | shutdown =>
    obtain rfl := Option.some.inj hcrew
    exact ⟨.exited, by simp [Crew.advance, hthreads], hrunning⟩
  | exited => cases hcrew

/-- A step of its thread leaves a network that is being stopped so. -/
theorem NetworkStopping.step_thread {network network' : UDPNetwork.Threading} {index : ℕ}
    {listens : Bool} (h : NetworkStopping network)
    (hstep : UDPNetwork.step network (.thread index listens) = some network') :
    NetworkStopping network' := by
  obtain ⟨hmainThread, hthread⟩ := h
  obtain ⟨pc', crew, hat, hcrew, rfl⟩ := UDPNetwork.step_thread_eq_some_iff.mp hstep
  refine ⟨hmainThread, ?_⟩
  obtain ⟨howner, hrunning, hthreads⟩ | ⟨howner, hrunning, pc, hraises, hthreads⟩ := hthread
  · rw [hthreads] at hat
    obtain ⟨rfl, rfl⟩ := index_eq_zero hat
    obtain rfl := Option.some.inj hcrew
    exact .inl ⟨howner, hrunning, by simp [Crew.advance, hthreads, hrunning]⟩
  · rw [hthreads] at hat
    obtain ⟨rfl, rfl⟩ := index_eq_zero hat
    cases pc' with
    | listen | setRunning => cases hraises
    | whileRunning =>
      obtain rfl := Option.some.inj hcrew
      exact .inr ⟨howner, hrunning, .shutdown, rfl, by simp [Crew.advance, hthreads, hrunning]⟩
    | shutdown =>
      obtain rfl := Option.some.inj hcrew
      exact .inr ⟨howner, hrunning, .exited, rfl, by simp [Crew.advance, hthreads]⟩
    | exited => cases hcrew

/-- A thread that has exited takes no step. -/
theorem not_step_thread_exited {network network' : UDPNetwork.Threading} {index : ℕ}
    {listens : Bool} (hthreads : network.crew.threads = [.exited])
    (hstep : UDPNetwork.step network (.thread index listens) = some network') : False := by
  obtain ⟨pc, crew, hat, hcrew, -⟩ := UDPNetwork.step_thread_eq_some_iff.mp hstep
  rw [hthreads] at hat
  obtain ⟨rfl, rfl⟩ := index_eq_zero hat
  cases hcrew

/-- The rest of `stop` clears the flag or has joined the thread. -/
theorem NetworkStopping.step_owner {network network' : UDPNetwork.Threading}
    (h : NetworkStopping network) (hstep : UDPNetwork.step network .owner = some network') :
    (network'.owner ≠ .idle ∧ NetworkStopping network') ∨ NetworkJoined network' := by
  obtain ⟨hmainThread, ⟨howner, hrunning, hthreads⟩ | ⟨howner, hrunning, pc, hraises, hthreads⟩⟩ :=
    h
  · simp only [UDPNetwork.step, UDPNetwork.resume, howner, Option.some.injEq] at hstep
    subst hstep
    exact .inl ⟨by simp, hmainThread, .inr ⟨rfl, rfl, .whileRunning, rfl, hthreads⟩⟩
  · simp only [UDPNetwork.step, UDPNetwork.resume, howner, hmainThread, hthreads] at hstep
    obtain ⟨hexited, hstep⟩ := Option.ite_none_right_eq_some.mp hstep
    obtain rfl : pc = .exited := by simpa using hexited
    obtain rfl := Option.some.inj hstep
    exact .inr ⟨rfl, hrunning, hthreads⟩

/-- A call of `stop` on a started network tests the flag. -/
theorem NetworkUp.step_stop {network network' : UDPNetwork.Threading} (h : NetworkUp network)
    (hstep : UDPNetwork.step network .stop = some network') :
    if network.crew.running then NetworkStopping network'
    else NetworkUp network' ∧ network'.crew.threads = network.crew.threads := by
  obtain ⟨howner, hmainThread, pc, hthreads, hrunning⟩ := h
  obtain ⟨-, rfl⟩ := UDPNetwork.stop_eq_some_iff.mp hstep
  split
  next hup =>
    obtain rfl : pc = .whileRunning := by simpa [hup] using hrunning
    exact ⟨hmainThread, .inl ⟨by simp, hup, hthreads⟩⟩
  next hdown => exact ⟨⟨by simp, hmainThread, pc, hthreads, hrunning⟩, rfl⟩

/-- A thread of the network does not clear the flag. -/
theorem running_of_step_thread {network network' : UDPNetwork.Threading} {index : ℕ}
    {listens : Bool} (hstep : UDPNetwork.step network (.thread index listens) = some network')
    (hrunning : network.crew.running = true) : network'.crew.running = true := by
  obtain ⟨pc, crew, -, hcrew, rfl⟩ := UDPNetwork.step_thread_eq_some_iff.mp hstep
  cases pc with
  | setRunning =>
    obtain rfl := Option.some.inj hcrew
    rfl
  | listen | whileRunning | shutdown =>
    obtain rfl := Option.some.inj hcrew
    exact hrunning
  | exited => cases hcrew

/-- The rest of the first call of `start` spawns the thread. -/
theorem networkUp_of_spawning {network network' : UDPNetwork.Threading}
    (howner : network.owner = .spawning) (hrunning : network.crew.running = false)
    (hthreads : network.crew.threads = [])
    (hstep : UDPNetwork.step network .owner = some network') : NetworkUp network' := by
  obtain ⟨-, rfl⟩ | ⟨hother, -⟩ | ⟨hother, -⟩ := UDPNetwork.resume_cases hstep
  · refine ⟨rfl, by rw [hthreads]; rfl, .listen, ?_, hrunning⟩
    rw [Crew.spawn, hthreads]
    rfl
  · rw [howner] at hother
    contradiction
  · rw [howner] at hother
    contradiction

/-! ### The process -/

/-- What `main` has found out about the configuration. -/
def SourcesFit (sources : Sources) : Main → Prop
  | .loadYaml | .ended _ => True
  | .loadCmdLine => sources.afterYaml.verdict = true
  | .testRunning status | .destroyStop status | .destroyStopping status | .destroyCore status
  | .returned status => sources.Accepted ↔ status = .success
  | .coreStart | .networkStart | .networkStarting | .signal | .whileRunning | .networkStop
  | .networkStopping => sources.Accepted

/-- The core while `main` is at a place: it is started with the configuration accepted, and then
nothing stops it. -/
def CoreFits (core : Core.Threading) : Main → Prop
  | .loadYaml | .loadCmdLine | .coreStart => core = Core.initial
  | .networkStart | .networkStarting | .signal | .whileRunning | .networkStop
  | .networkStopping => CoreUp core
  | .testRunning status | .destroyStop status | .destroyStopping status | .destroyCore status =>
    match status with
    | .success => CoreUp core
    | .failure => core = Core.initial
  | .returned _ | .ended _ => True

/-- The network while `main` is at a place. -/
def NetworkFits (network : UDPNetwork.Threading) : Main → Prop
  | .loadYaml | .loadCmdLine | .coreStart | .networkStart => network = UDPNetwork.initial
  | .networkStarting =>
    network.owner = .spawning ∧ network.crew.running = false ∧ network.crew.threads = []
  | .signal | .whileRunning | .networkStop => NetworkUp network
  | .networkStopping | .destroyStopping .success => NetworkStopping network
  | .testRunning .success => NetworkUp network ∨ NetworkJoined network
  | .destroyStop .success => NetworkUp network ∧ network.crew.running = true
  | .testRunning .failure | .destroyCore .failure => network = UDPNetwork.initial
  | .destroyStop .failure | .destroyStopping .failure => False
  | .destroyCore .success | .returned _ | .ended _ => True

/-- What holds in every state of a run. -/
structure Fits (sources : Sources) (s : Process) : Prop where
  sources : SourcesFit sources s.main
  core : CoreFits s.core s.main
  network : NetworkFits s.network s.main

variable {sources : Sources} {s t : Process}

theorem fits_initial : Fits sources initial := ⟨trivial, rfl, rfl⟩

section Statements

variable {running stopping installed : Bool} {core : Core.Threading}
  {network : UDPNetwork.Threading}

/-- A configuration that a loader refuses takes `main` to its end. -/
theorem fits_refused (hrefused : ¬ sources.Accepted) (hcore : core = Core.initial)
    (hnetwork : network = UDPNetwork.initial) :
    Fits sources ⟨.testRunning .failure, running, stopping, installed, core, network⟩ :=
  ⟨iff_of_false hrefused (by decide), hcore, hnetwork⟩

/-- `load_yaml` keeps the invariant. -/
theorem fits_loadYaml
    (h : Fits sources ⟨.loadYaml, running, stopping, installed, core, network⟩)
    (hstep : mainStep sources ⟨.loadYaml, running, stopping, installed, core, network⟩ = some t) :
    Fits sources t := by
  obtain rfl := Option.some.inj hstep
  cases hyaml : sources.afterYaml.verdict with
  | false => exact fits_refused (fun haccepted ↦ by simp [haccepted.1] at hyaml) h.core h.network
  | true => exact ⟨hyaml, h.core, h.network⟩

/-- `load_cmd_line` keeps the invariant. -/
theorem fits_loadCmdLine
    (h : Fits sources ⟨.loadCmdLine, running, stopping, installed, core, network⟩)
    (hstep : mainStep sources ⟨.loadCmdLine, running, stopping, installed, core, network⟩ =
      some t) : Fits sources t := by
  obtain rfl := Option.some.inj hstep
  cases hcmd : sources.afterCmdLine.verdict with
  | false => exact fits_refused (fun haccepted ↦ by simp [haccepted.2] at hcmd) h.core h.network
  | true => exact ⟨⟨h.sources, hcmd⟩, h.core, h.network⟩

/-- The call of `stop` in `main` keeps the invariant. -/
theorem fits_networkStop
    (h : Fits sources ⟨.networkStop, running, stopping, installed, core, network⟩)
    (hstep : mainStep sources ⟨.networkStop, running, stopping, installed, core, network⟩ =
      some t) : Fits sources t := by
  obtain ⟨network', hstop, hstep⟩ := Option.bind_eq_some_iff.mp hstep
  obtain rfl := Option.some.inj hstep
  have hstopped := NetworkUp.step_stop h.network hstop
  cases hrunning : network.crew.running with
  | false =>
    simp only [hrunning, Bool.false_eq_true, if_false] at hstopped
    exact ⟨iff_of_true h.sources rfl, h.core, .inl hstopped.1⟩
  | true =>
    simp only [hrunning, if_true] at hstopped
    exact ⟨h.sources, h.core, hstopped⟩

/-- The rest of it does. -/
theorem fits_networkStopping
    (h : Fits sources ⟨.networkStopping, running, stopping, installed, core, network⟩)
    (hstep : mainStep sources ⟨.networkStopping, running, stopping, installed, core, network⟩ =
      some t) : Fits sources t := by
  obtain ⟨network', hresume, hstep⟩ := Option.bind_eq_some_iff.mp hstep
  obtain rfl := Option.some.inj hstep
  obtain ⟨howner, hstopping⟩ | hjoined := NetworkStopping.step_owner h.network hresume
  · rw [if_neg howner]
    exact ⟨h.sources, h.core, hstopping⟩
  · rw [if_pos hjoined.owner]
    exact ⟨iff_of_true h.sources rfl, h.core, .inr hjoined⟩

/-- The test of the flag in `~UDPNetwork` keeps the invariant. -/
theorem fits_testRunning {status : ExitStatus}
    (h : Fits sources ⟨.testRunning status, running, stopping, installed, core, network⟩)
    (hstep : mainStep sources ⟨.testRunning status, running, stopping, installed, core, network⟩ =
      some t) : Fits sources t := by
  obtain rfl := Option.some.inj hstep
  obtain ⟨hsources, hcore, hnetwork⟩ := h
  cases status with
  | failure =>
    obtain rfl : network = UDPNetwork.initial := hnetwork
    exact ⟨hsources, hcore, rfl⟩
  | success =>
    cases hrunning : network.crew.running with
    | false => exact ⟨hsources, hcore, trivial⟩
    | true =>
      obtain hup | hjoined := hnetwork
      · exact ⟨hsources, hcore, hup, hrunning⟩
      · exact absurd (hrunning.symm.trans hjoined.running) (by decide)

/-- The call of `stop` in `~UDPNetwork` keeps the invariant. -/
theorem fits_destroyStop {status : ExitStatus}
    (h : Fits sources ⟨.destroyStop status, running, stopping, installed, core, network⟩)
    (hstep : mainStep sources ⟨.destroyStop status, running, stopping, installed, core, network⟩ =
      some t) : Fits sources t := by
  obtain ⟨hsources, hcore, hnetwork⟩ := h
  cases status with
  | failure => exact hnetwork.elim
  | success =>
    obtain ⟨hup, hrunning⟩ := hnetwork
    obtain ⟨network', hstop, hstep⟩ := Option.bind_eq_some_iff.mp hstep
    obtain rfl := Option.some.inj hstep
    have hstopped := hup.step_stop hstop
    rw [if_pos hrunning] at hstopped ⊢
    exact ⟨hsources, hcore, hstopped⟩

/-- The rest of it does. -/
theorem fits_destroyStopping {status : ExitStatus}
    (h : Fits sources ⟨.destroyStopping status, running, stopping, installed, core, network⟩)
    (hstep : mainStep sources
      ⟨.destroyStopping status, running, stopping, installed, core, network⟩ = some t) :
    Fits sources t := by
  obtain ⟨hsources, hcore, hnetwork⟩ := h
  cases status with
  | failure => exact hnetwork.elim
  | success =>
    obtain ⟨network', hresume, hstep⟩ := Option.bind_eq_some_iff.mp hstep
    obtain rfl := Option.some.inj hstep
    obtain ⟨howner, hstopping⟩ | hjoined := NetworkStopping.step_owner hnetwork hresume
    · rw [if_neg howner]
      exact ⟨hsources, hcore, hstopping⟩
    · rw [if_pos hjoined.owner]
      exact ⟨hsources, hcore, trivial⟩

end Statements

/-- A statement of `main` keeps the invariant. -/
theorem Fits.mainStep (h : Fits sources s) (hstep : mainStep sources s = some t) :
    Fits sources t := by
  obtain ⟨main, running, stopping, installed, core, network⟩ := s
  cases main with
  | loadYaml => exact fits_loadYaml h hstep
  | loadCmdLine => exact fits_loadCmdLine h hstep
  | coreStart =>
    obtain rfl : core = Core.initial := h.core
    obtain rfl := Option.some.inj hstep
    exact ⟨h.sources, ⟨rfl, .testRunning, by decide, rfl, rfl⟩, h.network⟩
  | networkStart =>
    obtain rfl : network = UDPNetwork.initial := h.network
    obtain rfl := Option.some.inj hstep
    exact ⟨h.sources, h.core, rfl, rfl, rfl⟩
  | networkStarting =>
    obtain ⟨howner, hrunning, hthreads⟩ := h.network
    obtain ⟨network', hresume, hstep⟩ := Option.bind_eq_some_iff.mp hstep
    obtain rfl := Option.some.inj hstep
    exact ⟨h.sources, h.core, networkUp_of_spawning howner hrunning hthreads hresume⟩
  | signal =>
    obtain rfl := Option.some.inj hstep
    exact ⟨h.sources, h.core, h.network⟩
  | whileRunning =>
    obtain rfl := Option.some.inj hstep
    cases running with
    | false => exact ⟨h.sources, h.core, h.network⟩
    | true => exact ⟨h.sources, h.core, h.network⟩
  | networkStop => exact fits_networkStop h hstep
  | networkStopping => exact fits_networkStopping h hstep
  | testRunning status => exact fits_testRunning h hstep
  | destroyStop status => exact fits_destroyStop h hstep
  | destroyStopping status => exact fits_destroyStopping h hstep
  | destroyCore status =>
    obtain rfl := Option.some.inj hstep
    exact ⟨h.sources, trivial, trivial⟩
  | returned status =>
    obtain rfl := Option.some.inj hstep
    exact ⟨trivial, trivial, trivial⟩
  | ended status => cases hstep

/-- A `SIGINT` ends the process or is noted in the flags. -/
theorem interrupt_cases (hstep : interrupt s = some t) :
    (∃ status, { s with main := .ended status } = t) ∨
      { s with running := false, stopping := true } = t := by
  obtain ⟨main, running, stopping, installed, core, network⟩ := s
  have hcases : (if installed then if stopping then
        some (⟨.ended (some .failure), running, stopping, installed, core, network⟩ : Process)
      else some ⟨main, false, true, installed, core, network⟩
    else some ⟨.ended none, running, stopping, installed, core, network⟩) = some t := by
    cases main with
    | ended status => cases hstep
    | _ => exact hstep
  split at hcases
  · split at hcases
    · exact .inl ⟨_, Option.some.inj hcases⟩
    · exact .inr (Option.some.inj hcases)
  · exact .inl ⟨_, Option.some.inj hcases⟩

/-- A step of a thread of the core keeps its part of the invariant. -/
theorem coreFits_step_thread {main : Main} {core core' : Core.Threading} {index : ℕ}
    (h : CoreFits core main) (hstep : Core.step core (.thread index ()) = some core') :
    CoreFits core' main := by
  have hnone (hinitial : core = Core.initial) : False := by
    obtain ⟨pc, -, hat, -⟩ := Core.step_thread_eq_some_iff.mp hstep
    simp [hinitial, Core.initial, Crew.initial] at hat
  cases main with
  | loadYaml | loadCmdLine | coreStart => exact (hnone h).elim
  | networkStart | networkStarting | signal | whileRunning | networkStop | networkStopping =>
    exact CoreUp.step_thread h hstep
  | testRunning status | destroyStop status | destroyStopping status | destroyCore status =>
    cases status with
    | success => exact CoreUp.step_thread h hstep
    | failure => exact (hnone h).elim
  | returned status | ended status => trivial

/-- A step of a thread of the network keeps its part of the invariant. -/
theorem networkFits_step_thread {main : Main} {network network' : UDPNetwork.Threading} {index : ℕ}
    {listens : Bool} (h : NetworkFits network main)
    (hstep : UDPNetwork.step network (.thread index listens) = some network') :
    NetworkFits network' main := by
  obtain ⟨pc, crew, hat, hcrew, -⟩ := UDPNetwork.step_thread_eq_some_iff.mp hstep
  have hnone (hthreads : network.crew.threads = []) : False := by
    simp [hthreads] at hat
  cases main with
  | loadYaml | loadCmdLine | coreStart | networkStart => exact (hnone (by rw [h]; rfl)).elim
  | networkStarting => exact (hnone h.2.2).elim
  | signal | whileRunning | networkStop => exact NetworkUp.step_thread h hstep
  | networkStopping => exact NetworkStopping.step_thread h hstep
  | testRunning status =>
    cases status with
    | success =>
      obtain h | h := h
      · exact .inl (h.step_thread hstep)
      · exact (not_step_thread_exited h.threads hstep).elim
    | failure => exact (hnone (by rw [h]; rfl)).elim
  | destroyStop status =>
    cases status with
    | success => exact ⟨h.1.step_thread hstep, running_of_step_thread hstep h.2⟩
    | failure => exact h.elim
  | destroyStopping status =>
    cases status with
    | success => exact NetworkStopping.step_thread h hstep
    | failure => exact h.elim
  | destroyCore status =>
    cases status with
    | success => trivial
    | failure => exact (hnone (by rw [h]; rfl)).elim
  | returned status | ended status => trivial

/-- Every step keeps the invariant. -/
theorem Fits.step {event : Event} (h : Fits sources s) (hstep : step sources s event = some t) :
    Fits sources t := by
  cases event with
  | main => exact h.mainStep hstep
  | interrupt =>
    obtain ⟨status, rfl⟩ | rfl := interrupt_cases hstep
    · exact ⟨trivial, trivial, trivial⟩
    · exact ⟨h.sources, h.core, h.network⟩
  | core index =>
    obtain ⟨-, hstep⟩ := Option.ite_none_right_eq_some.mp hstep
    obtain ⟨core, hcore, hstep⟩ := Option.bind_eq_some_iff.mp hstep
    obtain rfl := Option.some.inj hstep
    exact ⟨h.sources, coreFits_step_thread h.core hcore, h.network⟩
  | network index listens =>
    obtain ⟨-, hstep⟩ := Option.ite_none_right_eq_some.mp hstep
    obtain ⟨network, hnetwork, hstep⟩ := Option.bind_eq_some_iff.mp hstep
    obtain rfl := Option.some.inj hstep
    exact ⟨h.sources, h.core, networkFits_step_thread h.network hnetwork⟩

/-! ### The end -/

/-- `main` is on its way out, and `~UDPNetwork` does not overlook the thread. -/
def Closing (network : UDPNetwork.Threading) : Main → Prop
  | .testRunning .success => network.crew.running = true ∨ network.crew.threads = [.exited]
  | .destroyCore .success => network.crew.threads = [.exited]
  | .destroyStop .success | .destroyStopping .success | .returned _ | .ended _ => True
  | _ => False

/-- A step of a thread of the network does not change that. -/
theorem closing_step_thread {main : Main} {network network' : UDPNetwork.Threading} {index : ℕ}
    {listens : Bool} (h : Closing network main)
    (hstep : UDPNetwork.step network (.thread index listens) = some network') :
    Closing network' main := by
  cases main with
  | loadYaml | loadCmdLine | coreStart | networkStart | networkStarting | signal | whileRunning
  | networkStop | networkStopping => exact h.elim
  | testRunning status =>
    cases status with
    | success =>
      obtain hrunning | hthreads := h
      · exact .inl (running_of_step_thread hstep hrunning)
      · exact (not_step_thread_exited hthreads hstep).elim
    | failure => exact h.elim
  | destroyStop status | destroyStopping status =>
    cases status with
    | success => trivial
    | failure => exact h.elim
  | destroyCore status =>
    cases status with
    | success => exact (not_step_thread_exited h hstep).elim
    | failure => exact h.elim
  | returned status | ended status => trivial

/-- Nor does a statement of `main`. -/
theorem closing_mainStep (h : Closing s.network s.main) (hfits : NetworkFits s.network s.main)
    (hstep : mainStep sources s = some t) : Closing t.network t.main := by
  obtain ⟨main, running, stopping, installed, core, network⟩ := s
  cases main with
  | loadYaml | loadCmdLine | coreStart | networkStart | networkStarting | signal | whileRunning
  | networkStop | networkStopping => exact h.elim
  | testRunning status =>
    cases status with
    | failure => exact h.elim
    | success =>
      obtain rfl := Option.some.inj hstep
      cases hrunning : network.crew.running with
      | true => trivial
      | false =>
        obtain hup | hthreads := h
        · exact absurd (hrunning.symm.trans hup) (by decide)
        · exact hthreads
  | destroyStop status =>
    cases status with
    | failure => exact h.elim
    | success =>
      obtain ⟨network', -, hstep⟩ := Option.bind_eq_some_iff.mp hstep
      obtain rfl := Option.some.inj hstep
      obtain ⟨-, hrunning⟩ := hfits
      dsimp only at hrunning
      simp only [hrunning, if_true]
      trivial
  | destroyStopping status =>
    cases status with
    | failure => exact h.elim
    | success =>
      obtain ⟨network', hresume, hstep⟩ := Option.bind_eq_some_iff.mp hstep
      obtain rfl := Option.some.inj hstep
      obtain ⟨howner, -⟩ | hjoined := NetworkStopping.step_owner hfits hresume
      · simp only [howner, if_false]
        trivial
      · simp only [hjoined.owner, if_true]
        exact hjoined.threads
  | destroyCore status =>
    obtain rfl := Option.some.inj hstep
    trivial
  | returned status =>
    obtain rfl := Option.some.inj hstep
    trivial
  | ended status => cases hstep

/-- No step changes it. -/
theorem closing_step {event : Event} (h : Closing s.network s.main) (hfits : Fits sources s)
    (hstep : step sources s event = some t) : Closing t.network t.main := by
  cases event with
  | main => exact closing_mainStep h hfits.network hstep
  | interrupt =>
    obtain ⟨status, rfl⟩ | rfl := interrupt_cases hstep
    · trivial
    · exact h
  | core index =>
    obtain ⟨-, hstep⟩ := Option.ite_none_right_eq_some.mp hstep
    obtain ⟨core, -, hstep⟩ := Option.bind_eq_some_iff.mp hstep
    obtain rfl := Option.some.inj hstep
    exact h
  | network index listens =>
    obtain ⟨-, hstep⟩ := Option.ite_none_right_eq_some.mp hstep
    obtain ⟨network, hnetwork, hstep⟩ := Option.bind_eq_some_iff.mp hstep
    obtain rfl := Option.some.inj hstep
    exact closing_step_thread h hnetwork

/-- The thread of the network when `~UDPNetwork` tests the flag, which is set exactly while it is in
its loop. -/
theorem exists_thread {network : UDPNetwork.Threading}
    (h : NetworkFits network (.testRunning .success)) : ∃ pc, network.crew.threads = [pc] ∧
      network.crew.running = decide (pc = .whileRunning) := by
  obtain hup | hjoined := h
  · exact hup.thread
  · exact ⟨.exited, hjoined.threads, hjoined.running⟩

/-- When a thread still runs as its object is destroyed. Whatever the order of the steps, and
whenever signals arrive: a process that returns `EXIT_FAILURE` was given a configuration that is
refused, and has started no thread. One that returns `EXIT_SUCCESS` destroys the core under its
thread. It destroys the network only after the thread of the network has exited exactly if the
thread is in its loop or has exited when `~UDPNetwork` tests the flag. -/
theorem objects_destroyed {events : List Event}
    (hrun : Run (fun s event t ↦ step sources s event = some t) initial events s) :
    (s.main = .destroyCore .failure → ¬ sources.Accepted ∧ s.core.crew.threads = [] ∧
      s.network.crew.threads = []) ∧
    (s.main = .destroyCore .success → sources.Accepted ∧
      ∃ pc, s.core.crew.threads = [pc] ∧ pc ≠ .exited) ∧
    (s.main = .testRunning .success → ∃ pc, s.network.crew.threads = [pc] ∧
      ((∀ later t, Run (fun s event t ↦ step sources s event = some t) s later t →
        t.main = .destroyCore .success → t.network.crew.threads = [.exited]) ↔
        pc = .whileRunning ∨ pc = .exited)) := by
  have hfits : Fits sources s :=
    hrun.invariant (Fits sources) (fun h hstep ↦ h.step hstep) fits_initial
  refine ⟨fun hmain ↦ ?_, fun hmain ↦ ?_, fun hmain ↦ ?_⟩
  · obtain ⟨hsources, hcore, hnetwork⟩ := hfits
    rw [hmain] at hsources hcore hnetwork
    have hinitial : s.core = Core.initial := hcore
    have hinitial' : s.network = UDPNetwork.initial := hnetwork
    refine ⟨fun haccepted ↦ ?_, by rw [hinitial]; rfl, by rw [hinitial']; rfl⟩
    have hstatus : ExitStatus.failure = .success := hsources.mp haccepted
    contradiction
  · obtain ⟨hsources, hcore, -⟩ := hfits
    rw [hmain] at hsources hcore
    obtain ⟨-, pc, hlive, hthreads, -⟩ : CoreUp s.core := hcore
    exact ⟨hsources.mpr rfl, pc, hthreads, hlive⟩
  · obtain ⟨pc, hthreads, hrunning⟩ := exists_thread (hmain ▸ hfits.network)
    refine ⟨pc, hthreads, fun hexits ↦ ?_, fun hpc later t hlater hlast ↦ ?_⟩
    · by_contra hother
      obtain ⟨hloop, hexited⟩ := not_or.mp hother
      -- `~UDPNetwork` finds the flag down
      have hdown : s.network.crew.running = false := by simpa [hloop] using hrunning
      have hstep : step sources s .main = some { s with main := .destroyCore .success } := by
        simp [step, mainStep, hmain, hdown]
      have hthreads' : s.network.crew.threads = [.exited] :=
        hexits [.main] { s with main := .destroyCore .success } (.cons hstep (.nil _)) rfl
      rw [hthreads, List.cons.injEq] at hthreads'
      exact hexited hthreads'.1
    · have hclosing : Closing s.network s.main := by
        rw [hmain]
        obtain rfl | rfl := hpc
        · exact .inl hrunning
        · exact .inr hthreads
      obtain ⟨-, hclosed⟩ := hlater.invariant (fun s ↦ Fits sources s ∧ Closing s.network s.main)
        (fun h hstep ↦ ⟨h.1.step hstep, closing_step h.2 h.1 hstep⟩) ⟨hfits, hclosing⟩
      rw [hlast] at hclosed
      exact hclosed

/-- A file with every option that is read, and no arguments. -/
def suppliedSources : Sources := ⟨plainLibraries, .ok suppliedEntries.yaml, []⟩

/-- `objects_destroyed` for a `SIGINT` right after the start: the network can be destroyed while its
thread is before `_listen`. -/
theorem objects_destroyed_overlooked : ∃ s, s.main = .testRunning .success ∧
    s.network.crew.threads = [.listen] ∧
    ¬ ∀ later t, Run (fun s event t ↦ step suppliedSources s event = some t) s later t →
      t.main = .destroyCore .success → t.network.crew.threads = [.exited] := by
  have hrun : [.main, .main, .main, .main, .main, .main, .interrupt, .main, .main].foldlM
      (step suppliedSources) initial =
      some ⟨.testRunning .success, false, true, true,
        ⟨⟨false, [.testRunning], false, false⟩, .idle, some 0⟩,
        ⟨⟨false, [.listen], true, false⟩, .idle, some 0⟩⟩ := by
    decide +kernel
  obtain ⟨-, -, htest⟩ := objects_destroyed (Run.of_foldlM hrun)
  obtain ⟨pc, hthreads, hiff⟩ := htest rfl
  obtain rfl : UDPNetwork.MainLoop.listen = pc := by simpa using hthreads
  exact ⟨_, rfl, rfl, fun hexits ↦ by simpa using hiff.mp hexits⟩

end Kapuad

end Kapua
