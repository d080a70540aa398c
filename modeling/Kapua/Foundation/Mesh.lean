import Kapua.Foundation.TwoHosts
import Mathlib.Algebra.Order.BigOperators.Group.Finset
import Mathlib.Data.Fintype.Prod
import Mathlib.Logic.Function.Basic

/-!
# Any number of hosts

Hosts that are told apart by their names, each of which exchanges messages with all the others. What
a host says of its own accord goes to every host, itself included, and its replies go back to the
sender. It also takes in what comes from outside the mesh, to which nobody in the mesh gets a reply.

Between two hosts of a mesh there is what `Network` has between two hosts, with what the two take in
from anyone else as their internal steps: `MeshProgram.between` is the program of the two and
`Mesh.between` the part of the mesh. Every run of the mesh is one of these two (`between_run`), so
what holds of two hosts whatever they do internally holds between any two hosts of the mesh.

Over ordered links a mesh whose hosts have less to do after each message settles: it can always hand
over what is in flight, and only so many times (`Settling.length_le`, `Settling.exists_settled`).
-/

set_option autoImplicit false
set_option relaxedAutoImplicit false

namespace Kapua

/-- A program for the hosts of a mesh.
* `announce` is what a host sends to every host of its own accord.
* `receive` handles a message that the first host has from the second, and replies to that one.
* `outside` handles something from outside the mesh. -/
structure MeshProgram (Name Party Message Outside Draw : Type) where
  announce : Name → Party → Draw → List Message
  receive : Name → Name → Party → Message → Draw → Option (Party × List Message)
  outside : Name → Party → Outside → Draw → Option Party

/-- The hosts of a mesh. The messages in flight and those received are kept by the receiver and the
sender, in this order. -/
structure Mesh (Name Party Message : Type) where
  party : Name → Party
  inbox : Name → Name → List Message
  log : Name → Name → List (Party × Message)

/-- One step of a mesh. -/
inductive MeshAction (Name Outside Draw : Type)
  | announce (name : Name) (draw : Draw)
  | deliver (receiver sender : Name) (index : ℕ) (keep : Bool) (draw : Draw)
  | outside (name : Name) (event : Outside) (draw : Draw)
  | lose (receiver sender : Name) (index : ℕ)

/-- What interrupts a host that attends to one of its peers: a message of another one, or something
from outside the mesh. -/
inductive Interruption (Name Message Outside : Type)
  | message (sender : Name) (message : Message)
  | outside (event : Outside)

section Mesh

variable {Name Party Message Outside Draw : Type} [DecidableEq Name]

namespace MeshAction

/-- The draw of the action, if it has one, is one that the host may make. -/
def FitsDraws (Good : Name → Draw → Prop) : MeshAction Name Outside Draw → Prop
  | announce name draw => Good name draw
  | deliver receiver _ _ _ draw => Good receiver draw
  | outside name _ draw => Good name draw
  | lose _ _ _ => True

/-- The network allows the action, as it would between two hosts. -/
def Fits (allows : Action Unit → Prop) : MeshAction Name Outside Draw → Prop
  | announce _ _ => ∀ side, allows (.announce side ())
  | deliver _ _ index keep _ => ∀ side, allows (.deliver side index keep ())
  | outside _ _ _ => ∀ side, allows (.internal side ())
  | lose _ _ index => ∀ side, allows (.lose side index)

end MeshAction

/-- What one host of a mesh has to do with another. -/
def Mesh.host (mesh : Mesh Name Party Message) (name peer : Name) : Host Party Message :=
  ⟨mesh.party name, mesh.inbox name peer, mesh.log name peer⟩

/-- The mesh after `receiver` has handled the message at `index` of those from `sender`. -/
def Mesh.deliver (mesh : Mesh Name Party Message) (receiver sender : Name) (index : ℕ) (keep : Bool)
    (message : Message) (party : Party) (replies : List Message) : Mesh Name Party Message where
  party := Function.update mesh.party receiver party
  inbox := fun name peer ↦
    (if name = receiver ∧ peer = sender then (mesh.host receiver sender).remaining index keep
      else mesh.inbox name peer) ++
    if name = sender ∧ peer = receiver then replies else []
  log := fun name peer ↦ mesh.log name peer ++
    if name = receiver ∧ peer = sender then [(mesh.party receiver, message)] else []

/-- One step of hosts that run `program`; `none` when the action is not possible. -/
def Mesh.step (program : MeshProgram Name Party Message Outside Draw)
    (mesh : Mesh Name Party Message) :
    MeshAction Name Outside Draw → Option (Mesh Name Party Message)
  | .announce name draw => some { mesh with
      inbox := fun receiver sender ↦ mesh.inbox receiver sender ++
        if sender = name then program.announce name (mesh.party name) draw else [] }
  | .deliver receiver sender index keep draw => do
    let message ← (mesh.inbox receiver sender)[index]?
    let (party, replies) ← program.receive receiver sender (mesh.party receiver) message draw
    return mesh.deliver receiver sender index keep message party replies
  | .outside name event draw => do
    let party ← program.outside name (mesh.party name) event draw
    return { mesh with party := Function.update mesh.party name party }
  | .lose receiver sender index =>
    if index < (mesh.inbox receiver sender).length then
      some { mesh with
        inbox := fun name peer ↦ if name = receiver ∧ peer = sender then
          (mesh.inbox receiver sender).eraseIdx index else mesh.inbox name peer }
    else none

/-- The steps whose action the network allows and whose draw the host may make. -/
def Mesh.Allowed (program : MeshProgram Name Party Message Outside Draw)
    (allows : Action Unit → Prop) (Good : Name → Draw → Prop) (mesh : Mesh Name Party Message)
    (action : MeshAction Name Outside Draw) (next : Mesh Name Party Message) : Prop :=
  action.Fits allows ∧ action.FitsDraws Good ∧ mesh.step program action = some next

/-- Actions that are possible one after another are a run. Assumes: the network allows each. -/
theorem Mesh.run_of_foldlM {program : MeshProgram Name Party Message Outside Draw}
    {allows : Action Unit → Prop} {Good : Name → Draw → Prop} {mesh next : Mesh Name Party Message}
    {actions : List (MeshAction Name Outside Draw)}
    (hplay : actions.foldlM (Mesh.step program) mesh = some next)
    (hallowed : ∀ action ∈ actions, action.Fits allows ∧ action.FitsDraws Good) :
    Run (Mesh.Allowed program allows Good) mesh actions next := by
  refine ((Run.of_foldlM hplay).restrict hallowed).mono ?_
  rintro mesh action next ⟨⟨hfits, hgood⟩, hstep⟩
  exact ⟨hfits, hgood, hstep⟩

/-- Two hosts of a mesh. -/
structure Pairing (Name : Type) where
  name : Side → Name
  name_ne : ∀ side, name side.other ≠ name side

/-- A host and another one. -/
def Pairing.ofNe {name other : Name} (hne : other ≠ name) : Pairing Name where
  name := fun side ↦ match side with
    | .first => name
    | .second => other
  name_ne := fun side ↦ by cases side <;> simp [Side.other, hne, Ne.symm hne]

/-- The program of two hosts of a mesh, as far as the two are concerned. -/
def MeshProgram.between (program : MeshProgram Name Party Message Outside Draw)
    (pairing : Pairing Name) (side : Side) :
    Program Party Message (Draw × Option (Interruption Name Message Outside)) where
  announce party draw := program.announce (pairing.name side) party draw.1
  internal party
    | (draw, some (.message sender message)) =>
      (program.receive (pairing.name side) sender party message draw).map Prod.fst
    | (draw, some (.outside event)) => program.outside (pairing.name side) party event draw
    | (_, none) => none
  receive party message draw :=
    program.receive (pairing.name side) (pairing.name side.other) party message draw.1

/-- Two hosts of a mesh. -/
def Mesh.between (mesh : Mesh Name Party Message) (pairing : Pairing Name) :
    Network Party Message :=
  fun side ↦ mesh.host (pairing.name side) (pairing.name side.other)

/-! ### The part of two hosts -/

/-- The draws of two hosts of a mesh: what interrupts one of them is not a message of the other. -/
def Pairing.Fits (pairing : Pairing Name) (Good : Name → Draw → Prop) (side : Side)
    (draw : Draw × Option (Interruption Name Message Outside)) : Prop :=
  Good (pairing.name side) draw.1 ∧
    ∀ sender message, draw.2 = some (.message sender message) → sender ≠ pairing.name side.other

namespace Pairing

omit [DecidableEq Name] in
/-- The two hosts are different. -/
@[simp] theorem name_inj (pairing : Pairing Name) {side side' : Side} :
    pairing.name side = pairing.name side' ↔ side = side' := by
  refine ⟨fun hname ↦ ?_, congrArg pairing.name⟩
  obtain hside | hside := Side.eq_or_eq_other side side'
  · exact hside
  · rw [hside] at hname
    exact absurd hname (pairing.name_ne side')

end Pairing

omit [DecidableEq Name] in
/-- A network is given by the host on one side and its peer. -/
theorem Network.eq_pair {network : Network Party Message} {side : Side}
    {host peer : Host Party Message} (hhost : network side = host)
    (hpeer : network side.other = peer) : network = .pair side host peer := by
  funext position
  obtain rfl | rfl := Side.eq_or_eq_other position side
  · simpa using hhost
  · simpa using hpeer

variable {program : MeshProgram Name Party Message Outside Draw} {allows : Action Unit → Prop}
  {Good : Name → Draw → Prop} {mesh next : Mesh Name Party Message} (pairing : Pairing Name)

/-- What a host of the two announces, the other one receives. -/
theorem between_announce {side : Side} (draw : Draw)
    (hstep : mesh.step program (.announce (pairing.name side) draw) = some next) :
    Network.step (program.between pairing) (mesh.between pairing) (.announce side (draw, none)) =
      some (next.between pairing) := by
  obtain rfl := Option.some.inj hstep
  refine congrArg some (Network.eq_pair ?_ ?_).symm
  · simp [Mesh.between, Mesh.host]
  · simp [Mesh.between, Mesh.host, Host.post, MeshProgram.between]

/-- A message from one of the two to the other. -/
theorem between_deliver {side : Side} {index : ℕ} {keep : Bool} {draw : Draw}
    (hstep : mesh.step program (.deliver (pairing.name side) (pairing.name side.other) index keep
      draw) = some next) :
    Network.step (program.between pairing) (mesh.between pairing)
      (.deliver side index keep (draw, none)) = some (next.between pairing) := by
  obtain ⟨message, hmessage, hstep⟩ := Option.bind_eq_some_iff.mp hstep
  obtain ⟨⟨party, replies⟩, hreceive, hstep⟩ := Option.bind_eq_some_iff.mp hstep
  obtain rfl := Option.some.inj hstep
  have hmessage' : (mesh.between pairing side).inbox[index]? = some message := hmessage
  have hreceive' : (program.between pairing side).receive (mesh.between pairing side).party message
      (draw, none) = some (party, replies) := hreceive
  rw [Network.step_deliver hmessage' hreceive' keep]
  refine congrArg some (Network.eq_pair ?_ ?_).symm
  · simp [Mesh.between, Mesh.host, Mesh.deliver, Host.received]
  · simp [Mesh.between, Mesh.host, Mesh.deliver, Host.post]

omit [DecidableEq Name] in
/-- A host of the two does something that is no concern of the other. -/
theorem between_internal {side : Side} {draw : Draw × Option (Interruption Name Message Outside)}
    {party : Party}
    (hparty : (program.between pairing side).internal (mesh.party (pairing.name side)) draw =
      some party)
    (hself : next.host (pairing.name side) (pairing.name side.other) =
      (mesh.between pairing side).become party)
    (hother : next.host (pairing.name side.other) (pairing.name side) =
      mesh.between pairing side.other) :
    Network.step (program.between pairing) (mesh.between pairing) (.internal side draw) =
      some (next.between pairing) := by
  have hparty' : (program.between pairing side).internal (mesh.between pairing side).party draw =
      some party := hparty
  rw [Network.step_internal hparty']
  refine congrArg some (Network.eq_pair hself ?_).symm
  rw [Mesh.between, Side.other_other]
  exact hother

/-- A message that one of the two has from a third host. -/
theorem between_third {side : Side} {sender : Name} {index : ℕ} {keep : Bool} {draw : Draw}
    (hsender : sender ≠ pairing.name side.other)
    (hstep : mesh.step program (.deliver (pairing.name side) sender index keep draw) = some next) :
    ∃ message, Network.step (program.between pairing) (mesh.between pairing)
      (.internal side (draw, some (.message sender message))) = some (next.between pairing) := by
  obtain ⟨message, hmessage, hstep⟩ := Option.bind_eq_some_iff.mp hstep
  obtain ⟨⟨party, replies⟩, hreceive, hstep⟩ := Option.bind_eq_some_iff.mp hstep
  obtain rfl := Option.some.inj hstep
  have hparty : (program.between pairing side).internal (mesh.party (pairing.name side))
      (draw, some (.message sender message)) = some party := by
    simp [MeshProgram.between, hreceive]
  refine ⟨message, between_internal pairing hparty ?_ ?_⟩
  · simp [Mesh.between, Mesh.host, Mesh.deliver, Host.become, Ne.symm hsender]
  · simp [Mesh.between, Mesh.host, Mesh.deliver, Ne.symm hsender]

/-- Something that one of the two takes in from outside the mesh. -/
theorem between_outside {side : Side} {event : Outside} {draw : Draw}
    (hstep : mesh.step program (.outside (pairing.name side) event draw) = some next) :
    Network.step (program.between pairing) (mesh.between pairing)
      (.internal side (draw, some (.outside event))) = some (next.between pairing) := by
  obtain ⟨party, hparty, hstep⟩ := Option.bind_eq_some_iff.mp hstep
  obtain rfl := Option.some.inj hstep
  refine between_internal pairing hparty ?_ ?_
  · simp [Mesh.between, Mesh.host, Host.become]
  · simp [Mesh.between, Mesh.host]

/-- A message from one of the two to the other is lost. -/
theorem between_lose {side : Side} {index : ℕ} (hstep : mesh.step program
      (.lose (pairing.name side) (pairing.name side.other) index) = some next) :
    Network.step (program.between pairing) (mesh.between pairing) (.lose side index) =
      some (next.between pairing) := by
  obtain ⟨hindex, hstep⟩ := Option.ite_none_right_eq_some.mp hstep
  obtain rfl := Option.some.inj hstep
  have hindex' : index < (mesh.between pairing side).inbox.length := hindex
  rw [Network.step_lose hindex']
  refine congrArg some (Network.eq_pair ?_ ?_).symm
  · simp [Mesh.between, Mesh.host, Host.drop]
  · simp [Mesh.between, Mesh.host]

/-- What happens to other hosts does not concern the two. -/
theorem between_eq_of_others {action : MeshAction Name Outside Draw}
    (hstep : mesh.step program action = some next)
    (hothers : match action with
      | .announce name _ | .outside name _ _ => ∀ side, pairing.name side ≠ name
      | .deliver receiver _ _ _ _ => ∀ side, pairing.name side ≠ receiver
      | .lose receiver sender _ =>
        ∀ side, ¬ (pairing.name side = receiver ∧ pairing.name side.other = sender)) :
    next.between pairing = mesh.between pairing := by
  cases action with
  | announce name draw =>
    obtain rfl := Option.some.inj hstep
    funext side
    simp [Mesh.between, Mesh.host, hothers]
  | deliver receiver sender index keep draw =>
    obtain ⟨message, hmessage, hstep⟩ := Option.bind_eq_some_iff.mp hstep
    obtain ⟨⟨party, replies⟩, hreceive, hstep⟩ := Option.bind_eq_some_iff.mp hstep
    obtain rfl := Option.some.inj hstep
    funext side
    simp [Mesh.between, Mesh.host, Mesh.deliver, hothers]
  | outside name event draw =>
    obtain ⟨party, hparty, hstep⟩ := Option.bind_eq_some_iff.mp hstep
    obtain rfl := Option.some.inj hstep
    funext side
    simp [Mesh.between, Mesh.host, hothers]
  | lose receiver sender index =>
    obtain ⟨hindex, hstep⟩ := Option.ite_none_right_eq_some.mp hstep
    obtain rfl := Option.some.inj hstep
    funext side
    simp only [Mesh.between, Mesh.host, if_neg (hothers side)]

/-- Every step of the mesh is at most one of the two hosts. Assumes: the network does not restrict
what they do internally. -/
theorem between_step (hinternal : ∀ side, allows (.internal side ()))
    {action : MeshAction Name Outside Draw}
    (hstep : Mesh.Allowed program allows Good mesh action next) :
    ∃ actions, Run (Network.Allowed (program.between pairing) allows (pairing.Fits Good))
      (mesh.between pairing) actions (next.between pairing) := by
  obtain ⟨hfits, hgood, hstep⟩ := hstep
  have hnothing (heq : next.between pairing = mesh.between pairing) :
      ∃ actions, Run (Network.Allowed (program.between pairing) allows (pairing.Fits Good))
        (mesh.between pairing) actions (next.between pairing) :=
    ⟨[], heq ▸ .nil (next.between pairing)⟩
  cases action with
  | announce name draw =>
    by_cases hname : ∃ side, pairing.name side = name
    · obtain ⟨side, rfl⟩ := hname
      exact ⟨[.announce side (draw, none)],
        .cons ⟨hfits side, ⟨hgood, by simp⟩, between_announce pairing draw hstep⟩ (.nil _)⟩
    · exact hnothing (between_eq_of_others pairing hstep (not_exists.mp hname))
  | deliver receiver sender index keep draw =>
    by_cases hname : ∃ side, pairing.name side = receiver
    · obtain ⟨side, rfl⟩ := hname
      by_cases hsender : sender = pairing.name side.other
      · subst hsender
        exact ⟨[.deliver side index keep (draw, none)],
          .cons ⟨hfits side, ⟨hgood, by simp⟩, between_deliver pairing hstep⟩ (.nil _)⟩
      · obtain ⟨message, hthird⟩ := between_third pairing hsender hstep
        refine ⟨[.internal side (draw, some (.message sender message))],
          .cons ⟨hinternal side, ⟨hgood, fun other _ hother ↦ ?_⟩, hthird⟩ (.nil _)⟩
        cases hother
        exact hsender
    · exact hnothing (between_eq_of_others pairing hstep (not_exists.mp hname))
  | outside name event draw =>
    by_cases hname : ∃ side, pairing.name side = name
    · obtain ⟨side, rfl⟩ := hname
      exact ⟨[.internal side (draw, some (.outside event))],
        .cons ⟨hfits side, ⟨hgood, by simp⟩, between_outside pairing hstep⟩ (.nil _)⟩
    · exact hnothing (between_eq_of_others pairing hstep (not_exists.mp hname))
  | lose receiver sender index =>
    by_cases hname : ∃ side, pairing.name side = receiver ∧ pairing.name side.other = sender
    · obtain ⟨side, rfl, rfl⟩ := hname
      exact ⟨[.lose side index],
        .cons ⟨hfits side, trivial, between_lose pairing hstep⟩ (.nil _)⟩
    · exact hnothing (between_eq_of_others pairing hstep (not_exists.mp hname))

/-- Every run of the mesh is one of any two of its hosts. Assumes: the network does not restrict
what they do internally. -/
theorem between_run (hinternal : ∀ side, allows (.internal side ()))
    {actions : List (MeshAction Name Outside Draw)}
    (hrun : Run (Mesh.Allowed program allows Good) mesh actions next) :
    ∃ actions', Run (Network.Allowed (program.between pairing) allows (pairing.Fits Good))
      (mesh.between pairing) actions' (next.between pairing) := by
  obtain ⟨actions', network, hrun', rfl⟩ := hrun.simulate_runs
    (fun mesh network ↦ network = mesh.between pairing)
    (fun hrelated hstep ↦ by
      subst hrelated
      obtain ⟨actions', hrun'⟩ := between_step pairing hinternal hstep
      exact ⟨actions', _, hrun', rfl⟩) rfl
  exact ⟨actions', hrun'⟩

/-! ### Settling -/

/-- A message is handed over. -/
def MeshAction.IsDelivery : MeshAction Name Outside Draw → Prop
  | deliver _ _ _ _ _ => True
  | announce _ _ | outside _ _ _ | lose _ _ _ => False

/-- What a host has sent to another: what was received, and what is in flight. -/
def Mesh.sent (mesh : Mesh Name Party Message) (receiver sender : Name) : List Message :=
  (mesh.log receiver sender).map Prod.snd ++ mesh.inbox receiver sender

/-- Nothing is in flight. -/
def Mesh.Settled (mesh : Mesh Name Party Message) : Prop :=
  ∀ receiver sender, mesh.inbox receiver sender = []

/-- The state after a message has been handed over. -/
theorem Mesh.exists_of_step_deliver {receiver sender : Name} {index : ℕ} {keep : Bool}
    {draw : Draw}
    (hstep : mesh.step program (.deliver receiver sender index keep draw) = some next) :
    ∃ message party replies, (mesh.inbox receiver sender)[index]? = some message ∧
      program.receive receiver sender (mesh.party receiver) message draw = some (party, replies) ∧
      next = mesh.deliver receiver sender index keep message party replies := by
  obtain ⟨message, hmessage, hstep⟩ := Option.bind_eq_some_iff.mp hstep
  obtain ⟨⟨party, replies⟩, hreceive, hstep⟩ := Option.bind_eq_some_iff.mp hstep
  exact ⟨message, party, replies, hmessage, hreceive, (Option.some.inj hstep).symm⟩

/-- The state after a message has been handed over in order. -/
theorem Mesh.exists_of_deliver {receiver sender : Name} {draw : Draw}
    (hstep : mesh.step program (.deliver receiver sender 0 false draw) = some next) :
    ∃ message rest party replies, mesh.inbox receiver sender = message :: rest ∧
      program.receive receiver sender (mesh.party receiver) message draw = some (party, replies) ∧
      next = mesh.deliver receiver sender 0 false message party replies := by
  obtain ⟨message, party, replies, hmessage, hreceive, rfl⟩ := Mesh.exists_of_step_deliver hstep
  rw [← List.head?_eq_getElem?] at hmessage
  obtain ⟨rest, hinbox⟩ := List.head?_eq_some_iff.mp hmessage
  exact ⟨message, rest, party, replies, hinbox, hreceive, rfl⟩

/-- Ordered links forget nothing. -/
theorem Mesh.sent_isPrefix {action : MeshAction Name Outside Draw}
    (hstep : Mesh.Allowed program Action.Ordered Good mesh action next) (receiver sender : Name) :
    mesh.sent receiver sender <+: next.sent receiver sender := by
  obtain ⟨hfits, -, hstep⟩ := hstep
  cases action with
  | announce name draw =>
    obtain rfl := Option.some.inj hstep
    exact ⟨_, List.append_assoc _ _ _⟩
  | deliver receiver' sender' index keep draw =>
    obtain ⟨rfl, rfl⟩ : index = 0 ∧ keep = false := hfits .first
    obtain ⟨message, rest, party, replies, hinbox, -, rfl⟩ := Mesh.exists_of_deliver hstep
    by_cases hpair : receiver = receiver' ∧ sender = sender'
    · obtain ⟨rfl, rfl⟩ := hpair
      refine ⟨if receiver = sender ∧ sender = receiver then replies else [], ?_⟩
      simp [Mesh.sent, Mesh.deliver, Mesh.host, Host.remaining, hinbox]
    · refine ⟨if receiver = sender' ∧ sender = receiver' then replies else [], ?_⟩
      simp [Mesh.sent, Mesh.deliver, hpair]
  | outside name event draw =>
    obtain ⟨party, -, hstep⟩ := Option.bind_eq_some_iff.mp hstep
    obtain rfl := Option.some.inj hstep
    exact List.prefix_refl _
  | lose receiver' sender' index => exact (hfits .first).elim

/-- The same for a run. -/
theorem Mesh.sent_isPrefix_of_run {actions : List (MeshAction Name Outside Draw)}
    (hrun : Run (Mesh.Allowed program Action.Ordered Good) mesh actions next)
    (receiver sender : Name) : mesh.sent receiver sender <+: next.sent receiver sender :=
  hrun.invariant (fun next ↦ mesh.sent receiver sender <+: next.sent receiver sender)
    (fun h hstep ↦ h.trans (Mesh.sent_isPrefix hstep receiver sender)) (List.prefix_refl _)

/-- Hosts that can receive every message that comes to them over ordered links, and have less to do
with the sender afterwards.
* `Reachable` is an invariant.
* `work` is what two hosts still have to do with each other. -/
structure Settling (program : MeshProgram Name Party Message Outside Draw)
    (Good : Name → Draw → Prop) where
  Reachable : Mesh Name Party Message → Prop
  work : Mesh Name Party Message → Name → Name → ℕ
  step {mesh next : Mesh Name Party Message} {action : MeshAction Name Outside Draw}
    (h : Reachable mesh) (hstep : Mesh.Allowed program Action.Ordered Good mesh action next) :
    Reachable next
  receives {mesh : Mesh Name Party Message} {receiver sender : Name} {message : Message}
    {rest : List Message} {draw : Draw} (h : Reachable mesh)
    (hinbox : mesh.inbox receiver sender = message :: rest) (hdraw : Good receiver draw) :
    ∃ result, program.receive receiver sender (mesh.party receiver) message draw = some result
  decreases {mesh next : Mesh Name Party Message} {receiver sender : Name} {draw : Draw}
    (h : Reachable mesh) (hdraw : Good receiver draw)
    (hstep : mesh.step program (.deliver receiver sender 0 false draw) = some next) :
    work next receiver sender < work mesh receiver sender ∧
      ∀ name peer, work next name peer ≤ work mesh name peer

namespace Settling

variable [Fintype Name] (settling : Settling program Good)

/-- What all the hosts still have to do. -/
def total (mesh : Mesh Name Party Message) : ℕ :=
  ∑ pair : Name × Name, settling.work mesh pair.1 pair.2

/-- A message that is handed over leaves less to do. -/
theorem total_lt {action : MeshAction Name Outside Draw} (h : settling.Reachable mesh)
    (hstep : Mesh.Allowed program Action.Ordered Good mesh action next)
    (hdelivery : action.IsDelivery) : settling.total next < settling.total mesh := by
  obtain ⟨hfits, hdraw, hstep⟩ := hstep
  cases action with
  | deliver receiver sender index keep draw =>
    obtain ⟨rfl, rfl⟩ : index = 0 ∧ keep = false := hfits .first
    obtain ⟨hless, hle⟩ := settling.decreases h hdraw hstep
    exact Finset.sum_lt_sum (fun pair _ ↦ hle pair.1 pair.2)
      ⟨(receiver, sender), Finset.mem_univ _, hless⟩
  | announce _ _ | outside _ _ _ | lose _ _ _ => exact hdelivery.elim

/-- What is in flight is handed over after so many steps at most. -/
theorem length_le {actions : List (MeshAction Name Outside Draw)}
    (h : settling.Reachable mesh)
    (hrun : Run (Mesh.Allowed program Action.Ordered Good) mesh actions next)
    (hdeliveries : ∀ action ∈ actions, action.IsDelivery) :
    actions.length + settling.total next ≤ settling.total mesh := by
  induction hrun with
  | nil => simp
  | cons hfirst _ ih =>
    obtain ⟨hdelivery, hrest⟩ := List.forall_mem_cons.mp hdeliveries
    have hless := settling.total_lt h hfirst hdelivery
    have hlater := ih (settling.step h hfirst) hrest
    rw [List.length_cons]
    omega

/-- Everything in flight can be handed over. Assumes: every host has a draw that it may make. -/
theorem exists_settled (draw : Name → Draw) (hdraw : ∀ name, Good name (draw name))
    (h : settling.Reachable mesh) : ∃ actions final,
      Run (Mesh.Allowed program Action.Ordered Good) mesh actions final ∧
      (∀ action ∈ actions, action.IsDelivery) ∧ final.Settled := by
  -- by induction on what is left to do
  induction hleft : settling.total mesh using Nat.strongRecOn generalizing mesh with
  | ind left ih =>
    by_cases hsettled : mesh.Settled
    · exact ⟨[], mesh, .nil mesh, by simp, hsettled⟩
    · simp only [Mesh.Settled, not_forall] at hsettled
      obtain ⟨receiver, sender, hinbox⟩ := hsettled
      obtain ⟨message, rest, hinbox⟩ := List.exists_cons_of_ne_nil hinbox
      obtain ⟨⟨party, replies⟩, hreceive⟩ := settling.receives h hinbox (hdraw receiver)
      have hstep : mesh.step program (.deliver receiver sender 0 false (draw receiver)) =
          some (mesh.deliver receiver sender 0 false message party replies) := by
        simp [Mesh.step, hinbox, hreceive]
      have hallowed : Mesh.Allowed program Action.Ordered Good mesh
          (.deliver receiver sender 0 false (draw receiver))
          (mesh.deliver receiver sender 0 false message party replies) :=
        ⟨fun _ ↦ ⟨rfl, rfl⟩, hdraw receiver, hstep⟩
      obtain ⟨actions, final, hrun, hdeliveries, hfinal⟩ := ih _
        (hleft ▸ settling.total_lt h hallowed trivial) (settling.step h hallowed) rfl
      exact ⟨_, final, .cons hallowed hrun, List.forall_mem_cons.mpr ⟨trivial, hdeliveries⟩, hfinal⟩

end Settling

end Mesh

end Kapua
