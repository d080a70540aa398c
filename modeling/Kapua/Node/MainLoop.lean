import Kapua.Foundation.Pacing
import Kapua.Node.LoopExceptions
import Kapua.Node.PacketFront

/-!
# The main loop and its clock

`UDPNetwork::_main_loop` whole: `_listen`, the turns of the loop, and `_shutdown`. A turn is a pass
of the receive cycle, a reading of the steady clock and, if discovery is enabled and the last
broadcast is as old as the interval, a broadcast. What arrives decides what a turn answers and
whether it throws, and has no say in when it broadcasts: the broadcasts are the openings of a gate
that is polled with the readings (`broadcasts_eq_fires`), whose laws are those of `Pacing`.

Times are nanoseconds, the ticks of `steady_clock`, and `duration_cast` rounds towards zero.
-/

set_option autoImplicit false
set_option relaxedAutoImplicit false

namespace Kapua

variable {PKey : Type}

/-! ### The socket -/

/-- What the system calls of `_listen` return. -/
structure SocketCalls where
  socket : ℤ
  bind : ℤ
  setsockopt : ℤ

/-- `_server_socket_fd`, with the descriptors that were opened and the arguments of `close`. The
program keeps neither list, and no definition reads them. -/
structure ServerSocket where
  fd : ℤ
  opened : List ℤ
  closed : List ℤ

namespace ServerSocket

/-- `UDPNetwork::_shutdown`. -/
def shutdown (s : ServerSocket) : ServerSocket :=
  if s.fd ≠ -1 then { s with fd := -1, closed := s.closed ++ [s.fd] } else s

/-- `UDPNetwork::_listen`. -/
def listen (s : ServerSocket) (calls : SocketCalls) : Bool × ServerSocket :=
  let s := { s with fd := calls.socket }
  if calls.socket = -1 then (false, s)
  else
    let s := { s with opened := s.opened ++ [calls.socket] }
    if calls.bind = -1 then (false, s.shutdown)
    else if calls.setsockopt = -1 then (false, s.shutdown)
    else (true, s)

/-- No socket is open, and every descriptor was closed once. -/
def Released (s : ServerSocket) : Prop := s.fd = -1 ∧ s.closed = s.opened

/-- Whatever `_listen` returns, `_shutdown` after it leaves no socket open. -/
theorem Released.shutdown_listen {s : ServerSocket} (hs : s.Released) (calls : SocketCalls) :
    (s.listen calls).2.shutdown.Released := by
  obtain ⟨-, hclosed⟩ := hs
  unfold listen
  by_cases hsocket : calls.socket = -1
  · simp [hsocket, shutdown, Released, hclosed]
  · by_cases hbind : calls.bind = -1
    · simp [hsocket, hbind, shutdown, Released, hclosed]
    · by_cases hsetsockopt : calls.setsockopt = -1
      · simp [hsocket, hbind, hsetsockopt, shutdown, Released, hclosed]
      · simp [hsocket, hbind, hsetsockopt, shutdown, Released, hclosed]

end ServerSocket

/-! ### The turns of the loop -/

/-- The options of the configuration that the loop reads. -/
structure DiscoveryOptions where
  localDiscoveryEnable : Bool
  localDiscoveryIntervalMs : Int32

/-- `std::chrono::hours`, in nanoseconds. -/
def hours (count : ℤ) : ℤ := count * 3600000000000

/-- `std::chrono::duration_cast<std::chrono::milliseconds>(…).count()`. -/
def milliseconds (duration : ℤ) : ℤ := duration.tdiv 1000000

/-- The variables of `_main_loop`. -/
structure MainLoopState (PKey : Type) where
  loop : LoopState PKey
  lastBroadcastTime : ℤ

/-- What a turn takes from outside the program. `now` is the reading of the steady clock. -/
structure Polled (PKey : Type) where
  arrival : Arrival
  draw : Draw PKey
  now : ℤ

/-- What a turn hands to `sendto`, with its reading of the clock: the answers of the receive cycle
and the broadcasts. -/
structure Turned where
  now : ℤ
  answers : List Sent
  broadcasts : List Sent

variable (ssl : OpenSSL PKey) (options : DiscoveryOptions) (port : UInt16)

/-- The body of the `while` loop. -/
def turn (s : MainLoopState PKey) (polled : Polled PKey) :
    Except String (MainLoopState PKey × Turned) :=
  match pass ssl s.loop polled.arrival polled.draw with
  | .error what => .error what
  | .ok (loop, answers) =>
    let duration := milliseconds (polled.now - s.lastBroadcastTime)
    if options.localDiscoveryEnable &&
        decide (options.localDiscoveryIntervalMs.toInt ≤ duration) then
      .ok (⟨loop, polled.now⟩, ⟨polled.now, answers, broadcast ssl loop.core port polled.draw⟩)
    else .ok (⟨loop, s.lastBroadcastTime⟩, ⟨polled.now, answers, []⟩)

/-- The turns of the `while` loop, until `_running` is false. -/
def turns : MainLoopState PKey → List (Polled PKey) →
    Except String (MainLoopState PKey × List Turned)
  | s, [] => .ok (s, [])
  | s, polled :: rest =>
    match turn ssl options port s polled with
    | .error what => .error what
    | .ok (next, turned) =>
      match turns next rest with
      | .error what => .error what
      | .ok (last, later) => .ok (last, turned :: later)

/-- The variables before the first turn: the last broadcast is put a day into the past. -/
def MainLoopState.enter (loop : LoopState PKey) (now : ℤ) : MainLoopState PKey :=
  ⟨loop, now - hours 24⟩

/-- What a run of `_main_loop` leaves and has sent. -/
structure Ended (PKey : Type) where
  loop : LoopState PKey
  socket : ServerSocket
  turned : List Turned

/-- `UDPNetwork::_main_loop`, for the turns it makes until `_running` is false. `now` is the reading
of the clock before the first turn. -/
def mainLoop (loop : LoopState PKey) (socket : ServerSocket) (calls : SocketCalls) (now : ℤ)
    (polled : List (Polled PKey)) : Except String (Ended PKey) :=
  match socket.listen calls with
  | (false, socket) => .ok ⟨loop, socket.shutdown, []⟩
  | (true, socket) =>
    match turns ssl options port (.enter loop now) polled with
    | .error what => .error what
    | .ok (last, turned) => .ok ⟨last.loop, socket.shutdown, turned⟩

variable {ssl options port} {s next last : MainLoopState PKey} {polled : Polled PKey}
  {inputs : List (Polled PKey)} {turned : Turned} {outputs : List Turned}

/-- What the broadcast of a turn depends on. -/
def BroadcastDue (options : DiscoveryOptions) (lastBroadcastTime now : ℤ) : Prop :=
  options.localDiscoveryEnable = true ∧
    options.localDiscoveryIntervalMs.toInt ≤ milliseconds (now - lastBroadcastTime)

instance (options : DiscoveryOptions) (lastBroadcastTime now : ℤ) :
    Decidable (BroadcastDue options lastBroadcastTime now) :=
  inferInstanceAs (Decidable (_ ∧ _))

/-- A turn that returns is a pass that returns, and a broadcast if one is due. -/
theorem turn_eq_ok_iff : turn ssl options port s polled = .ok (next, turned) ↔
    ∃ loop answers, pass ssl s.loop polled.arrival polled.draw = .ok (loop, answers) ∧
      next = ⟨loop, if BroadcastDue options s.lastBroadcastTime polled.now then polled.now
        else s.lastBroadcastTime⟩ ∧
      turned = ⟨polled.now, answers, if BroadcastDue options s.lastBroadcastTime polled.now then
        broadcast ssl loop.core port polled.draw else []⟩ := by
  unfold turn
  cases pass ssl s.loop polled.arrival polled.draw with
  | error what => simp
  | ok after =>
    obtain ⟨loop, answers⟩ := after
    by_cases hdue : BroadcastDue options s.lastBroadcastTime polled.now
    · have htest : (options.localDiscoveryEnable && decide (options.localDiscoveryIntervalMs.toInt ≤
          milliseconds (polled.now - s.lastBroadcastTime))) = true := by
        rw [Bool.and_eq_true, decide_eq_true_eq]
        exact hdue
      simp [hdue, htest, eq_comm]
    · have htest : (options.localDiscoveryEnable && decide (options.localDiscoveryIntervalMs.toInt ≤
          milliseconds (polled.now - s.lastBroadcastTime))) = false := by
        rw [← Bool.not_eq_true, Bool.and_eq_true, decide_eq_true_eq]
        exact hdue
      simp [hdue, htest, eq_comm]

/-- The turns that return, one by one. -/
theorem turns_cons_eq_ok_iff :
    turns ssl options port s (polled :: inputs) = .ok (last, outputs) ↔
      ∃ next turned later, turn ssl options port s polled = .ok (next, turned) ∧
        turns ssl options port next inputs = .ok (last, later) ∧ outputs = turned :: later := by
  constructor
  · intro h
    rw [turns] at h
    split at h
    · cases h
    · rename_i next turned hturn
      split at h
      · cases h
      · rename_i final later hrest
        obtain ⟨rfl, rfl⟩ := Prod.mk.inj (Except.ok.inj h)
        exact ⟨next, turned, later, hturn, hrest, rfl⟩
  · rintro ⟨next, turned, later, hturn, hrest, rfl⟩
    rw [turns, hturn]
    dsimp only
    rw [hrest]

/-- The passes of the turns are those of the receive loop. -/
theorem runLoop_of_turns (h : turns ssl options port s inputs = .ok (last, outputs)) :
    runLoop ssl s.loop (inputs.map fun polled ↦ (polled.arrival, polled.draw)) = .ok last.loop := by
  induction inputs generalizing s outputs with
  | nil =>
    obtain ⟨rfl, -⟩ := Prod.mk.inj (Except.ok.inj h)
    rfl
  | cons polled inputs ih =>
    obtain ⟨next, turned, later, hturn, hrest, -⟩ := turns_cons_eq_ok_iff.mp h
    obtain ⟨loop, answers, hpass, rfl, -⟩ := turn_eq_ok_iff.mp hturn
    rw [List.map_cons, runLoop, hpass]
    exact ih hrest

/-- Each turn keeps its reading of the clock. -/
theorem now_of_turns (h : turns ssl options port s inputs = .ok (last, outputs)) :
    outputs.map Turned.now = inputs.map Polled.now := by
  induction inputs generalizing s outputs with
  | nil =>
    obtain ⟨-, rfl⟩ := Prod.mk.inj (Except.ok.inj h)
    rfl
  | cons polled inputs ih =>
    obtain ⟨next, turned, later, hturn, hrest, rfl⟩ := turns_cons_eq_ok_iff.mp h
    obtain ⟨loop, answers, -, -, rfl⟩ := turn_eq_ok_iff.mp hturn
    rw [List.map_cons, List.map_cons, ih hrest]

/-! ### The broadcasts -/

/-- The interval in nanoseconds, which is none where the option is not positive. -/
def DiscoveryOptions.interval (options : DiscoveryOptions) : ℤ :=
  max options.localDiscoveryIntervalMs.toInt 0 * 1000000

theorem DiscoveryOptions.interval_nonneg (options : DiscoveryOptions) : 0 ≤ options.interval :=
  Int.mul_nonneg (le_max_right _ _) (by decide)

/-- A broadcast is due once the interval has passed since the last one. Assumes: discovery is
enabled and the clock has not gone back. -/
theorem broadcastDue_iff (henable : options.localDiscoveryEnable = true)
    {lastBroadcastTime now : ℤ} (hclock : lastBroadcastTime ≤ now) :
    BroadcastDue options lastBroadcastTime now ↔
      options.interval ≤ now - lastBroadcastTime := by
  have hduration : 0 ≤ now - lastBroadcastTime := Int.sub_nonneg.mpr hclock
  unfold BroadcastDue milliseconds DiscoveryOptions.interval
  rw [Int.tdiv_eq_ediv_of_nonneg hduration, Int.le_ediv_iff_mul_le (by decide)]
  generalize options.localDiscoveryIntervalMs.toInt = ms
  constructor
  · rintro ⟨-, hle⟩
    omega
  · intro hle
    exact ⟨henable, by omega⟩

/-- `_broadcast` sends one datagram. -/
theorem broadcast_eq (core : Core PKey) (draw : Draw PKey) : broadcast ssl core port draw =
    [⟨⟨port, 0xFFFFFFFF⟩, Packet.datagram
        (Packet.construct draw.pkt .discovery core.myId kapuaIdBroadcast),
      Packet.construct draw.pkt .discovery core.myId kapuaIdBroadcast, none⟩] := rfl

/-- The readings at which the turns broadcast are those at which the gate of the interval opens.
Assumes: discovery is enabled and the clock does not go back. -/
theorem broadcasts_eq_fires (henable : options.localDiscoveryEnable = true)
    (h : turns ssl options port s inputs = .ok (last, outputs))
    (hclock : (s.lastBroadcastTime :: inputs.map Polled.now).Pairwise (· ≤ ·)) :
    (outputs.filter fun turned ↦ !turned.broadcasts.isEmpty).map Turned.now =
      Pacing.fires options.interval s.lastBroadcastTime (inputs.map Polled.now) := by
  induction inputs generalizing s outputs with
  | nil =>
    obtain ⟨-, rfl⟩ := Prod.mk.inj (Except.ok.inj h)
    rfl
  | cons polled inputs ih =>
    obtain ⟨next, turned, later, hturn, hrest, rfl⟩ := turns_cons_eq_ok_iff.mp h
    obtain ⟨loop, answers, -, rfl, rfl⟩ := turn_eq_ok_iff.mp hturn
    rw [List.map_cons] at hclock ⊢
    obtain ⟨hlast, hlater⟩ := List.pairwise_cons.mp hclock
    have hdue := broadcastDue_iff henable (hlast polled.now List.mem_cons_self)
    rw [Pacing.fires]
    by_cases hfires : options.interval ≤ polled.now - s.lastBroadcastTime
    · rw [if_pos (hdue.mpr hfires)] at hrest ⊢
      rw [if_pos hfires, List.filter_cons_of_pos (by simp [broadcast_eq]), List.map_cons]
      exact congrArg _ (ih hrest hlater)
    · rw [if_neg (hdue.not.mpr hfires)] at hrest ⊢
      rw [if_neg hfires, List.filter_cons_of_neg (by simp)]
      have hkept : (s.lastBroadcastTime :: inputs.map Polled.now).Pairwise (· ≤ ·) →
          (later.filter fun turned ↦ !turned.broadcasts.isEmpty).map Turned.now =
            Pacing.fires options.interval s.lastBroadcastTime (inputs.map Polled.now) :=
        ih (s := ⟨loop, s.lastBroadcastTime⟩) hrest
      refine hkept (List.pairwise_cons.mpr ⟨fun time htime ↦ ?_, ?_⟩)
      · exact hlast time (List.mem_cons_of_mem polled.now htime)
      · exact (List.pairwise_cons.mp hlater).2

/-- What a turn broadcasts is what `_broadcast` sends with the own id of the start. -/
theorem broadcasts_of_turns (h : turns ssl options port s inputs = .ok (last, outputs)) :
    ∀ turned ∈ outputs, turned.broadcasts = [] ∨ ∃ core draw, turned.broadcasts =
      broadcast ssl core port draw ∧ core.myId = s.loop.core.myId := by
  induction inputs generalizing s outputs with
  | nil =>
    obtain ⟨-, rfl⟩ := Prod.mk.inj (Except.ok.inj h)
    intro turned hmem
    cases hmem
  | cons polled inputs ih =>
    obtain ⟨next, turned, later, hturn, hrest, rfl⟩ := turns_cons_eq_ok_iff.mp h
    obtain ⟨loop, answers, hpass, rfl, rfl⟩ := turn_eq_ok_iff.mp hturn
    have hid : loop.core.myId = s.loop.core.myId := (passing_of_pass hpass).myId_eq
    refine List.forall_mem_cons.mpr ⟨?_, fun other hother ↦ ?_⟩
    · dsimp only
      split_ifs
      · exact Or.inr ⟨loop.core, polled.draw, rfl, hid⟩
      · exact Or.inl rfl
    · obtain hnone | ⟨core, draw, hbroadcast, hcore⟩ := ih hrest other hother
      · exact Or.inl hnone
      · exact Or.inr ⟨core, draw, hbroadcast, hcore.trans hid⟩

/-- `_receive` ignores a broadcast of a node with the own id, whatever the node table holds. -/
theorem receive_ignores_own_broadcast {core : Core PKey} {draw : Draw PKey} {out : Sent}
    (hout : out ∈ broadcast ssl core port draw) {loop : LoopState PKey}
    (hid : loop.core.myId = core.myId) (addr : Sockaddr) (draw' : Draw PKey) :
    (receive ssl loop (.datagram addr out.bytes) draw').accepted = false := by
  have hheader := Packet.isHeader_construct draw.pkt .discovery core.myId kapuaIdBroadcast
  rw [broadcast_eq, List.mem_singleton] at hout
  subst hout
  obtain ⟨hsize, hfront⟩ := sameFront_datagram loop addr draw'
    (by rw [hheader.length]; decide :
      kapuaHeaderSize + Packet.length (Packet.construct draw.pkt .discovery core.myId
        kapuaIdBroadcast) ≤ kapuaMaxPacketSize)
  have hle : kapuaHeaderSize ≤ kapuaHeaderSize + Packet.length
      (Packet.construct draw.pkt .discovery core.myId kapuaIdBroadcast) := Nat.le_add_right _ _
  have hmagic := (hfront.checkMagicValid_eq hle).trans hheader.magic
  rw [receive_accepted (recvfrom_datagram loop addr _ draw'), screened,
    screen_plain ssl _ (Or.inl hmagic), hsize, hfront.passesHeader_eq hle]
  simp [passesHeader, hheader.fromId, hid]

/-- In every period there is at most one broadcast for each interval in it, and one more. Assumes:
discovery is enabled and the clock does not go back. -/
theorem countP_broadcasts_le (henable : options.localDiscoveryEnable = true)
    (h : turns ssl options port s inputs = .ok (last, outputs))
    (hclock : (s.lastBroadcastTime :: inputs.map Polled.now).Pairwise (· ≤ ·)) {start finish : ℤ}
    (horder : start ≤ finish) :
    (outputs.countP fun turned ↦ start ≤ turned.now ∧ turned.now ≤ finish ∧
      turned.broadcasts ≠ []) * options.interval ≤ finish - start + options.interval := by
  -- the broadcasts in the period are openings of the gate, at least an interval apart
  have hseparated : Pacing.Separated options.interval
      (((outputs.filter fun turned ↦ !turned.broadcasts.isEmpty).map Turned.now).filter
        fun now ↦ start ≤ now ∧ now ≤ finish) := by
    rw [broadcasts_eq_fires henable h hclock]
    exact (List.pairwise_cons.mp (Pacing.separated_fires options.interval_nonneg)).2.filter _
  have hfew := hseparated.length_nsmul_le options.interval_nonneg horder fun now hnow ↦ by
    simpa using (List.mem_filter.mp hnow).2
  have hcount : (outputs.countP fun turned ↦ start ≤ turned.now ∧ turned.now ≤ finish ∧
      turned.broadcasts ≠ []) =
      (((outputs.filter fun turned ↦ !turned.broadcasts.isEmpty).map Turned.now).filter
        fun now ↦ start ≤ now ∧ now ≤ finish).length := by
    rw [List.filter_map, List.length_map, List.filter_filter, List.countP_eq_length_filter]
    refine congrArg List.length (List.filter_congr fun turned _ ↦ ?_)
    rw [Bool.eq_iff_iff]
    simp [and_assoc]
  rw [hcount, ← nsmul_eq_mul]
  exact hfew

/-- At every turn the last broadcast is younger than the interval. Assumes: discovery is enabled and
the clock does not go back. -/
theorem exists_recent_broadcast (henable : options.localDiscoveryEnable = true)
    (h : turns ssl options port s inputs = .ok (last, outputs))
    (hclock : (s.lastBroadcastTime :: inputs.map Polled.now).Pairwise (· ≤ ·)) {turned : Turned}
    (hturned : turned ∈ outputs) : turned.now - s.lastBroadcastTime < options.interval ∨
      ∃ fired ∈ outputs, fired.broadcasts ≠ [] ∧ fired.now ≤ turned.now ∧
        (fired.now = turned.now ∨ turned.now - fired.now < options.interval) := by
  have hnow : turned.now ∈ inputs.map Polled.now := by
    rw [← now_of_turns h]
    exact List.mem_map_of_mem hturned
  have hpaced : turned.now - s.lastBroadcastTime < options.interval ∨
      ∃ fired ∈ Pacing.fires options.interval s.lastBroadcastTime (inputs.map Polled.now),
        fired ≤ turned.now ∧ (fired = turned.now ∨ turned.now - fired < options.interval) :=
    Pacing.exists_fire hclock hnow
  obtain hearly | ⟨time, hfired, hbefore⟩ := hpaced
  · exact Or.inl hearly
  · have hsent : time ∈ (outputs.filter fun turned ↦ !turned.broadcasts.isEmpty).map Turned.now :=
      broadcasts_eq_fires henable h hclock ▸ hfired
    obtain ⟨fired, hmem, rfl⟩ := List.mem_map.mp hsent
    obtain ⟨houtput, hnonempty⟩ := List.mem_filter.mp hmem
    exact Or.inr ⟨fired, houtput, by simpa using hnonempty, hbefore⟩

/-- Discovery is paced. However datagrams arrive, a turn broadcasts at most one packet, a plaintext
`Discovery` with the own id for the broadcast address, which the node itself ignores when it comes
back. In every period there is at most one broadcast for each interval in it, and one more. At every
turn the last broadcast is younger than the interval, the start counting as a broadcast of the day
before. Assumes: discovery is enabled and the steady clock does not go back. -/
theorem broadcasts_paced {loop : LoopState PKey} {began : ℤ}
    (henable : options.localDiscoveryEnable = true)
    (h : turns ssl options port (.enter loop began) inputs = .ok (last, outputs))
    (hclock : (began :: inputs.map Polled.now).Pairwise (· ≤ ·)) :
    (∀ turned ∈ outputs, turned.broadcasts.length ≤ 1 ∧ ∀ out ∈ turned.broadcasts,
      out.addr = ⟨port, 0xFFFFFFFF⟩ ∧ out.bytes = out.packet.datagram ∧
      out.packet.IsHeader .discovery loop.core.myId 0 ∧
      ∀ (own : LoopState PKey) addr draw, own.core.myId = loop.core.myId →
        (receive ssl own (.datagram addr out.bytes) draw).accepted = false) ∧
    (∀ start finish, start ≤ finish →
      (outputs.countP fun turned ↦ start ≤ turned.now ∧ turned.now ≤ finish ∧
        turned.broadcasts ≠ []) * options.interval ≤ finish - start + options.interval) ∧
    ∀ turned ∈ outputs, turned.now - began < options.interval - hours 24 ∨
      ∃ fired ∈ outputs, fired.broadcasts ≠ [] ∧ fired.now ≤ turned.now ∧
        (fired.now = turned.now ∨ turned.now - fired.now < options.interval) := by
  have hday : ((MainLoopState.enter loop began).lastBroadcastTime ::
      inputs.map Polled.now).Pairwise (· ≤ ·) := by
    obtain ⟨hbegan, hrest⟩ := List.pairwise_cons.mp hclock
    refine List.pairwise_cons.mpr ⟨fun time htime ↦ ?_, hrest⟩
    exact (Int.sub_le_self began (by decide)).trans (hbegan time htime)
  refine ⟨fun turned hturned ↦ ?_,
    fun start finish horder ↦ countP_broadcasts_le henable h hday horder,
    fun turned hturned ↦ ?_⟩
  · obtain hnone | ⟨core, draw, hbroadcast, hid⟩ := broadcasts_of_turns h turned hturned
    · simp [hnone]
    · rw [hbroadcast]
      refine ⟨le_refl 1, fun out hout ↦ ⟨?_, ?_, ?_, fun own addr draw' hown ↦ ?_⟩⟩
      · rw [List.mem_singleton.mp hout]
      · rw [List.mem_singleton.mp hout]
      · rw [List.mem_singleton.mp hout]
        have hheader := Packet.isHeader_construct draw.pkt .discovery core.myId kapuaIdBroadcast
        exact ⟨hheader.magic, hheader.version, hheader.type, hheader.fromId.trans hid,
          hheader.length⟩
      · exact receive_ignores_own_broadcast hout (hown.trans hid.symm) addr draw'
  · obtain hearly | hrecent := exists_recent_broadcast henable h hday hturned
    · have hbefore : turned.now - (began - hours 24) < options.interval := hearly
      exact Or.inl (by omega)
    · exact Or.inr hrecent

/-- A node that broadcasts every five seconds, polled at once, after six seconds and after seven. -/
def pacedPolls : List (Polled UInt8) :=
  [⟨.nothing, taggedDraw 9, 0⟩,
    ⟨.datagram ⟨1, 1⟩ (taggedDatagram .publicKeyRequest 7 []), taggedDraw 9, 6000000000⟩,
    ⟨.nothing, taggedDraw 9, 7000000000⟩]

/-- `broadcasts_paced` for two broadcasts in seven seconds. -/
theorem broadcasts_paced_polls : ∃ last outputs,
    turns tagged ⟨true, 5000⟩ 11860 (.enter (taggedStart 5 1) 0) pacedPolls =
      .ok (last, outputs) ∧
    (outputs.countP fun turned ↦ 0 ≤ turned.now ∧ turned.now ≤ 7000000000 ∧
      turned.broadcasts ≠ []) ≤ 2 := by
  obtain ⟨⟨last, outputs⟩, hturns⟩ : ∃ result, turns tagged ⟨true, 5000⟩ 11860
      (.enter (taggedStart 5 1) 0) pacedPolls = .ok result := exists_of_isOk (by decide +kernel)
  obtain ⟨-, hfew, -⟩ := broadcasts_paced rfl hturns (by decide)
  have hcount := hfew 0 7000000000 (by decide)
  have hinterval : (⟨true, 5000⟩ : DiscoveryOptions).interval = 5000000000 := by decide
  rw [hinterval] at hcount
  exact ⟨last, outputs, hturns, by omega⟩

/-! ### The whole loop -/

variable {loop : LoopState PKey} {socket : ServerSocket} {calls : SocketCalls} {began : ℤ}
  {ended : Ended PKey}

/-- A run of `_main_loop` that returns leaves no socket open. Assumes: none was open before. -/
theorem released_of_mainLoop (hsocket : socket.Released)
    (h : mainLoop ssl options port loop socket calls began inputs = .ok ended) :
    ended.socket.Released := by
  have hreleased := hsocket.shutdown_listen calls
  unfold mainLoop at h
  split at h
  · rename_i socket' hlisten
    obtain rfl := Except.ok.inj h
    rwa [hlisten] at hreleased
  · rename_i socket' hlisten
    split at h
    · cases h
    · obtain rfl := Except.ok.inj h
      rwa [hlisten] at hreleased

/-- A run of `_main_loop` that returns leaves a reachable node table. Assumes: it was empty
before. -/
theorem reachable_of_mainLoop (hempty : loop.core.Empty)
    (h : mainLoop ssl options port loop socket calls began inputs = .ok ended) :
    Reachable ssl ended.loop := by
  unfold mainLoop at h
  split at h
  · obtain rfl := Except.ok.inj h
    exact ⟨loop, [], hempty, rfl⟩
  · split at h
    · cases h
    · rename_i last outputs hturns
      obtain rfl := Except.ok.inj h
      exact ⟨loop, _, hempty, runLoop_of_turns hturns⟩

end Kapua
