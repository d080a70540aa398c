import Kapua.Node.TaggedCipher
import Kapua.Peers.System

/-!
# Two peers with the concrete cipher

Two nodes with the cipher of `TaggedCipher`, and scripts of what happens between them that can be
run. A script names the session key a pass generates by a byte. `fullHandshake` takes both records
to `connected` over ordered links.
-/

set_option autoImplicit false
set_option relaxedAutoImplicit false

namespace Kapua

/-- Two nodes at the addresses 1:1 and 2:2. -/
def taggedPeers : Peers where
  addr := fun side ↦
    match side with
    | .first => ⟨1, 1⟩
    | .second => ⟨2, 2⟩
  port := 0
  addr_ne := fun side ↦ by cases side <;> decide

/-- The nodes 5 and 6, which hold the keys named 1 and 2. -/
def taggedNetwork : Network (LoopState UInt8) Sent := fun side ↦
  match side with
  | .first => ⟨taggedStart 5 1, [], []⟩
  | .second => ⟨taggedStart 6 2, [], []⟩

theorem started_taggedNetwork : Started taggedNetwork where
  empty := fun side ↦ by cases side <;> exact empty_taggedStart _ _
  inbox := fun side ↦ by cases side <;> rfl
  log := fun side ↦ by cases side <;> rfl
  id_ne := fun side ↦ by cases side <;> decide

/-- A script of what happens between the two nodes. -/
abbrev Script := List (Action UInt8)

/-- The state a script leads to, if it can be played. -/
def Script.play (script : Script) (network : Network (LoopState UInt8) Sent) :
    Option (Network (LoopState UInt8) Sent) :=
  network.play (taggedPeers.program tagged) (script.map fun action ↦ action.map taggedDraw)

/-- The next datagram arrives. -/
def next (side : Side) (byte : UInt8) : Action UInt8 := .deliver side 0 false byte

/-- From the first broadcast to two connected records. -/
def fullHandshake : Script :=
  [.announce .first 0, next .second 0, next .first 0, next .second 0, next .second 8,
    next .first 7, next .first 0, next .second 0, next .second 0, next .first 0]

/-- A script that can be played is a run. Assumes: the network allows its actions, and the draws
may be made. -/
theorem Script.exists_run (script : Script) (network : Network (LoopState UInt8) Sent)
    (allows : Action Unit → Prop) (Good : Side → Draw UInt8 → Prop)
    (hallows : ∀ action ∈ script, allows action.shape)
    (hgood : ∀ side byte, Good side (taggedDraw byte))
    (check : Network (LoopState UInt8) Sent → Bool)
    (h : (script.play network).any check = true) :
    ∃ actions final, Run (Network.Allowed (taggedPeers.program tagged) allows Good) network actions
      final ∧ check final = true := by
  obtain ⟨final, hplay, hcheck⟩ := (Option.any_eq_true _ _).mp h
  refine ⟨_, final, Network.run_of_play hplay fun action haction ↦ ?_, hcheck⟩
  obtain ⟨original, horiginal, rfl⟩ := List.mem_map.mp haction
  rw [Action.shape_map]
  exact ⟨hallows original horiginal, Action.fitsDraws_map hgood original⟩

/-- The record of the node on `side` is in a state. -/
def recordIn (side : Side) (state : NodeState) (network : Network (LoopState UInt8) Sent) : Bool :=
  (taggedPeers.record side (network side).party).any fun node ↦ decide (node.state = state)

/-- A record is in one state only. -/
theorem not_inState_of_recordIn {side : Side} {state other : NodeState}
    {network : Network (LoopState UInt8) Sent} (h : recordIn side state network = true)
    (hne : state ≠ other) : ¬ taggedPeers.InState side (network side).party other := by
  rintro ⟨node, hnode, hother⟩
  obtain ⟨record, hrecord, hstate⟩ := (Option.any_eq_true _ _).mp h
  obtain rfl := Option.mem_unique hnode hrecord
  exact hne ((of_decide_eq_true hstate).symm.trans hother)

theorem exists_record_of_recordIn {side : Side} {state : NodeState}
    {network : Network (LoopState UInt8) Sent} (h : recordIn side state network = true) :
    ∃ node, taggedPeers.record side (network side).party = some node ∧ node.state = state := by
  obtain ⟨node, hnode, hstate⟩ := (Option.any_eq_true _ _).mp h
  exact ⟨node, hnode, of_decide_eq_true hstate⟩

/-- Key pairs of the concrete cipher can be used by the peer. -/
theorem serves_tagged (key : UInt8) : KeyPair.Serves tagged Eq ⟨some key, some key⟩ := by
  rintro publicKey encoded hkey hencoded
  obtain rfl : key = publicKey := Option.some.inj hkey
  obtain rfl : [0x30, key] = encoded := Option.some.inj hencoded
  refine ⟨key, key, rfl, rfl, rfl, by simp [tagged], fun padding context ↦ ?_⟩
  simp [tagged]

theorem serviceable_taggedNetwork :
    Serviceable tagged Eq fun side ↦ (taggedNetwork side).party.core.keys where
  serves := fun side ↦ by cases side <;> exact serves_tagged _
  seals := fun _ _ _ ↦ rfl

theorem roomy_taggedDraw (keys : KeyPair UInt8) (byte : UInt8) :
    (taggedDraw byte).Roomy tagged keys :=
  fun _ _ ↦ le_rfl

theorem opaque_taggedDraw (byte : UInt8) : Opaque (taggedDraw byte).iv := by
  show Opaque (Vector.replicate 32 1)
  unfold Opaque Unmarked Unversioned
  decide

end Kapua
