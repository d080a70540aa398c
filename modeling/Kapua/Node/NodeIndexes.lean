import Kapua.Node.SenderFrame

/-!
# The two indexes of the node table

`_nodes` finds the records by id and `_nodes_by_addr` by address. Both are filled by `add_node`,
which the loop calls for an address without a record, but with the id that the packet carries.
`insert` keeps the entry of an id that is there already, and then the new record is in the address
index only. `indexes_agree_iff` states that this is the one way in which the indexes come apart, and
that nothing in the loop brings them together again.
-/

set_option autoImplicit false
set_option relaxedAutoImplicit false

namespace Kapua

variable {PKey : Type} {ssl : OpenSSL PKey}

namespace Core

/-- Each index finds the records that the other one finds, under the id and the address they
carry. -/
def IndexesAgree (core : Core PKey) : Prop :=
  (∀ addr ptr, core.findNode addr = some ptr →
    core.findNodeById (core.heap ptr).id = some ptr) ∧
  ∀ id ptr, core.findNodeById id = some ptr → core.findNode (core.heap ptr).addr = some ptr

theorem Empty.indexesAgree {core : Core PKey} (h : core.Empty) : core.IndexesAgree :=
  ⟨fun addr ptr hfind ↦ by simp [findNode, h.2.2] at hfind,
    fun id ptr hfind ↦ by simp [findNodeById, h.2.1] at hfind⟩

/-- The address index finds every record that the id index finds. -/
theorem WellFormed.find_of_findNodeById {core : Core PKey} (hcore : core.WellFormed) {id : UInt64}
    {ptr : NodePtr} (h : core.findNodeById id = some ptr) :
    core.findNode (core.heap ptr).addr = some ptr :=
  hcore.find_addr (hcore.lt_of_nodes h)

/-- The indexes depend on the id and the address of a record only. -/
theorem indexesAgree_setNode {core : Core PKey} {ptr : NodePtr} {node : Node PKey}
    (hid : node.id = (core.heap ptr).id) (haddr : node.addr = (core.heap ptr).addr) :
    (core.setNode ptr node).IndexesAgree ↔ core.IndexesAgree := by
  simp only [IndexesAgree, setNode_findNode, setNode_findNodeById, setNode_heap_congr hid,
    setNode_heap_congr haddr]

/-- A record for an address that has none leaves the indexes in agreement exactly when its id has no
record either. Assumes: a well-formed table. -/
theorem WellFormed.indexesAgree_addNode {core : Core PKey} (hcore : core.WellFormed)
    {addr : Sockaddr} (hfresh : core.findNode addr = none) (storage : Node PKey) (id : UInt64) :
    (core.addNode storage id addr).1.IndexesAgree ↔
      core.IndexesAgree ∧ core.findNodeById id = none := by
  have hself : (core.addNode storage id addr).1.findNode addr = some core.next := by
    rw [addNode_findNode hfresh, if_pos rfl]
  have hkept : ∀ {other ptr}, core.findNode other = some ptr →
      (core.addNode storage id addr).1.findNode other = some ptr ∧
        (core.addNode storage id addr).1.heap ptr = core.heap ptr := by
    intro other ptr hother
    have hne : other ≠ addr := by
      rintro rfl
      rw [hfresh] at hother
      cases hother
    rw [addNode_findNode hfresh, if_neg hne]
    exact ⟨hother, addNode_heap_of_ne _ _ (hcore.addr_of_find hother).1.ne⟩
  constructor
  · rintro ⟨hagree, -⟩
    refine ⟨⟨fun other ptr hother ↦ ?_, fun other ptr ↦ hcore.find_of_findNodeById⟩, ?_⟩
    · obtain ⟨hfind, hheap⟩ := hkept hother
      have hid := hagree other ptr hfind
      rw [hheap, addNode_findNodeById] at hid
      split_ifs at hid
      · exact absurd (Option.some.inj hid).symm (hcore.addr_of_find hother).1.ne
      · exact hid
    · -- the id of the new record must not lead to an older one
      have hid := hagree addr core.next hself
      rw [addNode_heap_next, addNode_findNodeById] at hid
      split_ifs at hid with hnone
      · exact hnone.2
      · exact absurd (hcore.lt_of_nodes hid) (lt_irrefl _)
  · rintro ⟨⟨hagree, -⟩, hnone⟩
    have hadded := hcore.addNode hfresh storage id
    refine ⟨fun other ptr hother ↦ ?_, fun other ptr ↦ hadded.find_of_findNodeById⟩
    rw [addNode_findNodeById]
    rw [addNode_findNode hfresh] at hother
    split_ifs at hother with haddr
    · obtain rfl := Option.some.inj hother
      rw [addNode_heap_next]
      exact if_pos ⟨rfl, hnone⟩
    · have hid := hagree other ptr hother
      rw [(hkept hother).2, if_neg, hid]
      rintro ⟨heq, -⟩
      rw [heq, hnone] at hid
      cases hid

end Core

/-- A datagram from an address without a record that passes the header checks and carries an id
that has a record. -/
def ReusesId (s : LoopState PKey) (input : Arrival × Draw PKey) : Prop :=
  ∃ arrived, recvfrom s input.1 input.2 = some arrived ∧
    s.core.findNode arrived.fromAddr = none ∧
    passesHeader s.core.myId arrived.pkt arrived.size = true ∧
    s.core.findNodeById arrived.pkt.fromId ≠ none

/-- The checks on a packet from an address without a record are the header checks. -/
theorem screened_of_unknown (ssl : OpenSSL PKey) {s : LoopState PKey} {arrived : Arrived}
    (hfind : s.core.findNode arrived.fromAddr = none) : screened ssl s arrived =
      ⟨passesHeader s.core.myId arrived.pkt arrived.size, arrived.pkt, none⟩ := by
  refine screen_plain ssl s.core.myId (Or.inr fun record hrecord ↦ ?_) arrived.size
  rw [Core.peer_of_not_find hfind] at hrecord
  cases hrecord

/-- A pass leaves the indexes in agreement exactly when they were, and the datagram does not reuse
an id. -/
theorem Passing.indexesAgree_iff {s after : LoopState PKey} {arrival : Arrival} {draw : Draw PKey}
    {sent : List Sent} (h : Passing ssl s arrival draw after sent) (hs : s.core.WellFormed) :
    after.core.IndexesAgree ↔ s.core.IndexesAgree ∧ ¬ ReusesId s (arrival, draw) := by
  have hcreates : ∀ {arrived : Arrived}, recvfrom s arrival draw = some arrived →
      (ReusesId s (arrival, draw) ↔ s.core.findNode arrived.fromAddr = none ∧
        passesHeader s.core.myId arrived.pkt arrived.size = true ∧
        s.core.findNodeById arrived.pkt.fromId ≠ none) := by
    intro arrived hrecv
    constructor
    · rintro ⟨arrived', hrecv', hreuses⟩
      obtain rfl := Option.some.inj (hrecv.symm.trans hrecv')
      exact hreuses
    · exact fun hreuses ↦ ⟨arrived, hrecv, hreuses⟩
  cases h with
  | idle hrecv =>
    refine (and_iff_left ?_).symm
    rintro ⟨arrived, hrecv', -⟩
    rw [hrecv] at hrecv'
    cases hrecv'
  | rejected hrecv hscreen =>
    refine (and_iff_left ?_).symm
    rw [hcreates hrecv]
    rintro ⟨hfind, hpasses, -⟩
    rw [screened_of_unknown ssl hfind, hpasses] at hscreen
    cases hscreen
  | known hrecv hscreen hfind hhandled =>
    have hfound : ¬ ReusesId s (arrival, draw) := by
      rw [hcreates hrecv, hfind]
      rintro ⟨hnone, -⟩
      cases hnone
    rw [Core.indexesAgree_setNode hhandled.id hhandled.addr]
    exact (and_iff_left hfound).symm
  | new hrecv hscreen hfind hcore hhandled =>
    subst hcore
    rw [screened_of_unknown ssl hfind] at hscreen hhandled ⊢
    rw [Core.indexesAgree_setNode, hs.indexesAgree_addNode hfind, hcreates hrecv]
    · refine and_congr_right fun _ ↦ ?_
      simp only [hfind, true_and, ne_eq, not_and, not_not]
      exact ⟨fun hnone _ ↦ hnone, fun hnone ↦ hnone hscreen⟩
    · rw [hhandled.id, Core.addNode_heap_next]
      rfl
    · rw [hhandled.addr, Core.addNode_heap_next]
      rfl

/-- After a run from an empty node table the indexes agree exactly when no datagram of the run came
from an address without a record and carried the id of another one. Assumes: the passes return and
are in bounds. -/
theorem indexes_agree_iff {start final : LoopState PKey} (hempty : start.core.Empty)
    {inputs : List (Arrival × Draw PKey)} (hrun : Run (BoundedPass ssl) start inputs final) :
    final.core.IndexesAgree ↔
      Run (fun s input t ↦ BoundedPass ssl s input t ∧ ¬ ReusesId s input) start inputs final := by
  have hiff := hrun.property_iff (fun s ↦ s.core.WellFormed)
    (fun s ↦ s.core.IndexesAgree) (fun s input ↦ ¬ ReusesId s input)
    (fun hs ⟨⟨_, hpass⟩, _⟩ ↦ (passing_of_pass hpass).wellFormed hs)
    (fun hs ⟨⟨_, hpass⟩, _⟩ ↦ (passing_of_pass hpass).indexesAgree_iff hs) hempty.wellFormed
  rw [hiff]
  exact and_iff_right hempty.indexesAgree

/-- The first sender of a run cannot reuse an id. -/
theorem indexes_agree_first : ∃ final,
    Run (BoundedPass tagged) (taggedStart 5 1)
      [(.datagram ⟨1, 1⟩ (taggedDatagram .ping 7 []), taggedDraw 9)] final ∧
    final.core.IndexesAgree := by
  obtain ⟨⟨final, sent⟩, hpass⟩ : ∃ result, pass tagged (taggedStart 5 1)
      (.datagram ⟨1, 1⟩ (taggedDatagram .ping 7 [])) (taggedDraw 9) = .ok result :=
    exists_of_isOk (by decide +kernel)
  have hbounded : BoundedPass tagged (taggedStart 5 1)
      (.datagram ⟨1, 1⟩ (taggedDatagram .ping 7 []), taggedDraw 9) final :=
    ⟨⟨sent, hpass⟩, inBounds_of_unknown ((empty_taggedStart 5 1).2.2 _) _ _⟩
  have hrun : Run (BoundedPass tagged) (taggedStart 5 1)
      [(.datagram ⟨1, 1⟩ (taggedDatagram .ping 7 []), taggedDraw 9)] final :=
    .cons hbounded (.nil final)
  refine ⟨final, hrun, (indexes_agree_iff (empty_taggedStart 5 1) hrun).mpr ?_⟩
  refine .cons ⟨hbounded, ?_⟩ (.nil final)
  rintro ⟨arrived, -, -, -, hreused⟩
  exact hreused ((empty_taggedStart 5 1).2.1 _)

/-- Two senders with one id: the record of the second is in the address index only. -/
theorem indexes_disagree : ∃ s, Reachable tagged s ∧ ¬ s.core.IndexesAgree := by
  obtain ⟨s, hreach, hcheck⟩ := exists_reachable tagged (empty_taggedStart 5 1)
    [(.datagram ⟨1, 1⟩ (taggedDatagram .ping 7 []), taggedDraw 9),
      (.datagram ⟨2, 2⟩ (taggedDatagram .ping 7 []), taggedDraw 9)]
    (fun s ↦ s.core.findNode ⟨2, 2⟩ == some 1 && (s.core.heap 1).id == 7 &&
      s.core.findNodeById 7 == some 0) (by decide +kernel)
  simp only [Bool.and_eq_true, beq_iff_eq] at hcheck
  obtain ⟨⟨hfind, hid⟩, hfirst⟩ := hcheck
  refine ⟨s, hreach, fun hagree ↦ ?_⟩
  have hsecond := hagree.1 ⟨2, 2⟩ 1 hfind
  rw [hid, hfirst] at hsecond
  exact absurd hsecond (by decide)

end Kapua
