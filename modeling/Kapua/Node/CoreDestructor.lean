import Kapua.Node.SenderFrame
import Mathlib.Data.Finset.Card

/-!
# What the destructor of the core frees

`~Core` deletes the record of every entry of `_nodes`, in whatever order the map lists them. The map
keeps the first record of each id (`FirstOfId`), and this is what decides about the memory. No
record is freed twice, and of the records that were created those are leaked that another one with
their id came before (`destructor_frees_first`).
-/

set_option autoImplicit false
set_option relaxedAutoImplicit false

namespace Kapua

variable {PKey : Type} {ssl : OpenSSL PKey}

namespace Core

/-- A listing of the entries of `_nodes`: the order in which an iteration meets them. -/
structure Lists (core : Core PKey) (entries : List (UInt64 × NodePtr)) : Prop where
  nodup : (entries.map Prod.fst).Nodup
  mem_iff : ∀ id ptr, (id, ptr) ∈ entries ↔ core.findNodeById id = some ptr

/-- `Core::~Core`: the pointers that are deleted, in the order of the iteration. -/
def destroy (entries : List (UInt64 × NodePtr)) : List NodePtr := entries.map Prod.snd

/-- The id index leads to records with the id that were created, and for each record that was
created to one that is as old or older. -/
structure FirstOfId (core : Core PKey) : Prop where
  id_of_find : ∀ {id ptr}, core.findNodeById id = some ptr →
    ptr < core.next ∧ (core.heap ptr).id = id
  exists_first : ∀ {ptr}, ptr < core.next →
    ∃ first ≤ ptr, core.findNodeById (core.heap ptr).id = some first

theorem Empty.firstOfId {core : Core PKey} (h : core.Empty) : core.FirstOfId where
  id_of_find := fun hfind ↦ by simp [findNodeById, h.2.1] at hfind
  exists_first := fun hlt ↦ by simp [h.1] at hlt

/-- An assignment that keeps the id of a record keeps the index. -/
theorem FirstOfId.setNode {core : Core PKey} (hcore : core.FirstOfId) {ptr : NodePtr}
    {node : Node PKey} (hid : node.id = (core.heap ptr).id) :
    (core.setNode ptr node).FirstOfId where
  id_of_find := fun hfind ↦ by
    rw [setNode_heap_congr hid, setNode_next]
    exact hcore.id_of_find hfind
  exists_first := fun hlt ↦ by
    rw [setNode_heap_congr hid]
    exact hcore.exists_first hlt

/-- `add_node` keeps the index, whatever id and address it is called with. -/
theorem FirstOfId.addNode {core : Core PKey} (hcore : core.FirstOfId) (storage : Node PKey)
    (id : UInt64) (addr : Sockaddr) : (core.addNode storage id addr).1.FirstOfId where
  id_of_find := fun {other ptr} hfind ↦ by
    rw [addNode_findNodeById] at hfind
    split_ifs at hfind with hnew
    · obtain rfl := Option.some.inj hfind
      exact ⟨Nat.lt_succ_self _, by simp [Node.construct, hnew.1]⟩
    · obtain ⟨hlt, hid⟩ := hcore.id_of_find hfind
      exact ⟨Nat.lt_succ_of_lt hlt, by rw [addNode_heap_of_ne _ _ hlt.ne, hid]⟩
  exists_first := fun {ptr} hlt ↦ by
    rw [addNode_findNodeById]
    obtain hold | rfl : ptr < core.next ∨ ptr = core.next := Nat.lt_succ_iff_lt_or_eq.mp hlt
    · obtain ⟨first, hle, hfind⟩ := hcore.exists_first hold
      rw [addNode_heap_of_ne _ _ hold.ne, if_neg, hfind]
      · exact ⟨first, hle, rfl⟩
      · rintro ⟨heq, hnone⟩
        rw [heq, hnone] at hfind
        cases hfind
    · have hid : ((core.addNode storage id addr).1.heap core.next).id = id := by
        simp [Node.construct]
      rw [hid]
      cases hfind : core.findNodeById id with
      | none => exact ⟨core.next, le_refl _, if_pos ⟨rfl, rfl⟩⟩
      | some first =>
        refine ⟨first, (hcore.id_of_find hfind).1.le, ?_⟩
        rw [if_neg (by simp)]

variable {core : Core PKey} {entries : List (UInt64 × NodePtr)}

/-- The index leads to the first record with an id. -/
theorem FirstOfId.find_iff (hcore : core.FirstOfId) {id : UInt64} {ptr : NodePtr} :
    core.findNodeById id = some ptr ↔
      ptr < core.next ∧ (core.heap ptr).id = id ∧
        ∀ earlier < ptr, (core.heap earlier).id ≠ id := by
  constructor
  · intro hfind
    obtain ⟨hlt, hid⟩ := hcore.id_of_find hfind
    refine ⟨hlt, hid, fun earlier hearlier heq ↦ ?_⟩
    obtain ⟨first, hle, hfirst⟩ := hcore.exists_first (hearlier.trans hlt)
    rw [heq, hfind] at hfirst
    obtain rfl := Option.some.inj hfirst
    exact absurd hearlier (not_lt.mpr hle)
  · rintro ⟨hlt, rfl, hnone⟩
    obtain ⟨first, hle, hfirst⟩ := hcore.exists_first hlt
    obtain hlater | rfl := Nat.lt_or_eq_of_le hle
    · exact absurd (hcore.id_of_find hfirst).2 (hnone first hlater)
    · exact hfirst

/-- A listing lists no pointer twice: the entries of two ids are records with two ids. -/
theorem FirstOfId.nodup_destroy (hcore : core.FirstOfId) (hentries : core.Lists entries) :
    (destroy entries).Nodup := by
  refine List.Nodup.map_on ?_ (List.Nodup.of_map Prod.fst hentries.nodup)
  rintro ⟨id, ptr⟩ hfirst ⟨id', ptr'⟩ hsecond heq
  obtain rfl : ptr = ptr' := heq
  obtain ⟨-, hid⟩ := hcore.id_of_find ((hentries.mem_iff id ptr).mp hfirst)
  obtain ⟨-, hid'⟩ := hcore.id_of_find ((hentries.mem_iff id' ptr).mp hsecond)
  rw [← hid, ← hid']

/-- What is deleted: the records that no record with their id came before. -/
theorem FirstOfId.mem_destroy (hcore : core.FirstOfId) (hentries : core.Lists entries)
    {ptr : NodePtr} : ptr ∈ destroy entries ↔
      ptr < core.next ∧ ∀ earlier < ptr, (core.heap earlier).id ≠ (core.heap ptr).id := by
  constructor
  · intro hmem
    obtain ⟨⟨id, ptr⟩, hentry, rfl⟩ := List.mem_map.mp hmem
    obtain ⟨hlt, hid, hnone⟩ := hcore.find_iff.mp ((hentries.mem_iff id ptr).mp hentry)
    exact ⟨hlt, fun earlier hearlier ↦ hid ▸ hnone earlier hearlier⟩
  · rintro ⟨hlt, hnone⟩
    have hfind := hcore.find_iff.mpr ⟨hlt, rfl, hnone⟩
    exact List.mem_map.mpr ⟨_, (hentries.mem_iff _ _).mpr hfind, rfl⟩

end Core

/-- A pass keeps the id index on the first record of each id. -/
theorem Passing.firstOfId {s after : LoopState PKey} {arrival : Arrival} {draw : Draw PKey}
    {sent : List Sent} (h : Passing ssl s arrival draw after sent) (hs : s.core.FirstOfId) :
    after.core.FirstOfId := by
  cases h with
  | idle => exact hs
  | rejected => exact hs
  | known _ _ _ hhandled => exact hs.setNode hhandled.id
  | new _ _ _ hcore hhandled =>
    subst hcore
    refine (hs.addNode draw.node _ _).setNode ?_
    rw [Core.addNode_heap_next]
    exact hhandled.id

/-- Every reachable id index leads to the first record of each id. -/
theorem ReachableInBounds.firstOfId {s : LoopState PKey} (h : ReachableInBounds ssl s) :
    s.core.FirstOfId := by
  obtain ⟨start, inputs, hempty, hrun⟩ := h
  exact hrun.invariant (fun s ↦ s.core.FirstOfId)
    (fun hs ⟨⟨_, hpass⟩, _⟩ ↦ (passing_of_pass hpass).firstOfId hs) hempty.firstOfId

/-- The destructor frees the first record of each id, once, and leaks the others. For every node
table the receive loop reaches by passes in bounds, and every order in which the map lists its
entries: no pointer is deleted twice, every deleted pointer is a record that was created, a record
is deleted exactly if no record before it carries its id, and so nothing is leaked exactly if all
records carry ids of their own. -/
theorem destructor_frees_first {s : LoopState PKey} (hs : ReachableInBounds ssl s)
    {entries : List (UInt64 × NodePtr)} (hentries : s.core.Lists entries) :
    (Core.destroy entries).Nodup ∧
    (∀ ptr, ptr ∈ Core.destroy entries ↔ ptr < s.core.next ∧
      ∀ earlier < ptr, (s.core.heap earlier).id ≠ (s.core.heap ptr).id) ∧
    ((Core.destroy entries).length = s.core.next ↔
      ∀ first second, first < s.core.next → second < s.core.next →
        (s.core.heap first).id = (s.core.heap second).id → first = second) := by
  have hfirst := hs.firstOfId
  have hnodup := hfirst.nodup_destroy hentries
  have hmem : ∀ ptr, ptr ∈ Core.destroy entries ↔ ptr < s.core.next ∧
      ∀ earlier < ptr, (s.core.heap earlier).id ≠ (s.core.heap ptr).id :=
    fun ptr ↦ hfirst.mem_destroy hentries
  refine ⟨hnodup, hmem, ?_⟩
  have hsubset : (Core.destroy entries).toFinset ⊆ Finset.range s.core.next := fun ptr hptr ↦
    Finset.mem_range.mpr ((hmem ptr).mp (List.mem_toFinset.mp hptr)).1
  rw [← List.toFinset_card_of_nodup hnodup]
  constructor
  · intro hall first second hlt hlt' hid
    have heq : (Core.destroy entries).toFinset = Finset.range s.core.next :=
      Finset.eq_of_subset_of_card_le hsubset (by rw [Finset.card_range, hall])
    have hfreed (ptr : NodePtr) (hptr : ptr < s.core.next) :
        ∀ earlier < ptr, (s.core.heap earlier).id ≠ (s.core.heap ptr).id :=
      ((hmem ptr).mp (List.mem_toFinset.mp (heq ▸ Finset.mem_range.mpr hptr))).2
    obtain hlater | hequal | hearlier := lt_trichotomy first second
    · exact absurd hid (hfreed second hlt' first hlater)
    · exact hequal
    · exact absurd hid.symm (hfreed first hlt second hearlier)
  · intro hdistinct
    have heq : (Core.destroy entries).toFinset = Finset.range s.core.next := by
      refine Finset.Subset.antisymm hsubset fun ptr hptr ↦ ?_
      have hlt := Finset.mem_range.mp hptr
      refine List.mem_toFinset.mpr ((hmem ptr).mpr ⟨hlt, fun earlier hearlier hid ↦ ?_⟩)
      exact hearlier.ne (hdistinct earlier ptr (hearlier.trans hlt) hlt hid)
    rw [heq, Finset.card_range]

/-- `destructor_frees_first` where a record is leaked: two senders with one id. -/
theorem destructor_frees_first_reused : ∃ s entries, ReachableInBounds tagged s ∧
    s.core.next = 2 ∧ s.core.Lists entries ∧ (Core.destroy entries).length ≠ s.core.next := by
  obtain ⟨⟨middle, sent⟩, hfirst, hcheck⟩ : ∃ result, pass tagged (taggedStart 5 1)
      (.datagram ⟨1, 1⟩ (taggedDatagram .ping 7 [])) (taggedDraw 9) = .ok result ∧
      ((result.1.core.findNode ⟨2, 2⟩).isNone &&
        (pass tagged result.1 (.datagram ⟨2, 2⟩ (taggedDatagram .ping 7 []))
          (taggedDraw 9)).toOption.any fun (second : LoopState UInt8 × List Sent) ↦
            second.1.core.next == 2 && (second.1.core.heap 0).id == 7 &&
              (second.1.core.heap 1).id == 7) = true :=
    exists_of_any (by decide +kernel)
  obtain ⟨hunknown, hpasses⟩ := Bool.and_eq_true_iff.mp hcheck
  obtain ⟨⟨s, sent'⟩, hsecond, hids⟩ := exists_of_any hpasses
  simp only [Bool.and_eq_true, beq_iff_eq] at hids
  obtain ⟨⟨hnext, hzero⟩, hone⟩ := hids
  have hreach : ReachableInBounds tagged s :=
    ⟨taggedStart 5 1, [(.datagram ⟨1, 1⟩ (taggedDatagram .ping 7 []), taggedDraw 9),
        (.datagram ⟨2, 2⟩ (taggedDatagram .ping 7 []), taggedDraw 9)], empty_taggedStart 5 1,
      .cons ⟨⟨sent, hfirst⟩, inBounds_of_unknown ((empty_taggedStart 5 1).2.2 _) _ _⟩
        (.cons ⟨⟨sent', hsecond⟩,
          inBounds_of_unknown (Option.isNone_iff_eq_none.mp hunknown) _ _⟩ (.nil s))⟩
  have hlists : s.core.Lists [(7, 0)] := by
    refine ⟨List.nodup_singleton _, fun id ptr ↦ ?_⟩
    rw [hreach.firstOfId.find_iff, hnext, List.mem_singleton, Prod.mk.injEq]
    constructor
    · rintro ⟨rfl, rfl⟩
      exact ⟨by decide, hzero, fun earlier hearlier ↦ absurd hearlier (Nat.not_lt_zero _)⟩
    · rintro ⟨hlt, rfl, hnone⟩
      obtain hbefore | rfl : ptr < 1 ∨ ptr = 1 := Nat.lt_succ_iff_lt_or_eq.mp hlt
      · obtain rfl := Nat.lt_one_iff.mp hbefore
        exact ⟨hzero, rfl⟩
      · exact absurd (hzero.trans hone.symm) (hnone 0 (by decide))
  obtain ⟨-, -, hleak⟩ := destructor_frees_first hreach hlists
  refine ⟨s, [(7, 0)], hreach, hnext, hlists, fun hall ↦ ?_⟩
  exact absurd (hleak.mp hall 0 1 (by rw [hnext]; decide) (by rw [hnext]; decide)
    (hzero.trans hone.symm)) (by decide)

end Kapua
