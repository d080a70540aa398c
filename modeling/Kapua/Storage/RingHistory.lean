import Kapua.Foundation.History
import Kapua.Storage.RingWalk
import Mathlib.Data.List.Induction

/-!
# The ring and its history

A store remembers of its calls, for each virtual id, the latest node to join with it, unless that
node has left since, and for each real id the latest capacity given to it, unless it has left since.
Every container is read off the history in this way, whatever the calls and their arguments.

Where every node always joins with the same virtual ids and the same capacity, and no two nodes
share a virtual id, the containers depend on no more than the set of nodes that have joined and not
left. Two stores that agree on that set place every block alike.
-/

set_option autoImplicit false
set_option relaxedAutoImplicit false

namespace Kapua

namespace DistributedBlockStore

/-- The calls on a store in the order of time. The constructor counts as the first join. -/
def calls (id : UInt64) (virtualIds : List UInt64) (capacity : UInt64)
    (operations : List Operation) : List Operation :=
  .add id virtualIds capacity :: operations

theorem run_eq (id : UInt64) (virtualIds : List UInt64) (capacity : UInt64)
    (operations : List Operation) :
    run id virtualIds capacity operations =
      (calls id virtualIds capacity operations).foldl apply (blank id) := rfl

/-- The call is a join whose virtual ids contain this one. -/
def Operation.Assigns (vid : UInt64) (operation : Operation) : Prop :=
  ∃ id virtualIds capacity, operation = .add id virtualIds capacity ∧ vid ∈ virtualIds

/-- The call is a join of this real id. -/
def Operation.Joins (id : UInt64) (operation : Operation) : Prop :=
  ∃ virtualIds capacity, operation = .add id virtualIds capacity

/-- The call gives this real id this capacity. -/
def Operation.SetsCapacity (id capacity : UInt64) (operation : Operation) : Prop :=
  (∃ virtualIds, operation = .add id virtualIds capacity) ∨ operation = .update id capacity

/-- The latest join whose virtual ids contain this one was made for a real id that has not been
removed since. -/
def Owned (history : List Operation) (vid real : UInt64) : Prop :=
  Since (fun operation ↦ operation.Joins real ∧ operation.Assigns vid)
    (fun operation ↦ operation.Assigns vid ∨ operation = .remove real) history

/-- The real id has joined and has not been removed since. -/
def Joined (history : List Operation) (id : UInt64) : Prop :=
  Since (Operation.Joins id) (· = .remove id) history

/-- The latest call that gives the real id a capacity gives it this one, and the real id has not
been removed since. -/
def LatestCapacity (history : List Operation) (id capacity : UInt64) : Prop :=
  Since (Operation.SetsCapacity id capacity)
    (fun operation ↦ (∃ other, operation.SetsCapacity id other) ∨ operation = .remove id) history

theorem owned_snoc {history : List Operation} {operation : Operation} {vid real : UInt64} :
    Owned (history ++ [operation]) vid real ↔
      (operation.Joins real ∧ operation.Assigns vid) ∨
        (Owned history vid real ∧ ¬ (operation.Assigns vid ∨ operation = .remove real)) :=
  since_snoc

theorem joined_snoc {history : List Operation} {operation : Operation} {id : UInt64} :
    Joined (history ++ [operation]) id ↔
      operation.Joins id ∨ (Joined history id ∧ ¬ operation = .remove id) :=
  since_snoc

theorem latestCapacity_snoc {history : List Operation} {operation : Operation}
    {id capacity : UInt64} :
    LatestCapacity (history ++ [operation]) id capacity ↔
      operation.SetsCapacity id capacity ∨ (LatestCapacity history id capacity ∧
        ¬ ((∃ other, operation.SetsCapacity id other) ∨ operation = .remove id)) :=
  since_snoc

section Calls

variable {id real vid capacity newCapacity : UInt64} {virtualIds : List UInt64}

@[simp] theorem assigns_add :
    (Operation.add id virtualIds capacity).Assigns vid ↔ vid ∈ virtualIds := by
  simp [Operation.Assigns]

@[simp] theorem not_assigns_remove : ¬ (Operation.remove id).Assigns vid := by
  simp [Operation.Assigns]

@[simp] theorem not_assigns_update : ¬ (Operation.update id newCapacity).Assigns vid := by
  simp [Operation.Assigns]

@[simp] theorem joins_add : (Operation.add id virtualIds capacity).Joins real ↔ id = real := by
  simp [Operation.Joins]

@[simp] theorem not_joins_remove : ¬ (Operation.remove id).Joins real := by
  simp [Operation.Joins]

@[simp] theorem not_joins_update : ¬ (Operation.update id newCapacity).Joins real := by
  simp [Operation.Joins]

@[simp] theorem setsCapacity_add :
    (Operation.add id virtualIds capacity).SetsCapacity real newCapacity ↔
      id = real ∧ capacity = newCapacity := by
  simp [Operation.SetsCapacity]

@[simp] theorem not_setsCapacity_remove :
    ¬ (Operation.remove id).SetsCapacity real newCapacity := by
  simp [Operation.SetsCapacity]

@[simp] theorem setsCapacity_update :
    (Operation.update id capacity).SetsCapacity real newCapacity ↔
      id = real ∧ capacity = newCapacity := by
  simp [Operation.SetsCapacity]

end Calls

/-! ### What one call changes -/

/-- A virtual id stands for a real id after a call that makes it so, or before any other call that
neither assigns the virtual id nor removes the real one. -/
theorem virtualToReal_apply (s : DistributedBlockStore) (operation : Operation)
    (vid real : UInt64) :
    (s.apply operation).virtualToReal.lookup vid = some real ↔
      (operation.Joins real ∧ operation.Assigns vid) ∨
        (s.virtualToReal.lookup vid = some real ∧
          ¬ (operation.Assigns vid ∨ operation = .remove real)) := by
  cases operation with
  | add id virtualIds capacity =>
    rw [apply, virtualToReal_addDbsNode]
    by_cases hvid : vid ∈ virtualIds <;> simp [hvid]
  | remove id =>
    rw [apply, virtualToReal_removeDbsNode]
    by_cases hid : id = real
    · subst hid
      by_cases howner : s.virtualToReal.lookup vid = some id <;> simp [howner]
    · by_cases howner : s.virtualToReal.lookup vid = some id
      · simp [howner, hid]
      · simp [howner, hid]
  | update id newCapacity =>
    rw [apply, virtualToReal_updateDbsNodeCapacity]
    simp

/-- A real id has a capacity entry after a join of it, or before any call but its removal. -/
theorem isSome_nodeCapacities_apply (s : DistributedBlockStore) (operation : Operation)
    (id : UInt64) :
    ((s.apply operation).nodeCapacities.lookup id).isSome ↔
      operation.Joins id ∨ ((s.nodeCapacities.lookup id).isSome ∧ ¬ operation = .remove id) := by
  cases operation with
  | add real virtualIds capacity =>
    rw [apply, nodeCapacities_addDbsNode]
    by_cases hreal : id = real
    · simp [hreal]
    · simp [hreal, Ne.symm hreal]
  | remove real =>
    rw [apply, nodeCapacities_removeDbsNode]
    by_cases hreal : id = real
    · simp [hreal]
    · simp [hreal, Ne.symm hreal]
  | update real newCapacity =>
    rw [apply, nodeCapacities_updateDbsNodeCapacity]
    by_cases hreal : id = real
    · subst hreal
      simp
    · simp [hreal]

/-- No call charges a usage. -/
theorem usage_apply {s : DistributedBlockStore}
    (h : ∀ id capacity usage, s.nodeCapacities.lookup id = some (capacity, usage) → usage = 0)
    (operation : Operation) (id capacity usage : UInt64)
    (hentry : (s.apply operation).nodeCapacities.lookup id = some (capacity, usage)) :
    usage = 0 := by
  cases operation with
  | add real virtualIds newCapacity =>
    rw [apply, nodeCapacities_addDbsNode] at hentry
    split_ifs at hentry with hreal
    · exact (Prod.ext_iff.mp (Option.some.inj hentry)).2.symm
    · exact h id capacity usage hentry
  | remove real =>
    rw [apply, nodeCapacities_removeDbsNode] at hentry
    split_ifs at hentry with hreal
    exact h id capacity usage hentry
  | update real newCapacity =>
    rw [apply, nodeCapacities_updateDbsNodeCapacity] at hentry
    split_ifs at hentry with hreal
    · obtain ⟨⟨old, oldUsage⟩, hold, hnew⟩ := Option.map_eq_some_iff.mp hentry
      have husage := (Prod.ext_iff.mp hnew).2
      exact husage.symm.trans (h real old oldUsage hold)
    · exact h id capacity usage hentry

/-- The entry of a real id holds a capacity after a call that gives it that capacity, if there is an
entry at all, or before any other call that neither gives it a capacity nor removes it. -/
theorem capacity_apply {s : DistributedBlockStore}
    (h : ∀ id capacity usage, s.nodeCapacities.lookup id = some (capacity, usage) → usage = 0)
    (operation : Operation) (id capacity : UInt64) :
    (s.apply operation).nodeCapacities.lookup id = some (capacity, 0) ↔
      ((s.apply operation).nodeCapacities.lookup id).isSome ∧
        (operation.SetsCapacity id capacity ∨
          (s.nodeCapacities.lookup id = some (capacity, 0) ∧
            ¬ ((∃ other, operation.SetsCapacity id other) ∨ operation = .remove id))) := by
  cases operation with
  | add real virtualIds newCapacity =>
    rw [apply, nodeCapacities_addDbsNode]
    by_cases hreal : id = real
    · simp [hreal]
    · simp +contextual [hreal, Ne.symm hreal]
  | remove real =>
    rw [apply, nodeCapacities_removeDbsNode]
    by_cases hreal : id = real
    · simp [hreal]
    · simp +contextual [hreal, Ne.symm hreal]
  | update real newCapacity =>
    rw [apply, nodeCapacities_updateDbsNodeCapacity]
    by_cases hreal : id = real
    · subst hreal
      cases hentry : s.nodeCapacities.lookup id with
      | none => simp
      | some entry =>
        have husage : entry.2 = 0 := h id entry.1 entry.2 hentry
        simp [husage]
    · simp +contextual [hreal, Ne.symm hreal]

/-! ### What a history leaves -/

section Histories

variable (owner : UInt64) (history : List Operation)

theorem virtualToReal_foldl (vid real : UInt64) :
    (history.foldl apply (blank owner)).virtualToReal.lookup vid = some real ↔
      Owned history vid real := by
  induction history using List.reverseRecOn with
  | nil => simp [blank, Owned]
  | append_singleton history operation ih =>
    rw [List.foldl_concat, virtualToReal_apply, ih, owned_snoc]

theorem isSome_nodeCapacities_foldl (id : UInt64) :
    ((history.foldl apply (blank owner)).nodeCapacities.lookup id).isSome ↔
      Joined history id := by
  induction history using List.reverseRecOn with
  | nil => simp [blank, Joined]
  | append_singleton history operation ih =>
    rw [List.foldl_concat, isSome_nodeCapacities_apply, ih, joined_snoc]

theorem usage_foldl (id capacity usage : UInt64)
    (h : (history.foldl apply (blank owner)).nodeCapacities.lookup id = some (capacity, usage)) :
    usage = 0 := by
  induction history using List.reverseRecOn generalizing id capacity usage with
  | nil => simp [blank] at h
  | append_singleton history operation ih =>
    rw [List.foldl_concat] at h
    exact usage_apply ih operation id capacity usage h

theorem capacity_foldl (id capacity : UInt64) :
    (history.foldl apply (blank owner)).nodeCapacities.lookup id = some (capacity, 0) ↔
      Joined history id ∧ LatestCapacity history id capacity := by
  induction history using List.reverseRecOn with
  | nil => simp [blank, Joined]
  | append_singleton history operation ih =>
    have hentry := isSome_nodeCapacities_foldl owner (history ++ [operation]) id
    rw [List.foldl_concat, joined_snoc] at hentry
    rw [List.foldl_concat, capacity_apply (usage_foldl owner history), hentry, ih, joined_snoc,
      latestCapacity_snoc]
    have hjoins : operation.Joins id → ∃ other, operation.SetsCapacity id other := by
      rintro ⟨virtualIds, other, rfl⟩
      exact ⟨other, Or.inl ⟨virtualIds, rfl⟩⟩
    refine and_congr_right fun hafter ↦ or_congr_right (and_congr_left fun hkept ↦ ?_)
    -- a call that sets no capacity is no join, so the node was there before it
    refine and_iff_right ?_
    obtain hnow | ⟨hbefore, -⟩ := hafter
    · exact absurd (Or.inl (hjoins hnow)) hkept
    · exact hbefore

end Histories

/-- The law of the three containers, for every sequence of calls after the constructor. A virtual id
is on the ring exactly when it is a key of the map, exactly when its latest join was made for a real
id that has not been removed since, which the map then gives. A real id has a capacity entry exactly
when it joined after its latest removal. The entry holds the capacity given latest, and no usage. -/
theorem ring_history (id : UInt64) (virtualIds : List UInt64) (capacity : UInt64)
    (operations : List Operation) :
    (∀ vid, vid ∈ (run id virtualIds capacity operations).ring ↔
      vid ∈ (run id virtualIds capacity operations).virtualToReal) ∧
    (∀ vid, vid ∈ (run id virtualIds capacity operations).virtualToReal ↔
      ∃ real, Owned (calls id virtualIds capacity operations) vid real) ∧
    (∀ vid real, (run id virtualIds capacity operations).virtualToReal.lookup vid = some real ↔
      Owned (calls id virtualIds capacity operations) vid real) ∧
    (∀ real, real ∈ (run id virtualIds capacity operations).nodeCapacities ↔
      Joined (calls id virtualIds capacity operations) real) ∧
    ∀ real capacity' usage,
      (run id virtualIds capacity operations).nodeCapacities.lookup real =
          some (capacity', usage) ↔
        Joined (calls id virtualIds capacity operations) real ∧
          LatestCapacity (calls id virtualIds capacity operations) real capacity' ∧ usage = 0 := by
  have hconsistent : (run id virtualIds capacity operations).Consistent :=
    Reachable.consistent ⟨id, virtualIds, capacity, operations, rfl⟩
  have howner := virtualToReal_foldl id (calls id virtualIds capacity operations)
  have hcapacity := capacity_foldl id (calls id virtualIds capacity operations)
  have husage := usage_foldl id (calls id virtualIds capacity operations)
  have hentry := isSome_nodeCapacities_foldl id (calls id virtualIds capacity operations)
  rw [← run_eq] at howner hcapacity husage hentry
  refine ⟨fun vid ↦ ?_, fun vid ↦ ?_, howner, fun real ↦ ?_, fun real capacity' usage ↦ ?_⟩
  · rw [hconsistent vid, Finmap.lookup_isSome]
  · rw [Finmap.mem_iff]
    exact exists_congr (howner vid)
  · rw [← Finmap.lookup_isSome]
    exact hentry real
  · constructor
    · intro h
      obtain rfl := husage real capacity' usage h
      obtain ⟨hjoined, hlatest⟩ := (hcapacity real capacity').mp h
      exact ⟨hjoined, hlatest, rfl⟩
    · rintro ⟨hjoined, hlatest, rfl⟩
      exact (hcapacity real capacity').mpr ⟨hjoined, hlatest⟩

/-- Nothing charges a usage, so that a node is overloaded exactly when its capacity is zero.
Assumes: a reachable store. -/
theorem Reachable.checkNodeOverloaded_iff {s : DistributedBlockStore} (h : s.Reachable)
    (id : UInt64) : s.checkNodeOverloaded id = true ↔ s.nodeCapacities.lookup id = some (0, 0) := by
  obtain ⟨owner, virtualIds, capacity, operations, rfl⟩ := h
  have husage := usage_foldl owner (calls owner virtualIds capacity operations) id
  rw [← run_eq] at husage
  unfold checkNodeOverloaded
  cases hentry : (run owner virtualIds capacity operations).nodeCapacities.lookup id with
  | none => simp
  | some entry =>
    obtain ⟨given, usage⟩ := entry
    obtain rfl := husage given usage hentry
    simp only [ge_iff_le, decide_eq_true_eq, Option.some.injEq, Prod.mk.injEq, and_true]
    constructor
    · intro hgiven
      exact UInt64.le_antisymm hgiven (UInt64.zero_le)
    · rintro rfl
      exact UInt64.le_refl 0

/-! ### Stores with the same joined nodes -/

/-- A call by which a node joins with the virtual ids and the capacity it always joins with, or
leaves. -/
def Operation.Follows (virtualIds : UInt64 → List UInt64) (capacity : UInt64 → UInt64)
    (operation : Operation) : Prop :=
  (∃ id, operation = .add id (virtualIds id) (capacity id)) ∨ ∃ id, operation = .remove id

section Agreement

variable {virtualIds : UInt64 → List UInt64} {capacity : UInt64 → UInt64}
  {history history' : List Operation}

/-- The constructor is a join like those after it. -/
theorem follows_calls (id : UInt64)
    (hfollows : ∀ operation ∈ history, operation.Follows virtualIds capacity) :
    ∀ operation ∈ calls id (virtualIds id) (capacity id) history,
      operation.Follows virtualIds capacity := by
  intro operation hoperation
  obtain rfl | hoperation := List.mem_cons.mp hoperation
  · exact Or.inl ⟨id, rfl⟩
  · exact hfollows operation hoperation

/-- A virtual id stands for the one node that joins with it, as long as that node has joined. -/
theorem owned_iff_joined
    (hdisjoint : ∀ id id', id ≠ id' → List.Disjoint (virtualIds id) (virtualIds id'))
    (hfollows : ∀ operation ∈ history, operation.Follows virtualIds capacity)
    (vid real : UInt64) :
    Owned history vid real ↔ Joined history real ∧ vid ∈ virtualIds real := by
  induction history using List.reverseRecOn with
  | nil => simp [Owned, Joined]
  | append_singleton history operation ih =>
    have hlast : operation.Follows virtualIds capacity := hfollows operation (by simp)
    have hbefore := ih fun other hother ↦ hfollows other (List.mem_append_left _ hother)
    rw [owned_snoc, joined_snoc, hbefore]
    obtain ⟨id, rfl⟩ | ⟨id, rfl⟩ := hlast
    · by_cases hid : id = real
      · subst hid
        simp only [joins_add, assigns_add, true_and, reduceCtorEq, or_false, true_or]
        tauto
      · have hother : vid ∈ virtualIds real → vid ∉ virtualIds id :=
          fun hreal hvid ↦ hdisjoint id real hid hvid hreal
        simp only [joins_add, assigns_add, hid, reduceCtorEq, or_false, false_or, false_and]
        tauto
    · simp only [not_joins_remove, not_assigns_remove, false_or, false_and]
      tauto

/-- A node that has joined has the capacity it always joins with. -/
theorem latestCapacity_of_joined
    (hfollows : ∀ operation ∈ history, operation.Follows virtualIds capacity) {real : UInt64}
    (hjoined : Joined history real) : LatestCapacity history real (capacity real) := by
  induction history using List.reverseRecOn with
  | nil => simp [Joined] at hjoined
  | append_singleton history operation ih =>
    have hlast : operation.Follows virtualIds capacity := hfollows operation (by simp)
    rw [joined_snoc] at hjoined
    rw [latestCapacity_snoc]
    obtain ⟨id, rfl⟩ | ⟨id, rfl⟩ := hlast
    · by_cases hid : id = real
      · subst hid
        simp
      · have hbefore : Joined history real := by
          simpa [hid, Joined] using hjoined
        have hlatest := ih (fun other hother ↦ hfollows other (List.mem_append_left _ hother))
          hbefore
        exact Or.inr ⟨hlatest, by simp [hid]⟩
    · obtain hjoins | ⟨hbefore, hremoved⟩ := hjoined
      · exact absurd hjoins not_joins_remove
      · have hlatest := ih (fun other hother ↦ hfollows other (List.mem_append_left _ hother))
          hbefore
        refine Or.inr ⟨hlatest, ?_⟩
        simpa using hremoved

/-- The owners of the virtual ids depend on the joined nodes only. -/
theorem virtualToReal_eq_of_joined
    (hdisjoint : ∀ id id', id ≠ id' → List.Disjoint (virtualIds id) (virtualIds id'))
    (hfollows : ∀ operation ∈ history, operation.Follows virtualIds capacity)
    (hfollows' : ∀ operation ∈ history', operation.Follows virtualIds capacity)
    (hjoined : ∀ real, Joined history real ↔ Joined history' real) (owner owner' : UInt64) :
    (history.foldl apply (blank owner)).virtualToReal =
      (history'.foldl apply (blank owner')).virtualToReal := by
  refine Finmap.ext_lookup fun vid ↦ Option.ext fun real ↦ ?_
  rw [virtualToReal_foldl, virtualToReal_foldl, owned_iff_joined hdisjoint hfollows,
    owned_iff_joined hdisjoint hfollows']
  exact and_congr_left' (hjoined real)

/-- The capacities depend on the joined nodes only. -/
theorem nodeCapacities_eq_of_joined
    (hfollows : ∀ operation ∈ history, operation.Follows virtualIds capacity)
    (hfollows' : ∀ operation ∈ history', operation.Follows virtualIds capacity)
    (hjoined : ∀ real, Joined history real ↔ Joined history' real) (owner owner' : UInt64) :
    (history.foldl apply (blank owner)).nodeCapacities =
      (history'.foldl apply (blank owner')).nodeCapacities := by
  refine Finmap.ext_lookup fun real ↦ ?_
  by_cases hreal : Joined history real
  · have hreal' := (hjoined real).mp hreal
    rw [(capacity_foldl owner history real (capacity real)).mpr
        ⟨hreal, latestCapacity_of_joined hfollows hreal⟩,
      (capacity_foldl owner' history' real (capacity real)).mpr
        ⟨hreal', latestCapacity_of_joined hfollows' hreal'⟩]
  · have hreal' := (not_congr (hjoined real)).mp hreal
    rw [← isSome_nodeCapacities_foldl owner, Option.not_isSome_iff_eq_none] at hreal
    rw [← isSome_nodeCapacities_foldl owner', Option.not_isSome_iff_eq_none] at hreal'
    rw [hreal, hreal']

end Agreement

/-- Two stores with histories of their own, in which every node always joins with the same virtual
ids and the same capacity, return the same entries for every block if the same nodes have joined and
not left. Assumes: no virtual id belongs to two nodes. -/
theorem placement_agrees (virtualIds : UInt64 → List UInt64) (capacity : UInt64 → UInt64)
    (hdisjoint : ∀ id id', id ≠ id' → List.Disjoint (virtualIds id) (virtualIds id'))
    (id id' : UInt64) (operations operations' : List Operation)
    (hfollows : ∀ operation ∈ operations, operation.Follows virtualIds capacity)
    (hfollows' : ∀ operation ∈ operations', operation.Follows virtualIds capacity)
    (hjoined : ∀ real, Joined (calls id (virtualIds id) (capacity id) operations) real ↔
      Joined (calls id' (virtualIds id') (capacity id') operations') real) (blockId : UInt64) :
    (run id (virtualIds id) (capacity id) operations).getDbsNodesForBlock blockId =
      (run id' (virtualIds id') (capacity id') operations').getDbsNodesForBlock blockId := by
  have hcalls := follows_calls id hfollows
  have hcalls' := follows_calls id' hfollows'
  have hs : (run id (virtualIds id) (capacity id) operations).Consistent :=
    Reachable.consistent ⟨_, _, _, _, rfl⟩
  have ht : (run id' (virtualIds id') (capacity id') operations').Consistent :=
    Reachable.consistent ⟨_, _, _, _, rfl⟩
  have hmap := virtualToReal_eq_of_joined hdisjoint hcalls hcalls' hjoined id id'
  have hcapacities := nodeCapacities_eq_of_joined hcalls hcalls' hjoined id id'
  rw [← run_eq, ← run_eq] at hmap hcapacities
  have hring : (run id (virtualIds id) (capacity id) operations).ring =
      (run id' (virtualIds id') (capacity id') operations').ring := by
    ext vid
    rw [hs vid, ht vid, hmap]
  exact getDbsNodesForBlock_congr hs ht hring hmap hcapacities blockId

/-- A store that node 1 constructed and node 2 joined, and one that node 2 constructed, node 1
joined, and node 3 joined and left. -/
theorem placement_agrees_passing :
    (run 1 [1] 5 [.add 2 [2] 5]).getDbsNodesForBlock 0 =
      (run 2 [2] 5 [.add 1 [1] 5, .add 3 [3] 5, .remove 3]).getDbsNodesForBlock 0 := by
  refine placement_agrees (fun id ↦ [id]) (fun _ ↦ 5) ?_ 1 2 [.add 2 [2] 5]
    [.add 1 [1] 5, .add 3 [3] 5, .remove 3] ?_ ?_ ?_ 0
  · intro id id' hid
    simpa using Ne.symm hid
  · intro operation hoperation
    obtain rfl := List.mem_singleton.mp hoperation
    exact Or.inl ⟨2, rfl⟩
  · intro operation hoperation
    simp only [List.mem_cons, List.not_mem_nil, or_false] at hoperation
    obtain rfl | rfl | rfl := hoperation
    · exact Or.inl ⟨1, rfl⟩
    · exact Or.inl ⟨3, rfl⟩
    · exact Or.inr ⟨3, rfl⟩
  · intro real
    have hsame : ((calls 1 [1] 5 [.add 2 [2] 5]).foldl apply (blank 0)).nodeCapacities =
        ((calls 2 [2] 5 [.add 1 [1] 5, .add 3 [3] 5, .remove 3]).foldl apply
          (blank 0)).nodeCapacities := by
      decide +kernel
    rw [← isSome_nodeCapacities_foldl 0, ← isSome_nodeCapacities_foldl 0, hsame]

end DistributedBlockStore

end Kapua
