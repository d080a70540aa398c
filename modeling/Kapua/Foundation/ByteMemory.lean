import Mathlib.Data.Nat.Digits.Defs
import Mathlib.Tactic.Linarith

/-!
# Byte memory and little-endian numbers

A region of process memory as a total function from offsets to bytes, read in slices and written
in blocks. Nothing bounds a slice: a read past the end of the object a program has in mind returns
whatever the neighbouring memory holds, which is what an unchecked length makes such a program do.

`slice_write_inside`, `slice_write_below` and `slice_write_above` say what a slice sees of a write
that covers it, that starts after it and that ends before it; with them a header that is assembled
field by field is read back field by field. `Fills` says which part of its storage such a header
assigns, and `Fills.slice_eq_iff` what of the storage is left to see in it. `leNat` and `leBytes`
are the little-endian reading of a list of bytes and the little-endian encoding at a fixed width;
`leNat_leBytes` is their round trip, modulo the width.
-/

set_option autoImplicit false
set_option relaxedAutoImplicit false

namespace Kapua

/-- A finite string of bytes. -/
abbrev Bytes := List UInt8

/-- Memory from some base address on: the byte at every offset. -/
abbrev Memory := ℕ → UInt8

namespace Memory

/-- The `count` bytes from `offset` on. -/
def slice (memory : Memory) (offset count : ℕ) : Bytes :=
  (List.range count).map fun i ↦ memory (offset + i)

/-- Memory after `bytes` are stored from `offset` on. -/
def write (memory : Memory) (offset : ℕ) (bytes : Bytes) : Memory := fun i ↦
  if offset ≤ i then bytes.getD (i - offset) (memory i) else memory i

/-! ### Slices -/

@[simp] theorem length_slice (memory : Memory) (offset count : ℕ) :
    (memory.slice offset count).length = count := by
  simp [slice]

@[simp] theorem getElem?_slice (memory : Memory) (offset count i : ℕ) :
    (memory.slice offset count)[i]? = if i < count then some (memory (offset + i)) else none := by
  by_cases hi : i < count
  · simp [slice, hi]
  · simp [slice, hi]

@[simp] theorem slice_zero (memory : Memory) (offset : ℕ) : memory.slice offset 0 = [] := rfl

/-- A slice depends only on the bytes it covers. -/
theorem slice_congr {first second : Memory} {offset count : ℕ}
    (h : ∀ i, offset ≤ i → i < offset + count → first i = second i) :
    first.slice offset count = second.slice offset count := by
  refine List.map_congr_left fun i hi ↦ ?_
  have hlt := List.mem_range.mp hi
  exact h _ (by omega) (by omega)

/-- The front of a slice is the shorter slice. -/
theorem take_slice (memory : Memory) {offset count k : ℕ} (hk : k ≤ count) :
    (memory.slice offset count).take k = memory.slice offset k := by
  refine List.ext_getElem? fun i ↦ ?_
  rw [List.getElem?_take, getElem?_slice, getElem?_slice]
  split_ifs <;> first | rfl | omega

/-- The rest of a slice is the slice from where the front ends. -/
theorem drop_slice (memory : Memory) (offset count k : ℕ) :
    (memory.slice offset count).drop k = memory.slice (offset + k) (count - k) := by
  refine List.ext_getElem? fun i ↦ ?_
  rw [List.getElem?_drop, getElem?_slice, getElem?_slice, Nat.add_assoc]
  split_ifs <;> first | rfl | omega

/-! ### What a slice sees of a write -/

/-- Writing nothing leaves the memory. -/
@[simp] theorem write_nil (memory : Memory) (offset : ℕ) : memory.write offset [] = memory := by
  ext i
  simp [write]

/-- A byte below a write is unchanged. -/
theorem write_of_lt (memory : Memory) {offset i : ℕ} (bytes : Bytes) (h : i < offset) :
    memory.write offset bytes i = memory i := by
  simp [write, Nat.not_le.mpr h]

/-- A byte past the end of a write is unchanged. -/
theorem write_of_ge (memory : Memory) {offset i : ℕ} {bytes : Bytes}
    (h : offset + bytes.length ≤ i) : memory.write offset bytes i = memory i := by
  have hle : offset ≤ i := by omega
  have hout : bytes.length ≤ i - offset := by omega
  simp [write, hle, List.getElem?_eq_none hout]

/-- A byte inside a write is the byte written. -/
theorem write_of_mem (memory : Memory) {offset i : ℕ} {bytes : Bytes} (hle : offset ≤ i)
    (hlt : i - offset < bytes.length) : memory.write offset bytes i = bytes[i - offset] := by
  simp [write, hle, hlt]

/-- A slice that ends where a write starts does not see it. -/
theorem slice_write_below (memory : Memory) {offset start count : ℕ} (bytes : Bytes)
    (h : start + count ≤ offset) :
    (memory.write offset bytes).slice start count = memory.slice start count :=
  slice_congr fun _ _ hi ↦ write_of_lt _ _ (by omega)

/-- A slice that starts where a write ends does not see it. -/
theorem slice_write_above (memory : Memory) {offset start count : ℕ} {bytes : Bytes}
    (h : offset + bytes.length ≤ start) :
    (memory.write offset bytes).slice start count = memory.slice start count :=
  slice_congr fun _ hi _ ↦ write_of_ge _ (by omega)

/-- A slice covered by a write is read off the bytes written. -/
theorem slice_write_inside (memory : Memory) {offset start count : ℕ} {bytes : Bytes}
    (hle : offset ≤ start) (hge : start + count ≤ offset + bytes.length) :
    (memory.write offset bytes).slice start count = (bytes.drop (start - offset)).take count := by
  refine List.ext_getElem? fun i ↦ ?_
  rw [getElem?_slice, List.getElem?_take, List.getElem?_drop]
  split_ifs with hi
  · have hlt : start + i - offset < bytes.length := by omega
    have hshift : start - offset + i = start + i - offset := by omega
    rw [write_of_mem _ (by omega) hlt, hshift, List.getElem?_eq_getElem hlt]
  · rfl

/-- What was written is read back. -/
@[simp] theorem slice_write_self (memory : Memory) (offset : ℕ) (bytes : Bytes) :
    (memory.write offset bytes).slice offset bytes.length = bytes := by
  rw [slice_write_inside memory le_rfl le_rfl]
  simp

/-! ### Storage that is filled in part -/

/-- `build` stores fixed bytes at the `Assigned` offsets and leaves the storage it is given as it
is everywhere else. -/
structure Fills (build : Memory → Memory) (Assigned : ℕ → Prop) : Prop where
  assigned : ∀ {i}, Assigned i → ∀ first second, build first i = build second i
  unassigned : ∀ {i}, ¬ Assigned i → ∀ memory, build memory i = memory i

/-- Storage that nothing is stored in. -/
theorem fills_id : Fills (fun memory ↦ memory) fun _ ↦ False where
  assigned := fun h ↦ h.elim
  unassigned := fun _ _ ↦ rfl

/-- A write assigns the offsets it covers. -/
theorem Fills.write {build : Memory → Memory} {Assigned : ℕ → Prop} (h : Fills build Assigned)
    (offset : ℕ) (bytes : Bytes) : Fills (fun memory ↦ (build memory).write offset bytes)
      fun i ↦ Assigned i ∨ offset ≤ i ∧ i < offset + bytes.length where
  assigned := by
    intro i hassigned first second
    by_cases hcovered : offset ≤ i ∧ i < offset + bytes.length
    · have hlt : i - offset < bytes.length := by omega
      rw [write_of_mem _ hcovered.1 hlt, write_of_mem _ hcovered.1 hlt]
    · have hbefore := h.assigned (hassigned.resolve_right hcovered) first second
      simp only [Memory.write, hbefore]
  unassigned := by
    intro i hassigned memory
    obtain ⟨hbefore, houtside⟩ := not_or.mp hassigned
    rcases Nat.lt_or_ge i offset with hbelow | habove
    · rw [write_of_lt _ _ hbelow, h.unassigned hbefore]
    · rw [write_of_ge _ (by omega), h.unassigned hbefore]

/-- What is assigned can be stated in another way. -/
theorem Fills.congr {build : Memory → Memory} {Assigned Assigned' : ℕ → Prop}
    (h : Fills build Assigned) (hiff : ∀ i, Assigned i ↔ Assigned' i) : Fills build Assigned' where
  assigned := fun hassigned ↦ h.assigned ((hiff _).mpr hassigned)
  unassigned := fun hassigned ↦ h.unassigned fun hbefore ↦ hassigned ((hiff _).mp hbefore)

/-- Two contents of the storage show in a slice exactly where they differ at an offset of the slice
that is not assigned. -/
theorem Fills.slice_eq_iff {build : Memory → Memory} {Assigned : ℕ → Prop}
    (h : Fills build Assigned) (first second : Memory) (offset count : ℕ) :
    (build first).slice offset count = (build second).slice offset count ↔
      ∀ i, offset ≤ i → i < offset + count → ¬ Assigned i → first i = second i := by
  constructor
  · intro hslice i hle hlt hassigned
    have hbyte := congrArg (fun bytes : Bytes ↦ bytes[i - offset]?) hslice
    have hin : i - offset < count := by omega
    have hback : offset + (i - offset) = i := by omega
    simp only [getElem?_slice, if_pos hin, hback, h.unassigned hassigned] at hbyte
    exact Option.some.inj hbyte
  · intro hsame
    refine slice_congr fun i hle hlt ↦ ?_
    by_cases hassigned : Assigned i
    · exact h.assigned hassigned first second
    · rw [h.unassigned hassigned, h.unassigned hassigned, hsame i hle hlt hassigned]

end Memory

/-! ### Little-endian numbers -/

/-- The number a list of bytes denotes, least significant byte first. -/
def leNat (bytes : Bytes) : ℕ := Nat.ofDigits 256 (bytes.map UInt8.toNat)

/-- The `width` low bytes of a number, least significant byte first. -/
def leBytes : ℕ → ℕ → Bytes
  | 0, _ => []
  | width + 1, value => UInt8.ofNat value :: leBytes width (value / 256)

@[simp] theorem length_leBytes (width value : ℕ) : (leBytes width value).length = width := by
  induction width generalizing value with
  | zero => rfl
  | succ width ih => simp [leBytes, ih]

/-- Encoding at a fixed width and reading back is reduction modulo that width. -/
theorem leNat_leBytes (width value : ℕ) : leNat (leBytes width value) = value % 256 ^ width := by
  induction width generalizing value with
  | zero => simp [leNat, leBytes, Nat.mod_one]
  | succ width ih =>
    have hrest : Nat.ofDigits 256 ((leBytes width (value / 256)).map UInt8.toNat) =
        value / 256 % 256 ^ width := ih (value / 256)
    have hhead : (UInt8.ofNat value).toNat = value % 256 := by simp
    simp only [leNat, leBytes, List.map_cons, Nat.ofDigits_cons, hrest, hhead]
    rw [pow_succ, Nat.mul_comm (256 ^ width), Nat.mod_mul]

/-- A number that fits the width is read back as it was. -/
theorem leNat_leBytes_of_lt {width value : ℕ} (h : value < 256 ^ width) :
    leNat (leBytes width value) = value := by
  rw [leNat_leBytes, Nat.mod_eq_of_lt h]

end Kapua
