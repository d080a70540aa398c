import Kapua.Foundation.ByteMemory

/-!
# Fields in memory

A `Layout` gives every field of a packed structure an offset and a width, such that no two fields
overlap and every byte of the structure belongs to one. A field is then read back as it was written,
whatever is written to the others (`read_write_self`, `read_write_of_ne`); the fields together
determine the bytes (`read_eq_iff`); and every choice of contents for the fields is what some
memory holds, which differs from a given one within the structure only (`read_assemble`,
`assemble_of_ge`).
-/

set_option autoImplicit false
set_option relaxedAutoImplicit false

namespace Kapua

/-- The fields of a packed structure of `size` bytes. -/
structure Layout (Field : Type) where
  offset : Field → ℕ
  width : Field → ℕ
  size : ℕ
  disjoint : ∀ {first second}, first ≠ second → offset first + width first ≤ offset second ∨
    offset second + width second ≤ offset first
  within : ∀ field, offset field + width field ≤ size
  covers : ∀ {place}, place < size →
    ∃ field, offset field ≤ place ∧ place < offset field + width field

namespace Layout

variable {Field : Type} (layout : Layout Field)

/-- The bytes of a field. -/
def read (memory : Memory) (field : Field) : Bytes :=
  memory.slice (layout.offset field) (layout.width field)

/-- A field written from its offset on. -/
def write (memory : Memory) (field : Field) (bytes : Bytes) : Memory :=
  memory.write (layout.offset field) bytes

/-- Several fields written one after another. -/
def assemble (contents : Field → Bytes) (fields : List Field) (memory : Memory) : Memory :=
  fields.foldl (fun memory field ↦ layout.write memory field (contents field)) memory

variable {layout} {memory memory' : Memory} {field other : Field} {bytes : Bytes}

/-- A field is read as it was written. Assumes: as many bytes as the field has. -/
theorem read_write_self (hlength : bytes.length = layout.width field) :
    layout.read (layout.write memory field bytes) field = bytes := by
  unfold read write
  rw [← hlength]
  exact Memory.slice_write_self memory _ bytes

/-- A write to one field leaves the others. Assumes: no more bytes than the field has. -/
theorem read_write_of_ne (hlength : bytes.length ≤ layout.width other) (hne : field ≠ other) :
    layout.read (layout.write memory other bytes) field = layout.read memory field := by
  obtain hbefore | hafter := layout.disjoint hne
  · exact Memory.slice_write_below memory bytes hbefore
  · refine Memory.slice_write_above memory ?_
    omega

/-- What a write to one field leaves of every field. Assumes: as many bytes as the field has. -/
theorem read_write [DecidableEq Field] (hlength : bytes.length = layout.width other) :
    layout.read (layout.write memory other bytes) field =
      if field = other then bytes else layout.read memory field := by
  split_ifs with heq
  · subst heq
    exact read_write_self hlength
  · exact read_write_of_ne hlength.le heq

/-- The fields determine the bytes of the structure, and the bytes the fields. -/
theorem read_eq_iff : (∀ field, layout.read memory field = layout.read memory' field) ↔
    memory.slice 0 layout.size = memory'.slice 0 layout.size := by
  constructor
  · intro hfields
    refine Memory.slice_congr fun place _ hplace ↦ ?_
    obtain ⟨field, hstart, hend⟩ := layout.covers (by omega : place < layout.size)
    have hbyte := congrArg (fun bytes : Bytes ↦ bytes[place - layout.offset field]?) (hfields field)
    have hinside : place - layout.offset field < layout.width field := by omega
    have hplace' : layout.offset field + (place - layout.offset field) = place := by omega
    simpa only [read, Memory.getElem?_slice, if_pos hinside, hplace', Option.some.injEq] using hbyte
  · intro hslice field
    refine Memory.slice_congr fun place hstart hend ↦ ?_
    have hplace : place < layout.size := lt_of_lt_of_le hend (layout.within field)
    have hbyte := congrArg (fun bytes : Bytes ↦ bytes[place]?) hslice
    simpa only [Memory.getElem?_slice, if_pos hplace, Nat.zero_add, Option.some.injEq] using hbyte

section Assemble

variable {contents : Field → Bytes} {fields : List Field}

/-- Fields that are not among those written are left. -/
theorem read_assemble_of_notMem (hlength : ∀ field, (contents field).length = layout.width field)
    (hfield : field ∉ fields) :
    layout.read (layout.assemble contents fields memory) field = layout.read memory field := by
  induction fields generalizing memory with
  | nil => rfl
  | cons first rest ih =>
    obtain ⟨hne, hrest⟩ := not_or.mp (List.mem_cons.not.mp hfield)
    have hwritten : layout.read (layout.write memory first (contents first)) field =
        layout.read memory field := read_write_of_ne (hlength first).le hne
    exact (ih hrest).trans hwritten

/-- Fields that are written one after another are read as they were written. Assumes: each is given
as many bytes as it has, and none is written twice. -/
theorem read_assemble (hlength : ∀ field, (contents field).length = layout.width field)
    (hnodup : fields.Nodup) (hfield : field ∈ fields) :
    layout.read (layout.assemble contents fields memory) field = contents field := by
  induction fields generalizing memory with
  | nil => cases hfield
  | cons first rest ih =>
    obtain ⟨hfresh, hrest⟩ := List.nodup_cons.mp hnodup
    obtain rfl | hmem := List.mem_cons.mp hfield
    · exact (read_assemble_of_notMem hlength hfresh).trans (read_write_self (hlength field))
    · exact ih hrest hmem

/-- Writing fields leaves the memory behind the structure. -/
theorem assemble_of_ge (hlength : ∀ field, (contents field).length = layout.width field)
    {place : ℕ} (hplace : layout.size ≤ place) :
    layout.assemble contents fields memory place = memory place := by
  induction fields generalizing memory with
  | nil => rfl
  | cons first rest ih =>
    have hend : layout.offset first + (contents first).length ≤ place := by
      rw [hlength]
      exact (layout.within first).trans hplace
    exact ih.trans (Memory.write_of_ge memory hend)

end Assemble

end Layout

end Kapua
