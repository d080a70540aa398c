import Kapua.Foundation.ByteMemory

/-!
# Padding to whole blocks

The padding that fills a message up to the next multiple of a block size with bytes that carry
their own count. A message that already ends at a block boundary gets a whole block more, so a
padded message is always longer (`BlockPadding.length_pad`) and the padding can be taken off again
(`BlockPadding.unpad_pad`) as long as the count fits a byte.
-/

set_option autoImplicit false
set_option relaxedAutoImplicit false

namespace Kapua

namespace BlockPadding

/-- The number of padding bytes for a message of the given length. -/
def count (block length : ℕ) : ℕ := block - length % block

/-- A message followed by its padding. -/
def pad (block : ℕ) (message : Bytes) : Bytes :=
  message ++ List.replicate (count block message.length) (UInt8.ofNat (count block message.length))

/-- The message in front of the padding, `none` when there is no valid padding. -/
def unpad (block : ℕ) (padded : Bytes) : Option Bytes :=
  match padded.getLast? with
  | none => none
  | some last =>
    if padded.length % block = 0 ∧ last.toNat ≠ 0 ∧ last.toNat ≤ padded.length ∧
        padded.drop (padded.length - last.toNat) = List.replicate last.toNat last then
      some (padded.take (padded.length - last.toNat))
    else none

variable {block : ℕ}

theorem count_pos (hblock : 0 < block) (length : ℕ) : 0 < count block length :=
  Nat.sub_pos_of_lt (Nat.mod_lt length hblock)

theorem count_le (block length : ℕ) : count block length ≤ block := Nat.sub_le _ _

/-- A message and its padding fill whole blocks, one more than the message fills by itself. -/
theorem add_count (hblock : 0 < block) (length : ℕ) :
    length + count block length = (length / block + 1) * block := by
  have hlt := Nat.mod_lt length hblock
  have hdiv := Nat.div_add_mod' length block
  rw [count, Nat.add_mul, Nat.one_mul]
  omega

/-- A padded message is the next multiple of the block size. -/
theorem length_pad (hblock : 0 < block) (message : Bytes) :
    (pad block message).length = (message.length / block + 1) * block := by
  rw [← add_count hblock]
  simp [pad]

/-- Padding can be taken off again. Assumes: the block size fits a byte. -/
theorem unpad_pad (hblock : 0 < block) (hbyte : block < 256) (message : Bytes) :
    unpad block (pad block message) = some message := by
  have hpos := count_pos hblock message.length
  have hle := count_le block message.length
  have hcount : (UInt8.ofNat (count block message.length)).toNat = count block message.length := by
    simp only [UInt8.toNat_ofNat']
    exact Nat.mod_eq_of_lt (by omega)
  have hlast : (pad block message).getLast? = some (UInt8.ofNat (count block message.length)) := by
    rw [pad, List.getLast?_append, List.getLast?_replicate, if_neg hpos.ne']
    rfl
  have hwhole : (pad block message).length % block = 0 := by
    rw [length_pad hblock, Nat.mul_mod_left]
  have hfront : (pad block message).length - count block message.length = message.length := by
    simp [pad]
  have hroom : count block message.length ≤ (pad block message).length := by simp [pad]
  simp only [unpad, hlast, hcount, hfront]
  rw [if_pos ⟨hwhole, hpos.ne', hroom, by simp [pad]⟩]
  simp [pad]

end BlockPadding

end Kapua
