import Kapua.Configuration.Numerals
import Mathlib.Algebra.Order.Ring.Nat
import Mathlib.Data.List.Induction

/-!
# Node ids as texts

`to_hex64_str` prints a node id as `0x` and sixteen hexadecimal digits, and `parse_hex_uint64` reads
such a text, with or without the prefix and in either case. The two are inverse
(`parseHexUint64_inverse`): what is printed is read back, and what is read is printed as the same
digits in lower case. Both rest on one fact about runs of digits: a number printed and padded to the
length of a run that denotes it is that run in lower case (`leftpad_toDigits_digitsValue`).
-/

set_option autoImplicit false
set_option relaxedAutoImplicit false

namespace Kapua

/-- `Util::to_hex64_str`: the number follows the prefix, filled up with zeros to a width of 16. -/
def Util.toHex64Str (val : UInt64) : String :=
  "0x" ++ String.ofList (List.leftpad 16 '0' (Nat.toDigits 16 val.toNat))

/-! ### Hexadecimal digits -/

/-- A property of the hexadecimal digits can be checked on their codes. -/
theorem forall_isXDigit {p : Char → Prop}
    (hcodes : ∀ code < 128, isXDigit (Char.ofNat code) → p (Char.ofNat code)) {c : Char}
    (hc : isXDigit c) : p c := by
  have hcode : c.toNat < 128 := by
    simp only [isXDigit, digitValue, Char.le_def, UInt32.le_iff_toNat_le, decide_eq_true_eq] at hc
    change (if 48 ≤ c.toNat ∧ c.toNat ≤ 57 then c.toNat - 48
      else if 97 ≤ c.toNat ∧ c.toNat ≤ 102 then c.toNat - 97 + 10
      else if 65 ≤ c.toNat ∧ c.toNat ≤ 70 then c.toNat - 65 + 10 else 16) < 16 at hc
    split_ifs at hc <;> omega
  have hchar : Char.ofNat c.toNat = c := Char.ofNat_toNat c
  rw [← hchar] at hc ⊢
  exact hcodes c.toNat hcode hc

/-- Neither case changes the value of a digit. -/
theorem digitValue_toLower (c : Char) : digitValue c.toLower = digitValue c := by
  by_cases hcode : c.toNat < 128
  · have hcodes : ∀ code < 128,
        digitValue (Char.ofNat code).toLower = digitValue (Char.ofNat code) := by
      decide
    have hchar : Char.ofNat c.toNat = c := Char.ofNat_toNat c
    rw [← hchar]
    exact hcodes c.toNat hcode
  · have hlower : c.toLower = c := by
      unfold Char.toLower
      rw [dif_neg]
      rintro ⟨-, hupper⟩
      have hupper' : c.toNat ≤ 90 := hupper
      omega
    rw [hlower]

theorem isXDigit_toLower (c : Char) : isXDigit c.toLower = isXDigit c := by
  unfold isXDigit
  rw [digitValue_toLower]

theorem digitChar_digitValue {c : Char} (hc : isXDigit c) :
    (digitValue c).digitChar = c.toLower :=
  forall_isXDigit (p := fun c ↦ (digitValue c).digitChar = c.toLower) (by decide) hc

theorem digitValue_digitChar {d : ℕ} (hd : d < 16) : digitValue d.digitChar = d := by
  have hall : ∀ d < 16, digitValue d.digitChar = d := by decide
  exact hall d hd

/-- A digit is neither a blank nor a sign nor the letter of the prefix. -/
theorem isXDigit_ne {c : Char} (hc : isXDigit c) :
    isSpace c = false ∧ c ≠ '-' ∧ c ≠ '+' ∧ c ≠ 'x' ∧ c ≠ 'X' :=
  forall_isXDigit (p := fun c ↦ isSpace c = false ∧ c ≠ '-' ∧ c ≠ '+' ∧ c ≠ 'x' ∧ c ≠ 'X')
    (by decide) hc

/-! ### Runs of digits -/

theorem digitsValue_concat (base : ℕ) (digits : List Char) (c : Char) :
    digitsValue base (digits ++ [c]) = digitsValue base digits * base + digitValue c := by
  simp [digitsValue]

theorem digitsValue_map_toLower (base : ℕ) (digits : List Char) :
    digitsValue base (digits.map Char.toLower) = digitsValue base digits := by
  simp only [digitsValue, List.foldl_map, digitValue_toLower]

/-- Zeros in front of a number do not change it. -/
theorem digitsValue_leftpad (base width : ℕ) (digits : List Char) :
    digitsValue base (List.leftpad width '0' digits) = digitsValue base digits := by
  have hzeros : ∀ count, (List.replicate count '0').foldl
      (fun value c ↦ value * base + digitValue c) 0 = 0 := by
    intro count
    induction count with
    | zero => rfl
    | succ count ih =>
      have hzero : digitValue '0' = 0 := by decide
      simpa [List.replicate_succ, hzero] using ih
  simp only [digitsValue, List.leftpad, List.foldl_append, hzeros]

/-- Digits denote a number that they have room for. -/
theorem digitsValue_lt (base : ℕ) {digits : List Char}
    (hdigits : ∀ c ∈ digits, digitValue c < base) :
    digitsValue base digits < base ^ digits.length := by
  induction digits using List.reverseRecOn with
  | nil => simp [digitsValue]
  | append_singleton digits c ih =>
    have hc : digitValue c < base := hdigits c (by simp)
    have hfront : digitsValue base digits < base ^ digits.length :=
      ih fun c hc ↦ hdigits c (by simp [hc])
    rw [digitsValue_concat, List.length_append, List.length_singleton, Nat.pow_succ]
    calc digitsValue base digits * base + digitValue c
        < digitsValue base digits * base + base := Nat.add_lt_add_left hc _
      _ = (digitsValue base digits + 1) * base := (Nat.succ_mul _ _).symm
      _ ≤ base ^ digits.length * base := Nat.mul_le_mul_right _ hfront

/-- The digits of a number denote it. -/
theorem digitsValue_toDigits (n : ℕ) : digitsValue 16 (Nat.toDigits 16 n) = n := by
  induction n using Nat.strong_induction_on with
  | _ n ih =>
    rw [Nat.toDigits_eq_if (by decide)]
    split_ifs with hsmall
    · simp [digitsValue, digitValue_digitChar hsmall]
    · have hlast : digitValue (n % 16).digitChar = n % 16 :=
        digitValue_digitChar (Nat.mod_lt _ (by decide))
      rw [digitsValue_concat, ih (n / 16) (by omega), hlast]
      omega

/-- The digits of a number are hexadecimal digits. -/
theorem isXDigit_of_mem_toDigits {n : ℕ} {c : Char} (hc : c ∈ Nat.toDigits 16 n) :
    isXDigit c := by
  have hdigit : ∀ d < 16, isXDigit d.digitChar := by decide
  induction n using Nat.strong_induction_on with
  | _ n ih =>
    rw [Nat.toDigits_eq_if (by decide)] at hc
    split_ifs at hc with hsmall
    · rw [List.mem_singleton] at hc
      exact hc ▸ hdigit n hsmall
    · rcases List.mem_append.1 hc with hfront | hlast
      · exact ih (n / 16) (by omega) hfront
      · rw [List.mem_singleton] at hlast
        exact hlast ▸ hdigit (n % 16) (Nat.mod_lt _ (by decide))

/-- A last element is not touched by the padding. -/
theorem leftpad_concat {α : Type} (width : ℕ) (a x : α) (l : List α) :
    List.leftpad (width + 1) a (l ++ [x]) = List.leftpad width a l ++ [x] := by
  simp [List.leftpad]

/-- Padding with zeros hides the zero of an empty number. -/
theorem leftpad_zero {width : ℕ} (hwidth : 0 < width) :
    List.leftpad width '0' [] = List.leftpad width '0' ['0'] := by
  obtain ⟨width, rfl⟩ := Nat.exists_eq_add_one_of_ne_zero hwidth.ne'
  simp [List.leftpad, List.replicate_succ']

/-- A number printed and padded to the length of a run of digits that denotes it is that run in
lower case. -/
theorem leftpad_toDigits_digitsValue {digits : List Char} (hne : digits ≠ [])
    (hdigits : ∀ c ∈ digits, isXDigit c) :
    List.leftpad digits.length '0' (Nat.toDigits 16 (digitsValue 16 digits)) =
      digits.map Char.toLower := by
  induction digits using List.reverseRecOn with
  | nil => exact absurd rfl hne
  | append_singleton digits c ih =>
    have hc : isXDigit c := hdigits c (by simp)
    have hsmall : digitValue c < 16 := by simpa [isXDigit] using hc
    have hfront : ∀ c ∈ digits, isXDigit c := fun c hc ↦ hdigits c (by simp [hc])
    rw [digitsValue_concat, List.length_append, List.length_singleton, List.map_append,
      List.map_singleton, ← digitChar_digitValue hc]
    by_cases hzero : digitsValue 16 digits = 0
    · -- The number has one digit, and the padding supplies the zeros in front of it.
      have hone : Nat.toDigits 16 (0 * 16 + digitValue c) = [] ++ [(digitValue c).digitChar] := by
        rw [Nat.zero_mul, Nat.zero_add, Nat.toDigits_of_lt_base hsmall]
        rfl
      rw [hzero, hone, leftpad_concat]
      by_cases hempty : digits = []
      · subst hempty
        rfl
      · rw [leftpad_zero (List.length_pos_iff.2 hempty), ← ih hempty hfront, hzero,
          Nat.toDigits_zero]
    · have hempty : digits ≠ [] := by
        rintro rfl
        exact hzero rfl
      have hmany : Nat.toDigits 16 (digitsValue 16 digits * 16 + digitValue c) =
          Nat.toDigits 16 (digitsValue 16 digits) ++ [(digitValue c).digitChar] := by
        rw [Nat.toDigits_of_base_le (by decide) (by omega)]
        have hquotient :
            (digitsValue 16 digits * 16 + digitValue c) / 16 = digitsValue 16 digits := by
          omega
        have hremainder : (digitsValue 16 digits * 16 + digitValue c) % 16 = digitValue c := by
          omega
        rw [hquotient, hremainder]
      rw [hmany, leftpad_concat, ih hempty hfront]

/-! ### The two functions -/

/-- What `std::stoull` makes of up to sixteen hexadecimal digits. -/
theorem stoull_hexDigits {digits : List Char} (hne : digits ≠ [])
    (hdigits : ∀ c ∈ digits, isXDigit c) (hlength : digits.length ≤ 16) :
    stoull 16 digits = .ok (UInt64.ofNat (digitsValue 16 digits)) := by
  have hsmall : ∀ c ∈ digits, digitValue c < 16 := fun c hc ↦ by simpa [isXDigit] using hdigits c hc
  have hbound : digitsValue 16 digits < 18446744073709551616 :=
    calc digitsValue 16 digits < 16 ^ digits.length := digitsValue_lt 16 hsmall
      _ ≤ 16 ^ 16 := Nat.pow_le_pow_right (by decide) hlength
  have htaken : digits.takeWhile (fun c ↦ decide (digitValue c < 16)) = digits :=
    List.takeWhile_eq_self_iff.2 fun c hc ↦ decide_eq_true (hsmall c hc)
  have hprefix : dropHexPrefix digits = digits := by
    unfold dropHexPrefix
    split
    · rename_i x c rest
      have hx : isXDigit x := hdigits x (by simp)
      obtain ⟨-, -, -, hlower, hupper⟩ := isXDigit_ne hx
      simp [hlower, hupper]
    · rfl
  have hscan : scanNumeral 16 digits = some (false, digitsValue 16 digits) := by
    obtain ⟨c, rest, rfl⟩ := List.exists_cons_of_ne_nil hne
    obtain ⟨hspace, hminus, hplus, -, -⟩ := isXDigit_ne (hdigits c (by simp))
    simp [scanNumeral, hspace, hminus, hplus, hprefix, htaken]
  simp [stoull, hscan, hbound]

namespace Config

variable {source name input : String}

/-- A text without the prefix `0x`, if it has one. -/
def withoutPrefix (input : String) : List Char :=
  if input.toList.take 2 = ['0', 'x'] then input.toList.drop 2 else input.toList

/-- The texts of node ids: sixteen hexadecimal digits of either case, with or without the prefix. -/
def IsNodeId (input : String) : Prop :=
  (withoutPrefix input).length = 16 ∧ ∀ c ∈ withoutPrefix input, isXDigit c

/-- `parse_hex_uint64` stores the number of the digits of a node id. -/
theorem parseHexUint64_of_isNodeId (hid : IsNodeId input) : parseHexUint64 source name input =
    ⟨[], some (UInt64.ofNat (digitsValue 16 (withoutPrefix input))), .ok true⟩ := by
  obtain ⟨hlength, hdigits⟩ := hid
  have hlower : ∀ c ∈ (withoutPrefix input).map Char.toLower, isXDigit c := by
    intro c hc
    obtain ⟨c, hmem, rfl⟩ := List.mem_map.1 hc
    rw [isXDigit_toLower]
    exact hdigits c hmem
  have hne : (withoutPrefix input).map Char.toLower ≠ [] := by
    intro hnil
    rw [List.map_eq_nil_iff] at hnil
    simp [hnil] at hlength
  have hvalue := stoull_hexDigits hne hlower (by simp [hlength])
  rw [digitsValue_map_toLower] at hvalue
  have hchecked : ¬ (((withoutPrefix input).map Char.toLower).length ≠ 16 ∨
      ¬ ((withoutPrefix input).map Char.toLower).all isXDigit) := by
    simpa [hlength] using hlower
  refine (if_neg hchecked).trans ?_
  unfold withoutPrefix at hvalue ⊢
  rw [hvalue]

/-- `parse_hex_uint64` returns false for every other text. -/
theorem parseHexUint64_of_not_isNodeId (hid : ¬ IsNodeId input) :
    (parseHexUint64 source name input).verdict = .ok false ∧
      (parseHexUint64 source name input).stored = none := by
  have hrejected : ((withoutPrefix input).map Char.toLower).length ≠ 16 ∨
      ¬ ((withoutPrefix input).map Char.toLower).all isXDigit := by
    by_contra hgood
    refine hid ?_
    simpa [IsNodeId, isXDigit_toLower] using hgood
  have hparsed : parseHexUint64 source name input =
      ⟨["(" ++ source ++ ") " ++ name ++ " - invalid format: " ++ input ++
        " - must be a valid 64-bit hex number"], none, .ok false⟩ := if_pos hrejected
  rw [hparsed]
  exact ⟨rfl, rfl⟩

/-- A printed number is a node id, and its digits denote the number. -/
theorem withoutPrefix_toHex64Str (val : UInt64) : IsNodeId (Util.toHex64Str val) ∧
    digitsValue 16 (withoutPrefix (Util.toHex64Str val)) = val.toNat := by
  have hprinted : withoutPrefix (Util.toHex64Str val) =
      List.leftpad 16 '0' (Nat.toDigits 16 val.toNat) := by
    simp [withoutPrefix, Util.toHex64Str]
  have hshort : (Nat.toDigits 16 val.toNat).length ≤ 16 :=
    (Nat.length_toDigits_le_iff (by decide) (by decide)).2 val.toNat_lt
  unfold IsNodeId
  rw [hprinted]
  refine ⟨⟨?_, fun c hc ↦ ?_⟩, ?_⟩
  · simp only [List.leftpad, List.length_append, List.length_replicate]
    omega
  · rcases List.mem_append.1 hc with hzero | hdigit
    · rw [List.eq_of_mem_replicate hzero]
      decide
    · exact isXDigit_of_mem_toDigits hdigit
  · rw [digitsValue_leftpad, digitsValue_toDigits]

/-- The number of a node id prints as its digits in lower case. -/
theorem toHex64Str_of_isNodeId (hid : IsNodeId input) :
    Util.toHex64Str (UInt64.ofNat (digitsValue 16 (withoutPrefix input))) =
      "0x" ++ String.ofList ((withoutPrefix input).map Char.toLower) := by
  obtain ⟨hlength, hdigits⟩ := hid
  have hne : withoutPrefix input ≠ [] := by
    intro hnil
    simp [hnil] at hlength
  have hsmall : ∀ c ∈ withoutPrefix input, digitValue c < 16 :=
    fun c hc ↦ by simpa [isXDigit] using hdigits c hc
  have hbound : digitsValue 16 (withoutPrefix input) < 2 ^ 64 := by
    simpa [hlength] using digitsValue_lt 16 hsmall
  have hprinted := leftpad_toDigits_digitsValue hne hdigits
  rw [hlength] at hprinted
  have hback : (UInt64.ofNat (digitsValue 16 (withoutPrefix input))).toNat =
      digitsValue 16 (withoutPrefix input) := UInt64.toNat_ofNat_of_lt' hbound
  rw [Util.toHex64Str, hback, hprinted]

/-- Printing and parsing node ids are inverse. `parse_hex_uint64` reads what `to_hex64_str` prints;
it returns true exactly for the texts of node ids, whose number prints as their digits in lower
case, and for every other text it returns false and stores nothing. -/
theorem parseHexUint64_inverse :
    (∀ source name (val : UInt64),
      (parseHexUint64 source name (Util.toHex64Str val)).verdict = .ok true ∧
        (parseHexUint64 source name (Util.toHex64Str val)).stored = some val) ∧
    ∀ source name input,
      ((parseHexUint64 source name input).verdict = .ok true ↔ IsNodeId input) ∧
      (IsNodeId input → ∃ val, (parseHexUint64 source name input).stored = some val ∧
        Util.toHex64Str val = "0x" ++ String.ofList ((withoutPrefix input).map Char.toLower)) ∧
      (¬ IsNodeId input → (parseHexUint64 source name input).verdict = .ok false ∧
        (parseHexUint64 source name input).stored = none) := by
  refine ⟨fun source name val ↦ ?_, fun source name input ↦ ⟨⟨fun htrue ↦ ?_, fun hid ↦ ?_⟩,
    fun hid ↦ ?_, fun hid ↦ parseHexUint64_of_not_isNodeId hid⟩⟩
  · obtain ⟨hid, hvalue⟩ := withoutPrefix_toHex64Str val
    rw [parseHexUint64_of_isNodeId hid, hvalue]
    exact ⟨rfl, congrArg some UInt64.ofNat_toNat⟩
  · by_contra hid
    have hfalse : (parseHexUint64 source name input).verdict = .ok false :=
      (parseHexUint64_of_not_isNodeId hid).1
    rw [htrue] at hfalse
    exact absurd (Except.ok.inj hfalse) (by decide)
  · rw [parseHexUint64_of_isNodeId hid]
  · exact ⟨_, congrArg Parsed.stored (parseHexUint64_of_isNodeId hid), toHex64Str_of_isNodeId hid⟩

end Config

end Kapua
