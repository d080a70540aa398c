import Kapua.Configuration.Parsers
import Mathlib.Data.List.TakeWhile
import Mathlib.Tactic.ByContra

/-!
# The numerals at the front of a text

`std::stoi` converts the numeral at the front of a text, where blanks and a sign may precede the
digits and anything may follow them (`Numeral`). It returns the value of that numeral if there is
one and an `int` has room for it (`stoi_eq_ok_iff`). A text of digits alone is one numeral
(`stoi_digits`).
-/

set_option autoImplicit false
set_option relaxedAutoImplicit false

namespace Kapua

/-! ### Digits -/

theorem digitValue_lt_ten_iff (c : Char) : digitValue c < 10 ↔ c.isDigit := by
  rw [Char.isDigit_iff_toNat]
  simp only [digitValue, Char.le_def, UInt32.le_iff_toNat_le]
  change (if 48 ≤ c.toNat ∧ c.toNat ≤ 57 then c.toNat - 48 else if 97 ≤ c.toNat ∧ c.toNat ≤ 102 then
    c.toNat - 97 + 10 else if 65 ≤ c.toNat ∧ c.toNat ≤ 70 then c.toNat - 65 + 10 else 16) < 10 ↔
    48 ≤ c.toNat ∧ c.toNat ≤ 57
  split_ifs <;> omega

/-- A digit is neither a blank nor a sign. -/
theorem not_isSpace_of_isDigit {c : Char} (hdigit : c.isDigit) : isSpace c = false := by
  rw [Char.isDigit_iff_toNat] at hdigit
  have hlow : 48 ≤ c.toNat := hdigit.1
  simp only [isSpace, Bool.or_eq_false_iff, beq_eq_false_iff_ne, Bool.and_eq_false_iff,
    decide_eq_false_iff_not, Char.le_def, UInt32.le_iff_toNat_le]
  refine ⟨fun heq ↦ ?_, .inr fun hle ↦ ?_⟩
  · subst heq
    exact absurd hlow (by decide)
  · have hle' : c.toNat ≤ 13 := hle
    omega

theorem ne_of_isDigit {c sign : Char} (hdigit : c.isDigit) (hsign : sign.isDigit = false) :
    c ≠ sign := by
  rintro rfl
  exact absurd hdigit (by simp [hsign])

/-- A text of decimal digits. -/
def AllDigits (text : List Char) : Prop := ∀ c ∈ text, c.isDigit

instance instDecidablePredAllDigits : DecidablePred AllDigits := fun text ↦
  decidable_of_iff (text.all Char.isDigit = true) List.all_eq_true

theorem allDigits_nil : AllDigits [] := fun _ hc ↦ absurd hc List.not_mem_nil

theorem allDigits_cons {c : Char} {text : List Char} :
    AllDigits (c :: text) ↔ c.isDigit ∧ AllDigits text := List.forall_mem_cons

/-- A text is a run of digits and what comes after it. -/
theorem exists_digits_append (text : List Char) : ∃ digits rest, text = digits ++ rest ∧
    AllDigits digits ∧ ∀ c ∈ rest.head?, c.isDigit = false := by
  refine ⟨text.takeWhile Char.isDigit, text.dropWhile Char.isDigit,
    List.takeWhile_append_dropWhile.symm, fun c hc ↦ List.mem_takeWhile_imp hc, fun c hc ↦ ?_⟩
  have hfirst := List.head?_dropWhile_not Char.isDigit text
  rw [Option.mem_def] at hc
  simpa [hc] using hfirst

/-- The digits in front of something else are the digits `std::stoi` takes. -/
theorem takeWhile_digits {digits rest : List Char} (hdigits : AllDigits digits)
    (hrest : ∀ c ∈ rest.head?, c.isDigit = false) :
    (digits ++ rest).takeWhile (fun c ↦ decide (digitValue c < 10)) = digits := by
  have htaken : ∀ c ∈ digits, decide (digitValue c < 10) := fun c hc ↦
    decide_eq_true ((digitValue_lt_ten_iff c).2 (hdigits c hc))
  rw [List.takeWhile_append_of_pos htaken]
  cases rest with
  | nil => simp
  | cons c rest =>
    have hc : c.isDigit = false := hrest c (by simp)
    have hnot : ¬ digitValue c < 10 := by simp [digitValue_lt_ten_iff, hc]
    rw [List.takeWhile_cons_of_neg (by simpa using hnot), List.append_nil]

/-! ### The numeral `std::stoi` finds -/

/-- A numeral at the front of a text: blanks, a sign or none, and the digits. -/
structure Numeral (text : List Char) where
  blanks : List Char
  sign : List Char
  digits : List Char
  rest : List Char
  text_eq : text = blanks ++ (sign ++ (digits ++ rest))
  isSpace_of_mem : ∀ c ∈ blanks, isSpace c
  sign_mem : sign ∈ [[], ['-'], ['+']]
  digits_ne_nil : digits ≠ []
  allDigits : AllDigits digits
  not_isDigit_head : ∀ c ∈ rest.head?, c.isDigit = false

/-- The number a numeral denotes. -/
def Numeral.value {text : List Char} (numeral : Numeral text) : ℤ :=
  if numeral.sign = ['-'] then -digitsValue 10 numeral.digits else digitsValue 10 numeral.digits

/-- An `int` has room for the number. -/
def FitsInt (value : ℤ) : Prop := -2147483648 ≤ value ∧ value ≤ 2147483647

instance instDecidablePredFitsInt : DecidablePred FitsInt := fun _ ↦
  inferInstanceAs (Decidable (_ ∧ _))

theorem toInt_ofInt_of_fitsInt {value : ℤ} (hfits : FitsInt value) :
    (Int32.ofInt value).toInt = value := by
  rw [Int32.toInt_ofInt_of_le] <;> simp only [FitsInt] at hfits <;> omega

/-- `std::stoi` finds the numeral at the front of the text. -/
theorem scanNumeral_of_numeral {text : List Char} (numeral : Numeral text) :
    scanNumeral 10 text = some (numeral.sign == ['-'], digitsValue 10 numeral.digits) := by
  obtain ⟨blanks, sign, digits, rest, rfl, hblanks, hsign, hne, hdigits, hrest⟩ := numeral
  obtain ⟨d, ds, rfl⟩ := List.exists_cons_of_ne_nil hne
  have hd : d.isDigit := hdigits d (by simp)
  have hblank : isSpace d = false := not_isSpace_of_isDigit hd
  have hminus : d ≠ '-' := ne_of_isDigit hd (by decide)
  have hplus : d ≠ '+' := ne_of_isDigit hd (by decide)
  have htaken := takeWhile_digits hdigits hrest
  rw [List.cons_append] at htaken
  simp only [List.mem_cons, List.not_mem_nil, or_false] at hsign
  simp only [scanNumeral, List.dropWhile_append_of_pos hblanks, show ¬ (10 = 16) by decide,
    if_false]
  rcases hsign with rfl | rfl | rfl
  · simp [hblank, hminus, hplus, htaken]
  · simp [isSpace, htaken]
  · simp [isSpace, htaken]

/-- Where `std::stoi` finds a numeral there is one at the front of the text. -/
theorem exists_numeral_of_scanNumeral {text : List Char} {found : Bool × ℕ}
    (hscan : scanNumeral 10 text = some found) : Nonempty (Numeral text) := by
  have hblanks : ∀ c ∈ text.takeWhile isSpace, isSpace c := fun c hc ↦ List.mem_takeWhile_imp hc
  have htext : text = text.takeWhile isSpace ++ text.dropWhile isSpace :=
    List.takeWhile_append_dropWhile.symm
  generalize hafter : text.dropWhile isSpace = after at htext
  -- The sign is the first character after the blanks, if it is one.
  have hsigned : ∃ sign tail, after = sign ++ tail ∧ sign ∈ [[], ['-'], ['+']] ∧
      tail = if after.head? == some '-' || after.head? == some '+' then after.tail else after := by
    rcases after with _ | ⟨c, after⟩
    · exact ⟨[], [], rfl, by simp, rfl⟩
    · by_cases hc : c = '-' ∨ c = '+'
      · exact ⟨[c], after, rfl, by rcases hc with rfl | rfl <;> simp,
          by rcases hc with rfl | rfl <;> simp⟩
      · obtain ⟨hminus, hplus⟩ := not_or.1 hc
        exact ⟨[], c :: after, rfl, by simp, by simp [hminus, hplus]⟩
  obtain ⟨sign, tail, hsplit, hsign, htail⟩ := hsigned
  obtain ⟨digits, rest, hrun, hdigits, hrest⟩ := exists_digits_append tail
  refine ⟨⟨text.takeWhile isSpace, sign, digits, rest, ?_, hblanks, hsign, ?_, hdigits, hrest⟩⟩
  · rw [← hrun, ← hsplit, ← htext]
  · rintro rfl
    have htaken : tail.takeWhile (fun c ↦ decide (digitValue c < 10)) = [] := by
      rw [hrun]
      exact takeWhile_digits allDigits_nil hrest
    simp only [scanNumeral, hafter, show ¬ (10 = 16) by decide, if_false, ← htail, htaken] at hscan
    simp at hscan

/-- What `std::stoi` returns for a text with a numeral at its front. -/
theorem stoi_of_numeral {text : List Char} (numeral : Numeral text) :
    stoi text = if FitsInt numeral.value then .ok (Int32.ofInt numeral.value)
      else .error (.outOfRange "stoi") := by
  have hvalue : (if (numeral.sign == ['-']) = true then -(digitsValue 10 numeral.digits : ℤ)
      else digitsValue 10 numeral.digits) = numeral.value := by
    simp only [Numeral.value, beq_iff_eq]
  unfold stoi
  rw [scanNumeral_of_numeral numeral]
  dsimp only
  rw [hvalue]
  exact if_congr Iff.rfl rfl rfl

/-- `std::stoi` returns a number exactly if the text has a numeral at its front whose value an `int`
has room for, and then it returns that value. -/
theorem stoi_eq_ok_iff {text : List Char} {n : Int32} : stoi text = .ok n ↔
    ∃ numeral : Numeral text, FitsInt numeral.value ∧ n = Int32.ofInt numeral.value := by
  constructor
  · intro hconverted
    obtain ⟨found, hscan⟩ : ∃ found, scanNumeral 10 text = some found := by
      cases hscan : scanNumeral 10 text with
      | none => simp [stoi, hscan] at hconverted
      | some found => exact ⟨found, rfl⟩
    obtain ⟨numeral⟩ := exists_numeral_of_scanNumeral hscan
    rw [stoi_of_numeral numeral] at hconverted
    split_ifs at hconverted with hfits
    exact ⟨numeral, hfits, (Except.ok.inj hconverted).symm⟩
  · rintro ⟨numeral, hfits, rfl⟩
    rw [stoi_of_numeral numeral, if_pos hfits]

/-- A text of digits is a numeral of its own. -/
def Numeral.ofDigits {digits : List Char} (hne : digits ≠ []) (hdigits : AllDigits digits) :
    Numeral digits where
  blanks := []
  sign := []
  digits := digits
  rest := []
  text_eq := by simp
  isSpace_of_mem := by simp
  sign_mem := by simp
  digits_ne_nil := hne
  allDigits := hdigits
  not_isDigit_head := by simp

theorem Numeral.value_ofDigits {digits : List Char} (hne : digits ≠ [])
    (hdigits : AllDigits digits) :
    (Numeral.ofDigits hne hdigits).value = digitsValue 10 digits := by
  simp [Numeral.ofDigits, Numeral.value]

/-- What `std::stoi` makes of a run of digits. -/
theorem stoi_digits {digits : List Char} (hne : digits ≠ []) (hdigits : AllDigits digits) :
    stoi digits = if digitsValue 10 digits ≤ 2147483647 then
      .ok (Int32.ofInt (digitsValue 10 digits)) else .error (.outOfRange "stoi") := by
  rw [stoi_of_numeral (Numeral.ofDigits hne hdigits), Numeral.value_ofDigits]
  have hfits : FitsInt (digitsValue 10 digits) ↔ digitsValue 10 digits ≤ 2147483647 := by
    simp only [FitsInt]
    omega
  simp only [hfits]

end Kapua
