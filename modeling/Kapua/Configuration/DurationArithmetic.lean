import Kapua.Configuration.Durations

/-!
# The arithmetic of a duration

`parse_duration` multiplies and adds in the type `int`. All that it computes for a duration is not
negative and at most the sum it has reached, so that what it computes is in range exactly if the
last sum is: the sum of the terms in front of the first number that `std::stoi` cannot convert
(`computed_fit_iff`). Exactly then is the result never wrong (`parseDuration_neverWrong_iff`):
either it is the exact sum, or `std::stoi` throws, and the exact sum is out of range as well.
-/

set_option autoImplicit false
set_option relaxedAutoImplicit false

namespace Kapua

/-! ### What is computed -/

/-- The exact values of the products the scanner forms for a unit. -/
def TimeUnit.products : TimeUnit → ℤ → List ℤ
  | hour, n => [n * 60, n * 60 * 60, n * 60 * 60 * 1000]
  | minute, n => [n * 60, n * 60 * 1000]
  | second, n => [n * 1000]

/-- The exact values of all products and running sums that the scanner forms for a sequence of
terms. It stops at a number that `std::stoi` does not convert. -/
def computed (sum : ℤ) : List DurationTerm → List ℤ
  | [] => []
  | term :: terms =>
    if term.Converts then
      term.unit.products term.number ++
        (sum + term.milliseconds) :: computed (sum + term.milliseconds) terms
    else []

/-- The terms in front of the first number that `std::stoi` does not convert. -/
def convertedTerms (terms : List DurationTerm) : List DurationTerm :=
  terms.takeWhile fun term ↦ decide term.Converts

variable {terms : List DurationTerm}

/-- No term takes longer than all of them together. -/
theorem milliseconds_le_total {term : DurationTerm} (hterm : term ∈ terms) :
    term.milliseconds ≤ total terms := by
  induction terms with
  | nil => exact absurd hterm List.not_mem_nil
  | cons head terms ih =>
    rw [total]
    rcases List.mem_cons.1 hterm with rfl | hterm
    · exact Nat.le_add_right _ _
    · exact Nat.le_add_left_of_le (ih hterm)

/-- The last of the products is the largest, and it is the time the term stands for. -/
theorem products_fit_iff (term : DurationTerm) :
    (∀ value ∈ term.unit.products term.number, FitsInt value) ↔ term.milliseconds ≤ 2147483647 := by
  unfold DurationTerm.milliseconds
  cases term.unit <;>
    simp only [TimeUnit.products, TimeUnit.milliseconds, FitsInt, List.forall_mem_cons,
      List.not_mem_nil, false_implies, implies_true, and_true] <;>
    omega

/-- The sums grow, so that all that is computed is in range exactly if the last sum is. -/
theorem computed_fit_iff (sum : ℕ) (hsum : sum ≤ 2147483647) :
    (∀ value ∈ computed sum terms, FitsInt value) ↔
      sum + total (convertedTerms terms) ≤ 2147483647 := by
  induction terms generalizing sum with
  | nil => simpa [computed, convertedTerms, total] using hsum
  | cons term terms ih =>
    by_cases hconverts : term.Converts
    · have hnext : (sum : ℤ) + term.milliseconds = (sum + term.milliseconds : ℕ) := by simp
      have hfits : FitsInt ((sum + term.milliseconds : ℕ) : ℤ) ↔
          sum + term.milliseconds ≤ 2147483647 := by
        simp only [FitsInt]
        omega
      simp only [computed, hconverts, if_true, List.forall_mem_append, List.forall_mem_cons, hnext,
        products_fit_iff, hfits]
      have htotal : total (convertedTerms (term :: terms)) =
          term.milliseconds + total (convertedTerms terms) := by
        simp [convertedTerms, hconverts, total]
      rw [htotal, ← Nat.add_assoc]
      constructor
      · rintro ⟨-, hreached, hlater⟩
        exact (ih _ hreached).1 hlater
      · intro hall
        have hreached : sum + term.milliseconds ≤ 2147483647 := by omega
        exact ⟨by omega, hreached, (ih _ hreached).2 hall⟩
    · simpa [computed, convertedTerms, hconverts, total] using hsum

/-! ### The result -/

namespace Config

/-- A product that wraps is still the exact product modulo `2 ^ 32`. -/
theorem multiply_ofInt (unit : TimeUnit) (n : ℤ) :
    unit.multiply (Int32.ofInt n) = Int32.ofInt (n * unit.milliseconds) := by
  cases unit with
  | hour =>
    have hsplit : n * (TimeUnit.hour.milliseconds : ℤ) = n * 60 * 60 * 1000 := by
      simp only [TimeUnit.milliseconds]
      omega
    rw [hsplit]
    simp only [Int32.ofInt_mul]
    rfl
  | minute =>
    have hsplit : n * (TimeUnit.minute.milliseconds : ℤ) = n * 60 * 1000 := by
      simp only [TimeUnit.milliseconds]
      omega
    rw [hsplit]
    simp only [Int32.ofInt_mul]
    rfl
  | second =>
    simp only [Int32.ofInt_mul, TimeUnit.milliseconds]
    rfl

/-- What the terms add to a sum is the exact sum modulo `2 ^ 32`, unless `std::stoi` throws. -/
theorem addTerms_ofInt (sum : ℕ) : addTerms (Int32.ofInt sum) terms =
    if ∀ term ∈ terms, term.Converts then .ok (Int32.ofInt (sum + total terms : ℕ))
    else .error (.outOfRange "stoi") := by
  induction terms generalizing sum with
  | nil => simp [addTerms, total]
  | cons term terms ih =>
    by_cases hconverts : term.Converts
    · have hstep : Int32.ofInt sum + term.unit.multiply (Int32.ofInt term.number) =
          Int32.ofInt (sum + term.milliseconds : ℕ) := by
        rw [multiply_ofInt, ← Int32.ofInt_add]
        simp [DurationTerm.milliseconds]
      rw [addTerms, if_pos hconverts, hstep, ih, total, Nat.add_assoc]
      simp only [List.forall_mem_cons, hconverts, true_and]
    · simp [addTerms, hconverts]

/-- A number that `std::stoi` does not convert makes the sum leave the range. -/
theorem not_fitsInt_total (hconvert : ¬ ∀ term ∈ terms, term.Converts) :
    ¬ FitsInt (total terms) := by
  have hsome : ∃ term ∈ terms, ¬ term.Converts := by
    simpa only [not_forall, exists_prop] using hconvert
  obtain ⟨term, hterm, hconverts⟩ := hsome
  have hnumber : 2147483647 < term.number := not_le.1 hconverts
  have hunit : 0 < term.unit.milliseconds := by cases term.unit <;> decide
  have hlarge : 2147483647 < total terms :=
    calc 2147483647 < term.number := hnumber
      _ ≤ term.milliseconds := Nat.le_mul_of_pos_right _ hunit
      _ ≤ total terms := milliseconds_le_total hterm
  simp only [FitsInt]
  omega

/-- The input that a sequence of terms is written as. -/
def termsInput (terms : List DurationTerm) : List UInt8 := utf8 (String.ofList (termsText terms))

theorem chars_termsInput : chars (termsInput terms) = termsText terms :=
  chars_utf8 fun _ hc ↦ ascii_of_mem_termsText hc

/-- What `parse_duration` makes of a sequence of terms: the exact sum modulo `2 ^ 32`, or the
exception of `std::stoi`. -/
theorem parseDuration_termsInput (source name : String) (allowNegative : Bool)
    (terms : List DurationTerm) :
    parseDuration source name (termsInput terms) allowNegative =
      if ∀ term ∈ terms, term.Converts then ⟨[], some (Int32.ofInt (total terms)), .ok true⟩
      else ⟨[], none, .error (.outOfRange "stoi")⟩ := by
  have hsum : addTerms 0 terms = if ∀ term ∈ terms, term.Converts then
      .ok (Int32.ofInt (0 + total terms : ℕ)) else .error (.outOfRange "stoi") := addTerms_ofInt 0
  rw [parseDuration_terms chars_termsInput, hsum, Nat.zero_add]
  split_ifs <;> rfl

/-- `parse_duration` gives no wrong number for a sequence of terms: no product and no running sum
leaves the range of `int`, and either it returns true and stores the exact sum, or the exact sum is
out of range and it reports failure, by its verdict or by an exception, and stores nothing. -/
def NeverWrong (source name : String) (allowNegative : Bool) (terms : List DurationTerm) : Prop :=
  let parsed := parseDuration source name (termsInput terms) allowNegative
  (∀ value ∈ computed 0 terms, FitsInt value) ∧
    ((∃ ms, parsed.verdict = .ok true ∧ parsed.stored = some ms ∧ ms.toInt = total terms) ∨
      (¬ FitsInt (total terms) ∧ parsed.verdict ≠ .ok true ∧ parsed.stored = none))

/-- `parse_duration` gives no wrong number exactly for the durations whose terms in front of the
first number that `std::stoi` cannot convert add up to at most the largest `int`. -/
theorem parseDuration_neverWrong_iff (source name : String) (allowNegative : Bool)
    (terms : List DurationTerm) :
    NeverWrong source name allowNegative terms ↔ total (convertedTerms terms) ≤ 2147483647 := by
  have hcomputed : (∀ value ∈ computed 0 terms, FitsInt value) ↔
      total (convertedTerms terms) ≤ 2147483647 := by
    simpa using computed_fit_iff 0 (by omega)
  constructor
  · rintro ⟨hfit, -⟩
    exact hcomputed.1 hfit
  · intro hbound
    refine ⟨hcomputed.2 hbound, ?_⟩
    rw [parseDuration_termsInput]
    by_cases hconvert : ∀ term ∈ terms, term.Converts
    · have hall : convertedTerms terms = terms :=
        List.takeWhile_eq_self_iff.2 fun term hterm ↦ decide_eq_true (hconvert term hterm)
      have hfits : FitsInt (total terms) := by
        rw [hall] at hbound
        simp only [FitsInt]
        omega
      rw [if_pos hconvert]
      exact .inl ⟨_, rfl, rfl, toInt_ofInt_of_fitsInt hfits⟩
    · rw [if_neg hconvert]
      exact .inr ⟨not_fitsInt_total hconvert, by simp, rfl⟩

/-- `597h` is a duration that `parse_duration` stores as a negative number. -/
theorem parseDuration_wraps :
    ¬ ∀ source name allowNegative (terms : List DurationTerm), terms ≠ [] →
      NeverWrong source name allowNegative terms := by
  intro hnever
  let term : DurationTerm := ⟨['5', '9', '7'], .hour, by decide, by decide⟩
  obtain ⟨-, hresult⟩ := hnever "yaml" "local_discovery.interval" false [term] (by simp)
  have hstored : parseDuration "yaml" "local_discovery.interval"
      (termsInput [term]) false = ⟨[], some (-2145767296), .ok true⟩ := by
    have htotal : Int32.ofInt (total [term]) = -2145767296 := by decide +kernel
    have hconverts : ∀ term' ∈ [term], term'.Converts := by decide +kernel
    rw [parseDuration_termsInput, if_pos hconverts, htotal]
  rw [hstored] at hresult
  rcases hresult with ⟨ms, -, hms, hexact⟩ | ⟨-, hreported, -⟩
  · cases hms
    exact absurd hexact (by decide)
  · exact hreported rfl

end Config

end Kapua
