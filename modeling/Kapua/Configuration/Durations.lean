import Kapua.Configuration.Numerals

/-!
# Durations

A duration is a non-empty sequence of terms, each a run of decimal digits and a unit
(`IsDuration`). `parse_duration` returns false for the texts of `TurnedDown` and for no others
(`parseDuration_verdict_eq_false_iff`); every other text that is not a duration it accepts or throws
on, so that it keeps to its format exactly on the durations and those texts
(`parseDuration_keepsFormat_iff`).
-/

set_option autoImplicit false
set_option relaxedAutoImplicit false

namespace Kapua

/-! ### The format -/

/-- The units of a duration. -/
inductive TimeUnit
  | hour
  | minute
  | second
  deriving DecidableEq, Repr

namespace TimeUnit

/-- The character of a unit. -/
def char : TimeUnit → Char
  | hour => 'h'
  | minute => 'm'
  | second => 's'

/-- A unit in milliseconds. -/
def milliseconds : TimeUnit → ℕ
  | hour => 3600000
  | minute => 60000
  | second => 1000

/-- The product the scanner forms for a unit. -/
def multiply : TimeUnit → Int32 → Int32
  | hour => fun n ↦ n * 60 * 60 * 1000
  | minute => fun n ↦ n * 60 * 1000
  | second => fun n ↦ n * 1000

theorem not_isDigit_char (unit : TimeUnit) : unit.char.isDigit = false := by cases unit <;> decide

theorem durationUnit_char (unit : TimeUnit) :
    Config.durationUnit unit.char = some unit.multiply := by
  cases unit <;> rfl

/-- The scanner knows no other units. -/
theorem durationUnit_eq_none_iff {c : Char} :
    Config.durationUnit c = none ↔ ∀ unit : TimeUnit, c ≠ unit.char := by
  constructor
  · rintro hnone unit rfl
    simp [durationUnit_char] at hnone
  · intro hother
    have hhour : c ≠ 'h' := hother hour
    have hminute : c ≠ 'm' := hother minute
    have hsecond : c ≠ 's' := hother second
    simp [Config.durationUnit, hhour, hminute, hsecond]

end TimeUnit

/-- A term of a duration: a run of decimal digits and its unit. -/
structure DurationTerm where
  digits : List Char
  unit : TimeUnit
  digits_ne_nil : digits ≠ []
  allDigits : AllDigits digits

namespace DurationTerm

/-- The term as it is written. -/
def text (term : DurationTerm) : List Char := term.digits ++ [term.unit.char]

/-- The number of a term. -/
def number (term : DurationTerm) : ℕ := digitsValue 10 term.digits

/-- The time a term stands for. -/
def milliseconds (term : DurationTerm) : ℕ := term.number * term.unit.milliseconds

/-- `std::stoi` converts the number of the term. -/
def Converts (term : DurationTerm) : Prop := term.number ≤ 2147483647

instance instDecidablePredConverts : DecidablePred Converts := fun _ ↦
  inferInstanceAs (Decidable (_ ≤ _))

end DurationTerm

/-- A sequence of terms as it is written. -/
def termsText (terms : List DurationTerm) : List Char := terms.flatMap DurationTerm.text

/-- The time a sequence of terms stands for. -/
def total : List DurationTerm → ℕ
  | [] => 0
  | term :: terms => term.milliseconds + total terms

/-- Terms are written in ASCII. -/
theorem ascii_of_mem_termsText {terms : List DurationTerm} {c : Char} (hc : c ∈ termsText terms) :
    c.toNat < 128 := by
  obtain ⟨term, -, hterm⟩ := List.mem_flatMap.1 hc
  rcases List.mem_append.1 hterm with hdigit | hunit
  · have hcode := Char.isDigit_iff_toNat.1 (term.allDigits c hdigit)
    exact hcode.2.trans_lt (by decide)
  · obtain rfl := List.mem_singleton.1 hunit
    cases term.unit <;> decide

/-- The format the error messages of `parse_duration` state. -/
def IsDuration (input : List UInt8) : Prop :=
  ∃ terms : List DurationTerm, terms ≠ [] ∧ chars input = termsText terms

/-- A run of digits, or none, and then a character that is neither a digit nor the unit of a
number. -/
def Faulty (text : List Char) : Prop :=
  ∃ digits c rest, text = digits ++ c :: rest ∧ AllDigits digits ∧ c.isDigit = false ∧
    (digits = [] ∨ ∀ unit : TimeUnit, c ≠ unit.char)

/-- Every text is a sequence of terms, and after it digits without a unit or a fault. -/
theorem exists_termsText_append (text : List Char) : ∃ terms ending,
    text = termsText terms ++ ending ∧ (AllDigits ending ∨ Faulty ending) := by
  induction hlength : text.length using Nat.strong_induction_on generalizing text with
  | _ n ih =>
  obtain ⟨digits, rest, rfl, hdigits, hrest⟩ := exists_digits_append text
  rcases rest with _ | ⟨c, rest⟩
  · exact ⟨[], digits, by simp [termsText], .inl hdigits⟩
  have hc : c.isDigit = false := hrest c (by simp)
  by_cases hterm : digits ≠ [] ∧ ∃ unit : TimeUnit, c = unit.char
  · obtain ⟨hne, unit, rfl⟩ := hterm
    have hshorter : rest.length < n := by
      rw [← hlength, List.length_append, List.length_cons]
      omega
    obtain ⟨terms, ending, hsplit, hending⟩ := ih rest.length hshorter rest rfl
    refine ⟨⟨digits, unit, hne, hdigits⟩ :: terms, ending, ?_, hending⟩
    rw [hsplit]
    simp [termsText, DurationTerm.text]
  · refine ⟨[], _, rfl, .inr ⟨digits, c, rest, rfl, hdigits, hc, ?_⟩⟩
    rcases not_and_or.1 hterm with hempty | hother
    · exact .inl (not_not.1 hempty)
    · exact .inr fun unit heq ↦ hother ⟨unit, heq⟩

namespace Config

variable {source name input : String} {bytes : List UInt8} {allowNegative : Bool}
  {errors : List String}

/-! ### The scanner on digits, units and terms -/

/-- A digit goes into the buffer. -/
theorem scanDuration_digit {d : Char} (hd : d.isDigit) (rest buffer : List Char) (res : Int32) :
    scanDuration source name input allowNegative (d :: rest) ⟨.digit, buffer, res, errors⟩ =
      scanDuration source name input allowNegative rest
        ⟨.digit, buffer ++ [d], res, errors⟩ := by
  rw [scanDuration]
  simp only [hd, if_true]

/-- Digits go into the buffer. -/
theorem scanDuration_digits {digits : List Char} (hdigits : AllDigits digits)
    (rest buffer : List Char) (res : Int32) :
    scanDuration source name input allowNegative (digits ++ rest) ⟨.digit, buffer, res, errors⟩ =
      scanDuration source name input allowNegative rest
        ⟨.digit, buffer ++ digits, res, errors⟩ := by
  induction digits generalizing buffer with
  | nil => simp
  | cons d digits ih =>
    obtain ⟨hd, hdigits⟩ := allDigits_cons.1 hdigits
    rw [List.cons_append, scanDuration_digit hd, ih hdigits, List.append_assoc]
    rfl

/-- A unit adds the number in the buffer, or `std::stoi` throws. -/
theorem scanDuration_unit {buffer : List Char} (hbuffer : buffer ≠ []) (unit : TimeUnit)
    (rest : List Char) (res : Int32) :
    scanDuration source name input allowNegative (unit.char :: rest) ⟨.digit, buffer, res, errors⟩ =
      match stoi buffer with
      | .error e => ⟨errors, none, .error e⟩
      | .ok n => scanDuration source name input allowNegative rest
          ⟨.digit, [], res + unit.multiply n, errors⟩ := by
  rw [scanDuration]
  cases stoi buffer with
  | error e => simp [unit.not_isDigit_char, hbuffer, unit.durationUnit_char]
  | ok n => simp [unit.not_isDigit_char, hbuffer, unit.durationUnit_char]

/-- A fault ends the scan. -/
theorem scanDuration_fault {buffer rest : List Char} {c : Char} (hc : c.isDigit = false)
    (hfault : buffer = [] ∨ ∀ unit : TimeUnit, c ≠ unit.char) (res : Int32) :
    (scanDuration source name input allowNegative (c :: rest)
      ⟨.digit, buffer, res, errors⟩).verdict = .ok false := by
  rw [scanDuration]
  rcases hfault with rfl | hother
  · simp [hc]
  · simp only [hc, TimeUnit.durationUnit_eq_none_iff.2 hother, Bool.false_eq_true, if_false]
    split_ifs <;> rfl

/-- What the terms add to `res`, in the arithmetic of the source. -/
def addTerms (res : Int32) : List DurationTerm → Except Thrown Int32
  | [] => .ok res
  | term :: terms =>
    if term.Converts then
      addTerms (res + term.unit.multiply (Int32.ofInt term.number)) terms
    else .error (.outOfRange "stoi")

theorem stoi_term (term : DurationTerm) : stoi term.digits = if term.Converts then
    .ok (Int32.ofInt term.number) else .error (.outOfRange "stoi") :=
  stoi_digits term.digits_ne_nil term.allDigits

/-- The scan over a sequence of terms. -/
theorem scanDuration_terms (terms : List DurationTerm) (ending : List Char) (res : Int32) :
    scanDuration source name input allowNegative (termsText terms ++ ending)
        ⟨.digit, [], res, errors⟩ =
      match addTerms res terms with
      | .error e => ⟨errors, none, .error e⟩
      | .ok sum => scanDuration source name input allowNegative ending
          ⟨.digit, [], sum, errors⟩ := by
  induction terms generalizing res with
  | nil => rfl
  | cons term terms ih =>
    have htext : termsText (term :: terms) ++ ending =
        term.digits ++ term.unit.char :: (termsText terms ++ ending) := by
      simp [termsText, DurationTerm.text]
    rw [htext, scanDuration_digits term.allDigits, List.nil_append,
      scanDuration_unit term.digits_ne_nil, stoi_term, addTerms]
    by_cases hconverts : term.Converts
    · simp only [hconverts, if_true, ih]
    · simp only [hconverts, if_false]

/-- The first byte goes into the buffer, whatever it is, unless it is a minus sign. -/
theorem parseDuration_cons {c : Char} {rest : List Char} (hinput : chars bytes = c :: rest)
    (hminus : c ≠ '-') :
    ∃ errors, parseDuration source name bytes allowNegative =
      scanDuration source name (shown bytes) allowNegative rest ⟨.digit, [c], 0, errors⟩ := by
  unfold parseDuration
  rw [hinput, scanDuration]
  simp only [hminus, false_and, if_false, List.nil_append]
  exact ⟨_, rfl⟩

/-- A digit in front goes into the buffer as any later one does. -/
theorem parseDuration_of_isDigit {d : Char} {rest : List Char}
    (hinput : chars bytes = d :: rest) (hd : d.isDigit) :
    parseDuration source name bytes allowNegative =
      scanDuration source name (shown bytes) allowNegative (chars bytes) ⟨.digit, [], 0, []⟩ := by
  have hminus : d ≠ '-' := ne_of_isDigit hd (by decide)
  unfold parseDuration
  rw [hinput, scanDuration, scanDuration]
  simp only [hminus, hd, false_and, if_false, if_true]

/-- What `parse_duration` makes of a sequence of terms. -/
theorem parseDuration_terms {terms : List DurationTerm} (hinput : chars bytes = termsText terms) :
    parseDuration source name bytes allowNegative =
      match addTerms 0 terms with
      | .error e => ⟨[], none, .error e⟩
      | .ok sum => ⟨[], some sum, .ok true⟩ := by
  cases terms with
  | nil =>
    unfold parseDuration
    rw [hinput]
    rfl
  | cons term terms =>
    obtain ⟨d, digits, hdigits⟩ := List.exists_cons_of_ne_nil term.digits_ne_nil
    have hd : d.isDigit := term.allDigits d (by simp [hdigits])
    have hfirst : chars bytes = d :: (digits ++ [term.unit.char] ++ termsText terms) := by
      rw [hinput]
      simp [termsText, DurationTerm.text, hdigits]
    rw [parseDuration_of_isDigit hfirst hd, hinput,
      ← List.append_nil (termsText (term :: terms)), scanDuration_terms]
    rfl

/-! ### The texts it returns false for -/

/-- The terms a scan has added up are those whose numbers `std::stoi` converts. -/
theorem exists_addTerms_eq_ok_iff {terms : List DurationTerm} {res : Int32} :
    (∃ sum, addTerms res terms = .ok sum) ↔ ∀ term ∈ terms, term.Converts := by
  induction terms generalizing res with
  | nil => simp [addTerms]
  | cons term terms ih =>
    rw [List.forall_mem_cons, addTerms]
    by_cases hconverts : term.Converts
    · simp only [hconverts, if_true, true_and, ih]
    · simp [hconverts]

/-- Digits without a unit end the scan as the end of the text does. -/
theorem scanDuration_leftover {digits : List Char} (hdigits : AllDigits digits) (buffer : List Char)
    (res : Int32) : scanDuration source name input allowNegative digits
      ⟨.digit, buffer, res, errors⟩ = ⟨errors, some res, .ok true⟩ := by
  rw [← List.append_nil digits, scanDuration_digits hdigits, scanDuration]

/-- The texts `parse_duration` returns false for where it allows no negative duration. The first
byte of a text may be anything but a minus sign; it is part of the first number. -/
inductive TurnedDown : List Char → Prop
  | minus (rest : List Char) : TurnedDown ('-' :: rest)
  /-- What follows the first number is not a unit. -/
  | firstUnit {c d : Char} {digits : List Char} (rest : List Char) (hdigits : AllDigits digits)
    (hd : d.isDigit = false) (hother : ∀ unit : TimeUnit, d ≠ unit.char) :
    TurnedDown (c :: (digits ++ d :: rest))
  /-- `std::stoi` converts the first number and the numbers of the terms after it, and then there is
  a fault. -/
  | later {c : Char} {digits ending : List Char} {n : Int32} {terms : List DurationTerm}
    (unit : TimeUnit) (hdigits : AllDigits digits) (hfirst : stoi (c :: digits) = .ok n)
    (hterms : ∀ term ∈ terms, term.Converts) (hending : Faulty ending) :
    TurnedDown (c :: (digits ++ unit.char :: (termsText terms ++ ending)))

/-- A fault ends the scan after the digits in front of it. -/
theorem scanDuration_faulty {ending : List Char} (hending : Faulty ending) (res : Int32) :
    (scanDuration source name input allowNegative ending
      ⟨.digit, [], res, errors⟩).verdict = .ok false := by
  obtain ⟨digits, c, rest, rfl, hdigits, hc, hfault⟩ := hending
  rw [scanDuration_digits hdigits]
  exact scanDuration_fault hc hfault res

/-- After a unit the scan returns false exactly if it reaches a fault. -/
theorem scanDuration_verdict_eq_false_iff {terms : List DurationTerm} {ending : List Char}
    (hending : AllDigits ending ∨ Faulty ending) (res : Int32) :
    (scanDuration source name input allowNegative (termsText terms ++ ending)
        ⟨.digit, [], res, errors⟩).verdict = .ok false ↔
      (∀ term ∈ terms, term.Converts) ∧ Faulty ending := by
  rw [scanDuration_terms, ← exists_addTerms_eq_ok_iff]
  cases addTerms res terms with
  | error e => simp
  | ok sum =>
    simp only [Except.ok.injEq, exists_eq', true_and]
    rcases hending with hdigits | hfaulty
    · have hclean : ¬ Faulty ending := by
        rintro ⟨digits, c, rest, rfl, -, hc, -⟩
        simp [hdigits c (by simp)] at hc
      simp [scanDuration_leftover hdigits, hclean]
    · exact iff_of_true (scanDuration_faulty hfaulty sum) hfaulty

/-- A minus sign in front is turned down. -/
theorem parseDuration_minus {rest : List Char} (hinput : chars bytes = '-' :: rest) :
    (parseDuration source name bytes false).verdict = .ok false := by
  unfold parseDuration
  rw [hinput, scanDuration]
  simp

/-- A text is turned down if the scan turns down what follows its first byte. -/
theorem parseDuration_of_scan {c : Char} {rest : List Char} (hinput : chars bytes = c :: rest)
    (hscan : ∀ errors, (scanDuration source name (shown bytes) false rest
      ⟨.digit, [c], 0, errors⟩).verdict = .ok false) :
    (parseDuration source name bytes false).verdict = .ok false := by
  by_cases hminus : c = '-'
  · subst hminus
    exact parseDuration_minus hinput
  have hstart : ∃ errors, parseDuration source name bytes false =
      scanDuration source name (shown bytes) false rest ⟨.digit, [c], 0, errors⟩ :=
    parseDuration_cons hinput hminus
  obtain ⟨errors, hstart⟩ := hstart
  rw [hstart]
  exact hscan errors

/-- `parse_duration` returns false for no texts but those of `TurnedDown`. -/
theorem turnedDown_of_verdict
    (hfalse : (parseDuration source name bytes false).verdict = .ok false) :
    TurnedDown (chars bytes) := by
  cases hinput : chars bytes with
  | nil => simp [parseDuration, hinput, scanDuration] at hfalse
  | cons c rest =>
    by_cases hminus : c = '-'
    · subst hminus
      exact .minus rest
    have hscan : ∃ errors, parseDuration source name bytes false =
        scanDuration source name (shown bytes) false rest ⟨.digit, [c], 0, errors⟩ :=
      parseDuration_cons hinput hminus
    obtain ⟨errors, hscan⟩ := hscan
    obtain ⟨digits, tail, rfl, hdigits, htail⟩ := exists_digits_append rest
    rw [hscan, scanDuration_digits hdigits] at hfalse
    cases tail with
    | nil => simp [scanDuration] at hfalse
    | cons d tail =>
      by_cases hunit : ∃ unit : TimeUnit, d = unit.char
      · obtain ⟨unit, rfl⟩ := hunit
        obtain ⟨terms, ending, rfl, hending⟩ := exists_termsText_append tail
        rw [scanDuration_unit (by simp)] at hfalse
        cases hfirst : stoi ([c] ++ digits) with
        | error e =>
          rw [hfirst] at hfalse
          simp at hfalse
        | ok n =>
          simp only [hfirst, scanDuration_verdict_eq_false_iff hending] at hfalse
          exact .later unit hdigits hfirst hfalse.1 hfalse.2
      · exact .firstUnit tail hdigits (htail d rfl) fun unit heq ↦ hunit ⟨unit, heq⟩

/-- `parse_duration` returns false for the texts of `TurnedDown` and for no others. -/
theorem parseDuration_verdict_eq_false_iff :
    (parseDuration source name bytes false).verdict = .ok false ↔ TurnedDown (chars bytes) := by
  refine ⟨turnedDown_of_verdict, fun hturned ↦ ?_⟩
  generalize hinput : chars bytes = text at hturned
  cases hturned with
  | minus rest => exact parseDuration_minus hinput
  | firstUnit rest hdigits hd hother =>
    refine parseDuration_of_scan hinput fun errors ↦ ?_
    rw [scanDuration_digits hdigits]
    exact scanDuration_fault hd (.inr hother) 0
  | @later c digits ending n terms unit hdigits hfirst hterms hending =>
    refine parseDuration_of_scan hinput fun errors ↦ ?_
    rw [scanDuration_digits hdigits, scanDuration_unit (by simp),
      show stoi ([c] ++ digits) = .ok n from hfirst]
    exact (scanDuration_verdict_eq_false_iff (.inr hending) _).2 ⟨hterms, hending⟩

/-- `parse_duration` keeps to its format: it returns true for durations only, and for every other
text it returns false, without an exception, and stores nothing. -/
def KeepsFormat (source name : String) (bytes : List UInt8) : Prop :=
  let parsed := parseDuration source name bytes false
  (parsed.verdict = .ok true → IsDuration bytes) ∧
    (¬ IsDuration bytes → parsed.verdict = .ok false ∧ parsed.stored = none)

/-- Exactly for the durations and the texts of `TurnedDown` does `parse_duration` keep to its
format. The others it accepts although they end in a number without a unit, are empty or have
something else in front of the first number, or it lets an exception of `std::stoi` through. -/
theorem parseDuration_keepsFormat_iff :
    KeepsFormat source name bytes ↔ IsDuration bytes ∨ TurnedDown (chars bytes) := by
  have hstores : (parseDuration source name bytes false).Stores := parseDuration_stores false
  rw [← parseDuration_verdict_eq_false_iff]
  constructor
  · rintro ⟨-, hother⟩
    by_cases hformat : IsDuration bytes
    · exact .inl hformat
    · exact .inr (hother hformat).1
  · rintro (hformat | hfalse)
    · exact ⟨fun _ ↦ hformat, fun hnot ↦ absurd hformat hnot⟩
    · have hnone : (parseDuration source name bytes false).stored = none := by
        simpa [Parsed.Stores, hfalse] using hstores
      exact ⟨fun htrue ↦ by simp [hfalse] at htrue, fun _ ↦ ⟨hfalse, hnone⟩⟩

/-- A number without a unit is accepted. -/
theorem parseDuration_leaves_format :
    ¬ ∀ source name bytes, KeepsFormat source name bytes := by
  intro hkeeps
  have htrue :
      (parseDuration "yaml" "local_discovery.interval" (utf8 "5") false).verdict = .ok true := by
    decide +kernel
  obtain ⟨terms, hne, htext⟩ := (hkeeps "yaml" "local_discovery.interval" (utf8 "5")).1 htrue
  obtain ⟨term, terms, rfl⟩ := List.exists_cons_of_ne_nil hne
  have hunit : term.unit.char ∈ chars (utf8 "5") := by
    rw [htext]
    simp [termsText, DurationTerm.text]
  cases hcase : term.unit <;> rw [hcase] at hunit <;> exact absurd hunit (by decide +kernel)

end Config

end Kapua
