import Kapua.Configuration.Numerals

/-!
# Ports

`parse_port` takes what `std::stoi` makes of a text, casts it to 16 bits and swaps its bytes. The
cast drops what does not fit, and `std::stoi` stops at what is not a digit, so that every text with
a numeral at its front that an `int` has room for is accepted. The port is parsed exactly where the
text is the decimal numeral of a port, or has no such numeral at its front
(`parsePort_exact_iff`).
-/

set_option autoImplicit false
set_option relaxedAutoImplicit false

namespace Kapua

/-- `ntohs` on a little-endian machine. -/
def ntohs (port : UInt16) : UInt16 := port <<< 8 ||| port >>> 8

theorem ntohs_htons (port : UInt16) : ntohs (htons port) = port := by
  apply UInt16.eq_of_toBitVec_eq
  simp only [ntohs, htons, UInt16.toBitVec_or, UInt16.toBitVec_shiftLeft,
    UInt16.toBitVec_shiftRight]
  ext i hi
  simp
  grind

namespace Config

variable {source name input : String}

/-- The decimal numerals of the numbers that a port has room for. -/
def IsPort (input : String) : Prop :=
  input.toList ≠ [] ∧ AllDigits input.toList ∧ digitsValue 10 input.toList ≤ 65535

/-- The text has a numeral at its front, after blanks and a sign or none, and an `int` has room for
its value. -/
def StartsWithInt (input : String) : Prop :=
  ∃ numeral : Numeral input.toList, FitsInt numeral.value

/-- The numeral of a port is one of an `int`. -/
theorem startsWithInt_of_isPort (hport : IsPort input) : StartsWithInt input := by
  obtain ⟨hne, hdigits, hbound⟩ := hport
  refine ⟨Numeral.ofDigits hne hdigits, ?_⟩
  simp only [FitsInt, Numeral.value_ofDigits]
  omega

/-- `std::stoi` has two exceptions. -/
theorem stoi_error {text : List Char} {e : Thrown} (hthrown : stoi text = .error e) :
    e = .invalidArgument "stoi" ∨ e = .outOfRange "stoi" := by
  unfold stoi at hthrown
  split at hthrown
  · exact .inl (Except.error.inj hthrown).symm
  · dsimp only at hthrown
    split_ifs at hthrown <;> exact .inr (Except.error.inj hthrown).symm

/-- `parse_port` accepts a text that starts with the numeral of an `int`. -/
theorem parsePort_of_startsWithInt (hstarts : StartsWithInt input) :
    (parsePort source name input).verdict = .ok true := by
  obtain ⟨numeral, hfits⟩ := hstarts
  have hconverted : stoi input.toList = .ok (Int32.ofInt numeral.value) :=
    stoi_eq_ok_iff.2 ⟨numeral, hfits, rfl⟩
  simp only [parsePort, parseUint16, hconverted]

/-- `parse_port` returns false for the other texts, and stores nothing. -/
theorem parsePort_of_not_startsWithInt (hstarts : ¬ StartsWithInt input) :
    (parsePort source name input).verdict = .ok false ∧
      (parsePort source name input).stored = none := by
  cases hconverted : stoi input.toList with
  | ok n =>
    obtain ⟨numeral, hfits, -⟩ := stoi_eq_ok_iff.1 hconverted
    exact absurd ⟨numeral, hfits⟩ hstarts
  | error e =>
    rcases stoi_error hconverted with rfl | rfl <;>
      simp [parsePort, parseUint16, hconverted]

/-- The numeral of a port is stored in network byte order. -/
theorem parsePort_of_isPort (hport : IsPort input) :
    (parsePort source name input).verdict = .ok true ∧
      ∃ port, (parsePort source name input).stored = some port ∧
        (ntohs port).toNat = digitsValue 10 input.toList := by
  obtain ⟨hne, hdigits, hbound⟩ := hport
  have hconverted : stoi input.toList = .ok (Int32.ofInt (digitsValue 10 input.toList)) := by
    rw [stoi_digits hne hdigits, if_pos (by omega)]
  have hcast : (Int32.ofInt (digitsValue 10 input.toList)).toUInt32.toUInt16.toNat =
      digitsValue 10 input.toList := by
    rw [Int32.ofInt_eq_ofNat]
    change ((digitsValue 10 input.toList % 4294967296) % 65536 : ℕ) = _
    omega
  refine ⟨?_, htons (Int32.ofInt (digitsValue 10 input.toList)).toUInt32.toUInt16, ?_, ?_⟩
  · simp only [parsePort, parseUint16, hconverted]
  · simp only [parsePort, parseUint16, hconverted, Option.map_some]
  · rw [ntohs_htons, hcast]

/-- A port is parsed exactly: `parse_port` returns true if and only if the text is the decimal
numeral of a number up to 65535, which is then the port it stores, and for every other text it
returns false and stores nothing. -/
def ParsesPortExactly (source name input : String) : Prop :=
  let parsed := parsePort source name input
  (parsed.verdict = .ok true ↔ IsPort input) ∧
    (IsPort input → ∃ port, parsed.stored = some port ∧
      (ntohs port).toNat = digitsValue 10 input.toList) ∧
    (¬ IsPort input → parsed.verdict = .ok false ∧ parsed.stored = none)

/-- The texts `parse_port` gets wrong are those with the numeral of an `int` at their front that are
not themselves the decimal numeral of a port. -/
theorem parsePort_exact_iff :
    ParsesPortExactly source name input ↔ IsPort input ∨ ¬ StartsWithInt input := by
  constructor
  · rintro ⟨-, -, hother⟩
    by_cases hport : IsPort input
    · exact .inl hport
    · refine .inr fun hstarts ↦ ?_
      have hfalse : (parsePort source name input).verdict = .ok false := (hother hport).1
      rw [parsePort_of_startsWithInt hstarts] at hfalse
      exact absurd (Except.ok.inj hfalse) (by decide)
  · rintro (hport | hstarts)
    · have haccepted : (parsePort source name input).verdict = .ok true ∧ _ :=
        parsePort_of_isPort hport
      obtain ⟨htrue, hstored⟩ := haccepted
      exact ⟨iff_of_true htrue hport, fun _ ↦ hstored, fun hnot ↦ absurd hport hnot⟩
    · have hport : ¬ IsPort input := fun hport ↦ hstarts (startsWithInt_of_isPort hport)
      have hrejected : (parsePort source name input).verdict = .ok false ∧ _ :=
        parsePort_of_not_startsWithInt hstarts
      refine ⟨iff_of_false ?_ hport, fun hyes ↦ absurd hyes hport, fun _ ↦ hrejected⟩
      rw [hrejected.1]
      exact fun heq ↦ absurd (Except.ok.inj heq) (by decide)

/-- `70000`, which is no port, is accepted. -/
theorem parsePort_narrows : ¬ ∀ source name input, ParsesPortExactly source name input := by
  intro hexact
  have htrue : (parsePort "yaml" "server.port" "70000").verdict = .ok true := by decide +kernel
  obtain ⟨-, -, hbound⟩ := (hexact "yaml" "server.port" "70000").1.1 htrue
  exact absurd hbound (by decide +kernel)

end Config

end Kapua
