import Kapua.Configuration.Libraries
import Mathlib.Data.Int.Notation
import Mathlib.Data.Nat.Notation
import Mathlib.Tactic.Cases
import Mathlib.Tactic.SplitIfs

/-!
# The parsers of the configuration

Every text of the configuration goes through one of the parsers of `Config`. A parser is told where
the text comes from and how the option is called, for its messages, and may log errors, store a
value through the pointer it is given, return a verdict or raise an exception (`Parsed`).

What a parser stores and returns depends on the text alone (`Parsed.SameEffect`). All parsers but
one return true exactly when they have stored a value (`Parsed.Stores`): `parse_log_level` returns
true for every text (`Config.parseLogLevel_verdict`), and stores nothing for a text that is not a
level.
-/

set_option autoImplicit false
set_option relaxedAutoImplicit false

namespace Kapua

/-- `LogLevel_t` -/
inductive LogLevel
  | error
  | warn
  | info
  | debug
  | unknown
  deriving DecidableEq, Repr

/-- What one call of a parser does: the errors it logs, the value it stores, and the verdict it
returns unless it raises an exception. -/
structure Parsed (α : Type) where
  errors : List String
  stored : Option α
  verdict : Except Thrown Bool

namespace Parsed

variable {α β : Type}

/-- Two calls that store and return the same; what they log may differ. -/
def SameEffect (parsed parsed' : Parsed α) : Prop :=
  parsed.stored = parsed'.stored ∧ parsed.verdict = parsed'.verdict

/-- The call returns true exactly when it has stored a value. -/
def Stores (parsed : Parsed α) : Prop := parsed.verdict = .ok true ↔ parsed.stored.isSome

end Parsed

/-! ### Texts and their bytes -/

/-- The bytes of a text. -/
def utf8 (text : String) : List UInt8 := text.toList.flatMap String.utf8EncodeChar

/-- What a loop over the `char`s of a `std::string` sees, each byte as the character of its code. -/
def chars (bytes : List UInt8) : List Char := bytes.map fun byte ↦ Char.ofNat byte.toNat

/-- What a message shows of a `std::string`: the text its bytes encode, and where they encode none
each of them by itself. -/
def shown (bytes : List UInt8) : String :=
  (String.fromUTF8? ⟨bytes.toArray⟩).getD (String.ofList (chars bytes))

theorem utf8EncodeChar_of_ascii {c : Char} (hc : c.toNat < 128) :
    String.utf8EncodeChar c = [c.toNat.toUInt8] := by
  have hshort : c.toNat ≤ 127 := by omega
  simp [String.utf8EncodeChar, hshort]

/-- The bytes of a text in ASCII are its characters. -/
theorem chars_utf8 {text : List Char} (hascii : ∀ c ∈ text, c.toNat < 128) :
    chars (utf8 (String.ofList text)) = text := by
  unfold utf8
  rw [String.toList_ofList]
  induction text with
  | nil => rfl
  | cons c text ih =>
    obtain ⟨hc, htext⟩ := List.forall_mem_cons.1 hascii
    have hcode : c.toNat.toUInt8.toNat = c.toNat := by
      simp only [Nat.toUInt8_eq, UInt8.toNat_ofNat']
      omega
    have hback : Char.ofNat c.toNat.toUInt8.toNat = c := by rw [hcode, Char.ofNat_toNat]
    rw [List.flatMap_cons, utf8EncodeChar_of_ascii hc, List.singleton_append, chars, List.map_cons,
      hback]
    exact congrArg (c :: ·) (ih htext)

/-! ### Numerals

The conversions of the C++ library, which skip blanks, take a sign and stop at the first character
that is not a digit. -/

/-- `std::isspace` -/
def isSpace (c : Char) : Bool := c == ' ' || ('\t' ≤ c && c ≤ '\r')

/-- The value of a digit, 16 for a character that is no hexadecimal digit. -/
def digitValue (c : Char) : ℕ :=
  if '0' ≤ c ∧ c ≤ '9' then c.toNat - '0'.toNat
  else if 'a' ≤ c ∧ c ≤ 'f' then c.toNat - 'a'.toNat + 10
  else if 'A' ≤ c ∧ c ≤ 'F' then c.toNat - 'A'.toNat + 10
  else 16

/-- `::isxdigit` -/
def isXDigit (c : Char) : Bool := digitValue c < 16

/-- The value of a run of digits. -/
def digitsValue (base : ℕ) (digits : List Char) : ℕ :=
  digits.foldl (fun value c ↦ value * base + digitValue c) 0

/-- The text after the prefix `0x` that a hexadecimal numeral may have. -/
def dropHexPrefix : List Char → List Char
  | '0' :: x :: c :: rest => if (x == 'x' || x == 'X') && isXDigit c then c :: rest
      else '0' :: x :: c :: rest
  | text => text

/-- The sign and the magnitude of the numeral at the front of a text, `none` if there is none. -/
def scanNumeral (base : ℕ) (text : List Char) : Option (Bool × ℕ) :=
  let text := text.dropWhile isSpace
  let negative := text.head? == some '-'
  let text := if negative || text.head? == some '+' then text.tail else text
  let text := if base = 16 then dropHexPrefix text else text
  let digits := text.takeWhile fun c ↦ digitValue c < base
  if digits.isEmpty then none else some (negative, digitsValue base digits)

/-- `std::stoi` -/
def stoi (text : List Char) : Except Thrown Int32 :=
  match scanNumeral 10 text with
  | none => .error (.invalidArgument "stoi")
  | some (negative, magnitude) =>
    let value : ℤ := if negative then -magnitude else magnitude
    if -2147483648 ≤ value ∧ value ≤ 2147483647 then .ok (Int32.ofInt value)
    else .error (.outOfRange "stoi")

/-- `std::stoull`, which wraps the value of a numeral with a minus sign. -/
def stoull (base : ℕ) (text : List Char) : Except Thrown UInt64 :=
  match scanNumeral base text with
  | none => .error (.invalidArgument "stoull")
  | some (negative, magnitude) =>
    if magnitude < 18446744073709551616 then
      .ok (if negative then -UInt64.ofNat magnitude else UInt64.ofNat magnitude)
    else .error (.outOfRange "stoull")

/-- `htons` on a little-endian machine. -/
def htons (port : UInt16) : UInt16 := port <<< 8 ||| port >>> 8

/-- The text in front of the first NUL, which is all a C string shows of it. -/
def cStr (text : String) : String := String.ofList (text.toList.takeWhile (· ≠ '\x00'))

namespace Config

/-! ### `parse_duration` -/

/-- The modes of the scanner; the source has a third one, `Unit`, that it never enters. -/
inductive Mode
  | start
  | digit
  deriving DecidableEq, Repr

/-- What the loop of `parse_duration` carries, with the errors logged so far. -/
structure DurationScan where
  mode : Mode
  buffer : List Char
  res : Int32
  errors : List String
  deriving DecidableEq, Repr

/-- What the character of a unit adds for the number in front of it. The products and the sum below
are of type `int`; where they leave its range they wrap. -/
def durationUnit (c : Char) : Option (Int32 → Int32) :=
  if c = 'h' then some fun n ↦ n * 60 * 60 * 1000
  else if c = 'm' then some fun n ↦ n * 60 * 1000
  else if c = 's' then some fun n ↦ n * 1000
  else none

/-- The loop of `parse_duration` over the rest of the input. -/
def scanDuration (source name input : String) (allowNegative : Bool) :
    List Char → DurationScan → Parsed Int32
  | [], s => ⟨s.errors, some s.res, .ok true⟩
  | c :: rest, s =>
    match s.mode with
    | .start =>
      if c = '-' ∧ allowNegative = false then
        ⟨s.errors ++ ["(" ++ source ++ ") " ++ name ++ " - invalid format: " ++ input ++
          " - duration cannot be negative"], none, .ok false⟩
      else
        -- A bad start is logged, and the scan goes on.
        scanDuration source name input allowNegative rest
          { s with
            errors := if c.isDigit then s.errors else
              s.errors ++ ["(" ++ source ++ ") " ++ name ++ " - invalid format: " ++ input ++
                " - (bad start) must be [d]h[d]m[d]s where [d] is an integer"]
            buffer := s.buffer ++ [c]
            mode := .digit }
    | .digit =>
      if c.isDigit then
        scanDuration source name input allowNegative rest { s with buffer := s.buffer ++ [c] }
      else if s.buffer.length = 0 then
        ⟨s.errors ++ ["(" ++ source ++ ") " ++ name ++ " - invalid format: " ++ input ++
          " - (no buffer) must be [d]h[d]m[d]s where [d] is an integer"], none, .ok false⟩
      else
        match durationUnit c with
        | none => ⟨s.errors ++ ["(" ++ source ++ ") " ++ name ++ " - invalid format: " ++ input ++
            " - unit not recognised, must be 'h','m','s'"], none, .ok false⟩
        | some scale =>
          match stoi s.buffer with
          | .error e => ⟨s.errors, none, .error e⟩
          | .ok n => scanDuration source name input allowNegative rest
              { s with res := s.res + scale n, buffer := [] }

/-- `Config::parse_duration`, which goes over the bytes of the input. -/
def parseDuration (source name : String) (input : List UInt8) (allowNegative : Bool) :
    Parsed Int32 :=
  scanDuration source name (shown input) allowNegative (chars input) ⟨.start, [], 0, []⟩

/-! ### The other parsers -/

/-- `Config::parse_ipv4` -/
def parseIpv4 (libs : Libraries) (source name input : String) : Parsed UInt32 :=
  match libs.inetPton (cStr input) with
  | none => ⟨["(" ++ source ++ ") " ++ name ++ " " ++ input ++ " - must be a valid ipv4 address"],
      none, .ok false⟩
  | some addr => ⟨[], some addr, .ok true⟩

/-- `Config::parse_bool` -/
def parseBool (source name input : String) : Parsed Bool :=
  let parsedInput := input.toLower
  if parsedInput = "true" ∨ parsedInput = "t" ∨ parsedInput = "yes" then
    ⟨[], some true, .ok true⟩
  else if parsedInput = "false" ∨ parsedInput = "f" ∨ parsedInput = "no" then
    ⟨[], some false, .ok true⟩
  else
    ⟨["(" ++ source ++ ") " ++ name ++ " - invalid format: " ++ input ++
      " - must be 'true','t','yes','false','f','no'"], none, .ok false⟩

/-- `Config::parse_log_level` -/
def parseLogLevel (source name input : String) : Parsed LogLevel :=
  let lowercaseInput := input.toLower
  if lowercaseInput = "error" then ⟨[], some .error, .ok true⟩
  else if lowercaseInput = "warn" ∨ lowercaseInput = "warning" then ⟨[], some .warn, .ok true⟩
  else if lowercaseInput = "info" then ⟨[], some .info, .ok true⟩
  else if lowercaseInput = "debug" then ⟨[], some .debug, .ok true⟩
  else
    -- The message is the one of `parse_bool`, and the verdict is true.
    ⟨["(" ++ source ++ ") " ++ name ++ " - invalid format: " ++ input ++
      " - must be 'true','t','yes','false','f','no'"], none, .ok true⟩

/-- `Config::parse_hex_uint64` -/
def parseHexUint64 (source name input : String) : Parsed UInt64 :=
  let hexInput := if input.toList.take 2 = ['0', 'x'] then input.toList.drop 2 else input.toList
  let hexInput := hexInput.map Char.toLower
  let rejected : Parsed UInt64 :=
    ⟨["(" ++ source ++ ") " ++ name ++ " - invalid format: " ++ input ++
      " - must be a valid 64-bit hex number"], none, .ok false⟩
  if hexInput.length ≠ 16 ∨ ¬ hexInput.all isXDigit then rejected
  else
    match stoull 16 hexInput with
    | .error _ => rejected
    | .ok value => ⟨[], some value, .ok true⟩

/-- `Config::parse_uint16` -/
def parseUint16 (source name input : String) : Parsed UInt16 :=
  match stoi input.toList with
  | .error (.invalidArgument _) =>
    ⟨["(" ++ source ++ ") " ++ name ++ " - invalid format: " ++ input ++
      " - must be a valid 16-bit number"], none, .ok false⟩
  | .error (.outOfRange _) =>
    ⟨["(" ++ source ++ ") " ++ name ++ " - invalid format: " ++ input ++
      " - must be 0-65535"], none, .ok false⟩
  | .error e => ⟨[], none, .error e⟩
  | .ok num => ⟨[], some num.toUInt32.toUInt16, .ok true⟩

/-- `Config::parse_port` -/
def parsePort (source name input : String) : Parsed UInt16 :=
  let parsed := parseUint16 source name input
  { parsed with stored := parsed.stored.map htons }

/-! ### What a parser stores and returns -/

variable {source source' name name' input : String} {bytes : List UInt8}

/-- The loop stores and returns the same from two states that differ in the errors logged. -/
theorem scanDuration_sameEffect {allowNegative : Bool} (rest : List Char) (s s' : DurationScan)
    (hmode : s.mode = s'.mode) (hbuffer : s.buffer = s'.buffer) (hres : s.res = s'.res) :
    (scanDuration source name input allowNegative rest s).SameEffect
      (scanDuration source' name' input allowNegative rest s') := by
  induction rest generalizing s s' with
  | nil => exact ⟨by simp only [scanDuration, hres], rfl⟩
  | cons c rest ih =>
    unfold scanDuration
    rw [← hmode, ← hbuffer, ← hres]
    cases s.mode with
    | start =>
      dsimp only
      split_ifs
      · exact ⟨rfl, rfl⟩
      all_goals exact ih _ _ rfl rfl rfl
    | digit =>
      dsimp only
      split_ifs
      · exact ih _ _ rfl rfl rfl
      · exact ⟨rfl, rfl⟩
      · cases durationUnit c with
        | none => exact ⟨rfl, rfl⟩
        | some scale =>
          cases stoi s.buffer with
          | error e => exact ⟨rfl, rfl⟩
          | ok n => exact ih _ _ rfl rfl rfl

theorem parseDuration_sameEffect (allowNegative : Bool) :
    (parseDuration source name bytes allowNegative).SameEffect
      (parseDuration source' name' bytes allowNegative) :=
  scanDuration_sameEffect (chars bytes) _ _ rfl rfl rfl

theorem parseIpv4_sameEffect (libs : Libraries) :
    (parseIpv4 libs source name input).SameEffect (parseIpv4 libs source' name' input) := by
  unfold parseIpv4
  cases libs.inetPton (cStr input) <;> exact ⟨rfl, rfl⟩

theorem parseBool_sameEffect :
    (parseBool source name input).SameEffect (parseBool source' name' input) := by
  unfold parseBool
  dsimp only
  split_ifs <;> exact ⟨rfl, rfl⟩

theorem parseLogLevel_sameEffect :
    (parseLogLevel source name input).SameEffect (parseLogLevel source' name' input) := by
  unfold parseLogLevel
  dsimp only
  split_ifs <;> exact ⟨rfl, rfl⟩

theorem parseHexUint64_sameEffect :
    (parseHexUint64 source name input).SameEffect (parseHexUint64 source' name' input) := by
  unfold parseHexUint64
  dsimp only
  generalize List.map Char.toLower _ = hexInput
  split_ifs
  · exact ⟨rfl, rfl⟩
  · cases stoull 16 hexInput <;> exact ⟨rfl, rfl⟩

theorem parseUint16_sameEffect :
    (parseUint16 source name input).SameEffect (parseUint16 source' name' input) := by
  unfold parseUint16
  split <;> exact ⟨rfl, rfl⟩

theorem parsePort_sameEffect :
    (parsePort source name input).SameEffect (parsePort source' name' input) := by
  have hsame : (parseUint16 source name input).SameEffect (parseUint16 source' name' input) :=
    parseUint16_sameEffect
  exact ⟨congrArg (Option.map htons) hsame.1, hsame.2⟩

/-! ### When a parser stores a value -/

theorem scanDuration_stores {allowNegative : Bool} (rest : List Char) (s : DurationScan) :
    (scanDuration source name input allowNegative rest s).Stores := by
  induction rest generalizing s with
  | nil => simp [scanDuration, Parsed.Stores]
  | cons c rest ih =>
    unfold scanDuration
    cases s.mode with
    | start =>
      dsimp only
      split_ifs
      · simp [Parsed.Stores]
      all_goals exact ih _
    | digit =>
      dsimp only
      split_ifs
      · exact ih _
      · simp [Parsed.Stores]
      · cases durationUnit c with
        | none => simp [Parsed.Stores]
        | some scale =>
          cases stoi s.buffer with
          | error e => simp [Parsed.Stores]
          | ok n => exact ih _

theorem parseDuration_stores (allowNegative : Bool) :
    (parseDuration source name bytes allowNegative).Stores :=
  scanDuration_stores (chars bytes) _

theorem parseIpv4_stores (libs : Libraries) : (parseIpv4 libs source name input).Stores := by
  unfold parseIpv4
  cases libs.inetPton (cStr input) <;> simp [Parsed.Stores]

theorem parseBool_stores : (parseBool source name input).Stores := by
  unfold parseBool
  dsimp only
  split_ifs <;> simp [Parsed.Stores]

theorem parseHexUint64_stores : (parseHexUint64 source name input).Stores := by
  unfold parseHexUint64
  dsimp only
  generalize List.map Char.toLower _ = hexInput
  split_ifs
  · simp [Parsed.Stores]
  · cases stoull 16 hexInput <;> simp [Parsed.Stores]

theorem parseUint16_stores : (parseUint16 source name input).Stores := by
  unfold parseUint16
  split <;> simp [Parsed.Stores]

theorem parsePort_stores : (parsePort source name input).Stores := by
  have hstores : (parseUint16 source name input).Stores := parseUint16_stores
  simpa [Parsed.Stores, parsePort] using hstores

/-- `parse_log_level` returns true for every text. -/
theorem parseLogLevel_verdict : (parseLogLevel source name input).verdict = .ok true := by
  unfold parseLogLevel
  dsimp only
  split_ifs <;> rfl

end Config

end Kapua
