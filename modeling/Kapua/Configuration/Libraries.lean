import Mathlib.Data.List.Nodup

/-!
# The libraries below the configuration

The configuration code calls `inet_pton` and `boost::program_options`, whose code is not in the
repository. Both are parameters (`Libraries`). Of `boost::program_options` the loader relies on what
its documentation says about an options description (`Libraries.Documented`): an option that is not
declared raises an error, as does reading a value as a string that is declared with another type;
a text of an option that is declared as a string is handed through; and the order of the arguments
does not matter.
-/

set_option autoImplicit false
set_option relaxedAutoImplicit false

namespace Kapua

/-- The exceptions that reach the configuration code, as its handlers tell them apart. -/
inductive Thrown
  | badFile (msg : String)
  | parserException (msg : String)
  | invalidArgument (what : String)
  | outOfRange (what : String)
  | exception (what : String)
  | unknown
  deriving DecidableEq, Repr

/-- How an option is declared: without a value, or with a value of a type. -/
inductive Semantic
  | untyped
  | string
  | uint16
  deriving DecidableEq, Repr

/-- An argument of the command line as `parse_command_line` takes it apart: `--name`, with the text
that follows it. A text that reads like an option follows as `--name=text`. -/
structure Argument where
  name : String
  text : Option String
  deriving DecidableEq, Repr

/-- A `po::variables_map`, as far as the loader looks at it: `count(name)`, and what
`[name].as<std::string>()` returns or raises. -/
structure VariablesMap where
  count : String → ℕ
  asString : String → Except Thrown String

/-- `vm.count(name)`, and `vm[name].as<std::string>()` where there is one. -/
def VariablesMap.text (vm : VariablesMap) (name : String) : Except Thrown (Option String) :=
  if vm.count name ≠ 0 then (vm.asString name).map some else .ok none

/-- The calls out of the configuration code.
* `inetPton text` is the address `inet_pton` stores when it accepts the text.
* `storeOptions declared arguments` is the map that `po::store` leaves of what
  `po::parse_command_line` returns, or the exception that one of them raises. -/
structure Libraries where
  inetPton : String → Option UInt32
  storeOptions : List (String × Semantic) → List Argument → Except Thrown VariablesMap

/-- The name begins with the other, as an abbreviation does. -/
def Abbreviates (short name : String) : Prop := short.toList <+: name.toList

instance instDecidableAbbreviates (short name : String) : Decidable (Abbreviates short name) :=
  inferInstanceAs (Decidable (_ <+: _))

/-- What `boost::program_options` does with the options of a description.
* `undeclared`: an argument that neither names nor abbreviates an option raises an error.
* `stored`: different options that are declared as strings are stored if each has a text.
* `handedThrough`: the text of an option that is declared as a string is found again.
* `otherType`: a value that is declared with another type cannot be read as a string.
* `given`: an option that was stored is counted.
* `notGiven`: an option that no argument names or abbreviates is not.
* `notDeclared`: an option that is not declared is not.
* `order`: the order of the arguments does not matter. -/
structure Libraries.Documented (libs : Libraries) (declared : List (String × Semantic)) : Prop where
  undeclared : ∀ {arguments argument}, argument ∈ arguments →
    (∀ option ∈ declared, ¬ Abbreviates argument.name option.1) →
      ∃ e, libs.storeOptions declared arguments = .error e
  stored : ∀ {arguments}, (arguments.map Argument.name).Nodup →
    (∀ argument ∈ arguments, declared.lookup argument.name = some .string ∧
      argument.text.isSome) → ∃ vm, libs.storeOptions declared arguments = .ok vm
  handedThrough : ∀ {arguments vm name text}, libs.storeOptions declared arguments = .ok vm →
    ⟨name, some text⟩ ∈ arguments → declared.lookup name = some .string →
      vm.asString name = .ok text
  otherType : ∀ {arguments vm name}, libs.storeOptions declared arguments = .ok vm →
    declared.lookup name = some .uint16 → ∃ e, vm.asString name = .error e
  given : ∀ {arguments argument vm semantic}, libs.storeOptions declared arguments = .ok vm →
    argument ∈ arguments → declared.lookup argument.name = some semantic →
      vm.count argument.name ≠ 0
  notGiven : ∀ {arguments vm name}, libs.storeOptions declared arguments = .ok vm →
    (∀ argument ∈ arguments, ¬ Abbreviates argument.name name) → vm.count name = 0
  notDeclared : ∀ {arguments vm name}, libs.storeOptions declared arguments = .ok vm →
    declared.lookup name = none → vm.count name = 0
  order : ∀ {arguments arguments' vm}, arguments.Perm arguments' →
    libs.storeOptions declared arguments = .ok vm →
      libs.storeOptions declared arguments' = .ok vm

namespace VariablesMap

variable {vm : VariablesMap} {name text : String}

theorem text_of_count_eq_zero (hcount : vm.count name = 0) : vm.text name = .ok none := by
  rw [VariablesMap.text, if_neg (not_not.2 hcount)]

theorem text_of_asString (hcount : vm.count name ≠ 0) (htext : vm.asString name = .ok text) :
    vm.text name = .ok (some text) := by
  rw [VariablesMap.text, if_pos hcount, htext]
  rfl

theorem text_of_asString_error {e : Thrown} (hcount : vm.count name ≠ 0)
    (herror : vm.asString name = .error e) : vm.text name = .error e := by
  rw [VariablesMap.text, if_pos hcount, herror]
  rfl

end VariablesMap

end Kapua
