import Kapua.Configuration.Parsers
import Mathlib.Tactic.ByContra

/-!
# Options without abbreviations

A reader of command lines that takes no abbreviations: it goes over the arguments, turns down those
whose option is not declared, is given twice or has not the text it needs, and keeps the values of
the others under their names (`storeValues`). It does what is documented of `boost::program_options`
(`plainLibraries_documented`), so that what is assumed of it can be met.
-/

set_option autoImplicit false
set_option relaxedAutoImplicit false

namespace Kapua

/-- The value that is kept for an option. -/
inductive AnyValue
  | empty
  | string (text : String)
  | uint16 (value : UInt16)
  deriving DecidableEq, Repr

/-- The values of options under their names. -/
abbrev Values := List (String × AnyValue)

/-- A number as text, as far as its digits fit. -/
def readUInt16 (text : String) : Option UInt16 :=
  (Except.toOption (stoi text.toList)).map fun n ↦ n.toUInt32.toUInt16

/-- What is kept for an option that is declared so and given the text. -/
def Semantic.read (text : Option String) : Semantic → Except Thrown AnyValue
  | .untyped =>
    match text with
    | none => .ok .empty
    | some _ => .error (.exception "option does not take any arguments")
  | .string =>
    match text with
    | none => .error (.exception "the required argument for option is missing")
    | some text => .ok (.string text)
  | .uint16 =>
    match text with
    | none => .error (.exception "the required argument for option is missing")
    | some text =>
      match readUInt16 text with
      | none => .error (.exception "the argument for option is invalid")
      | some value => .ok (.uint16 value)

/-- The values of the arguments: an option that is not declared, or is given twice, raises an
error. -/
def storeValues (declared : List (String × Semantic)) : List Argument → Except Thrown Values
  | [] => .ok []
  | argument :: rest => do
    match declared.lookup argument.name with
    | none => throw (.exception "unrecognised option")
    | some semantic =>
      let value ← semantic.read argument.text
      let values ← storeValues declared rest
      if (values.lookup argument.name).isSome then
        throw (.exception "option cannot be specified more than once")
      return (argument.name, value) :: values

/-- `boost::bad_any_cast` -/
def badAnyCast : Thrown :=
  .exception "boost::bad_any_cast: failed conversion using boost::any_cast"

/-- A value read as a string. An option without a value has the empty one. -/
def AnyValue.asString : AnyValue → Except Thrown String
  | empty => .ok ""
  | string text => .ok text
  | uint16 _ => .error badAnyCast

/-- Values as a map of variables. -/
def Values.map (values : Values) : VariablesMap where
  count name := if (values.lookup name).isSome then 1 else 0
  asString name :=
    match values.lookup name with
    | none => .error badAnyCast
    | some value => value.asString

/-- `inet_pton` for one address, and the reader of the options. -/
def plainLibraries : Libraries where
  inetPton text := if text = "0.0.0.0" then some 0 else none
  storeOptions declared arguments := (storeValues declared arguments).map Values.map

variable {declared : List (String × Semantic)} {argument : Argument}
  {arguments arguments' rest : List Argument} {values : Values}

/-- The value that an argument has as its option is declared. -/
def Argument.Reads (declared : List (String × Semantic)) (argument : Argument) (value : AnyValue) :
    Prop :=
  ∃ semantic, declared.lookup argument.name = some semantic ∧
    semantic.read argument.text = .ok value

/-- An argument has one value. -/
theorem Argument.Reads.unique {value value' : AnyValue} (h : argument.Reads declared value)
    (h' : argument.Reads declared value') : value = value' := by
  obtain ⟨semantic, hsemantic, hread⟩ := h
  obtain ⟨semantic', hsemantic', hread'⟩ := h'
  cases hsemantic.symm.trans hsemantic'
  exact Except.ok.inj (hread.symm.trans hread')

/-- Only a number is kept for an option that is declared as one. -/
theorem Argument.Reads.uint16 {value : AnyValue} (h : argument.Reads declared value)
    (hdeclared : declared.lookup argument.name = some .uint16) :
    ∃ number, value = .uint16 number := by
  obtain ⟨semantic, hsemantic, hread⟩ := h
  cases hdeclared.symm.trans hsemantic
  cases htext : argument.text with
  | none => simp [Semantic.read, htext] at hread
  | some text =>
    cases hnumber : readUInt16 text with
    | none => simp [Semantic.read, htext, hnumber] at hread
    | some number =>
      simp only [Semantic.read, htext, hnumber, Except.ok.injEq] at hread
      exact ⟨number, hread.symm⟩

/-! ### The values that are kept -/

/-- Arguments are stored if the first is of a declared option that has the text, the others are
stored and its option is not among them. -/
theorem storeValues_cons_iff : storeValues declared (argument :: rest) = .ok values ↔
    ∃ value values', argument.Reads declared value ∧ storeValues declared rest = .ok values' ∧
      values'.lookup argument.name = none ∧ values = (argument.name, value) :: values' := by
  rw [storeValues]
  cases hdeclared : declared.lookup argument.name with
  | none => simp [Argument.Reads, hdeclared, throw, throwThe, MonadExceptOf.throw]
  | some semantic =>
    cases hread : semantic.read argument.text with
    | error e => simp [Argument.Reads, hdeclared, hread, bind, Except.bind]
    | ok value =>
      cases hrest : storeValues declared rest with
      | error e => simp [Argument.Reads, hdeclared, hread, bind, Except.bind]
      | ok values' =>
        have hgiven : (∃ value' values'', argument.Reads declared value' ∧
            (Except.ok values' : Except Thrown Values) = .ok values'' ∧
            values''.lookup argument.name = none ∧ values = (argument.name, value') :: values'') ↔
            values'.lookup argument.name = none ∧ values = (argument.name, value) :: values' := by
          constructor
          · rintro ⟨value', values'', ⟨semantic', hsemantic, hvalue⟩, heq, hnone, hvalues⟩
            cases hdeclared.symm.trans hsemantic
            cases hread.symm.trans hvalue
            cases heq
            exact ⟨hnone, hvalues⟩
          · rintro ⟨hnone, hvalues⟩
            exact ⟨value, values', ⟨semantic, hdeclared, hread⟩, rfl, hnone, hvalues⟩
        rw [hgiven]
        dsimp only
        rw [hread]
        show (if (values'.lookup argument.name).isSome then
          Except.error (Thrown.exception "option cannot be specified more than once")
          else Except.ok ((argument.name, value) :: values')) = Except.ok values ↔ _
        cases values'.lookup argument.name with
        | some found => simp
        | none => simp [eq_comm]

/-- The value of each argument is kept under the name of its option. -/
theorem lookup_of_mem_arguments (hvalues : storeValues declared arguments = .ok values)
    (hmem : argument ∈ arguments) :
    ∃ value, argument.Reads declared value ∧ values.lookup argument.name = some value := by
  induction arguments generalizing values with
  | nil => cases hmem
  | cons head rest ih =>
    obtain ⟨value, values', hreads, hrest, hfresh, rfl⟩ := storeValues_cons_iff.mp hvalues
    rcases List.mem_cons.mp hmem with rfl | hmem
    · exact ⟨value, hreads, List.lookup_cons_self⟩
    · obtain ⟨value', hreads', hlookup⟩ := ih hrest hmem
      have hne : argument.name ≠ head.name := by
        rintro heq
        rw [heq, hfresh] at hlookup
        cases hlookup
      exact ⟨value', hreads', by rw [List.lookup_cons, beq_false_of_ne hne, hlookup]⟩

/-- What is kept is the value of an argument. -/
theorem mem_arguments_of_lookup {name : String} {value : AnyValue}
    (hvalues : storeValues declared arguments = .ok values)
    (hlookup : values.lookup name = some value) :
    ∃ argument ∈ arguments, argument.name = name ∧ argument.Reads declared value := by
  induction arguments generalizing values with
  | nil =>
    cases hvalues
    cases hlookup
  | cons head rest ih =>
    obtain ⟨value', values', hreads, hrest, -, rfl⟩ := storeValues_cons_iff.mp hvalues
    by_cases hname : name = head.name
    · rw [hname, List.lookup_cons_self] at hlookup
      cases hlookup
      exact ⟨head, List.mem_cons_self, hname.symm, hreads⟩
    · rw [List.lookup_cons, beq_false_of_ne hname] at hlookup
      obtain ⟨argument, hmem, hargument⟩ := ih hrest hlookup
      exact ⟨argument, List.mem_cons_of_mem _ hmem, hargument⟩

/-- Nothing is kept for an option that no argument names. -/
theorem lookup_eq_none {name : String} (hvalues : storeValues declared arguments = .ok values)
    (hother : ∀ argument ∈ arguments, argument.name ≠ name) : values.lookup name = none := by
  by_contra hsome
  obtain ⟨value, hvalue⟩ := Option.ne_none_iff_exists'.mp hsome
  obtain ⟨argument, hmem, hname, -⟩ := mem_arguments_of_lookup hvalues hvalue
  exact hother argument hmem hname

/-- Nothing is kept for an option that is not declared. -/
theorem lookup_eq_none_of_not_declared {name : String}
    (hvalues : storeValues declared arguments = .ok values) (hname : declared.lookup name = none) :
    values.lookup name = none := by
  refine lookup_eq_none hvalues ?_
  rintro argument hmem rfl
  obtain ⟨-, ⟨semantic, hdeclared, -⟩, -⟩ := lookup_of_mem_arguments hvalues hmem
  rw [hname] at hdeclared
  cases hdeclared

/-- Arguments of different declared options that have the texts they need are stored. -/
theorem exists_storeValues (hnodup : (arguments.map Argument.name).Nodup)
    (hreads : ∀ argument ∈ arguments, ∃ value, argument.Reads declared value) :
    ∃ values, storeValues declared arguments = .ok values := by
  induction arguments with
  | nil => exact ⟨[], rfl⟩
  | cons head rest ih =>
    obtain ⟨⟨value, hvalue⟩, hrest⟩ := List.forall_mem_cons.mp hreads
    obtain ⟨hfresh, hnodup⟩ := List.nodup_cons.mp hnodup
    obtain ⟨values, hvalues⟩ := ih hnodup hrest
    have hnone : values.lookup head.name = none :=
      lookup_eq_none hvalues fun argument hmem hname ↦
        hfresh (List.mem_map.mpr ⟨argument, hmem, hname⟩)
    exact ⟨_, storeValues_cons_iff.mpr ⟨value, values, hvalue, hvalues, hnone, rfl⟩⟩

/-- The arguments that are stored are of different options. -/
theorem nodup_of_storeValues (hvalues : storeValues declared arguments = .ok values) :
    (arguments.map Argument.name).Nodup := by
  induction arguments generalizing values with
  | nil => exact List.nodup_nil
  | cons head rest ih =>
    obtain ⟨value, values', -, hrest, hfresh, -⟩ := storeValues_cons_iff.mp hvalues
    refine List.nodup_cons.mpr ⟨fun hmem ↦ ?_, ih hrest⟩
    obtain ⟨argument, hargument, hname⟩ := List.mem_map.mp hmem
    obtain ⟨value', -, hlookup⟩ := lookup_of_mem_arguments hrest hargument
    rw [hname, hfresh] at hlookup
    cases hlookup

/-- Arguments in another order are stored if they are, and found under the same names. -/
theorem storeValues_perm (hperm : arguments.Perm arguments')
    (hvalues : storeValues declared arguments = .ok values) :
    ∃ values', storeValues declared arguments' = .ok values' ∧
      ∀ name, values'.lookup name = values.lookup name := by
  have hnodup : (arguments'.map Argument.name).Nodup :=
    (hperm.map Argument.name).nodup_iff.mp (nodup_of_storeValues hvalues)
  have hreads : ∀ argument ∈ arguments', ∃ value, argument.Reads declared value := by
    intro argument hmem
    obtain ⟨value, hreads, -⟩ := lookup_of_mem_arguments hvalues (hperm.mem_iff.mpr hmem)
    exact ⟨value, hreads⟩
  obtain ⟨values', hvalues'⟩ := exists_storeValues hnodup hreads
  refine ⟨values', hvalues', fun name ↦ ?_⟩
  cases hlookup : values.lookup name with
  | none =>
    by_contra hsome
    obtain ⟨value, hvalue⟩ := Option.ne_none_iff_exists'.mp hsome
    obtain ⟨argument, hmem, rfl, -⟩ := mem_arguments_of_lookup hvalues' hvalue
    obtain ⟨value', -, hfound⟩ := lookup_of_mem_arguments hvalues (hperm.mem_iff.mpr hmem)
    rw [hlookup] at hfound
    cases hfound
  | some value =>
    obtain ⟨argument, hmem, rfl, hreads⟩ := mem_arguments_of_lookup hvalues hlookup
    obtain ⟨value', hreads', hfound⟩ :=
      lookup_of_mem_arguments hvalues' (hperm.mem_iff.mp hmem)
    rw [hfound, hreads.unique hreads']

/-! ### The map of variables -/

theorem storeOptions_eq_ok_iff {vm : VariablesMap} :
    plainLibraries.storeOptions declared arguments = .ok vm ↔
      ∃ values, storeValues declared arguments = .ok values ∧ values.map = vm := by
  show Except.map Values.map (storeValues declared arguments) = .ok vm ↔ _
  cases storeValues declared arguments <;> simp [Except.map]

theorem Values.count_eq_zero_iff {name : String} :
    values.map.count name = 0 ↔ values.lookup name = none := by
  show (if (values.lookup name).isSome then 1 else 0) = 0 ↔ _
  cases values.lookup name <;> simp

theorem Values.asString_of_lookup {name : String} {value : AnyValue}
    (hlookup : values.lookup name = some value) : values.map.asString name = value.asString := by
  simp [Values.map, hlookup]

/-- The reader does what is documented. -/
theorem plainLibraries_documented (declared : List (String × Semantic)) :
    plainLibraries.Documented declared where
  undeclared {arguments argument} hmem hother := by
    cases hstore : plainLibraries.storeOptions declared arguments with
    | error e => exact ⟨e, rfl⟩
    | ok vm =>
      obtain ⟨values, hvalues, -⟩ := storeOptions_eq_ok_iff.1 hstore
      obtain ⟨-, ⟨semantic, hdeclared, -⟩, -⟩ := lookup_of_mem_arguments hvalues hmem
      obtain ⟨before, after, rfl, -⟩ := List.lookup_eq_some_iff.mp hdeclared
      exact absurd (List.prefix_refl _) (hother (argument.name, semantic) (by simp))
  stored hnodup hstrings := by
    obtain ⟨values, hvalues⟩ := exists_storeValues hnodup fun argument hmem ↦ by
      obtain ⟨hdeclared, htext⟩ := hstrings argument hmem
      obtain ⟨text, htext⟩ := Option.isSome_iff_exists.1 htext
      exact ⟨.string text, .string, hdeclared, by rw [htext]; rfl⟩
    exact ⟨_, storeOptions_eq_ok_iff.2 ⟨values, hvalues, rfl⟩⟩
  handedThrough {arguments vm name text} hstore hmem hdeclared := by
    obtain ⟨values, hvalues, rfl⟩ := storeOptions_eq_ok_iff.1 hstore
    obtain ⟨value, hreads, hlookup⟩ := lookup_of_mem_arguments hvalues hmem
    obtain rfl : value = .string text := hreads.unique ⟨.string, hdeclared, rfl⟩
    exact Values.asString_of_lookup hlookup
  otherType {arguments vm name} hstore hdeclared := by
    obtain ⟨values, hvalues, rfl⟩ := storeOptions_eq_ok_iff.1 hstore
    cases hlookup : values.lookup name with
    | none => exact ⟨badAnyCast, by simp only [Values.map, hlookup]⟩
    | some value =>
      obtain ⟨argument, -, rfl, hreads⟩ := mem_arguments_of_lookup hvalues hlookup
      obtain ⟨number, rfl⟩ := hreads.uint16 hdeclared
      exact ⟨_, Values.asString_of_lookup hlookup⟩
  given hstore hmem _ := by
    obtain ⟨values, hvalues, rfl⟩ := storeOptions_eq_ok_iff.1 hstore
    obtain ⟨value, -, hlookup⟩ := lookup_of_mem_arguments hvalues hmem
    simp [Values.count_eq_zero_iff, hlookup]
  notGiven hstore hother := by
    obtain ⟨values, hvalues, rfl⟩ := storeOptions_eq_ok_iff.1 hstore
    refine Values.count_eq_zero_iff.2 (lookup_eq_none hvalues ?_)
    rintro argument hmem rfl
    exact hother argument hmem (List.prefix_refl _)
  notDeclared hstore hname := by
    obtain ⟨values, hvalues, rfl⟩ := storeOptions_eq_ok_iff.1 hstore
    exact Values.count_eq_zero_iff.2 (lookup_eq_none_of_not_declared hvalues hname)
  order hperm hstore := by
    obtain ⟨values, hvalues, rfl⟩ := storeOptions_eq_ok_iff.1 hstore
    obtain ⟨values', hvalues', hlookup⟩ := storeValues_perm hperm hvalues
    refine storeOptions_eq_ok_iff.2 ⟨values', hvalues', ?_⟩
    simp only [Values.map, hlookup]

end Kapua
