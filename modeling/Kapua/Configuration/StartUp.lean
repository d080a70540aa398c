import Kapua.Configuration.LoaderAgreement
import Mathlib.Tactic.Tauto

/-!
# The fields that kapuad reads

`main` loads the file and then the command line into a `Config` of which the constructor assigns
only the server's address, and reads five fields of it: the loaders themselves read the logging
level, `main` reads it again with the splash flag and the port, and each pass of `_main_loop` reads
whether discovery is enabled and then, only if it is, the interval.

No read comes before an assignment exactly when the two sources supply the fields (`Supplied`): the
file a logging level that `parse_log_level` knows, one of the two the splash flag, one of the two
whether discovery is enabled, and the file an interval if discovery ends up enabled
(`reads_assigned_iff`).
-/

set_option autoImplicit false
set_option relaxedAutoImplicit false

namespace Kapua

/-! ### `main` and `_main_loop` -/

/-- What a run of `main` meets after the configuration was loaded: whether the core and the network
start, whether the socket is set up, the number of passes of `_main_loop`, and what a
`local_discovery_enable` reads as that was never assigned. -/
structure Surroundings where
  coreStarts : Bool
  networkStarts : Bool
  listens : Bool
  passes : ℕ
  unassigned : Bool

/-- The reads of one pass of `_main_loop`: the interval is compared only where discovery is
enabled. -/
def passReads (config : Config) (unassigned : Bool) : List Read :=
  config.read .localDiscoveryEnable ::
    if config.localDiscoveryEnable.getD unassigned then [config.read .localDiscoveryIntervalMs]
    else []

/-- The reads of `_main_loop`. -/
def mainLoopReads (config : Config) (surroundings : Surroundings) : List Read :=
  if surroundings.listens then
    (List.replicate surroundings.passes (passReads config surroundings.unassigned)).flatten
  else []

/-- The reads of `main` and the threads it starts, after both loaders returned true. -/
def mainReads (config : Config) (surroundings : Surroundings) : List Read :=
  config.read .loggingLevel :: config.read .loggingDisableSplash ::
    if surroundings.coreStarts then
      config.read .serverPort ::
        if surroundings.networkStarts then
          mainLoopReads config surroundings ++ [config.read .loggingDisableSplash]
        else []
    else []

variable (libs : Libraries) (yaml : Yaml) (arguments : List Argument)

/-- What `load_yaml` makes of a new `Config`. -/
def afterYaml : Loaded := Config.loadYaml libs "config.yaml" (.ok yaml) (.construct libs)

/-- What `load_cmd_line` makes of it after that. -/
def afterCmdLine : Loaded := Config.loadCmdLine libs arguments (afterYaml libs yaml).config

/-- The reads of a run of kapuad, up to where it fails. -/
def kapuadReads (surroundings : Surroundings) : List Read :=
  let loaded := afterYaml libs yaml
  if loaded.verdict then
    let started := afterCmdLine libs yaml arguments
    if started.verdict then
      loaded.reads ++ started.reads ++ mainReads started.config surroundings
    else loaded.reads ++ started.reads
  else loaded.reads

/-- In every run each field that is read was assigned before. -/
def ReadsAssigned : Prop :=
  ∀ surroundings, ∀ read ∈ kapuadReads libs yaml arguments surroundings, read.assigned = true

/-! ### What the sources supply -/

/-- The text the file gives for an option. -/
def Yaml.given (yaml : Yaml) (section' name : String) : Option String :=
  (yaml.text section' name).toOption.join

/-- The text the command line gives for an option, as `boost::program_options` hands it over. -/
def givenText (libs : Libraries) (arguments : List Argument) (name : String) : Option String :=
  match libs.storeOptions declaredOptions arguments with
  | .error _ => none
  | .ok vm => (vm.text name).toOption.join

/-- The texts `parse_log_level` knows. -/
def IsLevel (text : String) : Prop :=
  text.toLower = "error" ∨ text.toLower = "warn" ∨ text.toLower = "warning" ∨
    text.toLower = "info" ∨ text.toLower = "debug"

/-- The texts `parse_bool` takes for true. -/
def IsTrue (text : String) : Prop :=
  text.toLower = "true" ∨ text.toLower = "t" ∨ text.toLower = "yes"

instance instDecidablePredIsTrue : DecidablePred IsTrue := fun _ ↦
  inferInstanceAs (Decidable (_ ∨ _ ∨ _))

/-- The file and the command line supply the fields that will be read. -/
structure Supplied (libs : Libraries) (yaml : Yaml) (arguments : List Argument) : Prop where
  level : ∃ text, yaml.given "logging" "level" = some text ∧ IsLevel text
  splash : (givenText libs arguments "logging.disable_splash").isSome ∨
    (yaml.given "logging" "disable_splash").isSome
  enable : (givenText libs arguments "local_discovery.enable").isSome ∨
    (yaml.given "local_discovery" "enable").isSome
  interval : ∀ text, (givenText libs arguments "local_discovery.enable").or
      (yaml.given "local_discovery" "enable") = some text → IsTrue text →
    (yaml.given "local_discovery" "interval").isSome

variable {libs : Libraries} {yaml : Yaml} {arguments : List Argument} {vm : VariablesMap}

theorem parseLogLevel_stored_isSome_iff {source name text : String} :
    (Config.parseLogLevel source name text).stored.isSome ↔ IsLevel text := by
  unfold Config.parseLogLevel IsLevel
  dsimp only
  split_ifs <;> simp <;> tauto

/-- A text that `parse_bool` returns true for is true or false. -/
theorem parseBool_stored_of_verdict {source name text : String}
    (hverdict : (Config.parseBool source name text).verdict = .ok true) :
    (Config.parseBool source name text).stored = some (decide (IsTrue text)) := by
  unfold Config.parseBool at hverdict ⊢
  dsimp only at hverdict ⊢
  split_ifs at hverdict ⊢ with htrue hfalse
  · exact congrArg some (decide_eq_true htrue).symm
  · exact congrArg some (decide_eq_false htrue).symm
  · cases hverdict

/-- The text that the line of an option has is the one the command line gives, if the line is
accepted. -/
theorem vm_text_eq_givenText {key : Key}
    (hvm : libs.storeOptions declaredOptions arguments = .ok vm)
    (haccepted : (key.line libs "cmd" (vm.text key.name)).Accepted) :
    vm.text key.name = .ok (givenText libs arguments key.name) := by
  rw [givenText, hvm]
  dsimp only
  cases htext : vm.text key.name with
  | error e =>
    rw [htext] at haccepted
    exact absurd haccepted (Key.not_line_accepted_error libs)
  | ok text => rfl

/-- The text of an argument that is stored is the one the command line gives, if its option is
declared as a string. -/
theorem givenText_of_mem {name text : String} (hboost : libs.Documented declaredOptions)
    (hvm : libs.storeOptions declaredOptions arguments = .ok vm)
    (hmem : ⟨name, some text⟩ ∈ arguments)
    (hdeclared : declaredOptions.lookup name = some .string) :
    givenText libs arguments name = some text := by
  have htext : vm.text name = .ok (some text) := VariablesMap.text_of_asString
    (hboost.given hvm hmem hdeclared) (hboost.handedThrough hvm hmem hdeclared)
  rw [givenText, hvm]
  dsimp only
  rw [htext]
  rfl

/-- What an accepted line stores is what its parser stores for the text it is given. -/
theorem storedBy_eq_bind {α : Type} {text : Except Thrown (Option String)}
    {parser : String → Parsed α} :
    storedBy text parser = text.toOption.join.bind fun text ↦ (parser text).stored := by
  rcases text with e | _ | given <;> rfl

/-- An accepted line with `parse_bool` stores the truth of its text. -/
theorem storedBy_parseBool {source name : String} {text : Except Thrown (Option String)}
    {slot : Slot Bool}
    (haccepted : (Line.option text (Config.parseBool source name) slot).Accepted) :
    storedBy text (Config.parseBool source name) =
      text.toOption.join.map fun text ↦ decide (IsTrue text) := by
  rcases haccepted with rfl | ⟨given, rfl, hverdict⟩
  · rfl
  · exact parseBool_stored_of_verdict hverdict

/-- An accepted line whose parser returns true only with a value stores one if it has a text. -/
theorem storedBy_isSome_iff {α : Type} {text : Except Thrown (Option String)}
    {parser : String → Parsed α} {slot : Slot α}
    (haccepted : (Line.option text parser slot).Accepted)
    (hstores : ∀ given, (parser given).Stores) :
    (storedBy text parser).isSome ↔ text.toOption.join.isSome := by
  rcases haccepted with rfl | ⟨given, rfl, hverdict⟩
  · rfl
  · exact iff_of_true ((hstores given).mp hverdict) rfl

/-! ### The reads of `main` -/

theorem passReads_assigned_iff (config : Config) (unassigned : Bool) :
    (∀ read ∈ passReads config unassigned, read.assigned = true) ↔
      config.localDiscoveryEnable.isSome ∧
        (config.localDiscoveryEnable = some true → config.localDiscoveryIntervalMs.isSome) := by
  rw [passReads, List.forall_mem_cons]
  show config.localDiscoveryEnable.isSome = true ∧ _ ↔ _
  cases henable : config.localDiscoveryEnable with
  | none => simp
  | some enabled =>
    cases enabled with
    | false => simp
    | true =>
      simp only [Option.getD_some, if_true, List.forall_mem_singleton]
      exact Iff.and Iff.rfl (imp_iff_right trivial).symm

/-- In every run after the loading, the fields that are read are assigned exactly when these are. -/
theorem mainReads_assigned_iff (config : Config) :
    (∀ surroundings, ∀ read ∈ mainReads config surroundings, read.assigned = true) ↔
      config.loggingLevel.isSome ∧ config.loggingDisableSplash.isSome ∧
        config.serverSinPort.isSome ∧ config.localDiscoveryEnable.isSome ∧
          (config.localDiscoveryEnable = some true → config.localDiscoveryIntervalMs.isSome) := by
  constructor
  · intro hassigned
    -- A run with one pass reads every field.
    have hrun := hassigned ⟨true, true, true, 1, true⟩
    simp only [mainReads, mainLoopReads, if_true, List.forall_mem_cons, List.forall_mem_append,
      List.replicate_one, List.flatten_singleton, passReads_assigned_iff] at hrun
    obtain ⟨hlevel, hsplash, hport, hpass, -⟩ := hrun
    exact ⟨hlevel, hsplash, hport, hpass⟩
  · rintro ⟨hlevel, hsplash, hport, hpass⟩ surroundings
    have hloop : ∀ read ∈ mainLoopReads config surroundings, read.assigned = true := by
      intro read hread
      unfold mainLoopReads at hread
      split_ifs at hread
      · obtain ⟨reads, hreads, hread⟩ := List.mem_flatten.mp hread
        rw [List.eq_of_mem_replicate hreads] at hread
        exact (passReads_assigned_iff config surroundings.unassigned).mpr hpass read hread
      · cases hread
    unfold mainReads
    split_ifs
    all_goals simp only [List.forall_mem_cons, List.forall_mem_append]
    · exact ⟨hlevel, hsplash, hport, hloop, hsplash, List.forall_mem_nil _⟩
    · exact ⟨hlevel, hsplash, hport, List.forall_mem_nil _⟩
    · exact ⟨hlevel, hsplash, List.forall_mem_nil _⟩

/-! ### What the loaders leave -/

/-- Both loaders accept: the file is a map, the arguments are stored without `--help`, and every
line is accepted. -/
structure Accepts (libs : Libraries) (yaml : Yaml) (arguments : List Argument) (vm : VariablesMap) :
    Prop where
  isMap : yaml.isMap = true
  yamlLines : ∀ line ∈ yamlLines libs yaml, line.Accepted
  parsed : libs.storeOptions declaredOptions arguments = .ok vm
  noHelp : vm.count "help" = 0
  cmdLines : ∀ line ∈ cmdLines libs vm, line.Accepted

theorem exists_accepts (hyaml : (afterYaml libs yaml).verdict = true)
    (hcmd : (afterCmdLine libs yaml arguments).verdict = true) :
    ∃ vm, Accepts libs yaml arguments vm := by
  obtain ⟨yaml', hfile, hmap, hlines⟩ := Config.loadYaml_verdict_iff.mp hyaml
  cases hfile
  obtain ⟨vm, hvm, hhelp, hlines'⟩ := Config.loadCmdLine_verdict_iff.mp hcmd
  exact ⟨vm, hmap, hlines, hvm, hhelp, hlines'⟩

/-- The fields after the lines of the file. -/
def yamlConfig (libs : Libraries) (yaml : Yaml) : Config :=
  updateLines (yamlLines libs yaml) (.construct libs)

/-- The fields after the lines of both loaders. -/
def startConfig (libs : Libraries) (yaml : Yaml) (vm : VariablesMap) : Config :=
  updateLines (cmdLines libs vm) (yamlConfig libs yaml)

/-- The port has been assigned by the constructor. -/
theorem startConfig_serverSinPort : (startConfig libs yaml vm).serverSinPort.isSome = true := by
  show (Option.or _ (Option.or _ (some _))).isSome = true
  rw [Option.isSome_or, Option.isSome_or, Option.isSome_some, Bool.or_true, Bool.or_true]

theorem yamlConfig_loggingLevel_isSome_iff : (yamlConfig libs yaml).loggingLevel.isSome ↔
    ∃ text, yaml.given "logging" "level" = some text ∧ IsLevel text := by
  show ((storedBy (yaml.text "logging" "level") _).or none).isSome ↔ _
  rw [Option.or_none, storedBy_eq_bind]
  show ((yaml.given "logging" "level").bind _).isSome ↔ _
  cases yaml.given "logging" "level" with
  | none => simp
  | some text => simpa using parseLogLevel_stored_isSome_iff

/-- The command line keeps a logging level that the file has assigned. -/
theorem startConfig_loggingLevel (hlevel : (yamlConfig libs yaml).loggingLevel.isSome = true) :
    (startConfig libs yaml vm).loggingLevel.isSome = true := by
  show (Option.or _ (yamlConfig libs yaml).loggingLevel).isSome = true
  rw [Option.isSome_or, hlevel, Bool.or_true]

/-- A flag that both loaders may store is the one of the command line, if it gives one, or the one
of the file. -/
theorem boolField_eq {field : Option Bool} {name section' name' : String}
    {parser parser' : String → Parsed Bool}
    (hfield : field = (storedBy (vm.text name) parser).or
      ((storedBy (yaml.text section' name') parser').or none))
    (htext : vm.text name = .ok (givenText libs arguments name))
    (hcmd : storedBy (vm.text name) parser =
      (vm.text name).toOption.join.map fun text ↦ decide (IsTrue text))
    (hyaml : storedBy (yaml.text section' name') parser' =
      (yaml.given section' name').map fun text ↦ decide (IsTrue text)) :
    field = ((givenText libs arguments name).or (yaml.given section' name')).map
      fun text ↦ decide (IsTrue text) := by
  rw [hfield, hcmd, hyaml, htext, Option.or_none, Option.map_or]
  rfl

namespace Accepts

variable (h : Accepts libs yaml arguments vm)
include h

theorem yamlLine (key : Key) :
    (key.line libs "yaml" (yaml.text key.path.1 key.path.2)).Accepted :=
  forall_keyLines.mp (yamlLines_eq_keyLines libs yaml ▸ h.yamlLines) key

theorem cmdLine (key : Key) : (key.line libs "cmd" (vm.text key.name)).Accepted :=
  (forall_cmdLines.mp h.cmdLines).1 key

/-- The loaders read the logging level once each, before `main` reads what they leave. -/
theorem kapuadReads_eq (surroundings : Surroundings) :
    kapuadReads libs yaml arguments surroundings =
      (yamlConfig libs yaml).read .loggingLevel :: (startConfig libs yaml vm).read .loggingLevel ::
        mainReads (startConfig libs yaml vm) surroundings := by
  have hyaml : (afterYaml libs yaml).verdict = true :=
    Config.loadYaml_verdict_iff.mpr ⟨yaml, rfl, h.isMap, h.yamlLines⟩
  have hcmd : (afterCmdLine libs yaml arguments).verdict = true :=
    Config.loadCmdLine_verdict_iff.mpr ⟨vm, h.parsed, h.noHelp, h.cmdLines⟩
  have hloaded : (afterYaml libs yaml).config = yamlConfig libs yaml ∧
      (afterYaml libs yaml).reads = [(yamlConfig libs yaml).read .loggingLevel] :=
    Config.loadYaml_of_accepted h.isMap h.yamlLines
  have hstarted : (afterCmdLine libs yaml arguments).config = startConfig libs yaml vm ∧
      (afterCmdLine libs yaml arguments).reads =
        [(startConfig libs yaml vm).read .loggingLevel] := by
    rw [afterCmdLine, hloaded.1]
    exact Config.loadCmdLine_of_accepted h.parsed h.noHelp h.cmdLines
  simp only [kapuadReads, hyaml, hcmd, if_true, hloaded, hstarted, List.cons_append,
    List.nil_append]

/-- The splash flag is the one of the command line, if it gives one, or the one of the file. -/
theorem loggingDisableSplash_eq : (startConfig libs yaml vm).loggingDisableSplash =
    ((givenText libs arguments "logging.disable_splash").or
      (yaml.given "logging" "disable_splash")).map fun text ↦ decide (IsTrue text) := by
  have htext : vm.text "logging.disable_splash" =
      .ok (givenText libs arguments "logging.disable_splash") :=
    vm_text_eq_givenText h.parsed (h.cmdLine .loggingDisableSplash)
  have hcmd := storedBy_parseBool (h.cmdLine .loggingDisableSplash)
  have hyaml := storedBy_parseBool (h.yamlLine .loggingDisableSplash)
  exact boolField_eq rfl htext hcmd hyaml

/-- Discovery is enabled as the command line says, if it does, or as the file says. -/
theorem localDiscoveryEnable_eq : (startConfig libs yaml vm).localDiscoveryEnable =
    ((givenText libs arguments "local_discovery.enable").or
      (yaml.given "local_discovery" "enable")).map fun text ↦ decide (IsTrue text) := by
  have htext : vm.text "local_discovery.enable" =
      .ok (givenText libs arguments "local_discovery.enable") :=
    vm_text_eq_givenText h.parsed (h.cmdLine .localDiscoveryEnable)
  have hcmd := storedBy_parseBool (h.cmdLine .localDiscoveryEnable)
  have hyaml := storedBy_parseBool (h.yamlLine .localDiscoveryEnable)
  exact boolField_eq rfl htext hcmd hyaml

/-- The interval is the one of the file: the command line declares no such option. -/
theorem interval_isSome_iff (hboost : libs.Documented declaredOptions) :
    (startConfig libs yaml vm).localDiscoveryIntervalMs.isSome ↔
    (yaml.given "local_discovery" "interval").isSome := by
  have hnone : vm.text "local_discovery.interval" = .ok none :=
    text_of_not_declared hboost h.parsed (by decide)
  show ((storedBy (vm.text "local_discovery.interval") _).or
    ((storedBy (yaml.text "local_discovery" "interval") _).or none)).isSome ↔ _
  rw [hnone, Option.or_none]
  exact storedBy_isSome_iff (h.yamlLine .localDiscoveryInterval) fun _ ↦
    Config.parseDuration_stores false

end Accepts

/-- The fields are assigned before they are read exactly when the two sources supply them. Assumes:
`boost::program_options` does what is documented of it, and both loaders return true. -/
theorem reads_assigned_iff (libs : Libraries) (hboost : libs.Documented declaredOptions)
    (yaml : Yaml) (arguments : List Argument)
    (hyaml : (afterYaml libs yaml).verdict = true)
    (hcmd : (afterCmdLine libs yaml arguments).verdict = true) :
    ReadsAssigned libs yaml arguments ↔ Supplied libs yaml arguments := by
  obtain ⟨vm, haccepts⟩ := exists_accepts hyaml hcmd
  have hsplash := haccepts.loggingDisableSplash_eq
  have henable := haccepts.localDiscoveryEnable_eq
  constructor
  · intro hassigned
    have hruns (surroundings : Surroundings) := hassigned surroundings
    simp only [haccepts.kapuadReads_eq, List.forall_mem_cons] at hruns
    have hlevel := (hruns ⟨true, true, true, 1, true⟩).1
    obtain ⟨-, hsplash', -, henable', hinterval⟩ :=
      (mainReads_assigned_iff _).mp fun surroundings ↦ (hruns surroundings).2.2
    refine ⟨yamlConfig_loggingLevel_isSome_iff.mp hlevel, ?_, ?_, fun text htext htrue ↦ ?_⟩
    · simpa [hsplash] using hsplash'
    · simpa [henable] using henable'
    · refine (haccepts.interval_isSome_iff hboost).mp (hinterval ?_)
      rw [henable, htext, Option.map_some, decide_eq_true htrue]
  · intro hsupplied surroundings
    have hlevel : (yamlConfig libs yaml).loggingLevel.isSome = true :=
      yamlConfig_loggingLevel_isSome_iff.mpr hsupplied.level
    have hlevel' : (startConfig libs yaml vm).loggingLevel.isSome = true :=
      startConfig_loggingLevel hlevel
    rw [haccepts.kapuadReads_eq, List.forall_mem_cons, List.forall_mem_cons]
    refine ⟨hlevel, hlevel', (mainReads_assigned_iff _).mpr ?_ surroundings⟩
    refine ⟨hlevel', ?_, startConfig_serverSinPort, ?_, fun htrue ↦ ?_⟩
    · simpa [hsplash] using hsupplied.splash
    · simpa [henable] using hsupplied.enable
    · rw [henable, Option.map_eq_some_iff] at htrue
      obtain ⟨text, htext, htrue⟩ := htrue
      exact (haccepts.interval_isSome_iff hboost).mpr
        (hsupplied.interval text htext (of_decide_eq_true htrue))

/-- A file that supplies the fields by itself. -/
def suppliedEntries : Entries :=
  ⟨[(.loggingLevel, "debug"), (.loggingDisableSplash, "no"), (.localDiscoveryEnable, "true"),
    (.localDiscoveryInterval, "20h")], by decide⟩

theorem reads_assigned_of_suppliedEntries :
    ReadsAssigned plainLibraries suppliedEntries.yaml [] := by
  refine (reads_assigned_iff _ (plainLibraries_documented _) _ _ (by decide +kernel)
    (by decide +kernel)).mpr
    ⟨⟨"debug", by decide +kernel, ?_⟩, by decide +kernel, by decide +kernel, fun _ _ _ ↦ ?_⟩
  · exact .inr (.inr (.inr (.inr (by decide +kernel))))
  · decide +kernel

/-- A file that supplies nothing. -/
def noEntries : Entries := ⟨[], by decide⟩

/-- Both loaders accept an empty map without arguments, and the logging level is read unassigned. -/
theorem not_reads_assigned : ¬ ∀ libs : Libraries, libs.Documented declaredOptions →
    ∀ yaml arguments, (afterYaml libs yaml).verdict = true →
      (afterCmdLine libs yaml arguments).verdict = true → ReadsAssigned libs yaml arguments := by
  intro hassigned
  have hread := hassigned plainLibraries (plainLibraries_documented _) noEntries.yaml []
    (by decide +kernel) (by decide +kernel) ⟨true, true, true, 1, true⟩ ⟨.loggingLevel, false⟩
    (by decide +kernel)
  cases hread

end Kapua
