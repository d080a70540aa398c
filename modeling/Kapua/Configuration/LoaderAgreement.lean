import Kapua.Configuration.Loaders
import Kapua.Configuration.PlainOptions
import Mathlib.Logic.Function.Basic

/-!
# The same options in the file and on the command line

Both loaders have a line for each of nine options. Given the same texts for them, the two verdicts
are the same, and so are the fields two accepting loaders leave, unless one of four options is given
and the file is accepted (`loaders_agree_iff`): `load_cmd_line` declares `local_discovery.interval`,
`memcache.enable` and `memcache.port` nowhere, and declares `server.port` as a number that it reads
as a string. With one of these it never returns true (`loadCmdLine_entries_verdict_iff`).
-/

set_option autoImplicit false
set_option relaxedAutoImplicit false

namespace Kapua

/-! ### The options of both loaders -/

/-- The options both loaders have a line for. -/
inductive Key
  | loggingLevel
  | loggingDisableSplash
  | serverId
  | serverIp4Address
  | serverPort
  | localDiscoveryEnable
  | localDiscoveryInterval
  | memcacheEnable
  | memcachePort
  deriving DecidableEq, Repr

namespace Key

/-- The section and the name of an option in the file. -/
def path : Key → String × String
  | loggingLevel => ("logging", "level")
  | loggingDisableSplash => ("logging", "disable_splash")
  | serverId => ("server", "id")
  | serverIp4Address => ("server", "ip4_address")
  | serverPort => ("server", "port")
  | localDiscoveryEnable => ("local_discovery", "enable")
  | localDiscoveryInterval => ("local_discovery", "interval")
  | memcacheEnable => ("memcache", "enable")
  | memcachePort => ("memcache", "port")

/-- The name of an option on the command line. -/
def name (key : Key) : String := key.path.1 ++ "." ++ key.path.2

/-- The option is not declared on the command line, or is declared as a number. -/
def drifted : Key → Bool
  | serverPort | localDiscoveryInterval | memcacheEnable | memcachePort => true
  | _ => false

theorem path_injective : Function.Injective path := by
  intro key key' hpath
  cases key <;> cases key' <;> first | rfl | exact absurd hpath (by decide)

theorem name_injective : Function.Injective name := by
  intro key key' hname
  cases key <;> cases key' <;> first | rfl | exact absurd hname (by decide)

theorem not_abbreviates_help (key : Key) : ¬ Abbreviates key.name "help" := by
  cases key <;> decide

/-- None of the names abbreviates another. -/
theorem eq_of_abbreviates {key key' : Key} (hshort : Abbreviates key.name key'.name) :
    key = key' := by
  cases key <;> cases key' <;> first | rfl | exact absurd hshort (by decide)

/-- The options that did not drift are declared as strings. -/
theorem declaredOptions_of_kept {key : Key} (hkept : key.drifted = false) :
    declaredOptions.lookup key.name = some .string := by
  cases key <;> first | decide | cases hkept

/-- The options that drifted are declared as numbers, or are not declared. -/
theorem declaredOptions_of_drifted {key : Key} (hdrifted : key.drifted = true) :
    declaredOptions.lookup key.name = some .uint16 ∨
      ∀ option ∈ declaredOptions, ¬ Abbreviates key.name option.1 := by
  cases key with
  | serverPort => exact .inl (by decide)
  | localDiscoveryInterval | memcacheEnable | memcachePort => exact .inr (by decide)
  | _ => cases hdrifted

/-- The line of an option in a loader. -/
def line (libs : Libraries) (source : String) (text : Except Thrown (Option String)) : Key → Line
  | loggingLevel =>
    .option text (Config.parseLogLevel source "logging.level") Config.loggingLevelSlot
  | loggingDisableSplash =>
    .option text (Config.parseBool source "logging.disable_splash") Config.loggingDisableSplashSlot
  | serverId => .option text (Config.parseHexUint64 source "server.id") Config.serverIdSlot
  | serverIp4Address =>
    .option text (Config.parseIpv4 libs source "server.ip4_address") Config.serverSinAddrSlot
  | serverPort => .option text (Config.parsePort source "server.port") Config.serverSinPortSlot
  | localDiscoveryEnable =>
    .option text (Config.parseBool source "local_discovery.enable") Config.localDiscoveryEnableSlot
  | localDiscoveryInterval =>
    .option text
      (fun text ↦ Config.parseDuration source "local_discovery.interval" (utf8 text) false)
      Config.localDiscoveryIntervalMsSlot
  | memcacheEnable =>
    .option text (Config.parseBool source "memcache.enable") Config.memcachedEnableSlot
  | memcachePort =>
    .option text (Config.parsePort source "memcache.port") Config.memcachedSinPortSlot

/-- The parser of the option returns true for the text. -/
def Takes (libs : Libraries) (key : Key) (text : String) : Prop :=
  (key.line libs "yaml" (.ok (some text))).Accepted

end Key

/-- The lines of the options in the order both loaders have them, and the call of `set_log_level`
after the first. -/
def keyLines (libs : Libraries) (source : String) (text : Key → Except Thrown (Option String)) :
    List Line :=
  Key.loggingLevel.line libs source (text .loggingLevel) :: .setLogLevel ::
    [Key.loggingDisableSplash, .serverId, .serverIp4Address, .serverPort, .localDiscoveryEnable,
      .localDiscoveryInterval, .memcacheEnable, .memcachePort].map fun key ↦
        key.line libs source (text key)

theorem yamlLines_eq_keyLines (libs : Libraries) (yaml : Yaml) :
    yamlLines libs yaml = keyLines libs "yaml" fun key ↦ yaml.text key.path.1 key.path.2 := rfl

/-! ### A line and the source it is in -/

section Source

variable {α : Type} {text : Except Thrown (Option String)} {parser parser' : String → Parsed α}
  {slot : Slot α}

/-- Lines whose parsers store and return the same are accepted alike and store the same. -/
theorem Line.option_congr (hsame : ∀ given, (parser given).SameEffect (parser' given)) :
    ((Line.option text parser slot).Accepted ↔ (Line.option text parser' slot).Accepted) ∧
      (Line.option text parser slot).update = (Line.option text parser' slot).update := by
  refine ⟨by simp only [Line.Accepted, (hsame _).2], ?_⟩
  funext config
  rcases text with e | _ | given
  · rfl
  · rfl
  · simp only [Line.update, storedBy, (hsame given).1]

end Source

/-- What a line accepts and stores does not depend on the source it is in. -/
theorem Key.line_congr (libs : Libraries) (source source' : String) (key : Key)
    (text : Except Thrown (Option String)) :
    ((key.line libs source text).Accepted ↔ (key.line libs source' text).Accepted) ∧
      (key.line libs source text).update = (key.line libs source' text).update := by
  cases key with
  | loggingLevel => exact Line.option_congr fun _ ↦ Config.parseLogLevel_sameEffect
  | loggingDisableSplash | localDiscoveryEnable | memcacheEnable =>
    exact Line.option_congr fun _ ↦ Config.parseBool_sameEffect
  | serverId => exact Line.option_congr fun _ ↦ Config.parseHexUint64_sameEffect
  | serverIp4Address => exact Line.option_congr fun _ ↦ Config.parseIpv4_sameEffect libs
  | serverPort | memcachePort => exact Line.option_congr fun _ ↦ Config.parsePort_sameEffect
  | localDiscoveryInterval =>
    exact Line.option_congr fun _ ↦ Config.parseDuration_sameEffect false

/-! ### The lines of the two loaders -/

/-- The line that only `load_cmd_line` has. -/
def memcacheIp4AddressLine (libs : Libraries) (vm : VariablesMap) : Line :=
  .option (vm.text "memcache.ip4_address") (Config.parseIpv4 libs "cmd" "memcache.ip4_address")
    Config.memcachedSinAddrSlot

section Lines

variable {libs : Libraries} {source source' : String} {text : Key → Except Thrown (Option String)}
  {vm : VariablesMap}

theorem cmdLines_eq_keyLines : cmdLines libs vm =
    (keyLines libs "cmd" fun key ↦ vm.text key.name).take 9 ++ memcacheIp4AddressLine libs vm ::
      (keyLines libs "cmd" fun key ↦ vm.text key.name).drop 9 := rfl

theorem forall_keyLines : (∀ line ∈ keyLines libs source text, line.Accepted) ↔
    ∀ key : Key, (key.line libs source (text key)).Accepted := by
  refine ⟨fun h key ↦ h _ ?_, fun h line hline ↦ ?_⟩
  · cases key <;> simp [keyLines]
  · simp only [keyLines, List.mem_cons, List.mem_map] at hline
    rcases hline with rfl | rfl | ⟨key, -, rfl⟩
    exacts [h _, trivial, h key]

theorem forall_cmdLines : (∀ line ∈ cmdLines libs vm, line.Accepted) ↔
    (∀ key : Key, (key.line libs "cmd" (vm.text key.name)).Accepted) ∧
      (memcacheIp4AddressLine libs vm).Accepted := by
  rw [cmdLines_eq_keyLines, ← forall_keyLines, and_comm]
  generalize (keyLines libs "cmd" fun key ↦ vm.text key.name) = lines
  rw [List.forall_mem_append, List.forall_mem_cons, and_left_comm, ← List.forall_mem_append,
    List.take_append_drop]

/-- The lines store the same in either source. -/
theorem updateLines_keyLines_congr (config : Config) :
    updateLines (keyLines libs source text) config =
      updateLines (keyLines libs source' text) config := by
  have hline (key : Key) := (key.line_congr libs source source' (text key)).2
  simp only [updateLines, keyLines, List.foldl_cons, List.foldl_map, hline]

/-- Without the option that only it knows, `load_cmd_line` stores what the common lines store. -/
theorem updateLines_cmdLines (htext : vm.text "memcache.ip4_address" = .ok none) (config : Config) :
    updateLines (cmdLines libs vm) config =
      updateLines (keyLines libs "cmd" fun key ↦ vm.text key.name) config := by
  have hupdate (config : Config) : (memcacheIp4AddressLine libs vm).update config = config := by
    rw [memcacheIp4AddressLine, htext]
    exact Slot.store_none _ config
  rw [cmdLines_eq_keyLines]
  generalize (keyLines libs "cmd" fun key ↦ vm.text key.name) = lines
  calc updateLines (lines.take 9 ++ memcacheIp4AddressLine libs vm :: lines.drop 9) config
      = updateLines (lines.take 9 ++ lines.drop 9) config := by
        simp only [updateLines, List.foldl_append, List.foldl_cons, hupdate]
    _ = updateLines lines config := by rw [List.take_append_drop]

end Lines

/-! ### The same texts in the file and on the command line -/

/-- Texts for some of the options, in some order. -/
structure Entries where
  list : List (Key × String)
  nodup : (list.map Prod.fst).Nodup

namespace Entries

/-- The text of an option, if it is given one. -/
def text (entries : Entries) (key : Key) : Option String := entries.list.lookup key

/-- The map with these entries. -/
def yaml (entries : Entries) : Yaml where
  isMap := true
  text := fun section' name ↦
    .ok ((entries.list.map fun entry ↦ (entry.1.path, entry.2)).lookup (section', name))

/-- The arguments `--key value` for these entries. -/
def arguments (entries : Entries) : List Argument :=
  entries.list.map fun entry ↦ ⟨entry.1.name, some entry.2⟩

end Entries

/-- Looking up a key in a list whose keys were renamed. -/
theorem lookup_map_of_injective {α β γ : Type} [BEq α] [LawfulBEq α] [BEq β] [LawfulBEq β]
    {f : α → β} (hf : Function.Injective f) (key : α) (list : List (α × γ)) :
    (list.map fun entry ↦ (f entry.1, entry.2)).lookup (f key) = list.lookup key := by
  induction list with
  | nil => rfl
  | cons entry rest ih =>
    rw [List.map_cons, List.lookup_cons, List.lookup_cons, ih]
    by_cases hkey : key = entry.1
    · subst hkey
      rw [beq_self_eq_true, beq_self_eq_true]
    · rw [beq_false_of_ne hkey, beq_false_of_ne (hf.ne hkey)]

namespace Entries

variable (entries : Entries) {libs : Libraries} {vm : VariablesMap}

theorem mem_of_text {entries : Entries} {key : Key} {given : String}
    (htext : entries.text key = some given) : (key, given) ∈ entries.list := by
  obtain ⟨before, after, hlist, -⟩ := List.lookup_eq_some_iff.mp htext
  rw [hlist]
  simp

theorem text_ne_none_of_mem {entries : Entries} {key : Key} {given : String}
    (hmem : (key, given) ∈ entries.list) : entries.text key ≠ none := by
  intro hnone
  rw [text, List.lookup_eq_none_iff] at hnone
  simpa using hnone _ hmem

theorem yaml_text (key : Key) :
    entries.yaml.text key.path.1 key.path.2 = .ok (entries.text key) :=
  congrArg Except.ok (lookup_map_of_injective Key.path_injective key entries.list)

/-- An argument that was stored has its text in the map of variables if its option is declared as a
string, and makes the reading fail otherwise. -/
theorem vm_text_of_text {entries : Entries} {key : Key} {given : String}
    (hboost : libs.Documented declaredOptions)
    (hvm : libs.storeOptions declaredOptions entries.arguments = .ok vm)
    (htext : entries.text key = some given) :
    vm.text key.name = .ok (some given) ∧ key.drifted = false ∨
      (∃ e, vm.text key.name = .error e) ∧ key.drifted = true := by
  have hmem : (⟨key.name, some given⟩ : Argument) ∈ entries.arguments :=
    List.mem_map.mpr ⟨_, mem_of_text htext, rfl⟩
  cases hcase : key.drifted with
  | false =>
    have hdeclared := Key.declaredOptions_of_kept hcase
    exact .inl ⟨VariablesMap.text_of_asString (hboost.given hvm hmem hdeclared)
      (hboost.handedThrough hvm hmem hdeclared), rfl⟩
  | true =>
    rcases Key.declaredOptions_of_drifted hcase with hdeclared | hundeclared
    · obtain ⟨e, herror⟩ := hboost.otherType hvm hdeclared
      exact .inr ⟨⟨e, VariablesMap.text_of_asString_error (hboost.given hvm hmem hdeclared) herror⟩,
        rfl⟩
    · obtain ⟨e, herror⟩ := hboost.undeclared hmem hundeclared
      cases hvm.symm.trans herror

theorem vm_text_of_none {entries : Entries} {key : Key} (hboost : libs.Documented declaredOptions)
    (hvm : libs.storeOptions declaredOptions entries.arguments = .ok vm)
    (htext : entries.text key = none) : vm.text key.name = .ok none := by
  refine VariablesMap.text_of_count_eq_zero (hboost.notGiven hvm fun argument hmem hshort ↦ ?_)
  obtain ⟨⟨key', given⟩, hentry, rfl⟩ := List.mem_map.mp hmem
  obtain rfl : key' = key := Key.eq_of_abbreviates hshort
  exact text_ne_none_of_mem hentry htext

/-- Without the options that drifted the texts are found again. -/
theorem vm_text_of_kept (hboost : libs.Documented declaredOptions)
    (hvm : libs.storeOptions declaredOptions entries.arguments = .ok vm)
    (hkept : ∀ key, key.drifted = true → entries.text key = none) (key : Key) :
    vm.text key.name = .ok (entries.text key) := by
  cases htext : entries.text key with
  | none => exact vm_text_of_none hboost hvm htext
  | some given =>
    rcases vm_text_of_text hboost hvm htext with ⟨hvar, -⟩ | ⟨-, hdrifted⟩
    · exact hvar
    · cases htext.symm.trans (hkept key hdrifted)

/-- None of the arguments is `--help`. -/
theorem vm_count_help (hboost : libs.Documented declaredOptions)
    (hvm : libs.storeOptions declaredOptions entries.arguments = .ok vm) : vm.count "help" = 0 := by
  refine hboost.notGiven hvm fun argument hmem ↦ ?_
  obtain ⟨⟨key, given⟩, -, rfl⟩ := List.mem_map.mp hmem
  exact key.not_abbreviates_help

/-- Without the options that drifted the arguments are stored. -/
theorem exists_vm_of_kept (hboost : libs.Documented declaredOptions)
    (hkept : ∀ key, key.drifted = true → entries.text key = none) :
    ∃ vm, libs.storeOptions declaredOptions entries.arguments = .ok vm := by
  refine hboost.stored ?_ fun argument hmem ↦ ?_
  · have hnames := entries.nodup.map Key.name_injective
    rw [List.map_map] at hnames
    rwa [arguments, List.map_map]
  · obtain ⟨⟨key, given⟩, hentry, rfl⟩ := List.mem_map.mp hmem
    have hcase : key.drifted = false :=
      Bool.eq_false_iff.2 fun hdrifted ↦ text_ne_none_of_mem hentry (hkept key hdrifted)
    exact ⟨Key.declaredOptions_of_kept hcase, rfl⟩

end Entries

/-- An option that is not declared has no text. -/
theorem text_of_not_declared {libs : Libraries} {arguments : List Argument} {vm : VariablesMap}
    {name : String} (hboost : libs.Documented declaredOptions)
    (hvm : libs.storeOptions declaredOptions arguments = .ok vm)
    (hname : declaredOptions.lookup name = none) : vm.text name = .ok none :=
  VariablesMap.text_of_count_eq_zero (hboost.notDeclared hvm hname)

/-! ### The verdicts -/

section Verdicts

variable (libs : Libraries) (filename : String) (config : Config) (entries : Entries)

/-- A line without a failing lookup is accepted when its parser takes the text it is given. -/
theorem Key.line_accepted_iff {source : String} {key : Key} {text : Option String} :
    (key.line libs source (.ok text)).Accepted ↔
      ∀ given, text = some given → key.Takes libs given := by
  rw [(key.line_congr libs source "yaml" (.ok text)).1]
  cases text with
  | none => cases key <;> simp [line, Line.Accepted]
  | some given => simp [Takes]

/-- A failing lookup is not accepted. -/
theorem Key.not_line_accepted_error {source : String} {key : Key} {e : Thrown} :
    ¬ (key.line libs source (.error e)).Accepted := by
  cases key <;> simp [line, Line.Accepted]

/-- `load_yaml` accepts the map exactly when each of the texts is taken. -/
theorem loadYaml_entries_verdict_iff :
    (Config.loadYaml libs filename (.ok entries.yaml) config).verdict = true ↔
      ∀ key given, entries.text key = some given → key.Takes libs given := by
  rw [Config.loadYaml_verdict_iff]
  simp only [Except.ok.injEq, exists_eq_left', yamlLines_eq_keyLines, forall_keyLines,
    Entries.yaml_text, Key.line_accepted_iff]
  exact and_iff_right rfl

/-- `load_cmd_line` accepts the arguments exactly when each of the texts is taken and no option that
drifted is among them. -/
theorem loadCmdLine_entries_verdict_iff (hboost : libs.Documented declaredOptions) :
    (Config.loadCmdLine libs entries.arguments config).verdict = true ↔
      (∀ key : Key, key.drifted = true → entries.text key = none) ∧
        ∀ key given, entries.text key = some given → key.Takes libs given := by
  rw [Config.loadCmdLine_verdict_iff]
  constructor
  · rintro ⟨vm, hvm, -, haccepted⟩
    have hline := (forall_cmdLines.mp haccepted).1
    have hgiven (key : Key) (given : String) (htext : entries.text key = some given) :
        key.drifted = false ∧ key.Takes libs given := by
      rcases Entries.vm_text_of_text hboost hvm htext with ⟨hvar, hkept⟩ | ⟨⟨e, hvar⟩, -⟩
      · have hline := hline key
        rw [hvar, Key.line_accepted_iff] at hline
        exact ⟨hkept, hline given rfl⟩
      · have hline := hline key
        rw [hvar] at hline
        exact absurd hline (Key.not_line_accepted_error libs)
    refine ⟨fun key hdrifted ↦ ?_, fun key given htext ↦ (hgiven key given htext).2⟩
    by_contra hsome
    obtain ⟨given, htext⟩ := Option.ne_none_iff_exists'.mp hsome
    rw [(hgiven key given htext).1] at hdrifted
    cases hdrifted
  · rintro ⟨hkept, htakes⟩
    obtain ⟨vm, hvm⟩ := entries.exists_vm_of_kept hboost hkept
    refine ⟨vm, hvm, entries.vm_count_help hboost hvm, forall_cmdLines.mpr ⟨fun key ↦ ?_, ?_⟩⟩
    · rw [entries.vm_text_of_kept hboost hvm hkept, Key.line_accepted_iff]
      exact htakes key
    · exact .inl (text_of_not_declared hboost hvm (by decide))

/-- Two loaders that accept the entries leave the same fields. -/
theorem loaded_config_eq (hboost : libs.Documented declaredOptions)
    (hkept : ∀ key : Key, key.drifted = true → entries.text key = none)
    (htakes : ∀ key given, entries.text key = some given → key.Takes libs given) :
    (Config.loadYaml libs filename (.ok entries.yaml) config).config =
      (Config.loadCmdLine libs entries.arguments config).config := by
  obtain ⟨yaml, hfile, hmap, hyaml⟩ := Config.loadYaml_verdict_iff.mp
    ((loadYaml_entries_verdict_iff libs filename config entries).mpr htakes)
  obtain ⟨vm, hvm, hhelp, hcmd⟩ := Config.loadCmdLine_verdict_iff.mp
    ((loadCmdLine_entries_verdict_iff libs config entries hboost).mpr ⟨hkept, htakes⟩)
  cases hfile
  have hfound : (fun key : Key ↦ vm.text key.name) =
      fun key ↦ entries.yaml.text key.path.1 key.path.2 := by
    funext key
    rw [entries.vm_text_of_kept hboost hvm hkept, entries.yaml_text]
  have htext : vm.text "memcache.ip4_address" = .ok none :=
    text_of_not_declared hboost hvm (by decide)
  calc (Config.loadYaml libs filename (.ok entries.yaml) config).config
      = updateLines (yamlLines libs entries.yaml) config :=
        (Config.loadYaml_of_accepted hmap hyaml).1
    _ = updateLines (keyLines libs "yaml" fun key ↦ entries.yaml.text key.path.1 key.path.2)
          config := by rw [yamlLines_eq_keyLines]
    _ = updateLines (keyLines libs "cmd" fun key ↦ vm.text key.name) config := by
        rw [hfound]
        exact updateLines_keyLines_congr config
    _ = updateLines (cmdLines libs vm) config := (updateLines_cmdLines htext config).symm
    _ = (Config.loadCmdLine libs entries.arguments config).config :=
        (Config.loadCmdLine_of_accepted hvm hhelp hcmd).1.symm

end Verdicts

/-- Both loaders return the same verdict for the entries, and leave the same fields where it is
true. -/
def LoadersAgree (libs : Libraries) (filename : String) (config : Config) (entries : Entries) :
    Prop :=
  let yaml := Config.loadYaml libs filename (.ok entries.yaml) config
  let cmd := Config.loadCmdLine libs entries.arguments config
  yaml.verdict = cmd.verdict ∧ (yaml.verdict = true → yaml.config = cmd.config)

/-- The loaders agree exactly on entries without the options that drifted, and on entries that
`load_yaml` rejects as well because a parser does not take its text. Assumes:
`boost::program_options` does what is documented of it. -/
theorem loaders_agree_iff (libs : Libraries) (hboost : libs.Documented declaredOptions)
    (filename : String) (config : Config) (entries : Entries) :
    LoadersAgree libs filename config entries ↔
      (∀ key : Key, key.drifted = true → entries.text key = none) ∨
        ∃ key given, entries.text key = some given ∧ ¬ Key.Takes libs key given := by
  have hyaml := loadYaml_entries_verdict_iff libs filename config entries
  have hcmd := loadCmdLine_entries_verdict_iff libs config entries hboost
  constructor
  · rintro ⟨hverdict, -⟩
    by_cases htakes : ∀ key given, entries.text key = some given → key.Takes libs given
    · have htrue := hyaml.mpr htakes
      rw [hverdict] at htrue
      exact .inl (hcmd.mp htrue).1
    · exact .inr (by simpa using htakes)
  · intro hcondition
    by_cases htakes : ∀ key given, entries.text key = some given → key.Takes libs given
    · have hkept : ∀ key : Key, key.drifted = true → entries.text key = none := by
        rcases hcondition with hkept | ⟨key, given, htext, hrejected⟩
        · exact hkept
        · exact absurd (htakes key given htext) hrejected
      exact ⟨(hyaml.mpr htakes).trans (hcmd.mpr ⟨hkept, htakes⟩).symm,
        fun _ ↦ loaded_config_eq libs filename config entries hboost hkept htakes⟩
    · have hyaml_false := Bool.eq_false_iff.mpr fun h ↦ htakes (hyaml.mp h)
      have hcmd_false := Bool.eq_false_iff.mpr fun h ↦ htakes (hcmd.mp h).2
      refine ⟨hyaml_false.trans hcmd_false.symm, fun htrue ↦ ?_⟩
      cases hyaml_false.symm.trans htrue

/-- Options that the two loaders have in common. -/
def commonEntries : Entries :=
  ⟨[(.loggingLevel, "debug"), (.serverId, "0x123456789abcdef0")], by decide⟩

/-- `loaders_agree_iff` at options that both loaders accept. -/
theorem loaders_agree_on_commonEntries :
    LoadersAgree plainLibraries "config.yaml" (.construct plainLibraries) commonEntries ∧
      (Config.loadCmdLine plainLibraries commonEntries.arguments
        (.construct plainLibraries)).verdict = true := by
  refine ⟨(loaders_agree_iff _ (plainLibraries_documented _) _ _ _).mpr (.inl ?_), by
    decide +kernel⟩
  intro key hdrifted
  cases key <;> first | rfl | cases hdrifted

/-- The default port, given as an option. -/
def portEntries : Entries := ⟨[(.serverPort, "11860")], by decide⟩

/-- The loaders do not agree on every set of entries: the file may set the port, the command line
may not. -/
theorem not_loaders_agree : ¬ ∀ libs : Libraries, libs.Documented declaredOptions →
    ∀ filename config entries, LoadersAgree libs filename config entries := by
  intro hagree
  have hverdict := (hagree plainLibraries (plainLibraries_documented _) "config.yaml"
    (.construct plainLibraries) portEntries).1
  exact absurd hverdict (by decide +kernel)

end Kapua
