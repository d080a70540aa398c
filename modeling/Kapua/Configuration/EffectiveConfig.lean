import Kapua.Configuration.StartUp

/-!
# The configuration that kapuad runs with

`main` loads the file and then the command line into one `Config`. Where both return true, what they
leave is a layering (`effectiveConfig`): of every field the command line decides, then the file,
then the constructor, and a text that its parser takes without storing anything decides nothing. The
command line has a say in five of the fields only. It does not declare the options of three of the
others, and refuses to run with the option of the port, which it declares as a number and reads as a
string; for the memcached address there is no option at all.

The order of the arguments has no influence, as it has none on what `boost::program_options` stores
(`loadCmdLine_perm`).
-/

set_option autoImplicit false
set_option relaxedAutoImplicit false

namespace Kapua

variable {libs : Libraries} {yaml : Yaml} {arguments arguments' : List Argument}
  {vm : VariablesMap}

/-! ### Layers -/

/-- The value that the parser stores for the first of the texts for which it stores one, or the
default. -/
def effective {α : Type} (parser : String → Parsed α) (texts : List (Option String))
    (default : Option α) : Option α :=
  (texts.findSome? fun text ↦ text.bind fun text ↦ (parser text).stored).or default

/-- The fields as the sources layer: the command line over the file over the constructor. -/
def effectiveConfig (libs : Libraries) (yaml : Yaml) (arguments : List Argument) : Config where
  serverId := effective (Config.parseHexUint64 "" "")
    [givenText libs arguments "server.id", yaml.given "server" "id"] none
  serverSinAddr := effective (Config.parseIpv4 libs "" "")
    [givenText libs arguments "server.ip4_address", yaml.given "server" "ip4_address"]
    (libs.inetPton "0.0.0.0")
  serverSinPort := effective (Config.parsePort "" "") [yaml.given "server" "port"]
    (some (htons Config.kapuaDefaultPort))
  localDiscoveryEnable := effective (Config.parseBool "" "")
    [givenText libs arguments "local_discovery.enable", yaml.given "local_discovery" "enable"] none
  localDiscoveryIntervalMs := effective (fun text ↦ Config.parseDuration "" "" (utf8 text) false)
    [yaml.given "local_discovery" "interval"] none
  memcachedEnable := effective (Config.parseBool "" "") [yaml.given "memcache" "enable"] none
  memcachedSinAddr := none
  memcachedSinPort := effective (Config.parsePort "" "") [yaml.given "memcache" "port"] none
  loggingLevel := effective (Config.parseLogLevel "" "")
    [givenText libs arguments "logging.level", yaml.given "logging" "level"] none
  loggingDisableSplash := effective (Config.parseBool "" "")
    [givenText libs arguments "logging.disable_splash", yaml.given "logging" "disable_splash"] none

section Layers

variable {α : Type} {parser fileParser plain : String → Parsed α}
  {fileText : Except Thrown (Option String)} {default : Option α}

/-- A line of the file over the constructor is one layer. -/
theorem effective_singleton (hfile : ∀ text, (fileParser text).SameEffect (plain text)) :
    (storedBy fileText fileParser).or default =
      effective plain [fileText.toOption.join] default := by
  rw [storedBy_eq_bind]
  cases htext : fileText.toOption.join with
  | none => rfl
  | some text =>
    rw [Option.bind_some, (hfile text).1]
    cases hstored : (plain text).stored <;> simp [effective, hstored]

/-- A line of the command line without a text leaves the layer of the file. -/
theorem effective_file (hfile : ∀ text, (fileParser text).SameEffect (plain text)) :
    (storedBy (.ok none) parser).or ((storedBy fileText fileParser).or default) =
      effective plain [fileText.toOption.join] default :=
  effective_singleton hfile

/-- A line of the command line over a line of the file is two layers. -/
theorem effective_cmd {cmdText : Option String}
    (hcmd : ∀ text, (parser text).SameEffect (plain text))
    (hfile : ∀ text, (fileParser text).SameEffect (plain text)) :
    (storedBy (.ok cmdText) parser).or ((storedBy fileText fileParser).or default) =
      effective plain [cmdText, fileText.toOption.join] default := by
  rw [effective_singleton hfile, storedBy_eq_bind]
  cases cmdText with
  | none => rfl
  | some text =>
    show ((parser text).stored).or _ = _
    rw [(hcmd text).1]
    cases hstored : (plain text).stored <;> simp [effective, hstored]

end Layers

/-- The port is not given on a command line that is accepted: reading it as a string raises an
error. -/
theorem Accepts.text_serverPort (hboost : libs.Documented declaredOptions)
    (h : Accepts libs yaml arguments vm) : vm.text "server.port" = .ok none := by
  have hdeclared : declaredOptions.lookup "server.port" = some .uint16 := by decide
  obtain ⟨e, herror⟩ := hboost.otherType h.parsed hdeclared
  by_cases hcount : vm.count "server.port" = 0
  · exact VariablesMap.text_of_count_eq_zero hcount
  · have htext : vm.text "server.port" = .error e :=
      VariablesMap.text_of_asString_error hcount herror
    rcases h.cmdLine .serverPort with hnone | ⟨given, hgiven, -⟩
    · exact hnone
    · cases htext.symm.trans hgiven

/-- What the two loaders leave is the layering of the sources. -/
theorem Accepts.startConfig_eq (hboost : libs.Documented declaredOptions)
    (h : Accepts libs yaml arguments vm) :
    startConfig libs yaml vm = effectiveConfig libs yaml arguments := by
  have hgiven (key : Key) : vm.text key.name = .ok (givenText libs arguments key.name) :=
    vm_text_eq_givenText h.parsed (h.cmdLine key)
  have habsent {name : String} (hname : declaredOptions.lookup name = none) :
      vm.text name = .ok none := text_of_not_declared hboost h.parsed hname
  have hid : (startConfig libs yaml vm).serverId =
      (effectiveConfig libs yaml arguments).serverId := by
    show (storedBy (vm.text "server.id") _).or ((storedBy (yaml.text "server" "id") _).or none) = _
    rw [show vm.text "server.id" = _ from hgiven .serverId]
    exact effective_cmd (fun _ ↦ Config.parseHexUint64_sameEffect)
      fun _ ↦ Config.parseHexUint64_sameEffect
  have haddr : (startConfig libs yaml vm).serverSinAddr =
      (effectiveConfig libs yaml arguments).serverSinAddr := by
    show (storedBy (vm.text "server.ip4_address") _).or
      ((storedBy (yaml.text "server" "ip4_address") _).or (libs.inetPton "0.0.0.0")) = _
    rw [show vm.text "server.ip4_address" = _ from hgiven .serverIp4Address]
    exact effective_cmd (fun _ ↦ Config.parseIpv4_sameEffect libs)
      fun _ ↦ Config.parseIpv4_sameEffect libs
  have hport : (startConfig libs yaml vm).serverSinPort =
      (effectiveConfig libs yaml arguments).serverSinPort := by
    show (storedBy (vm.text "server.port") _).or
      ((storedBy (yaml.text "server" "port") _).or (some _)) = _
    rw [h.text_serverPort hboost]
    exact effective_file fun _ ↦ Config.parsePort_sameEffect
  have henable : (startConfig libs yaml vm).localDiscoveryEnable =
      (effectiveConfig libs yaml arguments).localDiscoveryEnable := by
    show (storedBy (vm.text "local_discovery.enable") _).or
      ((storedBy (yaml.text "local_discovery" "enable") _).or none) = _
    rw [show vm.text "local_discovery.enable" = _ from hgiven .localDiscoveryEnable]
    exact effective_cmd (fun _ ↦ Config.parseBool_sameEffect) fun _ ↦ Config.parseBool_sameEffect
  have hinterval : (startConfig libs yaml vm).localDiscoveryIntervalMs =
      (effectiveConfig libs yaml arguments).localDiscoveryIntervalMs := by
    show (storedBy (vm.text "local_discovery.interval") _).or
      ((storedBy (yaml.text "local_discovery" "interval") _).or none) = _
    rw [habsent (by decide)]
    exact effective_file fun _ ↦ Config.parseDuration_sameEffect false
  have hmemcached : (startConfig libs yaml vm).memcachedEnable =
      (effectiveConfig libs yaml arguments).memcachedEnable := by
    show (storedBy (vm.text "memcache.enable") _).or
      ((storedBy (yaml.text "memcache" "enable") _).or none) = _
    rw [habsent (by decide)]
    exact effective_file fun _ ↦ Config.parseBool_sameEffect
  have haddr' : (startConfig libs yaml vm).memcachedSinAddr =
      (effectiveConfig libs yaml arguments).memcachedSinAddr := by
    show (storedBy (vm.text "memcache.ip4_address") _).or none = none
    rw [habsent (by decide)]
    rfl
  have hport' : (startConfig libs yaml vm).memcachedSinPort =
      (effectiveConfig libs yaml arguments).memcachedSinPort := by
    show (storedBy (vm.text "memcache.port") _).or
      ((storedBy (yaml.text "memcache" "port") _).or none) = _
    rw [habsent (by decide)]
    exact effective_file fun _ ↦ Config.parsePort_sameEffect
  have hlevel : (startConfig libs yaml vm).loggingLevel =
      (effectiveConfig libs yaml arguments).loggingLevel := by
    show (storedBy (vm.text "logging.level") _).or
      ((storedBy (yaml.text "logging" "level") _).or none) = _
    rw [show vm.text "logging.level" = _ from hgiven .loggingLevel]
    exact effective_cmd (fun _ ↦ Config.parseLogLevel_sameEffect)
      fun _ ↦ Config.parseLogLevel_sameEffect
  have hsplash : (startConfig libs yaml vm).loggingDisableSplash =
      (effectiveConfig libs yaml arguments).loggingDisableSplash := by
    show (storedBy (vm.text "logging.disable_splash") _).or
      ((storedBy (yaml.text "logging" "disable_splash") _).or none) = _
    rw [show vm.text "logging.disable_splash" = _ from hgiven .loggingDisableSplash]
    exact effective_cmd (fun _ ↦ Config.parseBool_sameEffect) fun _ ↦ Config.parseBool_sameEffect
  generalize startConfig libs yaml vm = config at *
  obtain ⟨_, _, _, _, _, _, _, _, _, _⟩ := config
  dsimp only at hid haddr hport henable hinterval hmemcached haddr' hport' hlevel hsplash
  subst hid haddr hport henable hinterval hmemcached haddr' hport' hlevel hsplash
  rfl

/-! ### The order of the arguments -/

/-- `load_cmd_line` makes the same of arguments in another order. -/
theorem loadCmdLine_perm (hboost : libs.Documented declaredOptions)
    (hperm : arguments.Perm arguments') (config : Config) :
    (Config.loadCmdLine libs arguments config).verdict =
        (Config.loadCmdLine libs arguments' config).verdict ∧
      (Config.loadCmdLine libs arguments config).config =
        (Config.loadCmdLine libs arguments' config).config := by
  cases hvm : libs.storeOptions declaredOptions arguments with
  | error e =>
    cases hvm' : libs.storeOptions declaredOptions arguments' with
    | error e' => simp [Config.loadCmdLine, hvm, hvm']
    | ok vm' => cases hvm.symm.trans (hboost.order hperm.symm hvm')
  | ok vm => simp only [Config.loadCmdLine, hvm, hboost.order hperm hvm, and_self]

/-- The configuration is layered. Whenever both loaders return true, what they leave is, field by
field, what the command line decides over what the file decides over what the constructor assigns;
and arguments in any other order are accepted as well and leave the same. Assumes:
`boost::program_options` does what is documented of it. -/
theorem layered_config (hboost : libs.Documented declaredOptions)
    (hyaml : (afterYaml libs yaml).verdict = true)
    (hcmd : (afterCmdLine libs yaml arguments).verdict = true) :
    (afterCmdLine libs yaml arguments).config = effectiveConfig libs yaml arguments ∧
    ∀ arguments', arguments.Perm arguments' →
      (afterCmdLine libs yaml arguments').verdict = true ∧
      (afterCmdLine libs yaml arguments').config = effectiveConfig libs yaml arguments := by
  obtain ⟨vm, haccepts⟩ := exists_accepts hyaml hcmd
  have hloaded : (afterYaml libs yaml).config = yamlConfig libs yaml :=
    (Config.loadYaml_of_accepted haccepts.isMap haccepts.yamlLines).1
  have hconfig : (afterCmdLine libs yaml arguments).config =
      effectiveConfig libs yaml arguments := by
    rw [← haccepts.startConfig_eq hboost, afterCmdLine, hloaded]
    exact (Config.loadCmdLine_of_accepted haccepts.parsed haccepts.noHelp haccepts.cmdLines).1
  refine ⟨hconfig, fun arguments' hperm ↦ ?_⟩
  obtain ⟨hverdict, hsame⟩ :
      (afterCmdLine libs yaml arguments).verdict = (afterCmdLine libs yaml arguments').verdict ∧
      (afterCmdLine libs yaml arguments).config = (afterCmdLine libs yaml arguments').config :=
    loadCmdLine_perm hboost hperm (afterYaml libs yaml).config
  exact ⟨hverdict.symm.trans hcmd, hsame.symm.trans hconfig⟩

/-- Two options of `suppliedEntries`, given another way. -/
def overriding : List Argument :=
  [⟨"local_discovery.enable", some "no"⟩, ⟨"logging.level", some "warn"⟩]

/-- `layered_config` where the command line overrides the file, in either order. -/
theorem layered_config_overriding :
    (afterCmdLine plainLibraries suppliedEntries.yaml overriding.reverse).config =
      effectiveConfig plainLibraries suppliedEntries.yaml overriding ∧
    (effectiveConfig plainLibraries suppliedEntries.yaml overriding).localDiscoveryEnable =
      some false ∧
    (effectiveConfig plainLibraries suppliedEntries.yaml overriding).localDiscoveryIntervalMs =
      some 72000000 := by
  have hyaml : (afterYaml plainLibraries suppliedEntries.yaml).verdict = true := by
    decide +kernel
  have hcmd : (afterCmdLine plainLibraries suppliedEntries.yaml overriding).verdict = true := by
    decide +kernel
  obtain ⟨-, horder⟩ := layered_config (plainLibraries_documented _) hyaml hcmd
  exact ⟨(horder _ (List.reverse_perm _).symm).2, by decide +kernel, by decide +kernel⟩

end Kapua
