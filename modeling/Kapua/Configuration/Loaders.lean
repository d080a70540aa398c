import Kapua.Configuration.Parsers
import Mathlib.Tactic.ByContra

/-!
# The two loaders of the configuration

`load_yaml` and `load_cmd_line` are sequences of lines: each takes the text of one option, if the
source gives it, and hands it to a parser that stores into a field of the `Config`. The verdicts are
gathered, so that every line is reached unless one raises an exception; the one line that differs
applies the logging level at once, if nothing was rejected before it (`Line`, `runLines`).

A run of lines ends without an exception and with the verdict true exactly when every line is
accepted (`runLines_completes_iff`), and has then stored what each line stores
(`runLines_of_accepted`). In the same way `loadYaml_verdict_iff` and `loadCmdLine_verdict_iff` say
when a loader returns true.
-/

set_option autoImplicit false
set_option relaxedAutoImplicit false

namespace Kapua

/-! ### The fields -/

/-- The fields of `Config` that the loaders store into; `none` is a field nothing has assigned yet.
Ports are in network order. -/
structure Config where
  serverId : Option UInt64
  serverSinAddr : Option UInt32
  serverSinPort : Option UInt16
  localDiscoveryEnable : Option Bool
  localDiscoveryIntervalMs : Option Int32
  memcachedEnable : Option Bool
  memcachedSinAddr : Option UInt32
  memcachedSinPort : Option UInt16
  loggingLevel : Option LogLevel
  loggingDisableSplash : Option Bool
  deriving DecidableEq, Repr

/-- A field of a `Config`, with the pointer a parser is given. -/
structure Slot (α : Type) where
  get : Config → Option α
  set : Option α → Config → Config
  get_set : ∀ value config, get (set value config) = value
  set_get : ∀ config, set (get config) config = config

namespace Slot

variable {α : Type}

/-- What a call leaves that stores through the pointer, or does not. -/
def store (slot : Slot α) (stored : Option α) (config : Config) : Config :=
  slot.set (stored.or (slot.get config)) config

theorem store_none (slot : Slot α) (config : Config) : slot.store none config = config :=
  slot.set_get config

end Slot

namespace Config

/-- `KAPUA_DEFAULT_PORT` -/
def kapuaDefaultPort : UInt16 := 11860

/-- `Config::Config` -/
def construct (libs : Libraries) : Config where
  serverId := none
  serverSinAddr := libs.inetPton "0.0.0.0"
  serverSinPort := some (htons kapuaDefaultPort)
  localDiscoveryEnable := none
  localDiscoveryIntervalMs := none
  memcachedEnable := none
  memcachedSinAddr := none
  memcachedSinPort := none
  loggingLevel := none
  loggingDisableSplash := none

/-- `&server_id` -/
def serverIdSlot : Slot UInt64 :=
  ⟨serverId, fun value config ↦ { config with serverId := value }, fun _ _ ↦ rfl, fun _ ↦ rfl⟩

/-- `&server_ip4_sockaddr.sin_addr` -/
def serverSinAddrSlot : Slot UInt32 :=
  ⟨serverSinAddr, fun value config ↦ { config with serverSinAddr := value }, fun _ _ ↦ rfl,
    fun _ ↦ rfl⟩

/-- `&server_ip4_sockaddr.sin_port` -/
def serverSinPortSlot : Slot UInt16 :=
  ⟨serverSinPort, fun value config ↦ { config with serverSinPort := value }, fun _ _ ↦ rfl,
    fun _ ↦ rfl⟩

/-- `&local_discovery_enable` -/
def localDiscoveryEnableSlot : Slot Bool :=
  ⟨localDiscoveryEnable, fun value config ↦ { config with localDiscoveryEnable := value },
    fun _ _ ↦ rfl, fun _ ↦ rfl⟩

/-- `&local_discovery_interval_ms` -/
def localDiscoveryIntervalMsSlot : Slot Int32 :=
  ⟨localDiscoveryIntervalMs, fun value config ↦ { config with localDiscoveryIntervalMs := value },
    fun _ _ ↦ rfl, fun _ ↦ rfl⟩

/-- `&memcached_enable` -/
def memcachedEnableSlot : Slot Bool :=
  ⟨memcachedEnable, fun value config ↦ { config with memcachedEnable := value }, fun _ _ ↦ rfl,
    fun _ ↦ rfl⟩

/-- `&memcached_ip4_sockaddr.sin_addr` -/
def memcachedSinAddrSlot : Slot UInt32 :=
  ⟨memcachedSinAddr, fun value config ↦ { config with memcachedSinAddr := value }, fun _ _ ↦ rfl,
    fun _ ↦ rfl⟩

/-- `&memcached_ip4_sockaddr.sin_port` -/
def memcachedSinPortSlot : Slot UInt16 :=
  ⟨memcachedSinPort, fun value config ↦ { config with memcachedSinPort := value }, fun _ _ ↦ rfl,
    fun _ ↦ rfl⟩

/-- `&logging_level` -/
def loggingLevelSlot : Slot LogLevel :=
  ⟨loggingLevel, fun value config ↦ { config with loggingLevel := value }, fun _ _ ↦ rfl,
    fun _ ↦ rfl⟩

/-- `&logging_disable_splash` -/
def loggingDisableSplashSlot : Slot Bool :=
  ⟨loggingDisableSplash, fun value config ↦ { config with loggingDisableSplash := value },
    fun _ _ ↦ rfl, fun _ ↦ rfl⟩

end Config

/-- The fields that are read after the configuration was loaded, or while it is. -/
inductive Field
  | serverPort
  | loggingLevel
  | loggingDisableSplash
  | localDiscoveryEnable
  | localDiscoveryIntervalMs
  deriving DecidableEq, Repr

/-- The field has been assigned. -/
def Config.assigned (config : Config) : Field → Bool
  | .serverPort => config.serverSinPort.isSome
  | .loggingLevel => config.loggingLevel.isSome
  | .loggingDisableSplash => config.loggingDisableSplash.isSome
  | .localDiscoveryEnable => config.localDiscoveryEnable.isSome
  | .localDiscoveryIntervalMs => config.localDiscoveryIntervalMs.isSome

/-- A read of a field, and whether the field had been assigned. -/
structure Read where
  field : Field
  assigned : Bool
  deriving DecidableEq, Repr

/-- The read of a field as the configuration stands. -/
def Config.read (config : Config) (field : Field) : Read := ⟨field, config.assigned field⟩

/-! ### Lines -/

/-- A line of a loader: an option, its text as far as the source gives it, the parser of the text
and where the parser stores to; or the call of `set_log_level`. -/
inductive Line : Type 1
  | option {α : Type} (text : Except Thrown (Option String)) (parser : String → Parsed α)
      (slot : Slot α)
  | setLogLevel

/-- How far a loader is: the fields, the errors it has logged, the fields it has read, and `ok`. -/
structure Loading where
  config : Config
  errors : List String
  reads : List Read
  ok : Bool
  deriving DecidableEq, Repr

/-- One line of a loader, with the exception it raises. -/
def Line.run : Line → Loading → Loading × Option Thrown
  | .option text parser slot, l =>
    match text with
    | .error e => (l, some e)
    | .ok none => (l, none)
    | .ok (some text) =>
      let parsed := parser text
      let l := { l with
        config := slot.store parsed.stored l.config
        errors := l.errors ++ parsed.errors }
      match parsed.verdict with
      | .error e => (l, some e)
      | .ok verdict => ({ l with ok := l.ok && verdict }, none)
  | .setLogLevel, l =>
    if l.ok then ({ l with reads := l.reads ++ [l.config.read .loggingLevel] }, none) else (l, none)

/-- The lines one after the other, up to the first that raises an exception. -/
def runLines : List Line → Loading → Loading × Option Thrown
  | [], l => (l, none)
  | line :: rest, l =>
    match line.run l with
    | (l, some e) => (l, some e)
    | (l, none) => runLines rest l

/-- What a loader leaves: the fields, the errors it has logged, the fields it has read, and its
verdict. -/
structure Loaded where
  config : Config
  errors : List String
  reads : List Read
  verdict : Bool
  deriving DecidableEq, Repr

/-- The end of a loader: the message for rejected options, and the handlers of its exceptions. -/
def finish (rejected : String) (caught : Thrown → String) : Loading × Option Thrown → Loaded
  | (l, some e) => ⟨l.config, l.errors ++ [caught e], l.reads, false⟩
  | (l, none) =>
    if l.ok then ⟨l.config, l.errors, l.reads, true⟩
    else ⟨l.config, l.errors ++ [rejected], l.reads, false⟩

/-! ### `load_yaml` -/

/-- A document that `YAML::LoadFile` returns: whether its root is a map, and what looking up
`config[section][name]` and reading it `as<std::string>()` gives, nothing where it is not
defined. -/
structure Yaml where
  isMap : Bool
  text : String → String → Except Thrown (Option String)

/-- The lines of `load_yaml`. -/
def yamlLines (libs : Libraries) (config : Yaml) : List Line :=
  let source := "yaml"
  [ .option (config.text "logging" "level") (Config.parseLogLevel source "logging.level")
      Config.loggingLevelSlot,
    .setLogLevel,
    .option (config.text "logging" "disable_splash")
      (Config.parseBool source "logging.disable_splash") Config.loggingDisableSplashSlot,
    .option (config.text "server" "id") (Config.parseHexUint64 source "server.id")
      Config.serverIdSlot,
    .option (config.text "server" "ip4_address")
      (Config.parseIpv4 libs source "server.ip4_address") Config.serverSinAddrSlot,
    .option (config.text "server" "port") (Config.parsePort source "server.port")
      Config.serverSinPortSlot,
    .option (config.text "local_discovery" "enable")
      (Config.parseBool source "local_discovery.enable") Config.localDiscoveryEnableSlot,
    .option (config.text "local_discovery" "interval")
      (fun text ↦ Config.parseDuration source "local_discovery.interval" (utf8 text) false)
      Config.localDiscoveryIntervalMsSlot,
    .option (config.text "memcache" "enable") (Config.parseBool source "memcache.enable")
      Config.memcachedEnableSlot,
    .option (config.text "memcache" "port") (Config.parsePort source "memcache.port")
      Config.memcachedSinPortSlot ]

/-- What the handlers of `load_yaml` log. -/
def yamlCaught (filename : String) : Thrown → String
  | .badFile msg => "Cannot open file " ++ filename ++ " (" ++ msg ++ ")"
  | .parserException msg => "Cannot parse file " ++ filename ++ " (" ++ msg ++ ")"
  | .invalidArgument what | .outOfRange what | .exception what =>
    "Error while parsing configuration YAML: " ++ what
  | .unknown => "Unknown error while parsing configuration YAML"

/-- `Config::load_yaml`, with what `YAML::LoadFile` makes of the file. -/
def Config.loadYaml (libs : Libraries) (filename : String) (file : Except Thrown Yaml)
    (config : Config) : Loaded :=
  match file with
  | .error e => ⟨config, [yamlCaught filename e], [], false⟩
  | .ok yaml =>
    if yaml.isMap then
      finish "Errors while parsing parsing configuration YAML" (yamlCaught filename)
        (runLines (yamlLines libs yaml) ⟨config, [], [], true⟩)
    else ⟨config, ["Root YAML for config must be an object (YAML map)"], [], false⟩

/-! ### `load_cmd_line` -/

/-- The options `load_cmd_line` declares. -/
def declaredOptions : List (String × Semantic) :=
  [ ("help", .untyped),
    ("server.id", .string),
    ("server.ip4_address", .string),
    ("server.port", .uint16),
    ("local_discovery.enable", .string),
    ("logging.level", .string),
    ("logging.disable_splash", .string) ]

/-- The lines of `load_cmd_line`. -/
def cmdLines (libs : Libraries) (vm : VariablesMap) : List Line :=
  let source := "cmd"
  [ .option (vm.text "logging.level") (Config.parseLogLevel source "logging.level")
      Config.loggingLevelSlot,
    .setLogLevel,
    .option (vm.text "logging.disable_splash")
      (Config.parseBool source "logging.disable_splash") Config.loggingDisableSplashSlot,
    .option (vm.text "server.id") (Config.parseHexUint64 source "server.id")
      Config.serverIdSlot,
    .option (vm.text "server.ip4_address")
      (Config.parseIpv4 libs source "server.ip4_address") Config.serverSinAddrSlot,
    .option (vm.text "server.port") (Config.parsePort source "server.port")
      Config.serverSinPortSlot,
    .option (vm.text "local_discovery.enable")
      (Config.parseBool source "local_discovery.enable") Config.localDiscoveryEnableSlot,
    .option (vm.text "local_discovery.interval")
      (fun text ↦ Config.parseDuration source "local_discovery.interval" (utf8 text) false)
      Config.localDiscoveryIntervalMsSlot,
    .option (vm.text "memcache.enable") (Config.parseBool source "memcache.enable")
      Config.memcachedEnableSlot,
    .option (vm.text "memcache.ip4_address")
      (Config.parseIpv4 libs source "memcache.ip4_address") Config.memcachedSinAddrSlot,
    .option (vm.text "memcache.port") (Config.parsePort source "memcache.port")
      Config.memcachedSinPortSlot ]

/-- What the handlers of `load_cmd_line` log. -/
def cmdCaught : Thrown → String
  | .badFile what | .parserException what | .invalidArgument what | .outOfRange what
  | .exception what => "Error while parsing command line options: " ++ what
  | .unknown => "Unknown error while parsing command line options"

/-- `Config::load_cmd_line` -/
def Config.loadCmdLine (libs : Libraries) (arguments : List Argument) (config : Config) : Loaded :=
  match libs.storeOptions declaredOptions arguments with
  | .error e => ⟨config, [cmdCaught e], [], false⟩
  | .ok vm =>
    if vm.count "help" ≠ 0 then ⟨config, [], [], false⟩
    else
      finish "Errors while parsing command line options" cmdCaught
        (runLines (cmdLines libs vm) ⟨config, [], [], true⟩)

/-! ### What a run of lines does -/

/-- The value a line stores, if it stores one. -/
def storedBy {α : Type} (text : Except Thrown (Option String)) (parser : String → Parsed α) :
    Option α :=
  match text with
  | .ok (some text) => (parser text).stored
  | _ => none

/-- What a line that raises nothing leaves of the fields. -/
def Line.update : Line → Config → Config
  | .option text parser slot, config => slot.store (storedBy text parser) config
  | .setLogLevel, config => config

/-- The fields that a line reads when nothing was rejected before it. -/
def Line.reads : Line → Config → List Read
  | .option _ _ _, _ => []
  | .setLogLevel, config => [config.read .loggingLevel]

/-- The line has no text, or its parser returns true for the text. -/
def Line.Accepted : Line → Prop
  | .option text parser _ =>
    text = .ok none ∨ ∃ given, text = .ok (some given) ∧ (parser given).verdict = .ok true
  | .setLogLevel => True

/-- What lines that raise nothing leave of the fields. -/
def updateLines (lines : List Line) (config : Config) : Config :=
  lines.foldl (fun config line ↦ line.update config) config

/-- The fields that lines read when none is rejected. -/
def readsLines : List Line → Config → List Read
  | [], _ => []
  | line :: rest, config => line.reads config ++ readsLines rest (line.update config)

/-- The lines have ended without an exception, and nothing was rejected. -/
def Completes (result : Loading × Option Thrown) : Prop := result.2 = none ∧ result.1.ok = true

variable {line : Line} {lines : List Line} {l : Loading}

theorem Line.run_completes_iff : Completes (line.run l) ↔ l.ok = true ∧ line.Accepted := by
  cases line with
  | setLogLevel =>
    by_cases hok : l.ok = true <;> simp [Line.run, Completes, Line.Accepted, hok]
  | option text parser slot =>
    rcases text with e | _ | given
    · simp [Line.run, Completes, Line.Accepted]
    · simp [Line.run, Completes, Line.Accepted]
    · cases hverdict : (parser given).verdict <;>
        simp [Line.run, Completes, Line.Accepted, hverdict]

/-- An accepted line stores what it stores and reads what it reads. -/
theorem Line.run_of_accepted (hok : l.ok = true) (haccepted : line.Accepted) :
    (line.run l).1.config = line.update l.config ∧
      (line.run l).1.reads = l.reads ++ line.reads l.config := by
  cases line with
  | setLogLevel => simp [Line.run, Line.update, Line.reads, hok]
  | option text parser slot =>
    rcases haccepted with rfl | ⟨given, rfl, hverdict⟩
    · simp [Line.run, Line.update, Line.reads, storedBy, Slot.store_none]
    · simp [Line.run, Line.update, Line.reads, storedBy, hverdict]

theorem runLines_cons_of_completes {rest : List Line} (hline : Completes (line.run l)) :
    runLines (line :: rest) l = runLines rest (line.run l).1 := by
  rw [runLines]
  obtain ⟨hnone, -⟩ := hline
  generalize line.run l = result at hnone
  obtain ⟨l', raised⟩ := result
  cases hnone
  rfl

/-- An exception stops the lines, and an option that was rejected stays rejected. -/
theorem not_completes_runLines_of_rejected (hok : l.ok = false) :
    ¬ Completes (runLines lines l) := by
  induction lines generalizing l with
  | nil => simp [runLines, Completes, hok]
  | cons line rest ih =>
    rw [runLines]
    have hstep : ¬ Completes (line.run l) := by
      rw [Line.run_completes_iff]
      simp [hok]
    generalize line.run l = result at hstep
    obtain ⟨l', raised⟩ := result
    cases raised with
    | some e => simp [Completes]
    | none =>
      refine ih ?_
      simpa [Completes] using hstep

/-- The lines end without an exception and with nothing rejected exactly when every line is
accepted. -/
theorem runLines_completes_iff :
    Completes (runLines lines l) ↔ l.ok = true ∧ ∀ line ∈ lines, line.Accepted := by
  induction lines generalizing l with
  | nil => simp [runLines, Completes]
  | cons line rest ih =>
    by_cases hline : Completes (line.run l)
    · rw [runLines_cons_of_completes hline, ih, List.forall_mem_cons]
      obtain ⟨hok, haccepted⟩ := Line.run_completes_iff.mp hline
      simp [hline.2, hok, haccepted]
    · have hrejected : ¬ (l.ok = true ∧ line.Accepted) := fun h ↦
        hline (Line.run_completes_iff.mpr h)
      rw [List.forall_mem_cons, ← and_assoc]
      refine iff_of_false ?_ fun h ↦ hrejected h.1
      rw [runLines]
      generalize line.run l = result at hline
      obtain ⟨l', raised⟩ := result
      cases raised with
      | some e => simp [Completes]
      | none => exact not_completes_runLines_of_rejected (by simpa [Completes] using hline)

/-- Lines that are all accepted store what each of them stores, in order. -/
theorem runLines_of_accepted (l : Loading) (hok : l.ok = true)
    (haccepted : ∀ line ∈ lines, line.Accepted) :
    (runLines lines l).1.config = updateLines lines l.config ∧
      (runLines lines l).1.reads = l.reads ++ readsLines lines l.config := by
  induction lines generalizing l with
  | nil => simp [runLines, updateLines, readsLines]
  | cons line rest ih =>
    obtain ⟨hline, hrest⟩ := List.forall_mem_cons.mp haccepted
    have hcompletes : Completes (line.run l) := Line.run_completes_iff.mpr ⟨hok, hline⟩
    obtain ⟨hconfig, hreads⟩ := Line.run_of_accepted hok hline
    obtain ⟨hconfig', hreads'⟩ := ih (line.run l).1 hcompletes.2 hrest
    rw [runLines_cons_of_completes hcompletes]
    refine ⟨?_, ?_⟩
    · rw [hconfig', hconfig]
      rfl
    · rw [hreads', hconfig, hreads, readsLines, List.append_assoc]

/-! ### When a loader returns true -/

theorem finish_verdict_iff {rejected : String} {caught : Thrown → String}
    {result : Loading × Option Thrown} :
    (finish rejected caught result).verdict = true ↔ Completes result := by
  obtain ⟨l, raised⟩ := result
  cases raised with
  | some e => simp [finish, Completes]
  | none =>
    by_cases hok : l.ok = true <;> simp [finish, Completes, hok]

theorem finish_fields (rejected : String) (caught : Thrown → String)
    (result : Loading × Option Thrown) :
    (finish rejected caught result).config = result.1.config ∧
      (finish rejected caught result).reads = result.1.reads := by
  obtain ⟨l, raised⟩ := result
  cases raised with
  | some e => exact ⟨rfl, rfl⟩
  | none =>
    by_cases hok : l.ok = true <;> simp [finish, hok]

namespace Config

variable {libs : Libraries} {filename : String} {file : Except Thrown Yaml}
  {arguments : List Argument} {config : Config}

/-- `load_yaml` returns true exactly for a map of which every line is accepted. -/
theorem loadYaml_verdict_iff : (loadYaml libs filename file config).verdict = true ↔
    ∃ yaml, file = .ok yaml ∧ yaml.isMap = true ∧ ∀ line ∈ yamlLines libs yaml, line.Accepted := by
  cases file with
  | error e => simp [loadYaml]
  | ok yaml =>
    unfold loadYaml
    dsimp only
    split_ifs with hmap
    · rw [finish_verdict_iff, runLines_completes_iff]
      simp [hmap]
    · simp [hmap]

/-- What `load_yaml` leaves and reads when it accepts every line. -/
theorem loadYaml_of_accepted {yaml : Yaml} (hmap : yaml.isMap = true)
    (haccepted : ∀ line ∈ yamlLines libs yaml, line.Accepted) :
    (loadYaml libs filename (.ok yaml) config).config = updateLines (yamlLines libs yaml) config ∧
      (loadYaml libs filename (.ok yaml) config).reads =
        readsLines (yamlLines libs yaml) config := by
  have hloaded : loadYaml libs filename (.ok yaml) config =
      finish "Errors while parsing parsing configuration YAML" (yamlCaught filename)
        (runLines (yamlLines libs yaml) ⟨config, [], [], true⟩) := if_pos hmap
  obtain ⟨hconfig, hreads⟩ := runLines_of_accepted ⟨config, [], [], true⟩ rfl haccepted
  rw [hloaded, (finish_fields _ _ _).1, (finish_fields _ _ _).2]
  exact ⟨hconfig, hreads⟩

/-- `load_cmd_line` returns true exactly for arguments without `--help` that can be taken apart and
of which every line is accepted. -/
theorem loadCmdLine_verdict_iff : (loadCmdLine libs arguments config).verdict = true ↔
    ∃ vm, libs.storeOptions declaredOptions arguments = .ok vm ∧ vm.count "help" = 0 ∧
      ∀ line ∈ cmdLines libs vm, line.Accepted := by
  unfold loadCmdLine
  cases libs.storeOptions declaredOptions arguments with
  | error e => simp
  | ok vm =>
    dsimp only
    by_cases hhelp : vm.count "help" = 0
    · rw [if_neg (not_not.2 hhelp), finish_verdict_iff, runLines_completes_iff]
      refine ⟨fun h ↦ ⟨vm, rfl, hhelp, h.2⟩, ?_⟩
      rintro ⟨vm', heq, -, haccepted⟩
      cases heq
      exact ⟨rfl, haccepted⟩
    · rw [if_pos hhelp]
      refine iff_of_false (by simp) ?_
      rintro ⟨vm', heq, hzero, -⟩
      cases heq
      exact hhelp hzero

/-- What `load_cmd_line` leaves and reads when it accepts every line. -/
theorem loadCmdLine_of_accepted {vm : VariablesMap}
    (hvm : libs.storeOptions declaredOptions arguments = .ok vm) (hhelp : vm.count "help" = 0)
    (haccepted : ∀ line ∈ cmdLines libs vm, line.Accepted) :
    (loadCmdLine libs arguments config).config = updateLines (cmdLines libs vm) config ∧
      (loadCmdLine libs arguments config).reads = readsLines (cmdLines libs vm) config := by
  have hloaded : loadCmdLine libs arguments config =
      finish "Errors while parsing command line options" cmdCaught
        (runLines (cmdLines libs vm) ⟨config, [], [], true⟩) := by
    simp [loadCmdLine, hvm, hhelp]
  obtain ⟨hconfig, hreads⟩ := runLines_of_accepted ⟨config, [], [], true⟩ rfl haccepted
  rw [hloaded, (finish_fields _ _ _).1, (finish_fields _ _ _).2]
  exact ⟨hconfig, hreads⟩

end Config

end Kapua
