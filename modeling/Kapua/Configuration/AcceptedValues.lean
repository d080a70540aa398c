import Kapua.Configuration.StartUp

/-!
# What an accepted file has stored

When `load_yaml` returns true, each option of the map should have its value in its field, and no
parser should have logged an error about it. Seven of the nine parsers see to that, as they return
true only with a value stored and nothing logged (`Key.parse_clean`). Two do not: `parse_log_level`
returns true for a text it has just logged as invalid, and `parse_duration` goes on after it has
logged a bad start. So a map is accepted with invalid values exactly if nothing else in it is
refused and one of these two has such a text (`loadYaml_acceptsOnlyParsed_iff`).
-/

set_option autoImplicit false
set_option relaxedAutoImplicit false

namespace Kapua

namespace Key

/-- The type of the field of an option. -/
def Value : Key → Type
  | loggingLevel => LogLevel
  | loggingDisableSplash | localDiscoveryEnable | memcacheEnable => Bool
  | serverId => UInt64
  | serverIp4Address => UInt32
  | serverPort | memcachePort => UInt16
  | localDiscoveryInterval => Int32

/-- The parser that `load_yaml` calls for an option. -/
def parse (libs : Libraries) : (key : Key) → String → Parsed key.Value
  | loggingLevel => Config.parseLogLevel "yaml" "logging.level"
  | loggingDisableSplash => Config.parseBool "yaml" "logging.disable_splash"
  | serverId => Config.parseHexUint64 "yaml" "server.id"
  | serverIp4Address => Config.parseIpv4 libs "yaml" "server.ip4_address"
  | serverPort => Config.parsePort "yaml" "server.port"
  | localDiscoveryEnable => Config.parseBool "yaml" "local_discovery.enable"
  | localDiscoveryInterval =>
    fun text ↦ Config.parseDuration "yaml" "local_discovery.interval" (utf8 text) false
  | memcacheEnable => Config.parseBool "yaml" "memcache.enable"
  | memcachePort => Config.parsePort "yaml" "memcache.port"

/-- The field of an option. -/
def slot : (key : Key) → Slot key.Value
  | loggingLevel => Config.loggingLevelSlot
  | loggingDisableSplash => Config.loggingDisableSplashSlot
  | serverId => Config.serverIdSlot
  | serverIp4Address => Config.serverSinAddrSlot
  | serverPort => Config.serverSinPortSlot
  | localDiscoveryEnable => Config.localDiscoveryEnableSlot
  | localDiscoveryInterval => Config.localDiscoveryIntervalMsSlot
  | memcacheEnable => Config.memcachedEnableSlot
  | memcachePort => Config.memcachedSinPortSlot

theorem line_eq (libs : Libraries) (text : Except Thrown (Option String)) (key : Key) :
    key.line libs "yaml" text = .option text (key.parse libs) key.slot := by
  cases key <;> rfl

end Key

/-- What the map has for an option. -/
def Yaml.at (yaml : Yaml) (key : Key) : Except Thrown (Option String) :=
  yaml.text key.path.1 key.path.2

/-- The option cannot be read as a string, or its parser does not return true for its text. -/
def Yaml.Refuses (libs : Libraries) (yaml : Yaml) (key : Key) : Prop :=
  (∃ e, yaml.at key = .error e) ∨
    ∃ text, yaml.at key = .ok (some text) ∧ (key.parse libs text).verdict ≠ .ok true

/-- The text does not start with something that is not a digit. -/
def GoodStart (text : String) : Prop := ∀ c ∈ (chars (utf8 text)).head?, c.isDigit

variable {libs : Libraries} {yaml : Yaml} {filename : String} {config : Config}

/-! ### What the parsers log when they return true -/

/-- The digit mode logs nothing in a scan that returns true. -/
theorem scanDuration_errors_of_accepted {source name input : String} {allowNegative : Bool}
    {rest buffer : List Char} {res : Int32} {errors : List String}
    (haccepted : (Config.scanDuration source name input allowNegative rest
      ⟨.digit, buffer, res, errors⟩).verdict = .ok true) :
    (Config.scanDuration source name input allowNegative rest
      ⟨.digit, buffer, res, errors⟩).errors = errors := by
  induction rest generalizing buffer res with
  | nil => rfl
  | cons c rest ih =>
    rw [Config.scanDuration] at haccepted ⊢
    dsimp only at haccepted ⊢
    split_ifs at haccepted ⊢
    · exact ih haccepted
    · cases haccepted
    · cases hunit : Config.durationUnit c with
      | none => simp [hunit] at haccepted
      | some scale =>
        cases hnumber : stoi buffer with
        | error e => simp [hunit, hnumber] at haccepted
        | ok n =>
          rw [hunit, hnumber] at haccepted
          exact ih haccepted

/-- A duration that is accepted was logged as invalid exactly if it has a bad start. -/
theorem parseDuration_errors_eq_nil_iff {source name text : String}
    (haccepted : (Config.parseDuration source name (utf8 text) false).verdict = .ok true) :
    (Config.parseDuration source name (utf8 text) false).errors = [] ↔ GoodStart text := by
  unfold Config.parseDuration GoodStart at *
  cases htext : chars (utf8 text) with
  | nil => simp [Config.scanDuration]
  | cons c rest =>
    rw [htext, Config.scanDuration] at haccepted
    rw [Config.scanDuration]
    dsimp only at haccepted ⊢
    split_ifs at haccepted ⊢ with hminus hdigit
    · cases haccepted
    · rw [scanDuration_errors_of_accepted haccepted]
      simpa using hdigit
    · rw [scanDuration_errors_of_accepted haccepted]
      simpa using hdigit

theorem parseLogLevel_errors_eq_nil_iff {source name text : String} :
    (Config.parseLogLevel source name text).errors = [] ↔ IsLevel text := by
  have hstored : (Config.parseLogLevel source name text).stored.isSome ↔ IsLevel text :=
    parseLogLevel_stored_isSome_iff
  rw [← hstored]
  unfold Config.parseLogLevel
  dsimp only
  split_ifs <;> simp

/-- A call that returns true has stored a value, and has logged nothing. -/
def Parsed.Clean {α : Type} (parsed : Parsed α) : Prop :=
  parsed.stored.isSome ∧ parsed.errors = []

/-- All parsers but two return true only with a value stored and nothing logged. -/
theorem Key.parse_clean {key : Key} {text : String} (hlevel : key ≠ .loggingLevel)
    (hinterval : key ≠ .localDiscoveryInterval)
    (haccepted : (key.parse libs text).verdict = .ok true) : (key.parse libs text).Clean := by
  have hbool {name : String} (htrue : (Config.parseBool "yaml" name text).verdict = .ok true) :
      (Config.parseBool "yaml" name text).Clean := by
    refine ⟨Config.parseBool_stores.1 htrue, ?_⟩
    unfold Config.parseBool at htrue ⊢
    dsimp only at htrue ⊢
    split_ifs at htrue ⊢
    · rfl
    · rfl
    · cases htrue
  have hport {name : String} (htrue : (Config.parsePort "yaml" name text).verdict = .ok true) :
      (Config.parsePort "yaml" name text).Clean := by
    refine ⟨Config.parsePort_stores.1 htrue, ?_⟩
    unfold Config.parsePort Config.parseUint16 at htrue ⊢
    cases hconverted : stoi text.toList with
    | ok n => rfl
    | error e => cases e <;> simp [hconverted] at htrue ⊢
  cases key with
  | loggingLevel => exact absurd rfl hlevel
  | localDiscoveryInterval => exact absurd rfl hinterval
  | loggingDisableSplash | localDiscoveryEnable | memcacheEnable => exact hbool haccepted
  | serverPort | memcachePort => exact hport haccepted
  | serverId =>
    refine ⟨Config.parseHexUint64_stores.1 haccepted, ?_⟩
    simp only [parse, Config.parseHexUint64] at haccepted ⊢
    generalize List.map Char.toLower _ = hexInput at haccepted ⊢
    split_ifs at haccepted ⊢
    · cases haccepted
    · cases hnumber : stoull 16 hexInput with
      | error e => simp [hnumber] at haccepted
      | ok value => rfl
  | serverIp4Address =>
    refine ⟨(Config.parseIpv4_stores libs).1 haccepted, ?_⟩
    simp only [parse, Config.parseIpv4] at haccepted ⊢
    cases haddr : libs.inetPton (cStr text) with
    | none => simp [haddr] at haccepted
    | some addr => rfl

/-- The parser that returns true for a text has stored a value and logged nothing, unless the text
is an unknown level or has a bad start. -/
theorem Key.parse_clean_iff {key : Key} {text : String}
    (haccepted : (key.parse libs text).verdict = .ok true) : (key.parse libs text).Clean ↔
      (key = .loggingLevel → IsLevel text) ∧ (key = .localDiscoveryInterval → GoodStart text) := by
  by_cases hlevel : key = .loggingLevel
  · subst hlevel
    simp only [forall_const, reduceCtorEq, false_implies, and_true]
    exact (and_congr parseLogLevel_stored_isSome_iff parseLogLevel_errors_eq_nil_iff).trans
      and_self_iff
  by_cases hinterval : key = .localDiscoveryInterval
  · subst hinterval
    have hstored :
        (Config.parseDuration "yaml" "local_discovery.interval" (utf8 text) false).stored.isSome :=
      (Config.parseDuration_stores false).1 haccepted
    simp only [forall_const, reduceCtorEq, false_implies, true_and]
    exact (and_iff_right hstored).trans (parseDuration_errors_eq_nil_iff haccepted)
  · exact iff_of_true (Key.parse_clean hlevel hinterval haccepted)
      ⟨fun heq ↦ absurd heq hlevel, fun heq ↦ absurd heq hinterval⟩

/-! ### What `load_yaml` returns and leaves -/

/-- `load_yaml` returns true for a map exactly if it refuses none of the options. -/
theorem loadYaml_verdict_iff_not_refuses (hmap : yaml.isMap = true) :
    (Config.loadYaml libs filename (.ok yaml) config).verdict = true ↔
      ∀ key, ¬ yaml.Refuses libs key := by
  have hline (key : Key) : (key.line libs "yaml" (yaml.at key)).Accepted ↔
      ¬ yaml.Refuses libs key := by
    rw [Key.line_eq]
    unfold Yaml.Refuses Line.Accepted
    rcases yaml.at key with e | _ | given
    · simp
    · simp
    · simp
  rw [Config.loadYaml_verdict_iff]
  simp only [Except.ok.injEq, exists_eq_left', yamlLines_eq_keyLines, forall_keyLines]
  rw [and_iff_right hmap]
  exact forall_congr' hline

/-- An option that is not refused has a text its parser returns true for, if it has one. -/
theorem verdict_of_not_refuses {key : Key} {text : String} (hkept : ¬ yaml.Refuses libs key)
    (htext : yaml.at key = .ok (some text)) : (key.parse libs text).verdict = .ok true := by
  by_contra hother
  exact hkept (.inr ⟨text, htext, hother⟩)

/-- A map that is accepted leaves what its lines store. -/
theorem loadYaml_config_of_verdict
    (hverdict : (Config.loadYaml libs filename (.ok yaml) config).verdict = true) :
    (Config.loadYaml libs filename (.ok yaml) config).config =
      updateLines (yamlLines libs yaml) config := by
  obtain ⟨yaml', hfile, hmap, hlines⟩ := Config.loadYaml_verdict_iff.1 hverdict
  cases hfile
  exact (Config.loadYaml_of_accepted hmap hlines).1

/-- What the lines of `load_yaml` leave in the field of an option. -/
theorem slot_get_updateLines (key : Key) :
    key.slot.get (updateLines (yamlLines libs yaml) config) =
      (storedBy (yaml.at key) (key.parse libs)).or (key.slot.get config) := by
  cases key <;> rfl

/-- A configuration is accepted only if every present value was: if `load_yaml` returns true, each
option in the map has in its field the value its parser has stored for its text, and the parser has
logged nothing, and the fields without an option in the map are as they were; and if the parser of
an option in the map logs an error about its text, `load_yaml` returns false. -/
def AcceptsOnlyParsed (libs : Libraries) (filename : String) (yaml : Yaml) (config : Config) :
    Prop :=
  let loaded := Config.loadYaml libs filename (.ok yaml) config
  (loaded.verdict = true →
    loaded.config.memcachedSinAddr = config.memcachedSinAddr ∧ ∀ key : Key,
      (∀ text, yaml.at key = .ok (some text) → (key.parse libs text).errors = [] ∧
        ∃ value, (key.parse libs text).stored = some value ∧
          key.slot.get loaded.config = some value) ∧
      (yaml.at key = .ok none → key.slot.get loaded.config = key.slot.get config)) ∧
  ∀ (key : Key) (text : String), yaml.at key = .ok (some text) →
    (key.parse libs text).errors ≠ [] → loaded.verdict = false

/-- A map is accepted only with the values its texts stand for exactly if one of the options is
refused, or the logging level is one that `parse_log_level` knows and the interval has no bad
start, as far as they are present. -/
theorem loadYaml_acceptsOnlyParsed_iff (libs : Libraries) (filename : String)
    (text : String → String → Except Thrown (Option String)) (config : Config) :
    AcceptsOnlyParsed libs filename ⟨true, text⟩ config ↔
      (∃ key, Yaml.Refuses libs ⟨true, text⟩ key) ∨
        (∀ level, text "logging" "level" = .ok (some level) → IsLevel level) ∧
          ∀ interval, text "local_discovery" "interval" = .ok (some interval) →
            GoodStart interval := by
  have hverdict : (Config.loadYaml libs filename (.ok ⟨true, text⟩) config).verdict = true ↔
      ∀ key, ¬ Yaml.Refuses libs ⟨true, text⟩ key := loadYaml_verdict_iff_not_refuses rfl
  constructor
  · rintro ⟨haccepted, -⟩
    by_cases hrefused : ∃ key, Yaml.Refuses libs ⟨true, text⟩ key
    · exact .inl hrefused
    have hkept : ∀ key, ¬ Yaml.Refuses libs ⟨true, text⟩ key := not_exists.1 hrefused
    obtain ⟨-, hkeys⟩ := haccepted (hverdict.2 hkept)
    refine .inr ⟨fun level hlevel ↦ ?_, fun interval hinterval ↦ ?_⟩
    · obtain ⟨herrors, -⟩ := (hkeys .loggingLevel).1 level hlevel
      exact parseLogLevel_errors_eq_nil_iff.1 herrors
    · obtain ⟨herrors, -⟩ := (hkeys .localDiscoveryInterval).1 interval hinterval
      have htrue := verdict_of_not_refuses (hkept .localDiscoveryInterval) hinterval
      exact (parseDuration_errors_eq_nil_iff htrue).1 herrors
  · rintro (⟨key, hrefused⟩ | ⟨hlevel, hinterval⟩)
    · have hfalse : (Config.loadYaml libs filename (.ok ⟨true, text⟩) config).verdict = false :=
        Bool.eq_false_iff.2 fun htrue ↦ hverdict.1 htrue key hrefused
      exact ⟨fun htrue ↦ absurd (hfalse.symm.trans htrue) (by decide), fun _ _ _ _ ↦ hfalse⟩
    have hclean (htrue : (Config.loadYaml libs filename (.ok ⟨true, text⟩) config).verdict = true)
        (key : Key) (given : String) (hgiven : Yaml.at ⟨true, text⟩ key = .ok (some given)) :
        (key.parse libs given).Clean := by
      refine (Key.parse_clean_iff (verdict_of_not_refuses (hverdict.1 htrue key) hgiven)).2 ⟨?_, ?_⟩
      · rintro rfl
        exact hlevel given hgiven
      · rintro rfl
        exact hinterval given hgiven
    refine ⟨fun htrue ↦ ?_, fun key given hgiven herrors ↦ ?_⟩
    · rw [loadYaml_config_of_verdict htrue]
      refine ⟨rfl, fun key ↦ ⟨fun given hgiven ↦ ?_, fun habsent ↦ ?_⟩⟩
      · obtain ⟨hstored, herrors⟩ := hclean htrue key given hgiven
        obtain ⟨value, hvalue⟩ := Option.isSome_iff_exists.1 hstored
        refine ⟨herrors, value, hvalue, ?_⟩
        rw [slot_get_updateLines, hgiven]
        exact congrArg (Option.or · _) hvalue
      · rw [slot_get_updateLines, habsent]
        rfl
    · by_contra hother
      have htrue : (Config.loadYaml libs filename (.ok ⟨true, text⟩) config).verdict = true := by
        simpa using hother
      exact herrors (hclean htrue key given hgiven).2

/-- The map with a logging level that does not exist. -/
def unknownLevelText (section' name : String) : Except Thrown (Option String) :=
  if section' = "logging" ∧ name = "level" then .ok (some "verbose") else .ok none

/-- It is accepted, although `parse_log_level` has logged an error about it. -/
theorem loadYaml_accepts_unknown_level :
    ¬ ∀ libs filename text config, AcceptsOnlyParsed libs filename ⟨true, text⟩ config := by
  intro honly
  obtain ⟨-, hlogged⟩ :=
    honly plainLibraries "config.yaml" unknownLevelText (.construct plainLibraries)
  have hfalse := hlogged .loggingLevel "verbose" (by decide +kernel) (by decide +kernel)
  exact absurd hfalse (by decide +kernel)

end Kapua
