import SampLogCore.Lib.Triples
import SampLogCore.Config.Document
import SampLogCore.Config.FileSize
import Mathlib.Data.List.AList

/-!
# Configurations and their documents

A `Configuration` is what a document can ask for: settings for some loggers by name, settings for
some level names, and the global settings. Each part has a text (`Configuration.document`), and the
parser of the part reads the text as what it was written for, without a warning
(`parseLogger_node`, `parseLevel_text`, `parseGlobal_document`).

How a scalar reads as an `int` or a `bool` is the library's business (`Lawful` says what is used of
it): decimal numbers, `true` and `false`.
-/

namespace SampLogCore.Config.Written

open SampLogCore.Levels SampLogCore.Lib.Emitting SampLogCore.Lib.Number SampLogCore.Lib.Triples
  SampLogCore.Config.Yaml SampLogCore.Config.Settings SampLogCore.Config.Document
  SampLogCore.Config.FileSize

/-- What the library does with decimal numbers and with `true` and `false`. -/
structure Lawful (c : Conversions) : Prop where
  asInt_decimal : ∀ n, INT_MIN ≤ n → n ≤ INT_MAX → c.asInt (String.ofList (formatD n)) = some n
  asInt_range : ∀ s n, c.asInt s = some n → INT_MIN ≤ n ∧ n ≤ INT_MAX
  asBool_true : c.asBool "true" = some true
  asBool_false : c.asBool "false" = some false

/-! ### What a document can ask for -/

/-- A name in `loglevel_str_map`. -/
inductive LevelName
  | Debug
  | Info
  | Warning
  | Error
  | Fatal
  | Verbose
  | All
  | None
  deriving DecidableEq

namespace LevelName

def text : LevelName → String
  | Debug => "Debug"
  | Info => "Info"
  | Warning => "Warning"
  | Error => "Error"
  | Fatal => "Fatal"
  | Verbose => "Verbose"
  | All => "All"
  | None => "None"

def level : LevelName → LogLevel
  | Debug => DEBUG
  | Info => INFO
  | Warning => WARNING
  | Error => ERROR
  | Fatal => FATAL
  | Verbose => VERBOSE
  | All => GetAllLogLevel
  | None => NONE

/-- The names of single levels. -/
def bits : List LevelName := [Debug, Info, Warning, Error, Fatal, Verbose]

/-- The name of a value in `loglevel_str_map`. -/
def ofLevel (level : LogLevel) : Option LevelName :=
  (All :: None :: bits).find? fun n => n.level = level

end LevelName

/-- A mask of known levels. -/
abbrev LevelMask := {mask : LogLevel // mask.toNat < 64}

/-- The value of an `int`. -/
abbrev CInt := {n : ℤ // INT_MIN ≤ n ∧ n ≤ INT_MAX}

/-- A size in kilobytes that is an `int`. -/
abbrev Kilobytes := {n : UInt32 // (n.toNat : ℤ) ≤ INT_MAX}

inductive Rotation
  | none
  | date (time_type : LogRotationTimeType) (backup_count : CInt)
  | size (kilobytes : Kilobytes) (backup_count : CInt)

/-- A name that is not refused. -/
abbrev LoggerName := {name : String // name ≠ "" ∧ name ≠ "log-core"}

structure LoggerSettings where
  Level : LevelMask
  PrintToConsole : Bool
  Append : Bool
  Rotation : Rotation

/-- The global settings that pass the checks. -/
structure GlobalSettings where
  config : GlobalConfig
  format_valid : ValidateTimeFormat config.LogTimeFormat.toList = .ok true
  folder_slash : config.LogsRootFolder.toList.getLast? = some '/'

structure Configuration where
  loggers : AList fun _ : LoggerName => LoggerSettings
  /-- `PrintToConsole` of the levels -/
  levels : AList fun _ : LevelName => Bool
  global : GlobalSettings

/-! ### What the loader makes of it -/

def Rotation.config : Rotation → LogRotationConfig
  | none => {}
  | date time_type backup_count => ⟨.DATE, .Date time_type, backup_count⟩
  | size kilobytes backup_count => ⟨.SIZE, .FileSize kilobytes, backup_count⟩

def LoggerSettings.config (s : LoggerSettings) : LoggerConfig :=
  ⟨s.Level, s.PrintToConsole, s.Append, s.Rotation.config⟩

/-! ### Documents -/

def boolNode (b : Bool) : Node := .scalar (if b then "true" else "false")

def intNode (n : ℤ) : Node := .scalar (String.ofList (formatD n))

/-- The names of the levels in a mask. -/
def LevelMask.names (mask : LevelMask) : List LevelName :=
  LevelName.bits.filter fun n => IsLogLevel mask n.level

def LevelMask.node (mask : LevelMask) : Node :=
  .sequence (mask.names.map fun n => .scalar n.text)

def durationText : LogRotationTimeType → String
  | .DAILY => "Daily"
  | .WEEKLY => "Weekly"
  | .MONTHLY => "Monthly"

theorem toLower_K : 'K'.toLower = SizeUnit.k.letter := rfl

theorem toLower_B : 'B'.toLower = 'b' := rfl

/-- A number of kilobytes, as it is written. -/
def sizeText (n : ℕ) : SizeText where
  digits := Nat.toDigits 10 n
  unit := .k
  unitChar := 'K'
  b := 'B'
  digits_ne := Nat.toDigits_ne_nil
  isDigit := isDigit_toDigits n
  unit_eq := toLower_K
  b_eq := toLower_B

/-- The setting `LogRotation`. -/
def rotationNode (type trigger : String) (backup_count : ℤ) : Node :=
  .map [(.scalar "Type", .scalar type), (.scalar "Trigger", .scalar trigger),
    (.scalar "BackupCount", intNode backup_count)]

def Rotation.node : Rotation → Option Node
  | none => Option.none
  | date time_type backup_count =>
    some (rotationNode "Date" (durationText time_type) backup_count)
  | size kilobytes backup_count =>
    some (rotationNode "Size" (String.ofList (sizeText kilobytes.1.toNat).text) backup_count)

def LoggerSettings.node (s : LoggerSettings) : Node :=
  .map ([(.scalar "LogLevel", s.Level.node), (.scalar "PrintToConsole", boolNode s.PrintToConsole),
    (.scalar "Append", boolNode s.Append)] ++
    s.Rotation.node.toList.map fun rotation => (.scalar "LogRotation", rotation))

def levelNode (print : Bool) : Node := .map [(.scalar "PrintToConsole", boolNode print)]

/-- The document that asks for a configuration. -/
def Configuration.document (conf : Configuration) : Node :=
  .map [(.scalar "Logger", .map (conf.loggers.entries.map fun e => (.scalar e.1, e.2.node))),
    (.scalar "LogLevel", .map (conf.levels.entries.map fun e => (.scalar e.1.text, levelNode e.2))),
    (.scalar "LogTimeFormat", .scalar conf.global.config.LogTimeFormat),
    (.scalar "EnableColors", boolNode conf.global.config.EnableColors),
    (.scalar "DisableDebugInfo", boolNode conf.global.config.DisableDebugInfo),
    (.scalar "LogsRootFolder", .scalar conf.global.config.LogsRootFolder)]

/-! ### Levels -/

variable {c : Conversions}

theorem loglevel_str_map_text (n : LevelName) : loglevel_str_map n.text = some n.level := by
  cases n <;> rfl

theorem text_ne_empty (n : LevelName) : n.text ≠ "" := by
  cases n <;> decide

/-- The names of the map are all its keys. -/
theorem exists_levelName {s : String} {l : LogLevel} (h : loglevel_str_map s = some l) :
    ∃ n : LevelName, n.text = s ∧ n.level = l := by
  unfold loglevel_str_map at h
  obtain ⟨before, after, hsplit, -⟩ := List.lookup_eq_some_iff.mp h
  have hmem : (s, l) ∈ before ++ (s, l) :: after := List.mem_append_right _ List.mem_cons_self
  rw [← hsplit] at hmem
  simp only [List.mem_cons, Prod.mk.injEq, List.not_mem_nil, or_false] at hmem
  rcases hmem with ⟨rfl, rfl⟩ | ⟨rfl, rfl⟩ | ⟨rfl, rfl⟩ | ⟨rfl, rfl⟩ | ⟨rfl, rfl⟩ | ⟨rfl, rfl⟩ |
    ⟨rfl, rfl⟩ | ⟨rfl, rfl⟩
  · exact ⟨.Debug, rfl, rfl⟩
  · exact ⟨.Info, rfl, rfl⟩
  · exact ⟨.Warning, rfl, rfl⟩
  · exact ⟨.Error, rfl, rfl⟩
  · exact ⟨.Fatal, rfl, rfl⟩
  · exact ⟨.Verbose, rfl, rfl⟩
  · exact ⟨.All, rfl, rfl⟩
  · exact ⟨.None, rfl, rfl⟩

theorem ofLevel_level (n : LevelName) : LevelName.ofLevel n.level = some n := by
  cases n <;> decide

theorem level_of_ofLevel {l : LogLevel} {n : LevelName} (h : LevelName.ofLevel l = some n) :
    n.level = l := by
  unfold LevelName.ofLevel at h
  simpa using List.find?_some h

/-- How a level joins those before it. -/
def joined (dest : LogLevel) (n : LevelName) : LogLevel :=
  if n.level ≠ NONE then dest ||| n.level else NONE

theorem parseLogLevel_text (n : LevelName) (dest : LogLevel) (msg : String) :
    ParseLogLevel (.node (.scalar n.text)) dest msg = pure (true, joined dest n) := by
  unfold ParseLogLevel
  simp only [Handle.asStringOr, text_ne_empty, if_false, loglevel_str_map_text]
  rfl

theorem parseLevelItems_names (msg : String) : ∀ (names : List LevelName) (dest : LogLevel),
    ParseLevelItems msg (names.map fun n => .node (.scalar n.text)) dest =
      pure (names.foldl joined dest)
  | [], _ => rfl
  | n :: names, dest => by
    rw [List.map_cons, ParseLevelItems, parseLogLevel_text, bind_pure_eq]
    exact parseLevelItems_names msg names _

/-- The levels of a mask make the mask. -/
theorem joined_names (mask : LevelMask) : mask.names.foldl joined NONE = mask := by
  have hall : ∀ k : Fin 64, (LevelName.bits.filter fun n =>
      IsLogLevel (UInt32.ofNat k) n.level).foldl joined NONE = UInt32.ofNat k := by decide
  obtain ⟨mask, hmask⟩ := mask
  have h := hall ⟨mask.toNat, hmask⟩
  simpa [LevelMask.names] using h

/-- The setting `LogLevel` of a logger. -/
theorem parseLevels_node (name : String) (s : LoggerSettings) :
    ParseLevels name (.node s.node) = pure s.Level.1 := by
  have hitems : (Handle.node s.Level.node).items =
      s.Level.names.map fun n => .node (.scalar n.text) := by
    simp [Handle.items, LevelMask.node, Function.comp_def]
  have hget : (Handle.node s.node).get "LogLevel" = .ok (.node s.Level.node) := by
    simp [Handle.get, LoggerSettings.node, lookup]
  unfold ParseLevels
  rw [hget]
  simp only [liftExcept_ok_bind]
  have hseq : (Handle.node s.Level.node).isSequence = .ok true := rfl
  have hdef : (Handle.node s.Level.node).isDefined = true := rfl
  have hnull : (Handle.node s.Level.node).isNull = .ok false := rfl
  rw [hdef, hnull, hseq, if_pos rfl, hitems]
  simp only [Except.map, liftExcept_ok_bind, Bool.not_false, if_true]
  rw [parseLevelItems_names, joined_names]

/-! ### Rotations -/

theorem parseDuration_text (t : LogRotationTimeType) : ParseDuration (durationText t) = some t := by
  cases t <;> rfl

theorem kilobytes_sizeText (n : ℕ) : (sizeText n).value = n :=
  Nat.ofDigitChars_toDigits (by decide) (by decide)

theorem parseFileSize_text (n : Kilobytes) :
    ParseFileSize (String.ofList (sizeText n.1.toNat).text) = .ok (some n.1) := by
  obtain ⟨n, hn⟩ := n
  have hle : ¬ ((sizeText n.toNat).value : ℤ) > INT_MAX := by
    rw [kilobytes_sizeText]
    omega
  rw [SizeText.parse_text, if_neg hle, kilobytes_sizeText]
  simp [sizeText, SizeUnit.factor]

/-- A conversion that reads the text of a flag. -/
theorem asBoolOr_boolNode (hc : Lawful c) (fallback b : Bool) :
    (Handle.node (boolNode b)).asBoolOr c fallback = b := by
  cases b
  · simp [Handle.asBoolOr, boolNode, hc.asBool_false]
  · simp [Handle.asBoolOr, boolNode, hc.asBool_true]

theorem asIntOr_intNode (hc : Lawful c) (fallback : ℤ) (n : CInt) :
    (Handle.node (intNode n)).asIntOr c fallback = n := by
  simp [Handle.asIntOr, intNode, hc.asInt_decimal n n.2.1 n.2.2]

/-- A setting that is a scalar is read. -/
theorem scalarOr_scalar {α : Type} (s : String) (read : Handle → α) (dest : α) :
    scalarOr (.node (.scalar s)) read dest = .ok (read (.node (.scalar s))) := rfl

theorem parseBackupCount_node (hc : Lawful c) (type trigger : String) (n : CInt)
    (parsed : LogRotationType × LogRotationValue) :
    ParseBackupCount c (.node (rotationNode type trigger n)) (some parsed) =
      pure ⟨parsed.1, parsed.2, n⟩ := by
  have hget : (Handle.node (rotationNode type trigger n)).get "BackupCount" =
      .ok (.node (intNode n)) := by
    simp [Handle.get, rotationNode, lookup]
  have hread := asIntOr_intNode hc ({} : LogRotationConfig).BackupCount n
  unfold ParseBackupCount
  rw [hget]
  simp only [liftExcept_ok_bind]
  rw [intNode] at hread ⊢
  rw [scalarOr_scalar, liftExcept_ok_bind, hread]

/-- A rotation whose trigger is read. -/
theorem parseRotation_rotationNode (hc : Lawful c) {name type trigger : String} {n : CInt}
    {logger : Handle} {parsed : LogRotationType × LogRotationValue}
    (hget : logger.get "LogRotation" = .ok (.node (rotationNode type trigger n)))
    (htrigger : ParseTrigger name type (.node (.scalar trigger)) = pure (some parsed)) :
    ParseRotation c name logger = pure ⟨parsed.1, parsed.2, n⟩ := by
  have htype : (Handle.node (rotationNode type trigger n)).get "Type" =
      .ok (.node (.scalar type)) := by
    simp [Handle.get, rotationNode, lookup]
  have htext : (Handle.node (rotationNode type trigger n)).get "Trigger" =
      .ok (.node (.scalar trigger)) := by
    simp [Handle.get, rotationNode, lookup]
  have hdefined : (Handle.node (rotationNode type trigger n)).isDefined = true := rfl
  unfold ParseRotation
  rw [hget, liftExcept_ok_bind, if_pos hdefined, htype, htext]
  simp only [liftExcept_ok_bind, Handle.isDefined, Bool.and_self, if_true, Handle.asString]
  rw [htrigger, bind_pure_eq, parseBackupCount_node hc]

/-- The setting `LogRotation` of a logger. -/
theorem parseRotation_node (hc : Lawful c) (name : String) (s : LoggerSettings) :
    ParseRotation c name (.node s.node) = pure s.Rotation.config := by
  rcases s with ⟨level, print, append, _ | ⟨t, n⟩ | ⟨k, n⟩⟩
  · rfl
  · have htrigger : ParseTrigger name "Date" (.node (.scalar (durationText t))) =
        pure (some (.DATE, .Date t)) := by
      unfold ParseTrigger
      rw [if_pos rfl]
      simp only [Handle.asStringOr, parseDuration_text]
    exact parseRotation_rotationNode hc rfl htrigger
  · have htrigger : ParseTrigger name "Size"
        (.node (.scalar (String.ofList (sizeText k.1.toNat).text))) =
        pure (some (.SIZE, .FileSize k)) := by
      unfold ParseTrigger
      rw [if_neg (by decide), if_pos rfl]
      simp only [Handle.asStringOr, parseFileSize_text, liftExcept_ok_bind]
    exact parseRotation_rotationNode hc rfl htrigger

/-! ### Loggers, levels and global settings -/

/-- The flags of a logger. -/
theorem parseFlags_node (hc : Lawful c) (name : String) (s : LoggerSettings) (level : LogLevel)
    (rotation : LogRotationConfig) :
    ParseFlags c name (.node s.node) level rotation =
      emit (.addLoggerConfig name ⟨level, s.PrintToConsole, s.Append, rotation⟩) := by
  have hprint : (Handle.node s.node).get "PrintToConsole" =
      .ok (.node (boolNode s.PrintToConsole)) := by
    simp [Handle.get, LoggerSettings.node, lookup]
  have happend : (Handle.node s.node).get "Append" = .ok (.node (boolNode s.Append)) := by
    simp [Handle.get, LoggerSettings.node, lookup]
  have hreadPrint := asBoolOr_boolNode hc false s.PrintToConsole
  have hreadAppend := asBoolOr_boolNode hc true s.Append
  unfold ParseFlags
  rw [hprint, happend]
  simp only [liftExcept_ok_bind]
  rw [boolNode] at hreadPrint hreadAppend ⊢
  rw [boolNode, scalarOr_scalar, scalarOr_scalar]
  simp only [liftExcept_ok_bind, hreadPrint, hreadAppend]

/-- **A logger is read as it was written.** -/
theorem parseLogger_node (hc : Lawful c) (name : LoggerName) (s : LoggerSettings) :
    ParseLogger c (.node (.scalar name), .node s.node) = emit (.addLoggerConfig name s.config) := by
  have hname : ¬ (name.1 = "" ∨ name.1 = "log-core") := not_or.mpr name.2
  unfold ParseLogger
  refine (if_neg hname).trans ?_
  rw [Handle.asStringOr, parseLevels_node, bind_pure_eq, parseRotation_node hc, bind_pure_eq,
    parseFlags_node hc]
  rfl

theorem joined_zero (n : LevelName) : joined 0 n = n.level := by
  cases n <;> decide

/-- **A level is read as it was written.** -/
theorem parseLevel_text (hc : Lawful c) (n : LevelName) (print : Bool) :
    ParseLevel c (.node (.scalar n.text), .node (levelNode print)) =
      emit (.emplaceLevelConfig n.level ⟨print⟩) := by
  have hget : (Handle.node (levelNode print)).get "PrintToConsole" =
      .ok (.node (boolNode print)) := by
    simp [Handle.get, levelNode, lookup]
  have hread := asBoolOr_boolNode hc false print
  unfold ParseLevel
  rw [parseLogLevel_text, bind_pure_eq, hget]
  simp only [liftExcept_ok_bind, if_true, joined_zero]
  rw [boolNode] at hread ⊢
  rw [scalarOr_scalar, liftExcept_ok_bind, hread]

theorem endWithSlash_of_slash {folder : String} (h : folder.toList.getLast? = some '/') :
    endWithSlash folder = .ok folder := by
  unfold endWithSlash
  rw [h]
  simp

/-- The assignments to `_globalConfig`, one after the other. -/
def globalEvents (g : GlobalConfig) : List Action :=
  [.setGlobalConfig {}, .setGlobalConfig { LogTimeFormat := g.LogTimeFormat },
    .setGlobalConfig { LogTimeFormat := g.LogTimeFormat, EnableColors := g.EnableColors },
    .setGlobalConfig { g with LogsRootFolder := ({} : GlobalConfig).LogsRootFolder },
    .setGlobalConfig g, .setGlobalConfig g]

/-- The time format of a document. -/
theorem parseTimeFormat_scalar {format : String} (h : ValidateTimeFormat format.toList = .ok true) :
    ParseTimeFormat (.node (.scalar format)) {} =
      ⟨[.setGlobalConfig { LogTimeFormat := format }], .ok { LogTimeFormat := format }⟩ := by
  unfold ParseTimeFormat
  rw [scalarOr_scalar, liftExcept_ok_bind]
  simp only [Handle.asStringOr, h, liftExcept_ok_bind, if_true]
  rw [bind_of_ok (result_emit _)]
  rfl

/-- The settings behind the time format. -/
theorem parseGlobalScalars_document (hc : Lawful c) (conf : Configuration) (config : GlobalConfig) :
    ParseGlobalScalars c (.node conf.document) config =
      ⟨[.setGlobalConfig { config with EnableColors := conf.global.config.EnableColors },
        .setGlobalConfig { conf.global.config with
          LogTimeFormat := config.LogTimeFormat, LogsRootFolder := config.LogsRootFolder },
        .setGlobalConfig { conf.global.config with LogTimeFormat := config.LogTimeFormat },
        .setGlobalConfig { conf.global.config with LogTimeFormat := config.LogTimeFormat }],
        .ok ()⟩ := by
  have hcolors : (Handle.node conf.document).getOrInsert "EnableColors" =
      .ok (.node (boolNode conf.global.config.EnableColors)) := by
    simp [Handle.getOrInsert, Configuration.document, lookup]
  have hdebug : (Handle.node conf.document).getOrInsert "DisableDebugInfo" =
      .ok (.node (boolNode conf.global.config.DisableDebugInfo)) := by
    simp [Handle.getOrInsert, Configuration.document, lookup]
  have hfolder : (Handle.node conf.document).getOrInsert "LogsRootFolder" =
      .ok (.node (.scalar conf.global.config.LogsRootFolder)) := by
    simp [Handle.getOrInsert, Configuration.document, lookup]
  have hreadColors := asBoolOr_boolNode hc config.EnableColors conf.global.config.EnableColors
  have hreadDebug :=
    asBoolOr_boolNode hc config.DisableDebugInfo conf.global.config.DisableDebugInfo
  unfold ParseGlobalScalars
  rw [hcolors, hdebug, hfolder]
  rw [boolNode] at hreadColors hreadDebug ⊢
  rw [boolNode]
  simp only [liftExcept_ok_bind, scalarOr_scalar, hreadColors, hreadDebug, Handle.asStringOr]
  rw [endWithSlash_of_slash conf.global.folder_slash]
  simp only [liftExcept_ok_bind]
  rfl

/-- **The global settings are read as they were written.** -/
theorem parseGlobal_document (hc : Lawful c) (conf : Configuration) :
    ParseGlobal c (.node conf.document) = ⟨globalEvents conf.global.config, .ok ()⟩ := by
  have hformat : (Handle.node conf.document).getOrInsert "LogTimeFormat" =
      .ok (.node (.scalar conf.global.config.LogTimeFormat)) := by
    simp [Handle.getOrInsert, Configuration.document, lookup]
  unfold ParseGlobal
  rw [hformat, liftExcept_ok_bind, bind_of_ok (result_emit _),
    parseTimeFormat_scalar conf.global.format_valid, bind_of_ok rfl,
    parseGlobalScalars_document hc]
  rfl

/-- What loading the document of a configuration does. -/
def Configuration.events (conf : Configuration) : List Action :=
  .clearLoggerConfigs :: .addLoggerConfig "log-core" GetInternalLogConfig ::
    ((conf.loggers.entries.map fun e => .addLoggerConfig e.1 e.2.config) ++
      .clearLevelConfigs ::
        ((conf.levels.entries.map fun e => .emplaceLevelConfig e.1.level ⟨e.2⟩) ++
          globalEvents conf.global.config))

/-- **The document of a configuration is read as the configuration**, without a warning. -/
theorem parseDocument_document (hc : Lawful c) (conf : Configuration) :
    ParseDocument c (.node conf.document) = ⟨conf.events, .ok ()⟩ := by
  have hloggers : (Handle.node conf.document).getOrInsert "Logger" =
      .ok (.node (.map (conf.loggers.entries.map fun e => (.scalar e.1, e.2.node)))) := by
    simp [Handle.getOrInsert, Configuration.document, lookup]
  have hlevels : (Handle.node conf.document).getOrInsert "LogLevel" = .ok (.node (.map
      (conf.levels.entries.map fun e => (.scalar e.1.text, levelNode e.2)))) := by
    simp [Handle.getOrInsert, Configuration.document, lookup]
  have heachLogger : each (ParseLogger c)
      (conf.loggers.entries.map fun e => (.node (.scalar e.1), .node e.2.node)) =
      ⟨conf.loggers.entries.map fun e => .addLoggerConfig e.1 e.2.config, .ok ()⟩ :=
    each_emit fun e _ => parseLogger_node hc e.1 e.2
  have heachLevel : each (ParseLevel c)
      (conf.levels.entries.map fun e => (.node (.scalar e.1.text), .node (levelNode e.2))) =
      ⟨conf.levels.entries.map fun e => .emplaceLevelConfig e.1.level ⟨e.2⟩, .ok ()⟩ :=
    each_emit fun e _ => parseLevel_text hc e.1 e.2
  unfold ParseDocument
  rw [hloggers, hlevels]
  simp only [liftExcept_ok_bind, Handle.pairs, List.map_map, Function.comp_def]
  rw [heachLogger, heachLevel, parseGlobal_document hc]
  rfl

end SampLogCore.Config.Written
