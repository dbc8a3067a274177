import SampLogCore.Config.Settings

/-!
# Loading a document

`LogConfig::ParseConfigFile` from the lock on: which actions it takes on a document, in which order,
and where it throws. What it does depends on the document only, so the loader is a computation that
emits its actions; what they do to the program is said where the program's state is.
-/

namespace SampLogCore.Config.Document

open SampLogCore.Levels SampLogCore.Lib.Emitting SampLogCore.Config.Yaml SampLogCore.Config.Settings

/-- `if (setting && setting.IsScalar()) dest = setting.as<T>(…)`. -/
def scalarOr {α : Type} (setting : Handle) (read : Handle → α) (dest : α) : Except Fault α :=
  if setting.isDefined then setting.isScalar.map fun scalar => if scalar then read setting else dest
  else .ok dest

/-- The loop over the levels of a logger. -/
def ParseLevelItems (error_msg : String) : List Handle → LogLevel → Load LogLevel
  | [], dest => pure dest
  | item :: items, dest => do
    let (_, dest) ← ParseLogLevel item dest error_msg
    ParseLevelItems error_msg items dest

/-- The setting `LogLevel` of a logger. -/
def ParseLevels (module_name : String) (logger : Handle) : Load LogLevel := do
  let error_msg := "could not parse log level setting for logger '" ++ module_name ++ "'"
  let log_levels ← liftExcept (logger.get "LogLevel")
  let specified ← liftExcept
    (if log_levels.isDefined then log_levels.isNull.map (! ·) else .ok false)
  let Level := if specified then NONE else ({} : LoggerConfig).Level
  if ← liftExcept log_levels.isSequence then ParseLevelItems error_msg log_levels.items Level
  else do
    let (_, Level) ← ParseLogLevel log_levels Level error_msg
    pure Level

/-- The trigger of a rotation with a valid type. -/
def ParseTrigger (module_name : String) (type_str : String) (trigger : Handle) :
    Load (Option (LogRotationType × LogRotationValue)) := do
  if type_str = "Date" then
    let time_str := trigger.asStringOr "Daily"
    match ParseDuration time_str with
    | some time_type => pure (some (.DATE, .Date time_type))
    | none =>
      emit (.logInternal WARNING
        ("could not parse date log rotation duration for logger '" ++ module_name ++
          "': invalid duration \"" ++ time_str ++ "\""))
      pure (some (.DATE, .Date .DAILY))
  else if type_str = "Size" then
    let size_str := trigger.asStringOr "100MB"
    match ← liftExcept (ParseFileSize size_str) with
    | some kilobytes => pure (some (.SIZE, .FileSize kilobytes))
    | none =>
      emit (.logInternal WARNING
        ("could not parse file log rotation size for logger '" ++ module_name ++
          "': invalid size \"" ++ size_str ++ "\""))
      pure (some (.SIZE, .FileSize 100000))
  else
    emit (.logInternal WARNING
      ("could not parse log rotation setting for logger '" ++ module_name ++
        "': invalid log rotation type '" ++ type_str ++ "'"))
    pure none

/-- The setting `BackupCount` of a rotation whose type is valid. -/
def ParseBackupCount (c : Conversions) (log_rotation : Handle) :
    Option (LogRotationType × LogRotationValue) → Load LogRotationConfig
  | none => pure {}
  | some (type, value) => do
    let BackupCount := ({} : LogRotationConfig).BackupCount
    let backup_count ← liftExcept (log_rotation.get "BackupCount")
    let BackupCount ← liftExcept (scalarOr backup_count (·.asIntOr c BackupCount) BackupCount)
    pure { type := type, Value := value, BackupCount := BackupCount }

/-- The setting `LogRotation` of a logger. -/
def ParseRotation (c : Conversions) (module_name : String) (logger : Handle) :
    Load LogRotationConfig := do
  let log_rotation ← liftExcept (logger.get "LogRotation")
  if log_rotation.isDefined then
    let type ← liftExcept (log_rotation.get "Type")
    let trigger ← liftExcept (log_rotation.get "Trigger")
    if type.isDefined && trigger.isDefined then
      let type_str ← liftExcept type.asString
      let parsed ← ParseTrigger module_name type_str trigger
      ParseBackupCount c log_rotation parsed
    else
      emit (.logInternal WARNING
        ("could not parse log rotation setting for logger '" ++ module_name ++
          "': log rotation not completely specified"))
      pure {}
  else pure {}

/-- The flags of a logger whose levels and rotation have been read, and the end of the round. -/
def ParseFlags (c : Conversions) (module_name : String) (logger : Handle) (Level : LogLevel)
    (Rotation : LogRotationConfig) : Load Unit := do
  let console_print ← liftExcept (logger.get "PrintToConsole")
  let PrintToConsole ← liftExcept (scalarOr console_print (·.asBoolOr c false) false)
  let append_logs ← liftExcept (logger.get "Append")
  let Append ← liftExcept (scalarOr append_logs (·.asBoolOr c true) true)
  emit (.addLoggerConfig module_name ⟨Level, PrintToConsole, Append, Rotation⟩)

/-- One round of the loop over the loggers. -/
def ParseLogger (c : Conversions) (entry : Handle × Handle) : Load Unit := do
  let module_name := entry.1.asStringOr ""
  if module_name = "" ∨ module_name = "log-core" then
    emit (.logInternal ERROR "could not parse logger config: invalid logger name")
  else do
    let Level ← ParseLevels module_name entry.2
    let Rotation ← ParseRotation c module_name entry.2
    ParseFlags c module_name entry.2 Level Rotation

/-- One round of the loop over the levels. -/
def ParseLevel (c : Conversions) (entry : Handle × Handle) : Load Unit := do
  let (ok, level) ← ParseLogLevel entry.1 0 "could not parse log level setting"
  if ok then do
    let console_print_opt ← liftExcept (entry.2.get "PrintToConsole")
    let PrintToConsole ← liftExcept (scalarOr console_print_opt (·.asBoolOr c false) false)
    emit (.emplaceLevelConfig level ⟨PrintToConsole⟩)
  else pure ()

/-- The setting `LogTimeFormat`. -/
def ParseTimeFormat (logtime_format : Handle) (config : GlobalConfig) : Load GlobalConfig := do
  match ← liftExcept (scalarOr logtime_format
      (fun h => some (h.asStringOr config.LogTimeFormat)) none) with
  | some time_format =>
    if ← liftExcept (ValidateTimeFormat time_format.toList) then
      emit (.setGlobalConfig { config with LogTimeFormat := time_format })
      pure { config with LogTimeFormat := time_format }
    else
      emit (.logInternal WARNING
        ("could not parse log time format: '" ++ time_format ++
          "' is not a valid time format string"))
      pure config
  | none => pure config

/-- `LogsRootFolder` with a `/` at its end; `back()` needs a string that is not empty. -/
def endWithSlash (folder : String) : Except Fault String :=
  match folder.toList.getLast? with
  | none => .error .emptyBack
  | some c => .ok (if c ≠ '/' then folder.push '/' else folder)

/-- The global settings behind the time format. -/
def ParseGlobalScalars (c : Conversions) (root : Handle) (config : GlobalConfig) : Load Unit := do
  let enable_colors ← liftExcept (root.getOrInsert "EnableColors")
  let EnableColors ← liftExcept
    (scalarOr enable_colors (·.asBoolOr c config.EnableColors) config.EnableColors)
  emit (.setGlobalConfig { config with EnableColors := EnableColors })
  let disable_debug ← liftExcept (root.getOrInsert "DisableDebugInfo")
  let DisableDebugInfo ← liftExcept
    (scalarOr disable_debug (·.asBoolOr c config.DisableDebugInfo) config.DisableDebugInfo)
  let config := { config with EnableColors := EnableColors, DisableDebugInfo := DisableDebugInfo }
  emit (.setGlobalConfig config)
  let root_folder ← liftExcept (root.getOrInsert "LogsRootFolder")
  let LogsRootFolder ← liftExcept
    (scalarOr root_folder (·.asStringOr config.LogsRootFolder) config.LogsRootFolder)
  emit (.setGlobalConfig { config with LogsRootFolder := LogsRootFolder })
  let LogsRootFolder ← liftExcept (endWithSlash LogsRootFolder)
  emit (.setGlobalConfig { config with LogsRootFolder := LogsRootFolder })

/-- The global settings. -/
def ParseGlobal (c : Conversions) (root : Handle) : Load Unit := do
  emit (.setGlobalConfig {})
  let logtime_format ← liftExcept (root.getOrInsert "LogTimeFormat")
  let config ← ParseTimeFormat logtime_format {}
  ParseGlobalScalars c root config

/-- `ParseConfigFile` behind the lock. -/
def ParseDocument (c : Conversions) (root : Handle) : Load Unit := do
  emit .clearLoggerConfigs
  emit (.addLoggerConfig "log-core" GetInternalLogConfig)
  let loggers ← liftExcept (root.getOrInsert "Logger")
  each (ParseLogger c) loggers.pairs
  emit .clearLevelConfigs
  let levels ← liftExcept (root.getOrInsert "LogLevel")
  each (ParseLevel c) levels.pairs
  ParseGlobal c root

end SampLogCore.Config.Document
