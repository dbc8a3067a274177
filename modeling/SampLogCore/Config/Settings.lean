import SampLogCore.Levels
import SampLogCore.Lib.Emitting
import SampLogCore.Lib.Number
import SampLogCore.Config.Yaml

/-!
# Settings and the parsers of their values

The settings that a document gives, with the defaults of the source, and the parsers of single
values. A parser that logs, or that may throw, is a computation that emits `Action`s: what loading a
document does to the rest of the program.
-/

namespace SampLogCore.Config.Settings

open SampLogCore.Levels SampLogCore.Lib.Emitting SampLogCore.Lib.Number SampLogCore.Config.Yaml

inductive LogRotationType
  | NONE
  | DATE
  | SIZE
  deriving DecidableEq

inductive LogRotationTimeType
  | DAILY
  | WEEKLY
  | MONTHLY
  deriving DecidableEq

/-- The union in `LogRotationConfig`, with nothing in it until it is assigned. -/
inductive LogRotationValue
  | unset
  | FileSize (kilobytes : UInt32)
  | Date (time_type : LogRotationTimeType)
  deriving DecidableEq

structure LogRotationConfig where
  type : LogRotationType := .NONE
  Value : LogRotationValue := .unset
  BackupCount : ℤ := 10
  deriving DecidableEq

/-- `Logger::Config`. -/
structure LoggerConfig where
  Level : LogLevel := ERROR ||| WARNING ||| FATAL
  PrintToConsole : Bool := false
  Append : Bool := true
  Rotation : LogRotationConfig := {}
  deriving DecidableEq

structure LogLevelConfig where
  PrintToConsole : Bool := false
  deriving DecidableEq

structure GlobalConfig where
  LogTimeFormat : String := "%x %X"
  DisableDebugInfo : Bool := false
  EnableColors : Bool := false
  LogsRootFolder : String := "logs/"
  deriving DecidableEq

/-- What loading a document does to the rest of the program. -/
inductive Action
  /-- `LogManager::Get()->LogInternal(level, msg)` -/
  | logInternal (level : LogLevel) (msg : String)
  /-- `_loggerConfigs.clear()` -/
  | clearLoggerConfigs
  /-- `AddLoggerConfig(module_name, config)` -/
  | addLoggerConfig (module_name : String) (config : LoggerConfig)
  /-- `_levelConfigs.clear()` -/
  | clearLevelConfigs
  /-- `_levelConfigs.emplace(level, config)` -/
  | emplaceLevelConfig (level : LogLevel) (config : LogLevelConfig)
  /-- an assignment to `_globalConfig`, with its new value -/
  | setGlobalConfig (config : GlobalConfig)

/-- Code that reads a document. -/
abbrev Load := Emit Action Fault

/-- `GetInternalLogConfig`. -/
def GetInternalLogConfig : LoggerConfig := { Level := GetAllLogLevel, PrintToConsole := true }

/-- `loglevel_str_map`. -/
def loglevel_str_map (level_str : String) : Option LogLevel :=
  [("Debug", DEBUG), ("Info", INFO), ("Warning", WARNING), ("Error", ERROR), ("Fatal", FATAL),
    ("Verbose", VERBOSE), ("All", GetAllLogLevel), ("None", NONE)].lookup level_str

/-- `ParseLogLevel`: the result and `dest`. -/
def ParseLogLevel (level_node : Handle) (dest : LogLevel) (error_msg : String) :
    Load (Bool × LogLevel) := do
  let level_str := level_node.asStringOr ""
  if level_str = "" then
    emit (.logInternal WARNING (error_msg ++ ": invalid log level specified"))
    pure (false, dest)
  else
    match loglevel_str_map level_str with
    | none =>
      emit (.logInternal WARNING (error_msg ++ ": invalid log level '" ++ level_str ++ "'"))
      pure (false, dest)
    | some level => pure (true, if level ≠ NONE then dest ||| level else NONE)

/-- `ParseDuration`: the value of `dest` when it succeeds. -/
def ParseDuration (duration : String) : Option LogRotationTimeType :=
  let duration := duration.toList.map Char.toLower
  if duration = "daily".toList then some .DAILY
  else if duration = "weekly".toList then some .WEEKLY
  else if duration = "monthly".toList then some .MONTHLY
  else none

/-- `ParseFileSize`: the value of `dest_in_kb` when it succeeds. `std::stoi` throws on a number that
is no `int`. -/
def ParseFileSize (size : String) : Except Fault (Option UInt32) :=
  let digits := size.toList.takeWhile Char.isDigit
  let type := size.toList.dropWhile Char.isDigit
  if type = [] ∨ digits = [] then .ok none
  else
    let value := Nat.ofDigitChars 10 digits 0
    if (value : ℤ) > INT_MAX then .error .outOfRange
    else
      let size_val := UInt32.ofNat value
      match type with
      | [unit, b] =>
        if b.toLower ≠ 'b' then .ok none
        else if unit.toLower = 'k' then .ok (some size_val)
        else if unit.toLower = 'm' then .ok (some (size_val * 1000))
        else if unit.toLower = 'g' then .ok (some (size_val * 1000 * 1000))
        else .ok none
      | _ => .ok none

/-- The conversion letters of `ValidateTimeFormat`. -/
def timeConversions : List Char :=
  ['a', 'A', 'b', 'B', 'c', 'C', 'd', 'D', 'e', 'F', 'g', 'G', 'h', 'H', 'I', 'j', 'm', 'M', 'n',
    'p', 'r', 'R', 'S', 't', 'T', 'u', 'U', 'V', 'w', 'W', 'x', 'X', 'y', 'Y', 'z', 'Z', '%']

/-- `ValidateTimeFormat`: `format.at(idx++)` throws when the format ends in a `%`. -/
def ValidateTimeFormat : List Char → Except Fault Bool
  | [] => .ok true
  | c :: cs =>
    if c ≠ '%' then ValidateTimeFormat cs
    else
      match cs with
      | [] => .error .outOfRange
      | d :: ds => if d ∈ timeConversions then ValidateTimeFormat ds else .ok false

end SampLogCore.Config.Settings
