import SampLogCore.Lib.Locking
import SampLogCore.Config.Document
import Mathlib.Data.List.Infix
import Mathlib.Logic.Function.Basic

/-!
# The library as a whole

The singletons, the loggers and what connects them. A singleton is created by the first `Get`, so
every access to one may create it; constructors and destructors access others in turn. All this is
the work of one thread at a time, which holds some mutexes on its way: `Code` is the type of
such a computation.

Loggers are objects with an identity. `LogConfig` keeps the configurations by name, and by name also
the logger to call back; `emplace` keeps what a map already has for a name. The files that the code
writes are left out.
-/

namespace SampLogCore.Lifecycle.Library

open SampLogCore.Levels SampLogCore.Lib.Emitting SampLogCore.Lib.Locking SampLogCore.Config.Yaml
  SampLogCore.Config.Settings SampLogCore.Config.Document

inductive Mutex
  | configLock
  | rotationEntriesLock
  | queueMtx
  deriving DecidableEq

abbrev LoggerId := ℕ

structure Logger where
  moduleName : String
  logFilePath : String
  config : LoggerConfig

/-- The action that `Logger::Log` queues. -/
structure QueuedMessage where
  logger : LoggerId
  level : LogLevel
  msg : String

/-- The part of `LogConfig` that a document describes. -/
structure Stores where
  loggerConfigs : String → Option LoggerConfig := fun _ => none
  levelConfigs : LogLevel → Option LogLevelConfig := fun _ => none
  globalConfig : GlobalConfig := {}

structure LogConfig where
  stores : Stores := {}
  loggerConfigEvents : String → Option LoggerId := fun _ => none
  /-- the watcher thread is running -/
  fileWatcher : Bool := false

structure LogManager where
  queue : List QueuedMessage
  internalLogger : LoggerId

/-- The state of the library. A singleton without an instance is `none`, or `false` where nothing of
the instance matters. -/
structure World where
  logConfig : Option LogConfig := none
  logManager : Option LogManager := none
  /-- `_rotationEntries` of `LogRotationManager` -/
  logRotationManager : Option (String → Option LogRotationConfig) := none
  sampConfigReader : Bool := false
  amxDebugManager : Bool := false
  refCounter : UInt32 := 0
  /-- the `Api` objects that have been handed out and not been destroyed -/
  handles : ℕ := 0
  loggers : LoggerId → Option Logger := fun _ => none
  nextLogger : LoggerId := 0

/-- A computation of the library. -/
abbrev Code := Thread Mutex Fault World

/-- `std::map::emplace`: what the map has stays. -/
def emplace {κ α : Type} [DecidableEq κ] (map : κ → Option α) (key : κ) (a : α) : κ → Option α :=
  match map key with
  | some _ => map
  | none => Function.update map key (some a)

theorem emplace_self {κ α : Type} [DecidableEq κ] (map : κ → Option α) (key : κ) (a : α) :
    emplace map key a key = some ((map key).getD a) := by
  cases h : map key <;> simp [emplace, h]

theorem emplace_of_ne {κ α : Type} [DecidableEq κ] (map : κ → Option α) {key k : κ} (a : α)
    (h : k ≠ key) : emplace map key a k = map k := by
  cases hm : map key <;> simp [emplace, hm, Function.update_of_ne h]

/-! ### `LogConfig` and `LogRotationManager` -/

/-- `LogConfig::Get`. -/
def LogConfig.Get : Code LogConfig := do
  let w ← getState
  match w.logConfig with
  | some c => pure c
  | none =>
    change fun w => { w with logConfig := some {} }
    pure {}

/-- A change of the instance of `LogConfig`. -/
def LogConfig.modify (f : LogConfig → LogConfig) : Code Unit :=
  change fun w => { w with logConfig := w.logConfig.map f }

/-- `LogConfig::GetGlobalConfig`. -/
def GetGlobalConfig : Code GlobalConfig := do
  let _ ← LogConfig.Get
  withLock .configLock do
    let c ← LogConfig.Get
    pure c.stores.globalConfig

/-- `LogConfig::GetLogLevelConfig`: the subscript of a `std::map` inserts a missing key. -/
def GetLogLevelConfig (level : LogLevel) : Code LogLevelConfig := do
  let _ ← LogConfig.Get
  withLock .configLock do
    LogConfig.modify fun c => { c with
      stores := { c.stores with levelConfigs := emplace c.stores.levelConfigs level {} } }
    let c ← LogConfig.Get
    pure ((c.stores.levelConfigs level).getD {})

/-- `LogRotationManager::Get`. -/
def LogRotationManager.Get : Code Unit :=
  change fun w => { w with logRotationManager := some (w.logRotationManager.getD fun _ => none) }

/-- `LogRotationManager::RegisterLogFile`. -/
def RegisterLogFile (file_path : String) (config : LogRotationConfig) : Code Unit := do
  LogRotationManager.Get
  withLock .rotationEntriesLock (change fun w => { w with
    logRotationManager := w.logRotationManager.map fun entries =>
      Function.update entries file_path (if config.type ≠ .NONE then some config else none) })

/-- `LogRotationManager::UnregisterLogFile`. -/
def UnregisterLogFile (file_path : String) : Code Unit := do
  LogRotationManager.Get
  withLock .rotationEntriesLock (change fun w => { w with
    logRotationManager := w.logRotationManager.map fun entries =>
      Function.update entries file_path none })

/-! ### Loggers -/

/-- `Logger::OnConfigUpdate`, called back on a logger. -/
def OnConfigUpdate (logger : LoggerId) (config : LoggerConfig) : Code Unit := do
  let w ← getState
  match w.loggers logger with
  | none => raise .dangling
  | some l =>
    change fun w => { w with
      loggers := Function.update w.loggers logger (some { l with config := config }) }
    RegisterLogFile l.logFilePath config.Rotation

/-- The callback of a name, on a configuration that may be there. -/
def callBack (callback : Option LoggerId) (config : Option LoggerConfig) : Code Unit :=
  match callback, config with
  | some logger, some config => OnConfigUpdate logger config
  | _, _ => pure ()

/-- `LogConfig::AddLoggerConfig`. -/
def AddLoggerConfig (module_name : String) (config : LoggerConfig) : Code Unit := do
  LogConfig.modify fun c => { c with
    stores := { c.stores with loggerConfigs := emplace c.stores.loggerConfigs module_name config } }
  let c ← LogConfig.Get
  callBack (c.loggerConfigEvents module_name) (c.stores.loggerConfigs module_name)

/-- `LogConfig::SubscribeLogger`. -/
def SubscribeLogger (logger : LoggerId) (module_name : String) : Code Unit := do
  let _ ← LogConfig.Get
  LogConfig.modify fun c =>
    { c with loggerConfigEvents := emplace c.loggerConfigEvents module_name logger }
  withLock .configLock do
    let c ← LogConfig.Get
    callBack (c.loggerConfigEvents module_name) (c.stores.loggerConfigs module_name)

/-- `LogConfig::UnsubscribeLogger`. -/
def UnsubscribeLogger (module_name : String) : Code Unit := do
  let _ ← LogConfig.Get
  LogConfig.modify fun c =>
    { c with loggerConfigEvents := Function.update c.loggerConfigEvents module_name none }

/-- `Logger::Logger`. -/
def Logger.new (module_name : String) : Code LoggerId := do
  let global ← GetGlobalConfig
  let w ← getState
  let logger := w.nextLogger
  change fun w => { w with
    loggers := Function.update w.loggers logger
      (some ⟨module_name, global.LogsRootFolder ++ module_name ++ ".log", {}⟩)
    nextLogger := logger + 1 }
  SubscribeLogger logger module_name
  pure logger

/-- `Logger::~Logger`, of a logger without pending messages. -/
def Logger.delete (logger : LoggerId) : Code Unit := do
  let w ← getState
  match w.loggers logger with
  | none => raise .dangling
  | some l =>
    UnsubscribeLogger l.moduleName
    UnregisterLogFile l.logFilePath
    change fun w => { w with loggers := Function.update w.loggers logger none }

/-! ### `LogManager` -/

/-- `LogManager::Get`: the constructor creates the internal logger. -/
def LogManager.Get : Code LogManager := do
  let w ← getState
  match w.logManager with
  | some m => pure m
  | none =>
    let logger ← Logger.new "log-core"
    change fun w => { w with logManager := some ⟨[], logger⟩ }
    pure ⟨[], logger⟩

/-- `LogManager::Queue`. -/
def Queue (message : QueuedMessage) : Code Unit :=
  withLock .queueMtx (change fun w => { w with
    logManager := w.logManager.map fun m => { m with queue := m.queue ++ [message] } })

/-- `Logger::Log`. -/
def Log (logger : LoggerId) (level : LogLevel) (msg : String) : Code Bool := do
  let w ← getState
  match w.loggers logger with
  | none => raise .dangling
  | some l =>
    if IsLogLevel l.config.Level level then
      let _ ← LogManager.Get
      Queue ⟨logger, level, msg⟩
      pure true
    else pure false

/-- `LogManager::Get()->LogInternal(level, msg)`. -/
def LogInternal (level : LogLevel) (msg : String) : Code Unit := do
  let m ← LogManager.Get
  let _ ← Log m.internalLogger level msg
  pure ()

/-- The action of a message, as the worker runs it. -/
def runMessage (message : QueuedMessage) : Code Unit := do
  let w ← getState
  match w.loggers message.logger with
  | none => raise .dangling
  | some l =>
    let _ ← GetGlobalConfig
    if message.level = WARNING ∨ message.level = ERROR ∨ message.level = FATAL then
      let _ ← GetGlobalConfig
    let level_config ← GetLogLevelConfig message.level
    if l.config.PrintToConsole ∨ level_config.PrintToConsole then
      let _ ← GetGlobalConfig

/-- The actions of the messages that are left, in order. -/
def drain : List QueuedMessage → Code Unit
  | [] => pure ()
  | message :: messages => do
    runMessage message
    drain messages

/-- `LogManager::Destroy`: the worker empties the queue before it is joined, then the members go. -/
def LogManager.Destroy : Code Unit := do
  let w ← getState
  match w.logManager with
  | none => pure ()
  | some m =>
    drain m.queue
    Logger.delete m.internalLogger
    change fun w => { w with logManager := none }

/-! ### Loading the configuration -/

/-- What `YAML::LoadFile` does with the file: it throws one of two exceptions, or gives a
document. -/
inductive Source
  | parserException (what : String)
  | badFile
  | document (root : Node)

/-- An action of the loader on the stores. -/
def Stores.apply (s : Stores) : Action → Stores
  | .logInternal _ _ => s
  | .clearLoggerConfigs => { s with loggerConfigs := fun _ => none }
  | .addLoggerConfig name config => { s with loggerConfigs := emplace s.loggerConfigs name config }
  | .clearLevelConfigs => { s with levelConfigs := fun _ => none }
  | .emplaceLevelConfig level config =>
    { s with levelConfigs := emplace s.levelConfigs level config }
  | .setGlobalConfig config => { s with globalConfig := config }

/-- An action of the loader. -/
def runAction : Action → Code Unit
  | .logInternal level msg => LogInternal level msg
  | .addLoggerConfig name config => AddLoggerConfig name config
  | action => LogConfig.modify fun c => { c with stores := c.stores.apply action }

/-- The actions of the loader. -/
def runActions : List Action → Code Unit
  | [] => pure ()
  | action :: actions => do
    runAction action
    runActions actions

/-- `LogConfig::ParseConfigFile`. -/
def ParseConfigFile (c : Conversions) : Source → Code Unit
  | .parserException what => LogInternal ERROR ("could not parse log config file: " ++ what)
  | .badFile => pure ()
  | .document root => withLock .configLock do
    runActions (ParseDocument c (.node root)).events
    match (ParseDocument c (.node root)).result with
    | .ok _ => pure ()
    | .error e => raise e

/-- `LogConfig::Initialize`. -/
def Initialize (c : Conversions) (source : Source) : Code Unit := do
  ParseConfigFile c source
  LogConfig.modify fun c => { c with fileWatcher := true }

/-- The callback of the file watcher. -/
def onFileChange (c : Conversions) (source : Source) : Code Unit := do
  LogInternal INFO "config file change detected, reloading..."
  ParseConfigFile c source
  LogInternal INFO "reloading finished"

/-! ### The interface -/

/-- The end of `samplog_GetApi`: an `Api` is handed out for a known version. -/
def handOut (version : ℤ) : Code Bool :=
  if version = 1 then do
    change fun w => { w with refCounter := w.refCounter + 1, handles := w.handles + 1 }
    pure true
  else do
    LogInternal ERROR ("unknown api version '" ++ toString version ++ "'")
    pure false

/-- `samplog_GetApi`: whether it hands out an `Api`. -/
def samplog_GetApi (c : Conversions) (version : ℤ) (source : Source) : Code Bool := do
  let w ← getState
  if w.refCounter = 0 then
    let _ ← LogConfig.Get
    Initialize c source
    let _ ← LogManager.Get
    handOut version
  else handOut version

/-- The four destructions at the end of `samplog_DestroyApi`. -/
def teardown : Code Unit := do
  change fun w =>
    { w with logRotationManager := none, sampConfigReader := false, logConfig := none }
  LogManager.Destroy

/-- `samplog_DestroyApi`. -/
def samplog_DestroyApi : Code Unit := do
  change fun w => { w with refCounter := w.refCounter - 1, handles := w.handles - 1 }
  let w ← getState
  if w.refCounter = 0 then teardown

/-- `Api::CreateLogger`. -/
def CreateLogger (module : String) : Code Unit :=
  if "log-core".toList <:+: module.toList then pure ()
  else do
    let _ ← Logger.new module

/-- `AmxDebugManager::Get`: the constructor reads the gamemodes unless debug info is disabled. -/
def AmxDebugManager.Get : Code Unit := do
  let w ← getState
  if w.amxDebugManager then pure ()
  else
    let global ← GetGlobalConfig
    change fun w => { w with
      sampConfigReader := w.sampConfigReader || !global.DisableDebugInfo
      amxDebugManager := true }

end SampLogCore.Lifecycle.Library
