import SampLogCore.Lifecycle.Library

/-!
# What the operations of the library do

For each operation the state it leads to, as a function of the state before it (`created`,
`calledBack`, …), and the theorem that this is what the code does when the mutexes it takes are
free. Reading `_configLock` twice is the only way to get stuck: a thread that holds it cannot create
a logger, and so not the instance of `LogManager` (`run_logManagerGet_stuck`).
-/

namespace SampLogCore.Lifecycle.Effects

open SampLogCore.Levels SampLogCore.Lib.Locking SampLogCore.Config.Yaml SampLogCore.Config.Settings
  SampLogCore.Lifecycle.Library

variable {w : World} {held : List Mutex}

/-! ### `LogConfig` -/

/-- The instance of `LogConfig` that `Get` gives. -/
def config (w : World) : LogConfig := w.logConfig.getD {}

/-- After `LogConfig::Get`. -/
def withConfig (w : World) : World := { w with logConfig := some (config w) }

theorem withConfig_of_some {c : LogConfig} (h : w.logConfig = some c) : withConfig w = w := by
  cases w
  simp_all [withConfig, config]

@[simp] theorem withConfig_withConfig (w : World) : withConfig (withConfig w) = withConfig w := rfl

theorem run_logConfigGet (w : World) : LogConfig.Get held w = .ok (config w) (withConfig w) := by
  unfold LogConfig.Get
  rw [run_getState_bind]
  cases h : w.logConfig with
  | some c => simp [config, h, withConfig_of_some h]
  | none => simp [config, withConfig, h]

theorem run_getGlobalConfig (w : World) (h : Mutex.configLock ∉ held) :
    GetGlobalConfig held w = .ok (config w).stores.globalConfig (withConfig w) := by
  rw [GetGlobalConfig, run_bind_ok (run_logConfigGet w), run_withLock h,
    run_bind_ok (run_logConfigGet _)]
  rfl

/-- **A thread that holds `_configLock` must not ask for the global configuration.** -/
theorem run_getGlobalConfig_stuck (w : World) (h : Mutex.configLock ∈ held) :
    GetGlobalConfig held w = .stuck .configLock := by
  rw [GetGlobalConfig, run_bind_ok (run_logConfigGet w), run_withLock_held h]

/-! ### Callbacks -/

/-- The entries of `LogRotationManager` that `Get` gives. -/
def entries (w : World) : String → Option LogRotationConfig :=
  w.logRotationManager.getD fun _ => none

/-- After `OnConfigUpdate` of the logger `l`. -/
def updated (w : World) (i : LoggerId) (l : Logger) (cfg : LoggerConfig) : World :=
  { w with
    loggers := Function.update w.loggers i (some { l with config := cfg })
    logRotationManager := some (Function.update (entries w) l.logFilePath
      (if cfg.Rotation.type ≠ .NONE then some cfg.Rotation else none)) }

/-- After a callback. -/
def calledBack (w : World) (callback : Option LoggerId) (cfg : Option LoggerConfig) : World :=
  match callback, cfg with
  | some i, some cfg =>
    match w.loggers i with
    | some l => updated w i l cfg
    | none => w
  | _, _ => w

theorem run_onConfigUpdate {i : LoggerId} {l : Logger} (cfg : LoggerConfig)
    (hl : w.loggers i = some l) (h : Mutex.rotationEntriesLock ∉ held) :
    OnConfigUpdate i cfg held w = .ok () (updated w i l cfg) := by
  rw [OnConfigUpdate, run_getState_bind, hl]
  dsimp only
  rw [run_change_bind, RegisterLogFile, LogRotationManager.Get, run_change_bind, run_withLock h,
    run_change]
  rfl

/-- A callback finds its logger. -/
def Callable (w : World) (callback : Option LoggerId) : Prop :=
  ∀ i, callback = some i → (w.loggers i).isSome = true

theorem run_callBack {callback : Option LoggerId} (cfg : Option LoggerConfig)
    (hl : Callable w callback) (h : Mutex.rotationEntriesLock ∉ held) :
    callBack callback cfg held w = .ok () (calledBack w callback cfg) := by
  cases callback with
  | none => rfl
  | some i =>
    cases cfg with
    | none => rfl
    | some cfg =>
      obtain ⟨l, hi⟩ := Option.isSome_iff_exists.mp (hl i rfl)
      rw [callBack, run_onConfigUpdate cfg hi h]
      simp [calledBack, hi]

section

variable (w) (callback : Option LoggerId) (cfg : Option LoggerConfig)

/-- A callback changes the configuration of its logger, and nothing else of any logger. -/
theorem calledBack_loggers (i : LoggerId) :
    (calledBack w callback cfg).loggers i = (w.loggers i).map fun l =>
      if callback = some i then { l with config := cfg.getD l.config } else l := by
  unfold calledBack
  split
  · rename_i j cfg
    split
    · rename_i l hl
      by_cases hij : j = i
      · subst hij
        simp [updated, hl]
      · have hji : i ≠ j := fun h => hij h.symm
        simp [updated, Function.update_of_ne hji, hij]
    · rename_i hl
      by_cases hij : j = i
      · subst hij
        simp [hl]
      · simp [hij]
  · rename_i hnone
    cases hi : w.loggers i with
    | none => rfl
    | some l =>
      cases callback with
      | none => simp
      | some j =>
        cases cfg with
        | none => simp
        | some cfg => exact absurd rfl (hnone j cfg rfl)

/-- A callback changes the loggers and the entries of the rotation. -/
theorem calledBack_eq : calledBack w callback cfg = { w with
    loggers := (calledBack w callback cfg).loggers
    logRotationManager := (calledBack w callback cfg).logRotationManager } := by
  unfold calledBack
  split
  · split <;> rfl
  · rfl

@[simp] theorem calledBack_logConfig : (calledBack w callback cfg).logConfig = w.logConfig := by
  rw [calledBack_eq]

@[simp] theorem calledBack_logManager : (calledBack w callback cfg).logManager = w.logManager := by
  rw [calledBack_eq]

@[simp] theorem calledBack_nextLogger : (calledBack w callback cfg).nextLogger = w.nextLogger := by
  rw [calledBack_eq]

@[simp] theorem calledBack_refCounter : (calledBack w callback cfg).refCounter = w.refCounter := by
  rw [calledBack_eq]

@[simp] theorem calledBack_handles : (calledBack w callback cfg).handles = w.handles := by
  rw [calledBack_eq]

end

/-! ### Configurations and loggers -/

/-- After `AddLoggerConfig`. -/
def added (w : World) (name : String) (cfg : LoggerConfig) : World :=
  let c := { config w with stores := (config w).stores.apply (.addLoggerConfig name cfg) }
  calledBack { w with logConfig := some c } (c.loggerConfigEvents name)
    (c.stores.loggerConfigs name)

theorem run_addLoggerConfig (name : String) (cfg : LoggerConfig) (hc : w.logConfig.isSome = true)
    (hl : Callable w ((config w).loggerConfigEvents name))
    (h : Mutex.rotationEntriesLock ∉ held) :
    AddLoggerConfig name cfg held w = .ok () (added w name cfg) := by
  obtain ⟨c, hc⟩ := Option.isSome_iff_exists.mp hc
  rw [AddLoggerConfig, LogConfig.modify, run_change_bind, run_bind_ok (run_logConfigGet _)]
  simp only [config, hc, Option.map_some, Option.getD_some, withConfig] at hl ⊢
  rw [run_callBack _ (by exact hl) h]
  simp [added, config, hc, Stores.apply]

/-- After `SubscribeLogger`. -/
def subscribed (w : World) (i : LoggerId) (name : String) : World :=
  let c := { config w with loggerConfigEvents := emplace (config w).loggerConfigEvents name i }
  calledBack { w with logConfig := some c } (c.loggerConfigEvents name)
    (c.stores.loggerConfigs name)

theorem run_subscribeLogger (i : LoggerId) (name : String)
    (hl : Callable w (emplace (config w).loggerConfigEvents name i name))
    (h : Mutex.configLock ∉ held) (h' : Mutex.rotationEntriesLock ∉ held) :
    SubscribeLogger i name held w = .ok () (subscribed w i name) := by
  rw [SubscribeLogger, run_bind_ok (run_logConfigGet w), LogConfig.modify, run_change_bind,
    run_withLock h, run_bind_ok (run_logConfigGet _)]
  simp only [config, withConfig, Option.map_some, Option.getD_some] at hl ⊢
  rw [run_callBack _ (by exact hl) (by simp [h'])]
  rfl

/-- The logger that `Logger::Logger` builds, before it is subscribed. -/
def newLogger (w : World) (name : String) : Logger :=
  ⟨name, (config w).stores.globalConfig.LogsRootFolder ++ name ++ ".log", {}⟩

/-- After `Logger::Logger` has built the logger. -/
def withLogger (w : World) (name : String) : World :=
  { withConfig w with
    loggers := Function.update w.loggers w.nextLogger (some (newLogger w name))
    nextLogger := w.nextLogger + 1 }

/-- After `Logger::Logger`. -/
def created (w : World) (name : String) : World := subscribed (withLogger w name) w.nextLogger name

/-- The logger that a subscription calls back is there: the old one of the name, or the new one. -/
theorem callable_emplace {name : String}
    (hl : Callable w ((config w).loggerConfigEvents name)) :
    Callable (withLogger w name)
      (emplace (config w).loggerConfigEvents name w.nextLogger name) := by
  intro i hi
  rw [emplace_self, Option.some.injEq] at hi
  by_cases hnew : i = w.nextLogger
  · simp [withLogger, hnew]
  · cases he : (config w).loggerConfigEvents name with
    | none => exact absurd (by simpa [he] using hi.symm) hnew
    | some j =>
      obtain rfl : j = i := by simpa [he] using hi
      simpa [withLogger, Function.update_of_ne hnew] using hl j he

theorem run_loggerNew (name : String)
    (hl : Callable w ((config w).loggerConfigEvents name))
    (h : Mutex.configLock ∉ held) (h' : Mutex.rotationEntriesLock ∉ held) :
    Logger.new name held w = .ok w.nextLogger (created w name) := by
  rw [Logger.new, run_bind_ok (run_getGlobalConfig w h), run_getState_bind, run_change_bind]
  exact run_bind_ok (run_subscribeLogger w.nextLogger name (callable_emplace hl) h h')

/-! ### `LogManager` -/

/-- After `LogManager::Get`. -/
def managed (w : World) : World :=
  match w.logManager with
  | some _ => w
  | none => { created w "log-core" with logManager := some ⟨[], w.nextLogger⟩ }

theorem run_logManagerGet {m : LogManager} (h : w.logManager = some m) :
    LogManager.Get held w = .ok m w := by
  rw [LogManager.Get, run_getState_bind, h]
  rfl

theorem run_logManagerGet_none (hm : w.logManager = none)
    (hl : Callable w ((config w).loggerConfigEvents "log-core"))
    (h : Mutex.configLock ∉ held) (h' : Mutex.rotationEntriesLock ∉ held) :
    LogManager.Get held w = .ok ⟨[], w.nextLogger⟩ (managed w) := by
  rw [LogManager.Get, run_getState_bind, hm]
  dsimp only
  rw [run_bind_ok (run_loggerNew "log-core" hl h h'), run_change_bind]
  simp [managed, hm]

/-- **A thread that holds `_configLock` cannot create the instance of `LogManager`.** -/
theorem run_logManagerGet_stuck (hm : w.logManager = none) (h : Mutex.configLock ∈ held) :
    LogManager.Get held w = .stuck .configLock := by
  rw [LogManager.Get, run_getState_bind, hm]
  dsimp only
  rw [run_bind_stuck]
  rw [Logger.new, run_bind_stuck (run_getGlobalConfig_stuck w h)]

theorem managed_of_some {m : LogManager} (hm : w.logManager = some m) : managed w = w := by
  simp [managed, hm]

theorem managed_isSome (w : World) : (managed w).logManager.isSome = true := by
  unfold managed
  split
  · rename_i m hm
    simp [hm]
  · rfl

@[simp] theorem managed_managed (w : World) : managed (managed w) = managed w := by
  obtain ⟨m, hm⟩ := Option.isSome_iff_exists.mp (managed_isSome w)
  exact managed_of_some hm

/-- After `Queue`. -/
def enqueue (w : World) (q : QueuedMessage) : World :=
  { w with logManager := w.logManager.map fun m => { m with queue := m.queue ++ [q] } }

theorem run_queue (q : QueuedMessage) (h : Mutex.queueMtx ∉ held) :
    Queue q held w = .ok () (enqueue w q) := by
  rw [Queue, run_withLock h]
  rfl

/-- After `Log`. -/
def logged (w : World) (i : LoggerId) (level : LogLevel) (msg : String) : World :=
  match w.loggers i with
  | some l =>
    if IsLogLevel l.config.Level level then enqueue (managed w) ⟨i, level, msg⟩ else w
  | none => w

theorem run_log {i : LoggerId} {l : Logger} {m : LogManager} (level : LogLevel) (msg : String)
    (hl : w.loggers i = some l) (hm : LogManager.Get held w = .ok m (managed w))
    (h : Mutex.queueMtx ∉ held) :
    Log i level msg held w = .ok (IsLogLevel l.config.Level level) (logged w i level msg) := by
  rw [Log, run_getState_bind, hl]
  dsimp only
  split_ifs with hlevel
  · rw [run_bind_ok hm, run_bind_ok (run_queue _ h), run_pure]
    simp [logged, hl, hlevel]
  · simp [logged, hl, hlevel]

/-- After `LogInternal`. -/
def loggedInternal (w : World) (level : LogLevel) (msg : String) : World :=
  match (managed w).logManager with
  | some m => logged (managed w) m.internalLogger level msg
  | none => managed w

theorem run_logInternal {m : LogManager} {l : Logger} (level : LogLevel) (msg : String)
    (hget : LogManager.Get held w = .ok m (managed w)) (hm : (managed w).logManager = some m)
    (hl : (managed w).loggers m.internalLogger = some l) (h : Mutex.queueMtx ∉ held) :
    LogInternal level msg held w = .ok () (loggedInternal w level msg) := by
  have hlog := run_log level msg hl
    ((run_logManagerGet hm).trans (by rw [managed_managed])) h
  rw [LogInternal, run_bind_ok hget, run_bind_ok hlog]
  simp [loggedInternal, hm]

/-- **Nor can it log.** -/
theorem run_logInternal_stuck (level : LogLevel) (msg : String) (hm : w.logManager = none)
    (h : Mutex.configLock ∈ held) : LogInternal level msg held w = .stuck .configLock := by
  rw [LogInternal, run_bind_stuck (run_logManagerGet_stuck hm h)]

end SampLogCore.Lifecycle.Effects
