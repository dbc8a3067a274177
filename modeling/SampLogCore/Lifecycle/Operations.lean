import SampLogCore.Lifecycle.Loading

/-!
# The other operations on the library

The destruction of a logger, the work on a message, the end of the library and the calls of the
interface: what each of them does in a well-formed library. The end of the library destroys four
instances, but the internal logger of `LogManager` is the last to go, and its destructor asks for
two of them again (`run_teardown`).
-/

namespace SampLogCore.Lifecycle.Operations

open SampLogCore.Levels SampLogCore.Lib.Locking SampLogCore.Config.Yaml SampLogCore.Config.Settings
  SampLogCore.Lifecycle.Library SampLogCore.Lifecycle.Effects SampLogCore.Lifecycle.WellFormed
  SampLogCore.Lifecycle.Loading

variable {w : World} {held : List Mutex} (c : Conversions)

/-! ### The destruction of a logger -/

/-- After `UnsubscribeLogger`. -/
def unsubscribed (w : World) (name : String) : World :=
  { w with logConfig := some { config w with
      loggerConfigEvents := Function.update (events w) name none } }

theorem run_unsubscribeLogger (w : World) (name : String) :
    UnsubscribeLogger name held w = .ok () (unsubscribed w name) := by
  rw [UnsubscribeLogger, run_bind_ok (run_logConfigGet w)]
  rfl

/-- After `UnregisterLogFile`. -/
def unregistered (w : World) (path : String) : World :=
  { w with logRotationManager := some (Function.update (entries w) path none) }

theorem run_unregisterLogFile (w : World) (path : String) (h : Mutex.rotationEntriesLock ∉ held) :
    UnregisterLogFile path held w = .ok () (unregistered w path) := by
  rw [UnregisterLogFile, LogRotationManager.Get, run_change_bind, run_withLock h]
  rfl

/-- After `Logger::~Logger` of the logger `l`. -/
def deleted (w : World) (i : LoggerId) (l : Logger) : World :=
  { unregistered (unsubscribed w l.moduleName) l.logFilePath with
    loggers := Function.update w.loggers i none }

theorem run_delete {i : LoggerId} {l : Logger} (hl : w.loggers i = some l)
    (h : Mutex.rotationEntriesLock ∉ held) :
    Logger.delete i held w = .ok () (deleted w i l) := by
  rw [Logger.delete, run_getState_bind, hl]
  dsimp only
  rw [run_bind_ok (run_unsubscribeLogger w _), run_bind_ok (run_unregisterLogFile _ _ h)]
  rfl

theorem names_deleted (w : World) (i : LoggerId) (l : Logger) :
    names (deleted w i l) = Function.update (names w) i none := by
  funext j
  by_cases hj : j = i
  · subst hj
    simp [names, deleted]
  · simp [names, deleted, unregistered, unsubscribed, Function.update_of_ne hj]

theorem events_deleted (w : World) (i : LoggerId) (l : Logger) :
    events (deleted w i l) = Function.update (events w) l.moduleName none := rfl

/-- Nothing but the callbacks refers to the logger. -/
def Unused (w : World) (i : LoggerId) : Prop :=
  ∀ m, w.logManager = some m → m.internalLogger ≠ i ∧ ∀ q ∈ m.queue, q.logger ≠ i

theorem kept_deleted {i : LoggerId} {l : Logger} (hl : w.loggers i = some l) (hu : Unused w i) :
    Kept w (deleted w i l) := by
  refine ⟨fun h => ⟨fun j name hj => ?_, fun name j hj => ?_, fun m hm => ?_, fun m hm q hq => ?_⟩,
    fun _ => rfl, id, rfl, rfl⟩
  · rw [names_deleted] at hj
    by_cases hji : j = i
    · rw [hji, Function.update_self] at hj
      exact absurd hj (by simp)
    · rw [Function.update_of_ne hji] at hj
      exact h.fresh j name hj
  · rw [events_deleted] at hj
    by_cases hname : name = l.moduleName
    · rw [hname, Function.update_self] at hj
      exact absurd hj (by simp)
    · rw [Function.update_of_ne hname] at hj
      have hnames := h.callbacks name j hj
      -- the callback of another name is another logger
      have hji : j ≠ i := by
        rintro rfl
        simp only [names, hl, Option.map_some, Option.some.injEq] at hnames
        exact hname hnames.symm
      rw [names_deleted, Function.update_of_ne hji, hnames]
  · rw [names_deleted, Function.update_of_ne (hu m hm).1]
    exact h.internal m hm
  · rw [names_deleted, Function.update_of_ne ((hu m hm).2 q hq)]
    exact h.queued m hm q hq

/-! ### The work on a message -/

/-- After `GetLogLevelConfig`. -/
def levelRead (w : World) (level : LogLevel) : World :=
  withStores w fun s => { s with levelConfigs := emplace s.levelConfigs level {} }

theorem run_getLogLevelConfig (w : World) (level : LogLevel) (h : Mutex.configLock ∉ held) :
    GetLogLevelConfig level held w =
      .ok (((config (levelRead w level)).stores.levelConfigs level).getD {})
        (levelRead w level) := by
  rw [GetLogLevelConfig, run_bind_ok (run_logConfigGet w), run_withLock h, LogConfig.modify,
    run_change_bind, run_bind_ok (run_logConfigGet _), run_pure]
  rfl

theorem run_runMessage {q : QueuedMessage} {l : Logger} (hl : w.loggers q.logger = some l)
    (h : Mutex.configLock ∉ held) :
    runMessage q held w = .ok () (levelRead w q.level) := by
  have hget : ∀ u, GetGlobalConfig held u = .ok (config u).stores.globalConfig (withConfig u) :=
    fun u => run_getGlobalConfig u h
  have hlevel := run_getLogLevelConfig (withConfig w) q.level h
  rw [runMessage, run_getState_bind, hl]
  dsimp only
  rw [run_bind_ok (hget w)]
  split_ifs
  · rw [run_bind_ok (hget _), withConfig_withConfig, run_bind_ok hlevel]
    split_ifs
    · rw [run_bind_ok (hget _)]
      rfl
    · rfl
  · rw [run_bind_ok hlevel]
    split_ifs
    · rw [run_bind_ok (hget _)]
      rfl
    · rfl

/-- After the messages that were left. -/
def drained (w : World) (messages : List QueuedMessage) : World :=
  messages.foldl (fun w q => levelRead w q.level) w

theorem run_drain (h : Mutex.configLock ∉ held) :
    ∀ {messages : List QueuedMessage} {w : World}, (∀ q ∈ messages, names w q.logger ≠ none) →
      drain messages held w = .ok () (drained w messages)
  | [], _, _ => rfl
  | q :: messages, w, hq => by
    obtain ⟨l, hl⟩ := names_ne_none (hq q List.mem_cons_self)
    rw [drain, run_bind_ok (run_runMessage hl h)]
    exact run_drain h fun p hp => hq p (List.mem_cons_of_mem q hp)

theorem kept_drained : ∀ (messages : List QueuedMessage) (w : World), Kept w (drained w messages)
  | [], w => .refl w
  | q :: messages, w => (kept_withStores w _).trans (kept_drained messages (levelRead w q.level))

theorem drained_loggers : ∀ (messages : List QueuedMessage) (w : World),
    (drained w messages).loggers = w.loggers
  | [], _ => rfl
  | q :: messages, w => drained_loggers messages (levelRead w q.level)

/-- Draining does not look at the instance of `LogManager`. -/
theorem drained_withoutManager : ∀ (messages : List QueuedMessage) (w : World),
    { drained w messages with logManager := none } = drained { w with logManager := none } messages
  | [], _ => rfl
  | q :: messages, w => drained_withoutManager messages (levelRead w q.level)

/-! ### The end of the library -/

/-- After `LogConfig::Destroy` and the two destructions before it. -/
def emptied (w : World) : World :=
  { w with logRotationManager := none, sampConfigReader := false, logConfig := none }

theorem wf_emptied (h : Wf w) : Wf (emptied w) := by
  refine ⟨h.fresh, fun name i hi => ?_, h.internal, h.queued⟩
  exact absurd hi (by simp [events, config, emptied])

/-- Without the instance of `LogManager`, nothing else refers to its logger. -/
theorem wf_withoutManager (h : Wf w) : Wf { w with logManager := none } :=
  ⟨h.fresh, h.callbacks, fun _ hm => absurd hm (by simp), fun _ hm => absurd hm (by simp)⟩

/-- After `LogManager::Destroy`. -/
def managerDestroyed (w : World) (m : LogManager) (l : Logger) : World :=
  { deleted (drained w m.queue) m.internalLogger l with logManager := none }

theorem run_destroy {m : LogManager} {l : Logger} (hw : Wf w) (hm : w.logManager = some m)
    (hl : w.loggers m.internalLogger = some l) :
    LogManager.Destroy [] w = .ok () (managerDestroyed w m l) := by
  have hdrained : (drained w m.queue).loggers m.internalLogger = some l := by
    rw [drained_loggers, hl]
  rw [LogManager.Destroy, run_getState_bind, hm]
  dsimp only
  rw [run_bind_ok (run_drain (by simp) (hw.queued m hm)),
    run_bind_ok (run_delete hdrained (by simp))]
  rfl

theorem kept_managerDestroyed (m : LogManager) {l : Logger}
    (hl : w.loggers m.internalLogger = some l) :
    Kept { w with logManager := none } (managerDestroyed w m l) := by
  have hdrained := kept_drained m.queue { w with logManager := none }
  rw [← drained_withoutManager] at hdrained
  refine hdrained.trans (kept_deleted (l := l) ?_ fun n hn => absurd hn (by simp))
  change (drained w m.queue).loggers m.internalLogger = some l
  rw [drained_loggers, hl]

/-- **The end of the library leaves an instance of `LogConfig` and one of `LogRotationManager`.** -/
theorem run_teardown (hw : Wf w) :
    ∃ t, teardown [] w = .ok () t ∧ Wf t ∧ t.refCounter = w.refCounter ∧ t.handles = w.handles ∧
      t.logManager = none ∧ (w.logManager.isSome = true →
        t.logConfig.isSome = true ∧ t.logRotationManager.isSome = true) := by
  have hempty := wf_emptied hw
  rw [teardown, run_change_bind]
  change ∃ t, LogManager.Destroy [] (emptied w) = .ok () t ∧ _
  cases hm : w.logManager with
  | none =>
    refine ⟨emptied w, ?_, hempty, rfl, rfl, hm, by simp⟩
    rw [LogManager.Destroy, run_getState_bind, show (emptied w).logManager = none from hm]
    rfl
  | some m =>
    obtain ⟨l, hl⟩ := hempty.internalLogger (m := m) hm
    have hkept := kept_managerDestroyed m hl
    exact ⟨_, run_destroy hempty hm hl, hkept.wf (wf_withoutManager hempty), hkept.refCounter,
      hkept.handles, rfl, fun _ => ⟨rfl, rfl⟩⟩

/-! ### The calls of the interface -/

/-- After the end of `samplog_GetApi`. -/
def handedOut (version : ℤ) (w : World) : World :=
  if version = 1 then { w with refCounter := w.refCounter + 1, handles := w.handles + 1 }
  else loggedInternal w ERROR ("unknown api version '" ++ toString version ++ "'")

theorem run_handOut (hw : Wf w) (version : ℤ) :
    handOut version [] w = .ok (decide (version = 1)) (handedOut version w) := by
  unfold handOut handedOut
  split_ifs with h
  · simp [h]
  · rw [run_bind_ok (hw.run_logInternal ERROR _)]
    simp [h]

theorem wf_handedOut (hw : Wf w) (version : ℤ) : Wf (handedOut version w) := by
  unfold handedOut
  split_ifs
  · exact hw.congr rfl rfl rfl rfl
  · exact (hw.kept_loggedInternal _ _).wf hw

/-- The file watcher is running. -/
def watched (w : World) : World :=
  { w with logConfig := w.logConfig.map fun c => { c with fileWatcher := true } }

theorem kept_watched (w : World) : Kept w (watched w) := by
  refine ⟨fun h => h.congr rfl ?_ rfl rfl, fun h => ?_, id, rfl, rfl⟩
  · cases hc : w.logConfig <;> simp [events, config, watched, hc]
  · simpa [watched] using h

/-- The first `samplog_GetApi`, when it has loaded the configuration. -/
theorem run_getApi_loaded {t : World} (hr : w.refCounter = 0) (version : ℤ) {source : Source}
    (ht : ParseConfigFile c source [] (withConfig w) = .ok () t) (hwf : Wf t) :
    samplog_GetApi c version source [] w =
      .ok (decide (version = 1)) (handedOut version (managed (watched t))) := by
  have hwatched := (kept_watched t).wf hwf
  have hinit : Initialize c source [] (withConfig w) = .ok () (watched t) := by
    rw [Initialize, run_bind_ok ht]
    rfl
  obtain ⟨m, hget, -⟩ := hwatched.run_logManagerGet
  rw [samplog_GetApi, run_getState_bind, if_pos hr, run_bind_ok (run_logConfigGet w),
    run_bind_ok hinit, run_bind_ok hget]
  exact run_handOut ((kept_managed _).wf hwatched) version

/-- **The three ways in which the first `samplog_GetApi` ends.** -/
theorem getApi_cases (hw : Wf w) (hr : w.refCounter = 0) (version : ℤ) (source : Source) :
    (∃ u, samplog_GetApi c version source [] w =
        .ok (decide (version = 1)) (handedOut version u) ∧
      Kept w u ∧ u.logConfig.isSome = true ∧ u.logManager.isSome = true ∧ Loggable w source ∧
      ¬ SourceThrows source) ∨
    (∃ e t, samplog_GetApi c version source [] w = .throw e t ∧ Kept w t ∧
      t.logConfig.isSome = true ∧ Loggable w source ∧ SourceThrows source) ∨
    (samplog_GetApi c version source [] w = .stuck .configLock ∧ ¬ Loggable w source) := by
  have hconfig := kept_withConfig w
  have hcode : samplog_GetApi c version source [] w = (Initialize c source >>= fun _ =>
      LogManager.Get >>= fun _ => handOut version) [] (withConfig w) := by
    rw [samplog_GetApi, run_getState_bind, if_pos hr, run_bind_ok (run_logConfigGet w)]
  rcases parse_cases c (hconfig.wf hw) rfl source with
    ⟨t, ht, hkept, hl, hs⟩ | ⟨e, t, ht, hkept, hl, hs⟩ | ⟨ht, hl⟩
  · left
    have hwatched := (hconfig.trans hkept).trans (kept_watched t)
    refine ⟨_, run_getApi_loaded c hr version ht (hkept.wf (hconfig.wf hw)),
      hwatched.trans (kept_managed _), ?_, managed_isSome _, hl, hs⟩
    exact (kept_managed _).logConfig ((kept_watched t).logConfig (hkept.logConfig rfl))
  · right; left
    have hinit : Initialize c source [] (withConfig w) = .throw e t := by
      rw [Initialize, run_bind_throw ht]
    exact ⟨e, t, hcode.trans (run_bind_throw hinit), hconfig.trans hkept, hkept.logConfig rfl, hl,
      hs⟩
  · right; right
    have hinit : Initialize c source [] (withConfig w) = .stuck .configLock := by
      rw [Initialize, run_bind_stuck ht]
    exact ⟨hcode.trans (run_bind_stuck hinit), hl⟩

/-- A later `samplog_GetApi` loads nothing. -/
theorem run_getApi_later (hw : Wf w) (hr : w.refCounter ≠ 0) (version : ℤ) (source : Source) :
    samplog_GetApi c version source [] w = .ok (decide (version = 1)) (handedOut version w) := by
  rw [samplog_GetApi, run_getState_bind, if_neg hr]
  exact run_handOut hw version

end SampLogCore.Lifecycle.Operations
