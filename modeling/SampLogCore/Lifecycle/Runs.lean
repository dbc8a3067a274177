import SampLogCore.Lib.Transition
import SampLogCore.Lifecycle.Operations

/-!
# The life of the library

A labelled transition system whose steps are the calls of plugins, the messages that the worker runs
and the reloads of the file watcher, each from its beginning to its end. A plugin calls through an
`Api` that it has not destroyed and destroys its loggers before the last `Api`; an exception that
leaves `samplog_GetApi` is the plugin's to catch, and one that leaves the thread of the watcher ends
the process. Every reachable state is well-formed (`wf_of_reachable`).
-/

namespace SampLogCore.Lifecycle.Runs

open SampLogCore.Lib.Transition SampLogCore.Levels SampLogCore.Lib.Locking SampLogCore.Config.Yaml
  SampLogCore.Config.Settings SampLogCore.Lifecycle.Library SampLogCore.Lifecycle.Effects
  SampLogCore.Lifecycle.WellFormed SampLogCore.Lifecycle.Loading SampLogCore.Lifecycle.Operations

inductive Event
  | getApi (version : ℤ) (source : Source)
  | destroyApi
  | createLogger (module : String)
  | destroyLogger (logger : LoggerId)
  | log (logger : LoggerId) (level : LogLevel) (msg : String)
  /-- `RegisterAmx`, or another call that asks for the instance of `AmxDebugManager` -/
  | useDebug
  /-- the worker takes a message out of the queue and runs it -/
  | work
  /-- the file watcher reports a change -/
  | reload (source : Source)

/-- The logger is a plugin's. -/
def PluginLogger (w : World) (i : LoggerId) : Prop :=
  (w.loggers i).isSome = true ∧ ∀ m, w.logManager = some m → m.internalLogger ≠ i

/-- No message of the logger is in the queue. -/
def NoPending (w : World) (i : LoggerId) : Prop :=
  ∀ m, w.logManager = some m → ∀ q ∈ m.queue, q.logger ≠ i

/-- What the environment can do. -/
def Allowed (w : World) : Event → Prop
  | .getApi _ _ => True
  | .destroyApi => 0 < w.handles ∧ (w.handles = 1 → ∀ i, ¬ PluginLogger w i)
  | .createLogger _ => 0 < w.handles
  | .destroyLogger i => PluginLogger w i ∧ NoPending w i
  | .log i _ _ => PluginLogger w i
  | .useDebug => 0 < w.handles
  | .work => ∃ m, w.logManager = some m ∧ m.queue ≠ []
  | .reload _ => ∃ c, w.logConfig = some c ∧ c.fileWatcher = true

/-- A round of `LogManager::Process`. -/
def processOne : Code Unit := do
  let w ← getState
  match w.logManager with
  | none => pure ()
  | some m =>
    match m.queue with
    | [] => pure ()
    | message :: messages =>
      change fun w => { w with logManager := some { m with queue := messages } }
      runMessage message

/-- What an event runs. -/
def Event.code (c : Conversions) : Event → Code Unit
  | .getApi version source => do
    let _ ← samplog_GetApi c version source
  | .destroyApi => samplog_DestroyApi
  | .createLogger module => CreateLogger module
  | .destroyLogger i => Logger.delete i
  | .log i level msg => do
    let _ ← Log i level msg
  | .useDebug => AmxDebugManager.Get
  | .work => processOne
  | .reload source => onFileChange c source

/-- An exception of the event leaves the process running. -/
def Event.Catchable : Event → Prop
  | .getApi _ _ => True
  | _ => False

/-- The life of the library, from the start of the process. -/
def lifecycle (c : Conversions) : System World Event where
  Init w := w = {}
  Step w e t := Allowed w e ∧
    (e.code c [] w = .ok () t ∨ e.Catchable ∧ ∃ fault, e.code c [] w = .throw fault t)

variable {w t : World} (c : Conversions)

theorem wf_init : Wf {} :=
  ⟨fun _ _ h => by simp [names] at h, fun _ _ h => by simp [events, config] at h,
    fun _ h => by simp at h, fun _ h => by simp at h⟩

/-! ### One step -/

theorem run_createLogger (hw : Wf w) (module : String) :
    ∃ t, CreateLogger module [] w = .ok () t ∧ Kept w t := by
  unfold CreateLogger
  split_ifs
  · exact ⟨w, rfl, .refl w⟩
  · rw [run_bind_ok (run_loggerNew module (hw.callable module) (by simp) (by simp))]
    exact ⟨_, rfl, kept_created w module⟩

theorem run_useDebug (w : World) : ∃ t, AmxDebugManager.Get [] w = .ok () t ∧ Kept w t := by
  rw [AmxDebugManager.Get, run_getState_bind]
  split_ifs
  · exact ⟨w, rfl, .refl w⟩
  · rw [run_bind_ok (run_getGlobalConfig w (by simp))]
    refine ⟨_, rfl, (kept_withConfig w).trans ⟨fun h => h.congr rfl rfl rfl rfl, id, id, rfl, rfl⟩⟩

theorem run_plugin_log (hw : Wf w) {i : LoggerId} (hi : (w.loggers i).isSome = true)
    (level : LogLevel) (msg : String) :
    ∃ b, Log i level msg [] w = .ok b (logged w i level msg) := by
  obtain ⟨l, hl⟩ := Option.isSome_iff_exists.mp hi
  obtain ⟨m, hget, -⟩ := hw.run_logManagerGet
  exact ⟨_, run_log level msg hl hget List.not_mem_nil⟩

theorem run_processOne (hw : Wf w) : ∃ t, processOne [] w = .ok () t ∧ Kept w t := by
  rw [processOne, run_getState_bind]
  cases hm : w.logManager with
  | none => exact ⟨w, rfl, .refl w⟩
  | some m =>
    dsimp only
    cases hq : m.queue with
    | nil => exact ⟨w, rfl, .refl w⟩
    | cons q messages =>
      have hpopped : Kept w { w with logManager := some { m with queue := messages } } := by
        refine ⟨fun h => ⟨h.fresh, h.callbacks, ?_, ?_⟩, id, fun _ => rfl, rfl, rfl⟩
        · intro n hn
          obtain rfl := Option.some.inj hn
          exact h.internal m hm
        · intro n hn p hp
          obtain rfl := Option.some.inj hn
          exact h.queued m hm p (by rw [hq]; exact List.mem_cons_of_mem q hp)
      obtain ⟨l, hl⟩ := names_ne_none (hw.queued m hm q (by rw [hq]; exact List.mem_cons_self))
      exact ⟨_, run_runMessage (by exact hl) List.not_mem_nil,
        hpopped.trans (kept_withStores _ _)⟩

/-- **A reload comes to an end**: it logs before it loads, so it is not stuck. -/
theorem run_reload (hw : Wf w) (hc : w.logConfig.isSome = true) (source : Source) :
    ∃ t, Kept w t ∧ (onFileChange c source [] w = .ok () t ∨
      ∃ e, onFileChange c source [] w = .throw e t) := by
  have hlogged := hw.kept_loggedInternal INFO "config file change detected, reloading..."
  have hmanager := hw.loggedInternal_isSome INFO "config file change detected, reloading..."
  have hrun := hw.run_logInternal INFO "config file change detected, reloading..."
  rw [onFileChange, run_bind_ok hrun]
  rcases parse_cases c (hlogged.wf hw) (hlogged.logConfig hc) source with
    ⟨t, ht, hkept, -, -⟩ | ⟨e, t, ht, hkept, -, -⟩ | ⟨-, hl⟩
  · have hwf := hkept.wf (hlogged.wf hw)
    rw [run_bind_ok ht, hwf.run_logInternal INFO "reloading finished"]
    exact ⟨_, (hlogged.trans hkept).trans (hwf.kept_loggedInternal _ _), .inl rfl⟩
  · exact ⟨t, hlogged.trans hkept, .inr ⟨e, run_bind_throw ht⟩⟩
  · exact absurd (.inl hmanager) hl

theorem run_destroyApi (hw : Wf w) :
    ∃ t, samplog_DestroyApi [] w = .ok () t ∧ Wf t ∧ t.refCounter = w.refCounter - 1 ∧
      t.handles = w.handles - 1 ∧
      (w.refCounter - 1 ≠ 0 → t.logConfig = w.logConfig ∧ t.logManager = w.logManager) ∧
      (w.refCounter - 1 = 0 → w.logManager.isSome = true → t.logConfig.isSome = true) := by
  have hcounted : Wf { w with refCounter := w.refCounter - 1, handles := w.handles - 1 } :=
    hw.congr rfl rfl rfl rfl
  rw [samplog_DestroyApi, run_change_bind, run_getState_bind]
  by_cases h0 : w.refCounter - 1 = 0
  · rw [if_pos h0]
    obtain ⟨t, ht, hwf, hr, hh, -, hleft⟩ := run_teardown hcounted
    exact ⟨t, ht, hwf, hr, hh, fun h => absurd h0 h, fun _ hm => (hleft hm).1⟩
  · rw [if_neg h0]
    exact ⟨_, rfl, hcounted, rfl, rfl, fun _ => ⟨rfl, rfl⟩, fun h => absurd h h0⟩

theorem kept_destroyLogger {i : LoggerId} (hi : PluginLogger w i) (hp : NoPending w i) :
    ∃ t, Logger.delete i [] w = .ok () t ∧ Kept w t := by
  obtain ⟨l, hl⟩ := Option.isSome_iff_exists.mp hi.1
  exact ⟨_, run_delete hl List.not_mem_nil, kept_deleted hl fun m hm => ⟨hi.2 m hm, hp m hm⟩⟩

/-! ### Steps and runs -/

/-- The event is a call of `samplog_GetApi` or `samplog_DestroyApi`. -/
def Event.Counts : Event → Prop
  | .getApi _ _ => True
  | .destroyApi => True
  | _ => False

/-- An event that returns leads to one state. -/
theorem eq_of_ok {e : Event} {u : World} (h : (lifecycle c).Step w e t)
    (hok : e.code c [] w = .ok () u) : t = u := by
  obtain ⟨-, hrun | ⟨-, fault, hrun⟩⟩ := h
  · exact state_of_ok hrun hok
  · exact absurd (hok.symm.trans hrun) (by simp)

/-- So does an event that throws, if it can be caught. -/
theorem eq_of_throw {e : Event} {u : World} {fault : Fault} (h : (lifecycle c).Step w e t)
    (hthrow : e.code c [] w = .throw fault u) : e.Catchable ∧ t = u := by
  obtain ⟨-, hrun | ⟨hcatchable, fault', hrun⟩⟩ := h
  · exact absurd (hthrow.symm.trans hrun) (by simp)
  · rw [hthrow] at hrun
    cases hrun
    exact ⟨hcatchable, rfl⟩

/-- **Every other event keeps what `Kept` says.** -/
theorem kept_of_step (hw : Wf w) {e : Event} (h : (lifecycle c).Step w e t) (he : ¬ e.Counts) :
    Kept w t := by
  have hallowed := h.1
  cases e with
  | getApi version source => exact absurd trivial he
  | destroyApi => exact absurd trivial he
  | createLogger module =>
    obtain ⟨u, hu, hkept⟩ := run_createLogger hw module
    exact eq_of_ok c h hu ▸ hkept
  | destroyLogger i =>
    obtain ⟨u, hu, hkept⟩ := kept_destroyLogger hallowed.1 hallowed.2
    exact eq_of_ok c h hu ▸ hkept
  | log i level msg =>
    obtain ⟨b, hb⟩ := run_plugin_log hw hallowed.1 level msg
    exact eq_of_ok c h (run_bind_ok hb) ▸ hw.kept_logged i level msg
  | useDebug =>
    obtain ⟨u, hu, hkept⟩ := run_useDebug w
    exact eq_of_ok c h hu ▸ hkept
  | work =>
    obtain ⟨u, hu, hkept⟩ := run_processOne hw
    exact eq_of_ok c h hu ▸ hkept
  | reload source =>
    obtain ⟨config, hconfig, -⟩ := hallowed
    obtain ⟨u, hkept, hu | ⟨fault, hu⟩⟩ := run_reload c hw (by simp [hconfig]) source
    · exact eq_of_ok c h hu ▸ hkept
    · exact absurd (eq_of_throw c h hu).1 id

/-- What a call of `samplog_GetApi` leads to. -/
theorem getApi_step (hw : Wf w) {version : ℤ} {source : Source}
    (h : (lifecycle c).Step w (.getApi version source) t) :
    (w.refCounter ≠ 0 ∧ t = handedOut version w) ∨
    (w.refCounter = 0 ∧ ¬ SourceThrows source ∧ ∃ u, t = handedOut version u ∧ Kept w u ∧
      u.logConfig.isSome = true ∧ u.logManager.isSome = true) ∨
    (w.refCounter = 0 ∧ SourceThrows source ∧ Kept w t ∧ t.logConfig.isSome = true) := by
  by_cases hr : w.refCounter = 0
  · right
    rcases getApi_cases c hw hr version source with
      ⟨u, hu, hkept, hc, hm, -, hs⟩ | ⟨e, u, hu, hkept, hc, -, hs⟩ | ⟨hu, -⟩
    · exact .inl ⟨hr, hs, u, eq_of_ok c h (run_bind_ok hu), hkept, hc, hm⟩
    · obtain rfl := (eq_of_throw c h (run_bind_throw hu)).2
      exact .inr ⟨hr, hs, hkept, hc⟩
    · have hcode : (Event.getApi version source).code c [] w = .stuck .configLock :=
        run_bind_stuck hu
      obtain ⟨-, hrun | ⟨-, fault, hrun⟩⟩ := h
      · exact absurd (hcode.symm.trans hrun) (by simp)
      · exact absurd (hcode.symm.trans hrun) (by simp)
  · exact .inl ⟨hr, eq_of_ok c h (run_bind_ok (run_getApi_later c hw hr version source))⟩

/-- What a call of `samplog_DestroyApi` leads to. -/
theorem destroyApi_step (hw : Wf w) (h : (lifecycle c).Step w .destroyApi t) :
    0 < w.handles ∧ Wf t ∧ t.refCounter = w.refCounter - 1 ∧ t.handles = w.handles - 1 ∧
      (w.refCounter - 1 ≠ 0 → t.logConfig = w.logConfig ∧ t.logManager = w.logManager) ∧
      (w.refCounter - 1 = 0 → w.logManager.isSome = true → t.logConfig.isSome = true) := by
  obtain ⟨u, hu, hfacts⟩ := run_destroyApi hw
  obtain rfl := eq_of_ok c h hu
  exact ⟨h.1.1, hfacts⟩

theorem wf_step (hw : Wf w) {e : Event} (h : (lifecycle c).Step w e t) : Wf t := by
  by_cases he : e.Counts
  · cases e with
    | getApi version source =>
      rcases getApi_step c hw h with ⟨-, rfl⟩ | ⟨-, -, u, rfl, hkept, -, -⟩ | ⟨-, -, hkept, -⟩
      · exact wf_handedOut hw version
      · exact wf_handedOut (hkept.wf hw) version
      · exact hkept.wf hw
    | destroyApi => exact (destroyApi_step c hw h).2.1
    | _ => exact absurd he id
  · exact (kept_of_step c hw h he).wf hw

/-- **No reference dangles**, at any time. -/
theorem wf_of_reachable (h : (lifecycle c).Reachable w) : Wf w :=
  h.invariant (fun _ hinit => hinit ▸ wf_init) fun _ _ _ hw hstep => wf_step c hw hstep

/-! A process without a configuration file, whose plugin has a logger. -/

/-- The library after an event that comes to an end. -/
def ran (w : World) (e : Event) : World :=
  match e.code noConversions [] w with
  | .ok _ t | .throw _ t => t
  | .stuck _ => w

/-- After the first `samplog_GetApi`. -/
def loadedOnce : World := ran {} (.getApi 1 .badFile)

/-- A logger has been created. -/
def withTest : World := ran loadedOnce (.createLogger "test")

theorem isRun_withTest : (lifecycle noConversions).IsRun {}
    [(.getApi 1 .badFile, loadedOnce), (.createLogger "test", withTest)] :=
  ⟨⟨trivial, .inl rfl⟩, ⟨show 0 < loadedOnce.handles by decide, .inl rfl⟩, trivial⟩

theorem reachable_withTest : (lifecycle noConversions).Reachable withTest :=
  .next (.next (.init rfl) isRun_withTest.1) isRun_withTest.2.1

end SampLogCore.Lifecycle.Runs
