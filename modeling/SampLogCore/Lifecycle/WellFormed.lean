import SampLogCore.Lifecycle.Effects

/-!
# No reference dangles

`LogConfig` refers to loggers by its callbacks, `LogManager` by its internal logger and by the
messages in its queue. `Wf` says that all of them are there and that a callback belongs to a logger
of its name. `Kept w t` says what an operation leaves as it was: a well-formed library stays
well-formed, instances are created and not destroyed, and the counters of the interface do not move.
Everything but the destruction of the instances keeps this much.
-/

namespace SampLogCore.Lifecycle.WellFormed

open SampLogCore.Levels SampLogCore.Lib.Locking SampLogCore.Config.Yaml SampLogCore.Config.Settings
  SampLogCore.Lifecycle.Library SampLogCore.Lifecycle.Effects

variable {w t u : World} {held : List Mutex}

/-- The names of the loggers that are there. -/
def names (w : World) (i : LoggerId) : Option String := (w.loggers i).map Logger.moduleName

/-- The callbacks of `LogConfig`. -/
def events (w : World) : String → Option LoggerId := (config w).loggerConfigEvents

/-- Every reference to a logger finds it. -/
structure Wf (w : World) : Prop where
  fresh : ∀ i name, names w i = some name → i < w.nextLogger
  callbacks : ∀ name i, events w name = some i → names w i = some name
  internal : ∀ m, w.logManager = some m → names w m.internalLogger = some "log-core"
  queued : ∀ m, w.logManager = some m → ∀ q ∈ m.queue, names w q.logger ≠ none

/-- What an operation leaves as it was. -/
structure Kept (w t : World) : Prop where
  wf : Wf w → Wf t
  logConfig : w.logConfig.isSome = true → t.logConfig.isSome = true
  logManager : w.logManager.isSome = true → t.logManager.isSome = true
  refCounter : t.refCounter = w.refCounter
  handles : t.handles = w.handles

theorem Kept.refl (w : World) : Kept w w := ⟨id, id, id, rfl, rfl⟩

theorem Kept.trans (h : Kept w t) (h' : Kept t u) : Kept w u where
  wf := h'.wf ∘ h.wf
  logConfig := h'.logConfig ∘ h.logConfig
  logManager := h'.logManager ∘ h.logManager
  refCounter := h'.refCounter.trans h.refCounter
  handles := h'.handles.trans h.handles

theorem names_eq_some {i : LoggerId} {name : String} :
    names w i = some name ↔ ∃ l, w.loggers i = some l ∧ l.moduleName = name := by
  simp [names, Option.map_eq_some_iff]

theorem names_ne_none {i : LoggerId} (h : names w i ≠ none) : ∃ l, w.loggers i = some l := by
  simpa [names, Option.ne_none_iff_exists'] using h

theorem Wf.callable (h : Wf w) (name : String) :
    Callable w ((config w).loggerConfigEvents name) := by
  intro i hi
  obtain ⟨l, hl, -⟩ := names_eq_some.mp (h.callbacks name i hi)
  simp [hl]

theorem Wf.internalLogger (h : Wf w) {m : LogManager} (hm : w.logManager = some m) :
    ∃ l, w.loggers m.internalLogger = some l := by
  obtain ⟨l, hl, -⟩ := names_eq_some.mp (h.internal m hm)
  exact ⟨l, hl⟩

/-- Being well-formed is a matter of the names, the callbacks and the queue. -/
theorem Wf.congr (h : Wf w) (hn : names t = names w) (he : events t = events w)
    (hm : t.logManager = w.logManager) (hi : t.nextLogger = w.nextLogger) : Wf t := by
  refine ⟨fun i name => ?_, fun name i => ?_, fun m => ?_, fun m => ?_⟩
  · rw [hn, hi]
    exact h.fresh i name
  · rw [hn, he]
    exact h.callbacks name i
  · rw [hn, hm]
    exact h.internal m
  · rw [hn, hm]
    exact h.queued m

/-! ### Changes of the instance of `LogConfig` -/

theorem kept_withConfig (w : World) : Kept w (withConfig w) :=
  ⟨fun h => h.congr rfl rfl rfl rfl, fun _ => rfl, id, rfl, rfl⟩

/-- After a change of what a document describes. -/
def withStores (w : World) (f : Stores → Stores) : World :=
  { w with logConfig := some { config w with stores := f (config w).stores } }

theorem kept_withStores (w : World) (f : Stores → Stores) : Kept w (withStores w f) :=
  ⟨fun h => h.congr rfl rfl rfl rfl, fun _ => rfl, id, rfl, rfl⟩

theorem names_calledBack (w : World) (callback : Option LoggerId) (cfg : Option LoggerConfig) :
    names (calledBack w callback cfg) = names w := by
  funext i
  rw [names, names, calledBack_loggers, Option.map_map]
  congr 1
  funext l
  dsimp only [Function.comp_apply]
  split_ifs <;> rfl

theorem kept_calledBack (w : World) (callback : Option LoggerId) (cfg : Option LoggerConfig) :
    Kept w (calledBack w callback cfg) := by
  refine ⟨fun h => h.congr (names_calledBack w _ _) ?_ (by simp) (by simp), ?_, ?_, ?_, ?_⟩
  · simp [events, config]
  all_goals simp

theorem kept_added (w : World) (name : String) (cfg : LoggerConfig) : Kept w (added w name cfg) :=
  (kept_withStores w fun s => s.apply (.addLoggerConfig name cfg)).trans (kept_calledBack _ _ _)

/-! ### New loggers -/

theorem names_created (w : World) (name : String) :
    names (created w name) = Function.update (names w) w.nextLogger (some name) := by
  rw [created, subscribed, names_calledBack]
  funext i
  by_cases hi : i = w.nextLogger
  · subst hi
    simp [names, withLogger, newLogger]
  · simp [names, withLogger, Function.update_of_ne hi]

theorem events_created (w : World) (name : String) :
    events (created w name) = emplace (events w) name w.nextLogger := by
  simp [events, created, subscribed, withLogger, config, withConfig]

@[simp] theorem created_logManager (w : World) (name : String) :
    (created w name).logManager = w.logManager := by
  simp [created, subscribed, withLogger, withConfig]

@[simp] theorem created_nextLogger (w : World) (name : String) :
    (created w name).nextLogger = w.nextLogger + 1 := by
  simp [created, subscribed, withLogger]

/-- A name that is there is not the one of the next logger. -/
theorem Wf.ne_nextLogger (h : Wf w) {i : LoggerId} (hi : names w i ≠ none) :
    i ≠ w.nextLogger := by
  obtain ⟨name, hname⟩ := Option.ne_none_iff_exists'.mp hi
  exact (h.fresh i name hname).ne

theorem wf_created (h : Wf w) (name : String) : Wf (created w name) := by
  have hold : ∀ i, names w i ≠ none → names (created w name) i = names w i := by
    intro i hi
    rw [names_created, Function.update_of_ne (h.ne_nextLogger hi)]
  refine ⟨fun i n hi => ?_, fun n i hi => ?_, fun m hm => ?_, fun m hm q hq => ?_⟩
  · rw [names_created] at hi
    rw [created_nextLogger]
    by_cases hnew : i = w.nextLogger
    · exact hnew ▸ Nat.lt_succ_self _
    · rw [Function.update_of_ne hnew] at hi
      exact Nat.lt_succ_of_lt (h.fresh i n hi)
  · rw [events_created] at hi
    by_cases hn : n = name
    · subst hn
      rw [emplace_self, Option.some.injEq] at hi
      cases he : events w n with
      | none =>
        obtain rfl : w.nextLogger = i := by simpa [he] using hi
        rw [names_created, Function.update_self]
      | some j =>
        obtain rfl : j = i := by simpa [he] using hi
        have hj := h.callbacks n j he
        rw [hold j (by simp [hj]), hj]
    · rw [emplace_of_ne _ _ hn] at hi
      have hj := h.callbacks n i hi
      rw [hold i (by simp [hj]), hj]
  · rw [created_logManager] at hm
    have hi := h.internal m hm
    rw [hold _ (by simp [hi]), hi]
  · rw [created_logManager] at hm
    have hq := h.queued m hm q hq
    rwa [hold _ hq]

theorem kept_created (w : World) (name : String) : Kept w (created w name) := by
  refine ⟨fun h => wf_created h name, fun _ => ?_, fun h => ?_, ?_, ?_⟩
  · simp [created, subscribed]
  · rwa [created_logManager]
  · simp [created, subscribed, withLogger, withConfig]
  · simp [created, subscribed, withLogger, withConfig]

/-! ### The instance of `LogManager` and its queue -/

theorem kept_managed (w : World) : Kept w (managed w) := by
  cases hm : w.logManager with
  | some m =>
    rw [managed_of_some hm]
    exact .refl w
  | none =>
    have hk := kept_created w "log-core"
    have hmanaged : managed w =
        { created w "log-core" with logManager := some ⟨[], w.nextLogger⟩ } := by
      simp [managed, hm]
    rw [hmanaged]
    refine ⟨fun h => ?_, hk.logConfig, fun _ => rfl, hk.refCounter, hk.handles⟩
    have hc := wf_created h "log-core"
    refine ⟨hc.fresh, hc.callbacks, fun m hm => ?_, fun m hm q hq => ?_⟩
    · obtain rfl := Option.some.inj hm
      change names (created w "log-core") w.nextLogger = _
      rw [names_created, Function.update_self]
    · obtain rfl := Option.some.inj hm
      simp at hq

theorem kept_enqueue {q : QueuedMessage} (h : names w q.logger ≠ none) : Kept w (enqueue w q) := by
  refine ⟨fun hw => ⟨hw.fresh, hw.callbacks, ?_, ?_⟩, id, fun hm => ?_, rfl, rfl⟩
  · intro m hm
    obtain ⟨m, hm', rfl⟩ := Option.map_eq_some_iff.mp hm
    exact hw.internal m hm'
  · intro m hm p hp
    obtain ⟨m, hm', rfl⟩ := Option.map_eq_some_iff.mp hm
    rcases List.mem_append.mp hp with hp | hp
    · exact hw.queued m hm' p hp
    · obtain rfl := List.mem_singleton.mp hp
      exact h
  · simpa [enqueue] using hm

/-- What is there stays there when the instance of `LogManager` is created. -/
theorem Wf.names_managed (h : Wf w) {i : LoggerId} (hi : names w i ≠ none) :
    names (managed w) i = names w i := by
  unfold managed
  split
  · rfl
  · change names (created w "log-core") i = _
    rw [names_created, Function.update_of_ne (h.ne_nextLogger hi)]

theorem Wf.kept_logged (h : Wf w) (i : LoggerId) (level : LogLevel) (msg : String) :
    Kept w (logged w i level msg) := by
  unfold logged
  split
  · rename_i l hl
    split_ifs
    · have hi : names w i ≠ none := by simp [names, hl]
      refine (kept_managed w).trans (kept_enqueue ?_)
      rwa [h.names_managed hi]
    · exact .refl w
  · exact .refl w

theorem Wf.kept_loggedInternal (h : Wf w) (level : LogLevel) (msg : String) :
    Kept w (loggedInternal w level msg) := by
  unfold loggedInternal
  split
  · exact (kept_managed w).trans (((kept_managed w).wf h).kept_logged _ level msg)
  · exact kept_managed w

/-- Who logs has an instance of `LogManager`. -/
theorem Wf.loggedInternal_isSome (h : Wf w) (level : LogLevel) (msg : String) :
    (loggedInternal w level msg).logManager.isSome = true := by
  have hm := managed_isSome w
  unfold loggedInternal
  split
  · exact (((kept_managed w).wf h).kept_logged _ level msg).logManager hm
  · exact hm

/-! ### What the code does in a well-formed library -/

theorem Wf.run_logManagerGet (hw : Wf w) :
    ∃ m, LogManager.Get [] w = .ok m (managed w) ∧ (managed w).logManager = some m := by
  cases hm : w.logManager with
  | some m =>
    rw [managed_of_some hm]
    exact ⟨m, Effects.run_logManagerGet hm, hm⟩
  | none =>
    refine ⟨_, run_logManagerGet_none hm (hw.callable "log-core") List.not_mem_nil
      List.not_mem_nil, ?_⟩
    simp [managed, hm]

/-- `LogInternal` of a thread that holds no mutex. -/
theorem Wf.run_logInternal (hw : Wf w) (level : LogLevel) (msg : String) :
    LogInternal level msg [] w = .ok () (loggedInternal w level msg) := by
  obtain ⟨m, hget, hm⟩ := hw.run_logManagerGet
  obtain ⟨l, hl⟩ := ((kept_managed w).wf hw).internalLogger hm
  exact Effects.run_logInternal level msg hget hm hl List.not_mem_nil

/-- `LogInternal` when the instance of `LogManager` is there. -/
theorem Wf.run_logInternal_of_some (hw : Wf w) (level : LogLevel) (msg : String)
    (hm : w.logManager.isSome = true) (hq : Mutex.queueMtx ∉ held) :
    LogInternal level msg held w = .ok () (loggedInternal w level msg) := by
  obtain ⟨m, hm⟩ := Option.isSome_iff_exists.mp hm
  obtain ⟨l, hl⟩ := hw.internalLogger hm
  have hmanaged := managed_of_some hm
  have hget : LogManager.Get held w = .ok m w := Effects.run_logManagerGet hm
  exact Effects.run_logInternal level msg (by rwa [hmanaged]) (by rwa [hmanaged])
    (by rwa [hmanaged]) hq

end SampLogCore.Lifecycle.WellFormed
