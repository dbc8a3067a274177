import SampLogCore.Lifecycle.Runs

/-!
# Loading and `_configLock`

The configuration is loaded by the first `samplog_GetApi` and by the file watcher. A message that is
logged on the way creates the instance of `LogManager` if there is none, which asks for the global
configuration. The file watcher logs before it loads; the first `samplog_GetApi` does not, so there
a document that warns is one lock too many.
-/

namespace SampLogCore.Lifecycle.Deadlock

open SampLogCore.Lib.Transition SampLogCore.Lib.Locking SampLogCore.Config.Yaml
  SampLogCore.Config.Hazards SampLogCore.Lifecycle.Library SampLogCore.Lifecycle.WellFormed
  SampLogCore.Lifecycle.Loading SampLogCore.Lifecycle.Operations SampLogCore.Lifecycle.Runs

variable (c : Conversions) {w : World}

/-- Who loads the configuration. -/
inductive Caller
  | getApi (version : ℤ)
  | fileWatcher

def Caller.event (source : Source) : Caller → Event
  | getApi version => .getApi version source
  | fileWatcher => .reload source

/-- The thread of the event comes to wait for a mutex that it holds. -/
def SelfDeadlock (w : World) (e : Event) : Prop := ∃ k, e.code c [] w = .stuck k

theorem not_selfDeadlock_of_ok {e : Event} {t : World} (h : e.code c [] w = .ok () t) :
    ¬ SelfDeadlock c w e := by
  rintro ⟨k, hk⟩
  exact absurd (h.symm.trans hk) (by simp)

/-- The first `samplog_GetApi` gets through when there is a logger for its messages. -/
theorem getApi_selfDeadlock_iff (hw : Wf w) (hr : w.refCounter = 0) (version : ℤ)
    (source : Source) : SelfDeadlock c w (.getApi version source) ↔ ¬ Loggable w source := by
  rcases getApi_cases c hw hr version source with
    ⟨u, hu, -, -, -, hl, -⟩ | ⟨e, t, ht, -, -, hl, -⟩ | ⟨hstuck, hl⟩
  · have hok := not_selfDeadlock_of_ok c (e := .getApi version source) (run_bind_ok hu)
    exact ⟨fun h => absurd h hok, fun h => absurd hl h⟩
  · have hcode : (Event.getApi version source).code c [] w = .throw e t := run_bind_throw ht
    constructor
    · rintro ⟨k, hk⟩
      exact absurd (hcode.symm.trans hk) (by simp)
    · exact fun h => absurd hl h
  · exact ⟨fun _ => hl, fun _ => ⟨.configLock, run_bind_stuck hstuck⟩⟩

/-- **Loading does not wait for itself**, unless the first `samplog_GetApi` loads a document that
warns before there is a `LogManager`. -/
theorem loading_terminates_iff (h : (lifecycle c).Reachable w) (source : Source) (caller : Caller)
    (ha : Allowed w (caller.event source)) :
    ¬ SelfDeadlock c w (caller.event source) ↔
      caller = .fileWatcher ∨ w.refCounter ≠ 0 ∨ w.logManager.isSome = true ∨
        ¬ SourceWarns source := by
  have hw := wf_of_reachable c h
  cases caller with
  | getApi version =>
    by_cases hr : w.refCounter = 0
    · have hiff := getApi_selfDeadlock_iff c hw hr version source
      change ¬ SelfDeadlock c w (.getApi version source) ↔ _
      rw [hiff, not_not]
      simp [hr, Loggable]
    · have hok := not_selfDeadlock_of_ok c (e := .getApi version source)
        (run_bind_ok (run_getApi_later c hw hr version source))
      exact ⟨fun _ => .inr (.inl hr), fun _ => hok⟩
  | fileWatcher =>
    obtain ⟨config, hconfig, -⟩ := ha
    refine ⟨fun _ => .inl rfl, fun _ => ?_⟩
    obtain ⟨t, -, hok | ⟨e, hthrow⟩⟩ := run_reload c hw (by simp [hconfig]) source
    · exact not_selfDeadlock_of_ok c hok
    · rintro ⟨k, hk⟩
      exact absurd (hthrow.symm.trans hk) (by simp)

/-- A document that configures a logger, and the internal one as well, whose name is not valid. -/
def bothConfigured : Node :=
  .map [(.scalar "Logger", .map [(.scalar "log-core", .null),
    (.scalar "test", .map [(.scalar "LogLevel", .scalar "All")])])]

/-- A reload of it calls the logger back, warns, and gets through. -/
theorem loading_terminates_called_back :
    ¬ SelfDeadlock noConversions withTest (.reload (.document bothConfigured)) ∧
      ∃ l, (ran withTest (.reload (.document bothConfigured))).loggers 1 = some l ∧
        l.config.Level = Levels.GetAllLogLevel :=
  ⟨(loading_terminates_iff noConversions reachable_withTest (.document bothConfigured) .fileWatcher
    ⟨_, rfl, rfl⟩).mpr (.inl rfl), _, rfl, rfl⟩

/-- A document that configures the internal logger, whose name is not a valid one. -/
def internalConfigured : Node := .map [(.scalar "Logger", .map [(.scalar "log-core", .null)])]

theorem internalConfigured_warns : DocumentWarns internalConfigured := by
  refine ⟨fun h => ?_, [], .logger (.node (.scalar "log-core"), .node .null), _, rfl, ?_, by simp⟩
  · obtain ⟨s, hs⟩ := h
    exact absurd hs (by simp [internalConfigured])
  · exact .inl fun h => h.2 rfl

/-- **A start with such a document never comes to an end.** -/
theorem not_loading_terminates :
    ¬ ∀ (w : World) (source : Source) (caller : Caller),
      (lifecycle noConversions).Reachable w → Allowed w (caller.event source) →
        ¬ SelfDeadlock noConversions w (caller.event source) := by
  intro h
  refine h {} (.document internalConfigured) (.getApi 1) (.init rfl) trivial ?_
  rw [Caller.event, getApi_selfDeadlock_iff noConversions wf_init rfl]
  rintro (hm | hw)
  · exact absurd hm (by simp)
  · exact hw internalConfigured_warns

end SampLogCore.Lifecycle.Deadlock
