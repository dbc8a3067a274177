import SampLogCore.Lifecycle.Operations

/-!
# How a configuration reaches the loggers

By two routes: the construction of a logger takes what `LogConfig` has for its name
(`created_loggers`), and a load calls back the logger of every name it adds (`refreshed_loaded`). On
both, a logger is reached by its name only if the callback of that name is its own.
-/

namespace SampLogCore.Lifecycle.Refresh

open SampLogCore.Levels SampLogCore.Lib.Emitting SampLogCore.Lib.Locking SampLogCore.Config.Yaml
  SampLogCore.Config.Settings SampLogCore.Config.Document SampLogCore.Config.Hazards
  SampLogCore.Config.Rounds SampLogCore.Config.Rebuilding SampLogCore.Lifecycle.Library
  SampLogCore.Lifecycle.Effects SampLogCore.Lifecycle.WellFormed SampLogCore.Lifecycle.Loading
  SampLogCore.Lifecycle.Operations

variable {w t : World} (c : Conversions) {root : Node}

/-- The configurations of the loggers, by their names. -/
def configs (w : World) : String → Option LoggerConfig := (config w).stores.loggerConfigs

/-! ### Construction -/

theorem configs_created (w : World) (name : String) : configs (created w name) = configs w := by
  simp [configs, config, created, subscribed, withLogger, withConfig]

/-- **A new logger**, and the one that is called back. -/
theorem created_loggers (hw : Wf w) (name : String) (i : LoggerId) :
    (created w name).loggers i =
      if i = w.nextLogger then
        some { newLogger w name with
          config := if events w name = none then (configs w name).getD {} else {} }
      else (w.loggers i).map fun l =>
        if events w name = some i then { l with config := (configs w name).getD l.config }
        else l := by
  have hcallback : emplace (events w) name w.nextLogger name =
      some ((events w name).getD w.nextLogger) := emplace_self _ _ _
  have hloggers : (created w name).loggers i = ((withLogger w name).loggers i).map fun l =>
      if emplace (events w) name w.nextLogger name = some i then
        { l with config := (configs w name).getD l.config } else l :=
    calledBack_loggers _ _ _ i
  rw [hloggers, hcallback]
  by_cases hi : i = w.nextLogger
  · subst hi
    rw [if_pos rfl, show (withLogger w name).loggers w.nextLogger = some (newLogger w name) by
      simp [withLogger], Option.map_some]
    cases he : events w name with
    | none => simp [newLogger]
    | some j =>
      have hj : j ≠ w.nextLogger := hw.ne_nextLogger (by simp [hw.callbacks name j he])
      simp [hj, newLogger]
  · rw [if_neg hi, show (withLogger w name).loggers i = w.loggers i by
      simp [withLogger, Function.update_of_ne hi]]
    cases he : events w name with
    | none =>
      have hne : ¬ w.nextLogger = i := fun h => hi h.symm
      simp [hne]
    | some j => simp

/-! ### Loading -/

/-- A logger after its callback has been called, if it is called back at all. -/
def refreshed (w : World) (configs : String → Option LoggerConfig) (i : LoggerId) (l : Logger) :
    Logger :=
  if events w l.moduleName = some i then { l with config := (configs l.moduleName).getD l.config }
  else l

/-- The loggers of `w` have been called back with the configurations of `t`. -/
structure Refreshed (w t : World) : Prop where
  events : events t = events w
  loggers : ∀ i, t.loggers i = (w.loggers i).map (refreshed w (configs t) i)

/-- There is nothing to call back with when the configurations have been cleared. -/
theorem refreshed_clear (w : World) : Refreshed w (acted w .clearLoggerConfigs) := by
  refine ⟨rfl, fun i => ?_⟩
  have hid : refreshed w (configs (acted w .clearLoggerConfigs)) i = id := by
    funext l
    unfold refreshed
    split_ifs <;> rfl
  rw [hid, Option.map_id]
  rfl

/-- The logger of a callback has its name. -/
theorem Wf.moduleName (hw : Wf w) {i : LoggerId} {l : Logger} {name : String}
    (hl : w.loggers i = some l) (he : WellFormed.events w name = some i) : l.moduleName = name := by
  have hnames := hw.callbacks name i he
  rw [names, hl, Option.map_some, Option.some.injEq] at hnames
  exact hnames

theorem Refreshed.added (hw : Wf w) (h : Refreshed w t) (name : String) (cfg : LoggerConfig) :
    Refreshed w (added t name cfg) := by
  have hconfigs : configs (Effects.added t name cfg) = emplace (configs t) name cfg := by
    simp [configs, config, Effects.added, Stores.apply]
  refine ⟨?_, fun i => ?_⟩
  · rw [← h.events]
    simp [WellFormed.events, config, Effects.added]
  · have hloggers : (Effects.added t name cfg).loggers i = (t.loggers i).map fun l =>
        if WellFormed.events t name = some i then
          { l with config := (emplace (configs t) name cfg name).getD l.config } else l :=
      calledBack_loggers _ _ _ i
    rw [hloggers, h.loggers, h.events, hconfigs]
    cases hl : w.loggers i with
    | none => rfl
    | some l =>
      simp only [Option.map_some, Option.some.injEq, refreshed]
      by_cases he : WellFormed.events w name = some i
      · obtain rfl := Wf.moduleName hw hl he
        simp [he, emplace_self]
      · rw [if_neg he]
        split_ifs with hreg
        · have hne : l.moduleName ≠ name := by
            rintro rfl
            exact he hreg
          rw [emplace_of_ne _ _ hne]
        · rfl

/-- A message leaves the loggers and `LogConfig` alone, when the instance of `LogManager` is
there. -/
theorem loggedInternal_eq (hm : t.logManager.isSome = true) (level : LogLevel) (msg : String) :
    loggedInternal t level msg =
      { t with logManager := (loggedInternal t level msg).logManager } := by
  obtain ⟨m, hm⟩ := Option.isSome_iff_exists.mp hm
  unfold loggedInternal
  rw [managed_of_some hm, hm]
  dsimp only
  unfold logged
  split
  · split_ifs
    · rw [managed_of_some hm]
      rfl
    · rfl
  · rfl

theorem Refreshed.acted (hw : Wf w) (h : Refreshed w t) {action : Action} (hclear : ¬ Clears action)
    (hm : t.logManager.isSome = true ∨ ¬ IsLog action) : Refreshed w (acted t action) := by
  cases action with
  | logInternal level msg =>
    have heq := loggedInternal_eq (hm.resolve_right (· trivial)) level msg
    change Refreshed w (loggedInternal t level msg)
    rw [heq]
    exact ⟨h.events, h.loggers⟩
  | addLoggerConfig name cfg => exact h.added hw name cfg
  | clearLoggerConfigs => exact absurd rfl hclear
  | clearLevelConfigs => exact ⟨h.events, h.loggers⟩
  | emplaceLevelConfig level config => exact ⟨h.events, h.loggers⟩
  | setGlobalConfig config => exact ⟨h.events, h.loggers⟩

theorem Refreshed.actedAll (hw : Wf w) :
    ∀ {actions : List Action} {t : World}, Refreshed w t → Wf t → .clearLoggerConfigs ∉ actions →
      (t.logManager.isSome = true ∨ ∀ action ∈ actions, ¬ IsLog action) →
      Refreshed w (actedAll t actions)
  | [], _, h, _, _, _ => h
  | action :: actions, t, h, ht, hclear, hm => by
    have hhead : ¬ Clears action := fun h => hclear (h ▸ List.mem_cons_self)
    have hlog : t.logManager.isSome = true ∨ ¬ IsLog action :=
      hm.imp_right fun h => h action List.mem_cons_self
    have hkept := kept_acted ht action
    exact (h.acted hw hhead hlog).actedAll hw (hkept.wf ht)
      (fun h => hclear (List.mem_cons_of_mem _ h))
      (hm.imp hkept.logManager fun h a ha => h a (List.mem_cons_of_mem _ ha))

/-- **A load reaches every logger whose callback is its own**, and gives it what the document has
for its name. -/
theorem refreshed_loaded (hw : Wf w) (hl : Loggable w (.document root))
    (ht : ¬ DocumentThrows root) : Refreshed w (loaded c root w) := by
  obtain ⟨rest, hevents, hrest⟩ := events_parseDocument c fun hs => ht (.inl hs)
  have hactions := hl.actions c
  have hkept := kept_acted hw .clearLoggerConfigs
  rw [hevents] at hactions
  rw [loaded, hevents]
  exact (refreshed_clear w).actedAll hw (hkept.wf hw) hrest
    (hactions.imp hkept.logManager fun h a ha => h a (List.mem_cons_of_mem _ ha))

end SampLogCore.Lifecycle.Refresh
