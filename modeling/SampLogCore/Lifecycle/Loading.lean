import SampLogCore.Config.Rebuilding
import SampLogCore.Lifecycle.WellFormed

/-!
# Loading the configuration

What `ParseConfigFile` does in a well-formed library that has an instance of `LogConfig`. It runs
the actions of the document with `_configLock` held, so it gets through when no action logs or when
the instance of `LogManager` is there to log with, and is stuck otherwise (`parse_stuck`). When the
document throws, the actions before the exception have been run (`parse_throw`).

The stores are rebuilt by the actions alone: what the document describes is `built c root`, whatever
was there before (`stores_loaded_of_ok`).
-/

namespace SampLogCore.Lifecycle.Loading

open SampLogCore.Levels SampLogCore.Lib.Emitting SampLogCore.Lib.Locking SampLogCore.Config.Yaml
  SampLogCore.Config.Settings SampLogCore.Config.Document SampLogCore.Config.Hazards
  SampLogCore.Config.Rounds SampLogCore.Config.Warnings SampLogCore.Config.Rebuilding
  SampLogCore.Lifecycle.Library SampLogCore.Lifecycle.Effects SampLogCore.Lifecycle.WellFormed

variable {w : World} {held : List Mutex} (c : Conversions) {root : Node}

/-! ### Actions -/

/-- After an action of the loader. -/
def acted (w : World) : Action → World
  | .logInternal level msg => loggedInternal w level msg
  | .addLoggerConfig name config => added w name config
  | action => withStores w (·.apply action)

theorem kept_acted (hw : Wf w) (action : Action) : Kept w (acted w action) := by
  cases action with
  | logInternal level msg => exact hw.kept_loggedInternal level msg
  | addLoggerConfig name config => exact kept_added w name config
  | clearLoggerConfigs => exact kept_withStores w (·.apply .clearLoggerConfigs)
  | clearLevelConfigs => exact kept_withStores w (·.apply .clearLevelConfigs)
  | emplaceLevelConfig level config =>
    exact kept_withStores w (·.apply (.emplaceLevelConfig level config))
  | setGlobalConfig config => exact kept_withStores w (·.apply (.setGlobalConfig config))

/-- After the actions of the loader. -/
def actedAll (w : World) (actions : List Action) : World := actions.foldl acted w

theorem kept_actedAll : ∀ (actions : List Action) {w : World}, Wf w → Kept w (actedAll w actions)
  | [], w, _ => .refl w
  | action :: actions, _, hw =>
    (kept_acted hw action).trans (kept_actedAll actions ((kept_acted hw action).wf hw))

theorem run_modify (f : Stores → Stores) (hc : w.logConfig.isSome = true) :
    LogConfig.modify (fun c => { c with stores := f c.stores }) held w =
      .ok () (withStores w f) := by
  obtain ⟨config, hconfig⟩ := Option.isSome_iff_exists.mp hc
  rw [LogConfig.modify, run_change, hconfig]
  simp [withStores, Effects.config, hconfig]

theorem run_runAction (hw : Wf w) (hc : w.logConfig.isSome = true) {action : Action}
    (hm : w.logManager.isSome = true ∨ ¬ IsLog action) (hr : Mutex.rotationEntriesLock ∉ held)
    (hq : Mutex.queueMtx ∉ held) : runAction action held w = .ok () (acted w action) := by
  cases action with
  | logInternal level msg =>
    exact hw.run_logInternal_of_some level msg (hm.resolve_right (· trivial)) hq
  | addLoggerConfig name config => exact run_addLoggerConfig name config hc (hw.callable name) hr
  | clearLoggerConfigs => exact run_modify (·.apply .clearLoggerConfigs) hc
  | clearLevelConfigs => exact run_modify (·.apply .clearLevelConfigs) hc
  | emplaceLevelConfig level config =>
    exact run_modify (·.apply (.emplaceLevelConfig level config)) hc
  | setGlobalConfig config => exact run_modify (·.apply (.setGlobalConfig config)) hc

theorem run_runActions (hr : Mutex.rotationEntriesLock ∉ held) (hq : Mutex.queueMtx ∉ held) :
    ∀ {actions : List Action} {w : World}, Wf w → w.logConfig.isSome = true →
      (w.logManager.isSome = true ∨ ∀ action ∈ actions, ¬ IsLog action) →
      runActions actions held w = .ok () (actedAll w actions)
  | [], _, _, _, _ => rfl
  | action :: actions, w, hw, hc, hm => by
    have hkept := kept_acted hw action
    have hhead : w.logManager.isSome = true ∨ ¬ IsLog action :=
      hm.imp_right fun h => h action List.mem_cons_self
    rw [runActions, run_bind_ok (run_runAction hw hc hhead hr hq)]
    exact run_runActions hr hq (hkept.wf hw) (hkept.logConfig hc)
      (hm.imp hkept.logManager fun h a ha => h a (List.mem_cons_of_mem _ ha))

/-- An action that does not log leaves `LogManager` alone. -/
theorem acted_logManager {action : Action} (h : ¬ IsLog action) :
    (acted w action).logManager = w.logManager := by
  cases action with
  | logInternal level msg => exact absurd trivial h
  | addLoggerConfig name config => simp [acted, added]
  | clearLoggerConfigs => rfl
  | clearLevelConfigs => rfl
  | emplaceLevelConfig level config => rfl
  | setGlobalConfig config => rfl

/-- **The first action that logs is stuck**, when there is nothing to log with. -/
theorem run_runActions_stuck (hl : Mutex.configLock ∈ held) (hr : Mutex.rotationEntriesLock ∉ held)
    (hq : Mutex.queueMtx ∉ held) :
    ∀ {actions : List Action} {w : World}, Wf w → w.logConfig.isSome = true →
      w.logManager = none → (∃ action ∈ actions, IsLog action) →
      runActions actions held w = .stuck .configLock
  | [], _, _, _, _, h => by simp at h
  | action :: actions, w, hw, hc, hm, h => by
    by_cases hlog : IsLog action
    · cases action with
      | logInternal level msg =>
        rw [runActions, run_bind_stuck (k := .configLock)]
        exact run_logInternal_stuck level msg hm hl
      | _ => exact absurd hlog id
    · have hkept := kept_acted hw action
      rw [runActions, run_bind_ok (run_runAction hw hc (.inr hlog) hr hq)]
      refine run_runActions_stuck hl hr hq (hkept.wf hw) (hkept.logConfig hc)
        ((acted_logManager hlog).trans hm) ?_
      obtain ⟨a, ha, hla⟩ := h
      rcases List.mem_cons.mp ha with rfl | ha
      · exact absurd hla hlog
      · exact ⟨a, ha, hla⟩

/-! ### Documents -/

/-- After the actions of a document. -/
def loaded (root : Node) (w : World) : World := actedAll w (ParseDocument c (.node root)).events

theorem kept_loaded (hw : Wf w) : Kept w (loaded c root w) := kept_actedAll _ hw

/-- Loading makes `ParseConfigFile` throw. -/
def SourceThrows : Source → Prop
  | .document root => DocumentThrows root
  | _ => False

/-- Loading logs a message while `_configLock` is held. -/
def SourceWarns : Source → Prop
  | .document root => DocumentWarns root
  | _ => False

/-- There is a logger for the messages of the load. -/
def Loggable (w : World) (source : Source) : Prop :=
  w.logManager.isSome = true ∨ ¬ SourceWarns source

theorem Loggable.actions (h : Loggable w (.document root)) :
    w.logManager.isSome = true ∨
      ∀ action ∈ (ParseDocument c (.node root)).events, ¬ IsLog action := by
  refine h.imp_right fun hwarn action haction hlog => hwarn ?_
  exact (warns_iff c root).mp ⟨action, haction, hlog⟩

theorem parse_ok (hw : Wf w) (hc : w.logConfig.isSome = true) (hl : Loggable w (.document root))
    (ht : ¬ DocumentThrows root) :
    ParseConfigFile c (.document root) [] w = .ok () (loaded c root w) := by
  obtain ⟨u, hu⟩ := not_throws_iff.mp fun h => ht ((throws_iff c root).mp h)
  rw [ParseConfigFile, run_withLock (by simp),
    run_bind_ok (run_runActions (by simp) (by simp) hw hc (hl.actions c)), hu]
  rfl

theorem parse_throw (hw : Wf w) (hc : w.logConfig.isSome = true) (hl : Loggable w (.document root))
    (ht : DocumentThrows root) :
    ∃ e, ParseConfigFile c (.document root) [] w = .throw e (loaded c root w) := by
  obtain ⟨e, he⟩ := (throws_iff c root).mpr ht
  refine ⟨e, ?_⟩
  rw [ParseConfigFile, run_withLock (by simp),
    run_bind_ok (run_runActions (by simp) (by simp) hw hc (hl.actions c)), he]
  rfl

theorem parse_stuck (hw : Wf w) (hc : w.logConfig.isSome = true)
    (hl : ¬ Loggable w (.document root)) :
    ParseConfigFile c (.document root) [] w = .stuck .configLock := by
  obtain ⟨hm, hwarn⟩ := not_or.mp hl
  rw [ParseConfigFile, run_withLock (by simp), run_bind_stuck]
  exact run_runActions_stuck (by simp) (by simp) (by simp) hw hc (by simpa using hm)
    ((warns_iff c root).mpr (not_not.mp hwarn))

/-- **The three ways in which loading ends.** -/
theorem parse_cases (hw : Wf w) (hc : w.logConfig.isSome = true) (source : Source) :
    (∃ t, ParseConfigFile c source [] w = .ok () t ∧ Kept w t ∧ Loggable w source ∧
      ¬ SourceThrows source) ∨
    (∃ e t, ParseConfigFile c source [] w = .throw e t ∧ Kept w t ∧ Loggable w source ∧
      SourceThrows source) ∨
    (ParseConfigFile c source [] w = .stuck .configLock ∧ ¬ Loggable w source) := by
  cases source with
  | parserException what =>
    refine .inl ⟨_, hw.run_logInternal ERROR _,
      hw.kept_loggedInternal _ _, .inr id, id⟩
  | badFile => exact .inl ⟨w, rfl, .refl w, .inr id, id⟩
  | document root =>
    by_cases hl : Loggable w (.document root)
    · by_cases ht : DocumentThrows root
      · obtain ⟨e, he⟩ := parse_throw c hw hc hl ht
        exact .inr (.inl ⟨e, _, he, kept_loaded c hw, hl, ht⟩)
      · exact .inl ⟨_, parse_ok c hw hc hl ht, kept_loaded c hw, hl, ht⟩
    · exact .inr (.inr ⟨parse_stuck c hw hc hl, hl⟩)

/-- A load that returns has run all actions of the document. -/
theorem parse_ok_inv {t : World} (hw : Wf w) (hc : w.logConfig.isSome = true)
    (h : ParseConfigFile c (.document root) [] w = .ok () t) :
    Loggable w (.document root) ∧ ¬ DocumentThrows root ∧ t = loaded c root w := by
  rcases parse_cases c hw hc (.document root) with
    ⟨_, -, -, hl, ht⟩ | ⟨e, u, hu, -⟩ | ⟨hstuck, -⟩
  · have hok := parse_ok c hw hc hl ht
    rw [hok] at h
    cases h
    exact ⟨hl, ht, rfl⟩
  · exact absurd (h.symm.trans hu) (by simp)
  · exact absurd (h.symm.trans hstuck) (by simp)

/-- A library that reads no scalar as an `int` or a `bool`, for documents without such values. -/
def noConversions : Conversions := ⟨fun _ => none, fun _ => none⟩

theorem null_not_throws : ¬ DocumentThrows .null := by
  rintro (⟨s, hs⟩ | ⟨p, hp, ht⟩)
  · exact absurd hs (by simp)
  · have hparts : p ∈ [Part.timeFormat none, Part.rootFolder none] := hp
    simp only [List.mem_cons, List.not_mem_nil, or_false] at hparts
    rcases hparts with rfl | rfl
    · obtain ⟨s, hs, -⟩ := ht
      exact absurd hs (by simp)
    · exact absurd ht (by simp [Part.Throws])

/-! ### The stores -/

theorem stores_managed (w : World) : (config (managed w)).stores = (config w).stores := by
  unfold managed
  split
  · rfl
  · simp [config, created, subscribed, withLogger, withConfig]

theorem stores_loggedInternal (w : World) (level : LogLevel) (msg : String) :
    (config (loggedInternal w level msg)).stores = (config w).stores := by
  rw [← stores_managed w, loggedInternal]
  split
  · unfold logged
    split
    · split_ifs
      · rw [managed_managed]
        rfl
      · rfl
    · rfl
  · rfl

theorem stores_acted (w : World) (action : Action) :
    (config (acted w action)).stores = (config w).stores.apply action := by
  cases action with
  | logInternal level msg => exact stores_loggedInternal w level msg
  | addLoggerConfig name cfg => simp [acted, added, config]
  | clearLoggerConfigs => rfl
  | clearLevelConfigs => rfl
  | emplaceLevelConfig level config => rfl
  | setGlobalConfig config => rfl

theorem stores_actedAll : ∀ (actions : List Action) (w : World),
    (config (actedAll w actions)).stores = actions.foldl Stores.apply (config w).stores
  | [], _ => rfl
  | action :: actions, w => by
    rw [List.foldl_cons, ← stores_acted]
    exact stores_actedAll actions (acted w action)

/-- The stores that a document describes. -/
def built (root : Node) : Stores := (ParseDocument c (.node root)).events.foldl Stores.apply {}

/-- **A document that does not throw rebuilds the stores.** -/
theorem stores_loaded_of_ok (w : World) (ht : ¬ DocumentThrows root) :
    (config (loaded c root w)).stores = built c root := by
  obtain ⟨hloggers, hlevels, hglobal⟩ := resets c ht
  rw [loaded, stores_actedAll, built]
  generalize (config w).stores = s
  have h1 := foldl_forgets Stores.apply Stores.loggerConfigs
    (fun s t e h => by cases e <;> simp [Stores.apply, h]) (fun _ _ => rfl) hloggers s {}
  have h2 := foldl_forgets Stores.apply Stores.levelConfigs
    (fun s t e h => by cases e <;> simp [Stores.apply, h]) (fun _ _ => rfl) hlevels s {}
  have h3 := foldl_forgets Stores.apply Stores.globalConfig
    (fun s t e h => by cases e <;> simp [Stores.apply, h]) (fun _ _ => rfl) hglobal s {}
  cases hs : List.foldl Stores.apply s (ParseDocument c (.node root)).events
  cases ht : List.foldl Stores.apply {} (ParseDocument c (.node root)).events
  simp_all

end SampLogCore.Lifecycle.Loading
