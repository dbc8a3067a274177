import SampLogCore.Lib.Registry
import SampLogCore.Lifecycle.Convergence

/-!
# The registry of the rotation

`LogRotationManager` has its entries by the paths of the log files, `LogConfig` its callbacks by the
names of the loggers. Two live loggers can have one path: the name may be there twice, or the folder
and the name of one may be split otherwise in the other. A callback then writes the entry of both,
and the destruction of one erases it.

`table` shows the library as a registry; what an operation does to it is a list of updates, an
object that comes or one that goes. `registered_iff` says in which runs the entries are those of the
live loggers.
-/

namespace SampLogCore.Lifecycle.Registration

open SampLogCore.Lib.Transition SampLogCore.Lib.Registry SampLogCore.Lib.Emitting
  SampLogCore.Config.Yaml SampLogCore.Config.Settings SampLogCore.Config.Document
  SampLogCore.Config.Hazards SampLogCore.Config.Rounds SampLogCore.Config.Warnings
  SampLogCore.Config.Rebuilding SampLogCore.Lifecycle.Library
  SampLogCore.Lifecycle.Effects SampLogCore.Lifecycle.WellFormed SampLogCore.Lifecycle.Loading
  SampLogCore.Lifecycle.Operations SampLogCore.Lifecycle.Runs SampLogCore.Lifecycle.Refresh
  SampLogCore.Lifecycle.Convergence

variable {w t : World} (c : Conversions)

/-- **The entries are those of the live loggers.** -/
structure Registered (w : World) : Prop where
  /-- an entry is the current configuration of a live logger -/
  live : ∀ p cfg, entries w p = some cfg → ∃ i l, w.loggers i = some l ∧ l.logFilePath = p ∧
    l.config.Rotation.type ≠ .NONE ∧ l.config.Rotation = cfg
  /-- a live logger with a rotation has an entry -/
  entry : ∀ i l, w.loggers i = some l → l.config.Rotation.type ≠ .NONE →
    (entries w l.logFilePath).isSome = true

/-! ### The library as a registry -/

/-- What a logger with this configuration is registered for. -/
def rotation (cfg : LoggerConfig) : Option LogRotationConfig :=
  if cfg.Rotation.type ≠ .NONE then some cfg.Rotation else none

theorem rotation_eq_some {cfg : LoggerConfig} {r : LogRotationConfig} :
    rotation cfg = some r ↔ cfg.Rotation.type ≠ .NONE ∧ cfg.Rotation = r := by
  unfold rotation
  split_ifs with h
  · simp [h]
  · simp [h]

theorem rotation_ne_none {cfg : LoggerConfig} :
    rotation cfg ≠ none ↔ cfg.Rotation.type ≠ .NONE := by
  simp [rotation]

/-- The loggers with their paths and rotations, and the entries. -/
def table (w : World) : Table LoggerId String LogRotationConfig where
  key i := (w.loggers i).map Logger.logFilePath
  wants i := (w.loggers i).bind fun l => rotation l.config
  entries := entries w

theorem table_congr (hl : t.loggers = w.loggers)
    (he : t.logRotationManager = w.logRotationManager) : table t = table w := by
  simp only [table, entries, hl, he]

theorem registered_iff_matches : Registered w ↔ (table w).Matches := by
  constructor
  · rintro ⟨hlive, hentry⟩
    refine ⟨fun p cfg hcfg => ?_, fun i p hi hwants => ?_⟩
    · obtain ⟨i, l, hl, hp, htype, hr⟩ := hlive p cfg hcfg
      exact ⟨i, by simp [table, hl, hp], by simp [table, hl, rotation_eq_some.mpr ⟨htype, hr⟩]⟩
    · obtain ⟨l, hl, rfl⟩ := Option.map_eq_some_iff.mp hi
      have htype := rotation_ne_none.mp (by simpa [table, hl] using hwants)
      exact Option.isSome_iff_ne_none.mp (hentry i l hl htype)
  · rintro ⟨hlive, hentry⟩
    refine ⟨fun p cfg hcfg => ?_, fun i l hl htype => ?_⟩
    · obtain ⟨i, hi, hwants⟩ := hlive p cfg hcfg
      obtain ⟨l, hl, hp⟩ := Option.map_eq_some_iff.mp hi
      have hr := rotation_eq_some.mp (by simpa [table, hl] using hwants)
      exact ⟨i, l, hl, hp, hr⟩
    · refine Option.isSome_iff_ne_none.mpr (hentry i _ (by simp [table, hl]) ?_)
      simpa [table, hl] using rotation_ne_none.mpr htype

/-! ### Callbacks -/

/-- The update that a callback is. -/
def call (callback : Option LoggerId) (cfg : Option LoggerConfig) :
    List (LoggerId × Option LogRotationConfig) :=
  match callback, cfg with
  | some i, some cfg => [(i, rotation cfg)]
  | _, _ => []

/-- The updates that the callbacks of some names are. -/
def calls (callbacks : String → Option LoggerId) (configs : String → Option LoggerConfig)
    (names : List String) : List (LoggerId × Option LogRotationConfig) :=
  names.flatMap fun name => call (callbacks name) (configs name)

theorem table_calledBack (w : World) (callback : Option LoggerId) (cfg : Option LoggerConfig) :
    table (calledBack w callback cfg) = (table w).updates (call callback cfg) := by
  cases callback with
  | none => rfl
  | some i =>
    cases cfg with
    | none => rfl
    | some cfg =>
      cases hl : w.loggers i with
      | none =>
        have hsame : calledBack w (some i) (some cfg) = w := by simp only [calledBack, hl]
        rw [hsame]
        change table w = (table w).update i (rotation cfg)
        rw [Table.update_eq_self (by simp [table, hl])]
      | some l =>
        have hupdated : calledBack w (some i) (some cfg) = updated w i l cfg := by
          simp only [calledBack, hl]
        rw [hupdated]
        change table (updated w i l cfg) = (table w).update i (rotation cfg)
        have hkey : (table w).key i = some l.logFilePath := by simp [table, hl]
        have hkeys : (fun j => ((updated w i l cfg).loggers j).map Logger.logFilePath) =
            (table w).key := by
          funext j
          by_cases hj : j = i
          · subst hj
            simp [updated, table, hl]
          · simp [updated, table, Function.update_of_ne hj]
        have hwants : (fun j => ((updated w i l cfg).loggers j).bind fun l => rotation l.config) =
            Function.update (table w).wants i (rotation cfg) := by
          funext j
          by_cases hj : j = i
          · subst hj
            simp [updated]
          · simp [updated, table, Function.update_of_ne hj]
        rw [Table.update_eq hkey]
        simp only [table] at hkeys hwants ⊢
        rw [hkeys, hwants]
        rfl

/-! ### Construction and destruction -/

theorem table_withLogger (w : World) (name : String) :
    table (withLogger w name) = (table w).add w.nextLogger (newLogger w name).logFilePath := by
  have hkeys : (fun j => ((withLogger w name).loggers j).map Logger.logFilePath) =
      Function.update (table w).key w.nextLogger (some (newLogger w name).logFilePath) := by
    funext j
    by_cases hj : j = w.nextLogger
    · subst hj
      simp [withLogger]
    · simp [withLogger, table, Function.update_of_ne hj]
  have hwants : (fun j => ((withLogger w name).loggers j).bind fun l => rotation l.config) =
      Function.update (table w).wants w.nextLogger none := by
    funext j
    by_cases hj : j = w.nextLogger
    · subst hj
      simp [withLogger, newLogger, rotation]
    · simp [withLogger, table, Function.update_of_ne hj]
  simp only [table, Table.add] at hkeys hwants ⊢
  rw [hkeys, hwants]
  rfl

/-- The callback of a construction. -/
def subscription (w : World) (name : String) : List (LoggerId × Option LogRotationConfig) :=
  calls (emplace (events w) name w.nextLogger) (configs w) [name]

theorem table_created (w : World) (name : String) : table (created w name) =
    ((table w).add w.nextLogger (newLogger w name).logFilePath).updates (subscription w name) := by
  rw [created, subscribed, table_calledBack, ← table_withLogger]
  simp [subscription, calls, configs, events, config, withLogger, withConfig]
  rfl

theorem table_deleted {i : LoggerId} {l : Logger} (hl : w.loggers i = some l) :
    table (deleted w i l) = (table w).remove i := by
  have hkey : (table w).key i = some l.logFilePath := by simp [table, hl]
  have hkeys : (fun j => ((deleted w i l).loggers j).map Logger.logFilePath) =
      Function.update (table w).key i none := by
    funext j
    by_cases hj : j = i
    · subst hj
      simp [deleted]
    · simp [deleted, table, Function.update_of_ne hj]
  have hwants : (fun j => ((deleted w i l).loggers j).bind fun l => rotation l.config) =
      Function.update (table w).wants i none := by
    funext j
    by_cases hj : j = i
    · subst hj
      simp [deleted]
    · simp [deleted, table, Function.update_of_ne hj]
  rw [Table.remove_eq hkey]
  simp only [table] at hkeys hwants ⊢
  rw [hkeys, hwants]
  rfl

/-! ### Loading -/

/-- The names that the actions of the loader add, in order. -/
def addedNames (actions : List Action) : List String :=
  actions.filterMap fun action =>
    match action with
    | .addLoggerConfig name _ => some name
    | _ => none

section Acted

variable {action : Action} (hm : t.logManager.isSome = true ∨ ¬ IsLog action)
include hm

theorem events_acted : events (acted t action) = events t := by
  cases action with
  | logInternal level msg =>
    change events (loggedInternal t level msg) = events t
    rw [loggedInternal_eq (hm.resolve_right (· trivial)) level msg]
    rfl
  | addLoggerConfig name cfg => simp [events, config, acted, added]
  | clearLoggerConfigs => rfl
  | clearLevelConfigs => rfl
  | emplaceLevelConfig level config => rfl
  | setGlobalConfig config => rfl

/-- An action updates the registry by the callback of the name that it adds. -/
theorem table_acted : table (acted t action) =
    (table t).updates (calls (events t) (configs (acted t action)) (addedNames [action])) := by
  cases action with
  | logInternal level msg =>
    change table (loggedInternal t level msg) = table t
    rw [loggedInternal_eq (hm.resolve_right (· trivial)) level msg]
    rfl
  | addLoggerConfig name cfg =>
    change table (added t name cfg) = _
    rw [added, table_calledBack]
    simp [calls, addedNames, configs, config, events, acted, added]
    rfl
  | clearLoggerConfigs => rfl
  | clearLevelConfigs => rfl
  | emplaceLevelConfig level config => rfl
  | setGlobalConfig config => rfl

end Acted

/-- What has been added stays, and so does what a name that is added now gets. -/
theorem configs_acted {action : Action} (hclear : action ≠ .clearLoggerConfigs) {name : String}
    {cfg : LoggerConfig} (h : configs t name = some cfg) :
    configs (acted t action) name = some cfg := by
  rw [configs, stores_acted]
  cases action with
  | clearLoggerConfigs => exact absurd rfl hclear
  | addLoggerConfig name' cfg' =>
    by_cases hn : name = name'
    · subst hn
      change emplace (configs t) name cfg' name = some cfg
      rw [emplace_self, h]
      rfl
    · exact (emplace_of_ne _ _ hn).trans h
  | _ => exact h

theorem configs_actedAll : ∀ {actions : List Action} {t : World}, .clearLoggerConfigs ∉ actions →
    ∀ {name : String} {cfg : LoggerConfig}, configs t name = some cfg →
      configs (actedAll t actions) name = some cfg
  | [], _, _, _, _, h => h
  | action :: actions, t, hclear, name, cfg, h => by
    have hhead : action ≠ .clearLoggerConfigs := fun h => hclear (h ▸ List.mem_cons_self)
    exact configs_actedAll (t := acted t action) (fun h => hclear (List.mem_cons_of_mem _ h))
      (configs_acted hhead h)

/-- A name that an action adds has got its configuration for good. -/
theorem calls_actedAll {actions : List Action} (hclear : .clearLoggerConfigs ∉ actions)
    (callbacks : String → Option LoggerId) (action : Action) :
    calls callbacks (configs (acted t action)) (addedNames [action]) =
      calls callbacks (configs (actedAll (acted t action) actions)) (addedNames [action]) := by
  cases action with
  | addLoggerConfig name cfg =>
    have hsome : configs (acted t (.addLoggerConfig name cfg)) name =
        some ((configs t name).getD cfg) := by
      rw [configs, stores_acted]
      exact emplace_self _ _ _
    change calls _ _ [name] = calls _ _ [name]
    simp only [calls, List.flatMap_cons, List.flatMap_nil, hsome,
      configs_actedAll hclear hsome]
  | _ => rfl

/-- **What the actions of a load do to the registry.** -/
theorem table_actedAll : ∀ {actions : List Action} {t : World}, Wf t →
    .clearLoggerConfigs ∉ actions →
    (t.logManager.isSome = true ∨ ∀ action ∈ actions, ¬ IsLog action) →
    table (actedAll t actions) = (table t).updates
      (calls (events t) (configs (actedAll t actions)) (addedNames actions))
  | [], _, _, _, _ => rfl
  | action :: actions, t, ht, hclear, hm => by
    have hrest : .clearLoggerConfigs ∉ actions := fun h => hclear (List.mem_cons_of_mem _ h)
    have hlog : t.logManager.isSome = true ∨ ¬ IsLog action :=
      hm.imp_right fun h => h action List.mem_cons_self
    have hkept := kept_acted ht action
    have hnames : addedNames (action :: actions) = addedNames [action] ++ addedNames actions :=
      List.filterMap_append (l := [action])
    have hcalls := calls_actedAll (t := t) hrest (events t) action
    have ih := table_actedAll (t := acted t action) (hkept.wf ht) hrest
      (hm.imp hkept.logManager fun h a ha => h a (List.mem_cons_of_mem _ ha))
    rw [events_acted hlog, table_acted hlog, hcalls, ← Table.updates_append] at ih
    rw [hnames, calls, List.flatMap_append]
    exact ih

/-- The updates that a load of the document is. -/
def reload (w : World) (root : Node) : List (LoggerId × Option LogRotationConfig) :=
  calls (events w) (entry c (some root)) (addedNames (ParseDocument c (.node root)).events)

theorem table_loaded (hw : Wf w) {root : Node} (hl : Loggable w (.document root))
    (ht : ¬ DocumentThrows root) :
    table (loaded c root (withConfig w)) = (table w).updates (reload c w root) := by
  obtain ⟨rest, hevents, hrest⟩ := events_parseDocument c fun hs => ht (.inl hs)
  have hconfigs := configs_loaded c (withConfig w) ht
  have hw' := (kept_withConfig w).wf hw
  have hactions := Loggable.actions c (w := withConfig w) hl
  have hkept := kept_acted hw' .clearLoggerConfigs
  rw [loaded, hevents] at hconfigs
  rw [hevents] at hactions
  have h := table_actedAll (t := acted (withConfig w) .clearLoggerConfigs) (hkept.wf hw') hrest
    (hactions.imp hkept.logManager fun h a ha => h a (List.mem_cons_of_mem _ ha))
  rw [loaded, reload, hevents]
  rw [show actedAll (acted (withConfig w) .clearLoggerConfigs) rest =
    actedAll (withConfig w) (.clearLoggerConfigs :: rest) from rfl, hconfigs] at h
  exact h

/-! ### Operations -/

/-- The callback of a construction erases no entry that another logger needs. -/
def SubscriptionKeeps (w : World) (name : String) : Prop :=
  ((table w).add w.nextLogger (newLogger w name).logFilePath).Keeps (subscription w name)

/-- **The operation erases no entry that another logger needs**: where the last of its callbacks
for a path has no rotation, or where a logger goes, no other logger with this path has a rotation
then. -/
def KeepsEntries (s : State) : Operation → Prop
  | .parse root => (table s.world).Keeps (reload c s.world root)
  | .construct module_name => SubscriptionKeeps s.world module_name
  | .destroy i => ∀ l, s.world.loggers i = some l → ∀ j m, s.world.loggers j = some m → j ≠ i →
      m.logFilePath = l.logFilePath → m.config.Rotation.type = .NONE
  | .getLogManager => s.world.logManager.isSome = true ∨ SubscriptionKeeps s.world "log-core"

theorem registered_created_iff (hw : Wf w) (hr : Registered w) (name : String) :
    Registered (created w name) ↔ SubscriptionKeeps w name := by
  have hnone : w.loggers w.nextLogger = none := by
    by_contra h
    exact absurd rfl (hw.ne_nextLogger (i := w.nextLogger) (by simpa [names] using h))
  have hfresh : (table w).key w.nextLogger = none := by simp [table, hnone]
  have hadd :=
    Table.matches_add (registered_iff_matches.mp hr) hfresh (newLogger w name).logFilePath
  rw [registered_iff_matches, table_created, Table.matches_updates_iff hadd, SubscriptionKeeps]

theorem registered_deleted_iff (hr : Registered w) {i : LoggerId} {l : Logger}
    (hl : w.loggers i = some l) : Registered (deleted w i l) ↔
      ∀ j m, w.loggers j = some m → j ≠ i → m.logFilePath = l.logFilePath →
        m.config.Rotation.type = .NONE := by
  have hkey : (table w).key i = some l.logFilePath := by simp [table, hl]
  have hwants : ∀ {j m}, w.loggers j = some m →
      ((table w).wants j = none ↔ m.config.Rotation.type = .NONE) := by
    intro j m hm
    simp [table, hm, rotation]
  rw [registered_iff_matches, table_deleted hl,
    Table.matches_remove_iff hkey (registered_iff_matches.mp hr)]
  constructor
  · intro h j m hm hji hp
    exact (hwants hm).mp (h j hji (by simp [table, hm, hp]))
  · intro h j hji hj
    obtain ⟨m, hm, hp⟩ := Option.map_eq_some_iff.mp hj
    exact (hwants hm).mpr (h j m hm hji hp)

variable {s u : State}

/-- **What an operation does to the entries.** -/
theorem step_registered_iff (hs : UpToDate c s) (hr : Registered s.world) {op : Operation}
    (h : (operations c).Step s op u) : Registered u.world ↔ KeepsEntries c s op := by
  cases op with
  | parse root =>
    obtain ⟨hl, ht, rfl⟩ := parse_step c hs h
    rw [registered_iff_matches, table_loaded c hs.wf hl ht,
      Table.matches_updates_iff (registered_iff_matches.mp hr), KeepsEntries]
  | construct name =>
    obtain rfl := construct_step c hs h
    exact registered_created_iff hs.wf hr name
  | destroy i =>
    obtain ⟨l, hl, -, rfl⟩ := destroy_step c h
    rw [KeepsEntries, registered_deleted_iff hr hl]
    constructor
    · intro hnone l' hl'
      obtain rfl := Option.some.inj (hl.symm.trans hl')
      exact hnone
    · exact fun hnone => hnone l hl
  | getLogManager =>
    obtain rfl := getLogManager_step c hs h
    cases hm : s.world.logManager with
    | some m =>
      rw [managed_of_some hm, KeepsEntries, hm]
      exact ⟨fun _ => .inl rfl, fun _ => hr⟩
    | none =>
      have htable : table (managed s.world) = table (created s.world "log-core") :=
        table_congr (by simp [managed, hm]) (by simp [managed, hm])
      rw [KeepsEntries, hm, registered_iff_matches, htable, ← registered_iff_matches]
      simpa using registered_created_iff hs.wf hr "log-core"

theorem registered_init : Registered ({} : State).world :=
  ⟨fun _ _ h => absurd h (by simp [entries]), fun _ _ h => absurd h (by simp)⟩

/-! ### Runs -/

/-- **In every state of a run the entries are those of the live loggers exactly when no operation
erases an entry that another logger needs.** -/
theorem registered_iff {r : List (Operation × State)} (h : (operations c).IsRun {} r) :
    (∀ p ∈ r, Registered p.2.world) ↔ Along (KeepsEntries c) {} r :=
  System.isRun_forall_iff (fun _ _ _ hs _ hst _ => step_upToDate c hs hst)
    (fun _ _ _ hs hr hst => step_registered_iff c hs hr hst) (upToDate_init c) registered_init h

/-! ### Two loggers of one name -/

/-- A document with a logger that is rotated every day. -/
def rotated : Node :=
  .map [(.scalar "Logger", .map [(.scalar "test", .map [(.scalar "LogLevel", .scalar "All"),
    (.scalar "LogRotation", .map [(.scalar "Type", .scalar "Date"),
      (.scalar "Trigger", .scalar "Daily")])])])]

theorem rotated_not_throws : ¬ DocumentThrows rotated := fun h =>
  not_throws_iff.mpr ⟨(), rfl⟩ ((throws_iff noConversions rotated).mpr h)

/-- After `LogManager::Get` at the start of the process. -/
def withManager : State := ⟨managed {}, none⟩

/-- The document has been loaded. -/
def rotatedLoaded : State :=
  ⟨loaded noConversions rotated (withConfig withManager.world), some rotated⟩

/-- A logger of the document. -/
def oneLogger : State := ⟨created rotatedLoaded.world "test", some rotated⟩

/-- A second logger of the name. -/
def twoLoggers : State := ⟨created oneLogger.world "test", some rotated⟩

theorem isRun_oneLogger : (operations noConversions).IsRun {} [(.getLogManager, withManager),
    (.parse rotated, rotatedLoaded), (.construct "test", oneLogger)] := by
  have h1 : (operations noConversions).Step {} .getLogManager withManager :=
    step_getLogManager noConversions (upToDate_init _)
  have hs1 := step_upToDate noConversions (upToDate_init _) h1
  have h2 : (operations noConversions).Step withManager (.parse rotated) rotatedLoaded :=
    step_parse noConversions hs1 (.inl rfl) rotated_not_throws
  have h3 : (operations noConversions).Step rotatedLoaded (.construct "test") oneLogger :=
    step_construct noConversions (step_upToDate noConversions hs1 h2) "test"
  exact ⟨h1, h2, h3, trivial⟩

/-- The internal logger is not rotated. -/
theorem withManager_wants (i : LoggerId) : (table withManager.world).wants i = none := by
  by_cases hi : i = 0
  · subst hi
    decide
  · have hloggers := created_loggers wf_init "log-core" i
    rw [if_neg hi] at hloggers
    simp [table, withManager, managed, hloggers]

/-- With one logger of the name the entry is that of the logger. -/
theorem registered_oneLogger : Registered oneLogger.world := by
  refine (registered_iff noConversions isRun_oneLogger).mpr ⟨.inr ?_, ?_, ?_, trivial⟩ _
    (List.mem_of_getLast? rfl)
  · exact Table.keeps_of_ne_none (by decide)
  · intro k i _ j _
    exact Table.wantsAfter_eq_none (withManager_wants j) (by decide)
  · exact Table.keeps_of_ne_none (by decide)

/-- **The destruction of a second logger erases the entry of the first.** -/
theorem not_registered :
    ¬ ∀ s, (operations noConversions).Reachable s → Registered s.world := by
  intro h
  obtain ⟨h1, h2, h3, -⟩ := isRun_oneLogger
  have hs1 := step_upToDate noConversions (upToDate_init _) h1
  have hs3 := step_upToDate noConversions (step_upToDate noConversions hs1 h2) h3
  have h4 : (operations noConversions).Step oneLogger (.construct "test") twoLoggers :=
    step_construct noConversions hs3 "test"
  have hs4 := step_upToDate noConversions hs3 h4
  have hr4 : (operations noConversions).Reachable twoLoggers :=
    .next (.next (.next (.next (.init rfl) h1) h2) h3) h4
  obtain ⟨l, hl⟩ : ∃ l, twoLoggers.world.loggers 2 = some l :=
    Option.isSome_iff_exists.mp (by decide)
  have hallowed : (Operation.destroy 2).Allowed twoLoggers.world := by
    refine ⟨⟨by decide, fun m hm => ?_⟩, fun m hm => ?_⟩
    · obtain rfl : (⟨[], 0⟩ : LogManager) = m := Option.some.inj hm
      decide
    · obtain rfl : (⟨[], 0⟩ : LogManager) = m := Option.some.inj hm
      exact nofun
  have h5 : (operations noConversions).Step twoLoggers (.destroy 2)
      ⟨deleted twoLoggers.world 2 l, some rotated⟩ :=
    ⟨hallowed, run_delete hl List.not_mem_nil, rfl⟩
  have hkeeps := (step_registered_iff noConversions hs4 (h _ hr4) h5).mp (h _ (.next hr4 h5))
  obtain ⟨m, hm⟩ : ∃ m, twoLoggers.world.loggers 1 = some m :=
    Option.isSome_iff_exists.mp (by decide)
  have hpath : (twoLoggers.world.loggers 1).map Logger.logFilePath =
      (twoLoggers.world.loggers 2).map Logger.logFilePath := by decide
  have hrotation : (twoLoggers.world.loggers 1).map (·.config.Rotation.type) = some .DATE := by
    decide
  rw [hm, hl] at hpath
  rw [hm] at hrotation
  have hnone := hkeeps l hl 1 m hm (by decide) (Option.some.inj hpath)
  exact absurd (hnone.symm.trans (Option.some.inj hrotation)) (by decide)

end SampLogCore.Lifecycle.Registration
