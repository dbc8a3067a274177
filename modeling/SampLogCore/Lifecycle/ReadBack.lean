import SampLogCore.Config.Written
import SampLogCore.Lib.Names
import SampLogCore.Lifecycle.Refresh
import SampLogCore.Lifecycle.Runs

/-!
# Written configurations

Loading the document of a configuration, in whatever state the library is, leaves exactly the
configuration in the stores, and logs nothing (**`written_loads`**).
-/

namespace SampLogCore.Lifecycle.ReadBack

open SampLogCore.Levels SampLogCore.Lib.Emitting SampLogCore.Lib.Number SampLogCore.Lib.Triples
  SampLogCore.Lib.Names SampLogCore.Lib.Names.Naming SampLogCore.Config.Yaml
  SampLogCore.Config.Settings SampLogCore.Config.Document SampLogCore.Config.Written
  SampLogCore.Config.Hazards SampLogCore.Config.Rounds SampLogCore.Config.Warnings
  SampLogCore.Config.Rebuilding SampLogCore.Lifecycle.Library SampLogCore.Lifecycle.Effects
  SampLogCore.Lifecycle.WellFormed SampLogCore.Lifecycle.Loading SampLogCore.Lifecycle.Refresh
  SampLogCore.Lifecycle.Runs

/-! ### The stores of a configuration -/

def loggerNaming : Naming LoggerName String where
  name := Subtype.val
  find := fun name => if h : name ≠ "" ∧ name ≠ "log-core" then some ⟨name, h⟩ else none
  find_eq_some := by
    intro name i
    by_cases h : name ≠ "" ∧ name ≠ "log-core"
    · rw [dif_pos h, Option.some.injEq]
      constructor
      · rintro rfl
        rfl
      · rintro rfl
        rfl
    · rw [dif_neg h]
      refine ⟨fun hn => absurd hn (by simp), ?_⟩
      rintro rfl
      exact absurd i.2 h

def levelNaming : Naming LevelName LogLevel where
  name := LevelName.level
  find := LevelName.ofLevel
  find_eq_some := by
    intro level n
    refine ⟨level_of_ofLevel, ?_⟩
    rintro rfl
    exact ofLevel_level n

/-- The configuration of the internal logger stands before all others. -/
def withInternal (loggers : String → Option LoggerConfig) : String → Option LoggerConfig :=
  fun name => if name = "log-core" then some GetInternalLogConfig else loggers name

/-- What the stores hold for a configuration. -/
def storesOf (conf : Configuration) : Stores where
  loggerConfigs := withInternal (loggerNaming.map LoggerSettings.config conf.loggers)
  levelConfigs := levelNaming.map LogLevelConfig.mk conf.levels
  globalConfig := conf.global.config

theorem emplace_eq_join {κ α : Type} [DecidableEq κ] (map : κ → Option α) (key : κ) (a : α) :
    emplace map key a = join map key a := by
  funext k
  unfold join
  by_cases hk : key = k
  · subst hk
    rw [emplace_self, if_pos rfl]
    rcases map key with _ | b <;> rfl
  · rw [emplace_of_ne map a (Ne.symm hk), if_neg hk, Option.or_none]

/-- The internal logger stays in front. -/
theorem join_withInternal (loggers : String → Option LoggerConfig) (name : LoggerName)
    (cfg : LoggerConfig) :
    join (withInternal loggers) name.1 cfg = withInternal (join loggers name.1 cfg) := by
  funext k
  unfold join withInternal
  by_cases hk : k = "log-core"
  · rw [if_pos hk, if_pos hk]
    rfl
  · rw [if_neg hk, if_neg hk]

theorem emplace_internal :
    emplace (fun _ => none) "log-core" GetInternalLogConfig = withInternal fun _ => none := by
  funext k
  rw [emplace_eq_join]
  unfold join withInternal
  by_cases hk : k = "log-core"
  · rw [if_pos hk, if_pos hk.symm]
    rfl
  · rw [if_neg hk, if_neg (Ne.symm hk)]
    rfl

/-! ### Reading back -/

theorem foldl_loggers : ∀ (es : List (Sigma fun _ : LoggerName => LoggerSettings)) (s : Stores)
    (loggers : String → Option LoggerConfig), s.loggerConfigs = withInternal loggers →
      (es.map fun e => Action.addLoggerConfig e.1 e.2.config).foldl Stores.apply s =
        { s with loggerConfigs := withInternal <|
            es.foldl (fun m e => join m (loggerNaming.name e.1) e.2.config) loggers }
  | [], s, loggers, hs => by
    rw [List.foldl_nil, ← hs]
    rfl
  | e :: es, s, loggers, hs => by
    have hjoin : (s.apply (.addLoggerConfig e.1 e.2.config)).loggerConfigs =
        withInternal (join loggers e.1 e.2.config) := by
      rw [← join_withInternal, ← hs, ← emplace_eq_join]
      rfl
    rw [List.map_cons, List.foldl_cons, foldl_loggers es _ _ hjoin]
    rfl

theorem foldl_levels : ∀ (es : List (Sigma fun _ : LevelName => Bool)) (s : Stores),
    (es.map fun e => Action.emplaceLevelConfig e.1.level ⟨e.2⟩).foldl Stores.apply s =
      { s with levelConfigs :=
        es.foldl (fun m e => join m (levelNaming.name e.1) ⟨e.2⟩) s.levelConfigs }
  | [], _ => rfl
  | e :: es, s => by
    rw [List.map_cons, List.foldl_cons, foldl_levels es]
    simp only [Stores.apply, List.foldl_cons, emplace_eq_join]
    rfl

/-- **The actions of a configuration leave the configuration.** -/
theorem foldl_events (conf : Configuration) (s : Stores) :
    conf.events.foldl Stores.apply s = storesOf conf := by
  have hloggers := foldl_loggers conf.loggers.entries
    { s with loggerConfigs := withInternal fun _ => none } _ rfl
  have hmap : conf.loggers.entries.foldl
      (fun m e => join m (loggerNaming.name e.1) e.2.config) (fun _ => none) =
      loggerNaming.map LoggerSettings.config conf.loggers := by
    funext k
    rw [foldl_join]
    rfl
  have hlevels : conf.levels.entries.foldl
      (fun m e => join m (levelNaming.name e.1) (LogLevelConfig.mk e.2)) (fun _ => none) =
      levelNaming.map LogLevelConfig.mk conf.levels := by
    funext k
    rw [foldl_join]
    rfl
  have hinternal : (s.apply .clearLoggerConfigs).apply
      (.addLoggerConfig "log-core" GetInternalLogConfig) =
      { s with loggerConfigs := withInternal fun _ => none } := by
    simp only [Stores.apply, emplace_internal]
  unfold Configuration.events
  rw [List.foldl_cons, List.foldl_cons, hinternal, List.foldl_append, hloggers, hmap,
    List.foldl_cons, List.foldl_append, foldl_levels]
  simp only [Stores.apply, hlevels]
  rfl

/-! ### Loading what was written -/

variable {c : Conversions} {w : World}

theorem not_documentThrows (hc : Lawful c) (conf : Configuration) :
    ¬ DocumentThrows conf.document := by
  rw [← throws_iff c, parseDocument_document hc]
  rintro ⟨e, he⟩
  exact absurd he (by simp)

/-- No action of a configuration is a message. -/
theorem not_isLog_events (conf : Configuration) : ∀ action ∈ conf.events, ¬ IsLog action := by
  intro action haction
  unfold Configuration.events globalEvents at haction
  simp only [List.mem_cons, List.mem_append, List.mem_map, List.not_mem_nil, or_false] at haction
  rcases haction with rfl | rfl | ⟨e, -, rfl⟩ | rfl | ⟨e, -, rfl⟩ | rfl | rfl | rfl | rfl | rfl |
    rfl <;> exact id

theorem not_documentWarns (hc : Lawful c) (conf : Configuration) :
    ¬ DocumentWarns conf.document := by
  rw [← warns_iff c, parseDocument_document hc]
  rintro ⟨action, haction, hlog⟩
  exact not_isLog_events conf action haction hlog

theorem actedAll_logManager : ∀ {actions : List Action} {w : World},
    (∀ action ∈ actions, ¬ IsLog action) →
      (actedAll w actions).logManager = w.logManager
  | [], _, _ => rfl
  | action :: actions, w, h => by
    have hhead := acted_logManager (w := w) (h action List.mem_cons_self)
    have hrest := actedAll_logManager (w := acted w action)
      fun a ha => h a (List.mem_cons_of_mem _ ha)
    exact hrest.trans hhead

/-- What a load of the written document gives. -/
structure Restored (conf : Configuration) (w t : World) : Prop where
  stores : (config t).stores = storesOf conf
  /-- no message is queued, and no instance of `LogManager` created to queue one -/
  silent : t.logManager = w.logManager
  loggers : ∀ name i l, events w name = some i → w.loggers i = some l →
    t.loggers i = some { l with config := ((storesOf conf).loggerConfigs name).getD l.config }

theorem restored_loaded (hc : Lawful c) (conf : Configuration) (hw : Wf w) :
    Restored conf w (loaded c conf.document w) := by
  have hthrows := not_documentThrows hc conf
  have hloggable : Loggable w (.document conf.document) := .inr (not_documentWarns hc conf)
  have hstores : (config (loaded c conf.document w)).stores = storesOf conf := by
    rw [stores_loaded_of_ok c w hthrows, built, parseDocument_document hc]
    exact foldl_events conf {}
  refine ⟨hstores, ?_, fun name i l hi hl => ?_⟩
  · rw [loaded, parseDocument_document hc]
    exact actedAll_logManager (not_isLog_events conf)
  · have hrefreshed := refreshed_loaded c hw hloggable hthrows
    have hname := Refresh.Wf.moduleName hw hl hi
    rw [hrefreshed.loggers i, hl, Option.map_some, refreshed, hname, if_pos hi, configs, hstores]

/-- The load of a written configuration returns. -/
theorem parse_document (hc : Lawful c) (conf : Configuration) (hw : Wf w)
    (hconfig : w.logConfig.isSome = true) :
    ParseConfigFile c (.document conf.document) [] w = .ok () (loaded c conf.document w) :=
  parse_ok c hw hconfig (.inr (not_documentWarns hc conf)) (not_documentThrows hc conf)

/-- **Loading what was written**: in any state of the library the load returns and queues no
message, the stores are exactly the configuration, and every logger that is called back has the
settings of its name. -/
theorem written_loads (hc : Lawful c) (conf : Configuration) (hw : Wf w)
    (hconfig : w.logConfig.isSome = true) :
    ∃ t, ParseConfigFile c (.document conf.document) [] w = .ok () t ∧ Restored conf w t :=
  ⟨_, parse_document hc conf hw hconfig, restored_loaded hc conf hw⟩

/-- The conversions of decimal numbers, and of the flags that are written here. -/
def plainConversions : Conversions where
  asInt s := if s.toList = [] ∨ (strtol s.toList).2 ≠ [] then none else some (strtol s.toList).1
  asBool s := if s = "true" ∨ s = "yes" then some true
    else if s = "false" ∨ s = "no" then some false else none

theorem lawful_plainConversions : Lawful plainConversions where
  asInt_decimal := by
    intro n h0 h1
    have hread := strtol_formatD_int h0 h1
    have hne : formatD n ≠ [] := by
      unfold formatD
      split_ifs
      · exact List.cons_ne_nil _ _
      · exact Nat.toDigits_ne_nil
    simp [plainConversions, hread, hne]
  asInt_range := by
    intro s n h
    unfold plainConversions at h
    dsimp only at h
    split_ifs at h with hs
    obtain rfl := Option.some.inj h
    exact strtol_range s.toList
  asBool_true := rfl
  asBool_false := rfl

/-- Settings for one logger and one level. -/
def sample : Configuration where
  loggers := AList.singleton ⟨"plugins/mysql", by decide⟩
    ⟨⟨20, by decide⟩, true, false, .size ⟨5000, by decide⟩ ⟨3, by decide⟩⟩
  levels := AList.singleton .Debug true
  global := ⟨{ EnableColors := true }, rfl, by decide⟩

theorem written_loads_sample :
    ∃ t, ParseConfigFile plainConversions (.document sample.document) []
        { logConfig := some {} } = .ok () t ∧ Restored sample { logConfig := some {} } t :=
  written_loads lawful_plainConversions sample (kept_withConfig {} |>.wf wf_init) rfl

end SampLogCore.Lifecycle.ReadBack
