import SampLogCore.Lib.Transition
import SampLogCore.Lifecycle.Refresh
import SampLogCore.Lifecycle.Runs

/-!
# Do reloads converge?

After any history of loads, constructions and destructions, a logger should have the configuration
that the last document gives for its name, or the default one. Four things keep it from that: its
name is no longer in the document, its callback is not its own because another logger of that name
was there first, or because that one took the callback with it when it was destroyed, or the
configuration was there before the logger and went to the other one. `converged_iff` says exactly
which runs converge.
-/

namespace SampLogCore.Lifecycle.Convergence

open SampLogCore.Lib.Transition SampLogCore.Lib.Emitting SampLogCore.Lib.Locking
  SampLogCore.Config.Yaml SampLogCore.Config.Settings SampLogCore.Config.Hazards
  SampLogCore.Config.Warnings SampLogCore.Lifecycle.Library
  SampLogCore.Lifecycle.Effects SampLogCore.Lifecycle.WellFormed SampLogCore.Lifecycle.Loading
  SampLogCore.Lifecycle.Operations SampLogCore.Lifecycle.Runs SampLogCore.Lifecycle.Refresh

/-- An operation on the configuration or on a logger. -/
inductive Operation
  /-- `ParseConfigFile`, on this document -/
  | parse (root : Node)
  | construct (module_name : String)
  | destroy (logger : LoggerId)
  /-- `LogManager::Get`, which constructs the internal logger -/
  | getLogManager

/-- The library, and the document that was loaded last. -/
structure State where
  world : World := {}
  document : Option Node := none

variable (c : Conversions) {s t : State} {w : World}

/-- What an operation runs. -/
def Operation.code : Operation → Code Unit
  | .parse root => do
    let _ ← LogConfig.Get
    ParseConfigFile c (.document root)
  | .construct module_name => do
    let _ ← Logger.new module_name
  | .destroy logger => Logger.delete logger
  | .getLogManager => do
    let _ ← LogManager.Get

/-- A logger is destroyed by its owner, with no message of it in the queue. -/
def Operation.Allowed (w : World) : Operation → Prop
  | .destroy logger => PluginLogger w logger ∧ NoPending w logger
  | _ => True

/-- The document after an operation. -/
def Operation.document (document : Option Node) : Operation → Option Node
  | .parse root => some root
  | _ => document

/-- Operations that run to completion, from the start of the process. -/
def operations : System State Operation where
  Init s := s = {}
  Step s op t := op.Allowed s.world ∧ op.code c [] s.world = .ok () t.world ∧
    t.document = op.document s.document

/-- What a document has for a name. -/
def entry (document : Option Node) (name : String) : Option LoggerConfig :=
  document.bind fun root => (built c root).loggerConfigs name

/-- The configuration that a document gives for a name: the default one without an entry. -/
def given (document : Option Node) (name : String) : LoggerConfig := (entry c document name).getD {}

/-- **Every logger has what the last document gives for its name.** -/
def Converged (s : State) : Prop :=
  ∀ i l, s.world.loggers i = some l → l.config = given c s.document l.moduleName

/-- A new logger of this name gets what the document gives. -/
def Reaches (s : State) (name : String) : Prop :=
  events s.world name = none ∨ given c s.document name = {}

/-- The operation leaves no logger behind. -/
def KeepsUp (s : State) : Operation → Prop
  | .parse root => ∀ i l, s.world.loggers i = some l →
      (events s.world l.moduleName = some i ∧ (entry c (some root) l.moduleName).isSome = true) ∨
        given c s.document l.moduleName = given c (some root) l.moduleName
  | .construct module_name => Reaches c s module_name
  | .destroy _ => True
  | .getLogManager => s.world.logManager.isSome = true ∨ Reaches c s "log-core"

/-- `LogConfig` has what the last document describes. -/
structure UpToDate (s : State) : Prop where
  wf : Wf s.world
  configs : configs s.world = entry c s.document

theorem upToDate_init : UpToDate c {} := ⟨wf_init, rfl⟩

theorem converged_init : Converged c {} := fun _ _ h => absurd h (by simp)

/-! ### Construction -/

/-- A new logger is constructed with what `LogConfig` has for its name, if no callback is in its
way. -/
theorem converged_created_iff (hs : UpToDate c s) (hp : Converged c s) (name : String) :
    (∀ i l, (created s.world name).loggers i = some l →
      l.config = given c s.document l.moduleName) ↔ Reaches c s name := by
  have hentry : (configs s.world name).getD {} = given c s.document name := by
    rw [hs.configs]
    rfl
  constructor
  · intro h
    by_cases he : events s.world name = none
    · exact .inl he
    · have hnew := created_loggers hs.wf name s.world.nextLogger
      rw [if_pos rfl, if_neg he] at hnew
      exact .inr (h _ _ hnew).symm
  · intro h i l hl
    rw [created_loggers hs.wf] at hl
    by_cases hi : i = s.world.nextLogger
    · rw [if_pos hi] at hl
      obtain rfl := Option.some.inj hl
      dsimp only [newLogger]
      split_ifs with he
      · exact hentry
      · exact (h.resolve_left he).symm
    · rw [if_neg hi] at hl
      obtain ⟨old, hold, rfl⟩ := Option.map_eq_some_iff.mp hl
      have hconfig := hp i old hold
      split_ifs with hcall
      · -- the logger that is called back is the old one of the name
        obtain rfl := Wf.moduleName hs.wf hold hcall
        change (configs s.world old.moduleName).getD old.config = given c s.document old.moduleName
        rw [hconfig, hs.configs, given]
        cases entry c s.document old.moduleName <;> rfl
      · exact hconfig

theorem upToDate_created (hs : UpToDate c s) (name : String) :
    UpToDate c ⟨created s.world name, s.document⟩ := by
  refine ⟨wf_created hs.wf name, ?_⟩
  rw [configs_created, hs.configs]

/-! ### Loading -/

theorem configs_loaded (w : World) {root : Node} (ht : ¬ DocumentThrows root) :
    configs (loaded c root w) = entry c (some root) := by
  rw [configs, stores_loaded_of_ok c w ht]
  rfl

/-- What a document gives for a name is what a logger of that name gets in a fresh process. -/
theorem created_fresh {root : Node} (hw : ¬ DocumentWarns root) (ht : ¬ DocumentThrows root)
    (name : String) :
    (created (loaded c root (withConfig {})) name).loggers
        (loaded c root (withConfig {})).nextLogger =
      some { newLogger (loaded c root (withConfig {})) name with
        config := given c (some root) name } := by
  have hwf := (kept_withConfig {}).wf wf_init
  have hnone : events (loaded c root (withConfig {})) name = none := by
    rw [(refreshed_loaded c hwf (.inr hw) ht).events]
    rfl
  rw [created_loggers ((kept_loaded c hwf).wf hwf), if_pos rfl, if_pos hnone, configs_loaded c _ ht]
  rfl

/-- A load leaves no logger behind when each of them is called back, or has nothing to change. -/
theorem converged_loaded_iff (hs : UpToDate c s) (hp : Converged c s) {root : Node}
    (hl : Loggable s.world (.document root)) (ht : ¬ DocumentThrows root) :
    Converged c ⟨loaded c root (withConfig s.world), some root⟩ ↔ KeepsUp c s (.parse root) := by
  have hrefreshed := refreshed_loaded c ((kept_withConfig s.world).wf hs.wf) hl ht
  have hloggers := hrefreshed.loggers
  rw [configs_loaded c _ ht] at hloggers
  have hgiven : ∀ l : Logger, entry c (some root) l.moduleName = none →
      given c (some root) l.moduleName = {} := by
    intro l hnone
    rw [given, hnone]
    rfl
  constructor
  · intro h i l hi
    have hnew := h i _ ((hloggers i).trans (congrArg _ hi))
    have hold := hp i l hi
    unfold refreshed at hnew
    split_ifs at hnew with hreg
    · cases he : entry c (some root) l.moduleName with
      | some cfg => exact .inl ⟨hreg, by simp⟩
      | none =>
        rw [he] at hnew
        exact .inr (hold.symm.trans hnew)
    · exact .inr (hold.symm.trans hnew)
  · intro h i l hi
    obtain ⟨old, hold, rfl⟩ := Option.map_eq_some_iff.mp ((hloggers i).symm.trans hi)
    have hconfig := hp i old hold
    unfold refreshed
    split_ifs with hreg
    · change (entry c (some root) old.moduleName).getD old.config =
        given c (some root) old.moduleName
      cases he : entry c (some root) old.moduleName with
      | some cfg => rw [given, he]; rfl
      | none =>
        rcases h i old hold with ⟨-, hsome⟩ | hsame
        · simp [he] at hsome
        · exact hconfig.trans hsame
    · rcases h i old hold with ⟨hreg', -⟩ | hsame
      · exact absurd hreg' hreg
      · exact hconfig.trans hsame

theorem upToDate_loaded (hs : UpToDate c s) {root : Node} (ht : ¬ DocumentThrows root) :
    UpToDate c ⟨loaded c root (withConfig s.world), some root⟩ := by
  have hw := (kept_withConfig s.world).wf hs.wf
  exact ⟨(kept_loaded c hw).wf hw, configs_loaded c _ ht⟩

/-! ### One operation -/

/-- An operation that is known to lead to `u` leads to `u`. -/
theorem eq_of_step {op : Operation} {u : World} (hu : op.code c [] s.world = .ok () u)
    (h : (operations c).Step s op t) : t = ⟨u, op.document s.document⟩ := by
  obtain ⟨-, hrun, hdocument⟩ := h
  rw [state_of_ok hu hrun, ← hdocument]

theorem parse_step (hs : UpToDate c s) {root : Node} (h : (operations c).Step s (.parse root) t) :
    Loggable s.world (.document root) ∧ ¬ DocumentThrows root ∧
      t = ⟨loaded c root (withConfig s.world), some root⟩ := by
  have hw := (kept_withConfig s.world).wf hs.wf
  have hrun : ParseConfigFile c (.document root) [] (withConfig s.world) = .ok () t.world := by
    rw [← h.2.1, Operation.code, run_bind_ok (run_logConfigGet _)]
  obtain ⟨hl, ht, hworld⟩ := parse_ok_inv c hw rfl hrun
  refine ⟨hl, ht, eq_of_step c ?_ h⟩
  rw [← hworld, h.2.1]

theorem construct_step (hs : UpToDate c s) {name : String}
    (h : (operations c).Step s (.construct name) t) : t = ⟨created s.world name, s.document⟩ :=
  eq_of_step c (run_bind_ok
    (run_loggerNew name (hs.wf.callable name) List.not_mem_nil List.not_mem_nil)) h

theorem getLogManager_step (hs : UpToDate c s) (h : (operations c).Step s .getLogManager t) :
    t = ⟨managed s.world, s.document⟩ := by
  obtain ⟨m, hget, -⟩ := hs.wf.run_logManagerGet
  exact eq_of_step c (run_bind_ok hget) h

theorem destroy_step {i : LoggerId} (h : (operations c).Step s (.destroy i) t) :
    ∃ l, s.world.loggers i = some l ∧ Unused s.world i ∧
      t = ⟨deleted s.world i l, s.document⟩ := by
  obtain ⟨⟨hsome, hinternal⟩, hpending⟩ := h.1
  obtain ⟨l, hl⟩ := Option.isSome_iff_exists.mp hsome
  have hcode : (Operation.destroy i).code c [] s.world = .ok () (deleted s.world i l) :=
    run_delete hl List.not_mem_nil
  exact ⟨l, hl, fun m hm => ⟨hinternal m hm, hpending m hm⟩, eq_of_step c hcode h⟩

/-- **What an operation does to the configurations of the loggers.** -/
theorem step_converged_iff (hs : UpToDate c s) (hp : Converged c s) {op : Operation}
    (h : (operations c).Step s op t) : Converged c t ↔ KeepsUp c s op := by
  cases op with
  | parse root =>
    obtain ⟨hl, ht, rfl⟩ := parse_step c hs h
    exact converged_loaded_iff c hs hp hl ht
  | construct name =>
    obtain rfl := construct_step c hs h
    exact converged_created_iff c hs hp name
  | destroy i =>
    obtain ⟨l, hl, -, rfl⟩ := destroy_step c h
    refine ⟨fun _ => trivial, fun _ j k hk => hp j k ?_⟩
    by_cases hj : j = i
    · rw [hj] at hk
      exact absurd hk (by simp [deleted])
    · simpa [deleted, Function.update_of_ne hj] using hk
  | getLogManager =>
    obtain rfl := getLogManager_step c hs h
    cases hm : s.world.logManager with
    | some m =>
      rw [managed_of_some hm, KeepsUp, hm]
      exact ⟨fun _ => .inl rfl, fun _ => hp⟩
    | none =>
      have hmanaged : (managed s.world).loggers = (created s.world "log-core").loggers := by
        simp [managed, hm]
      rw [Converged, KeepsUp, hm, hmanaged]
      simpa using converged_created_iff c hs hp "log-core"

theorem step_upToDate (hs : UpToDate c s) {op : Operation} (h : (operations c).Step s op t) :
    UpToDate c t := by
  cases op with
  | parse root =>
    obtain ⟨hl, ht, rfl⟩ := parse_step c hs h
    exact upToDate_loaded c hs ht
  | construct name =>
    obtain rfl := construct_step c hs h
    exact upToDate_created c hs name
  | destroy i =>
    obtain ⟨l, hl, hu, rfl⟩ := destroy_step c h
    exact ⟨(kept_deleted hl hu).wf hs.wf, hs.configs⟩
  | getLogManager =>
    obtain rfl := getLogManager_step c hs h
    refine ⟨(kept_managed s.world).wf hs.wf, ?_⟩
    rw [configs, stores_managed]
    exact hs.configs

/-! ### Runs -/

/-- **A run converges exactly when every operation of it keeps up.** -/
theorem converged_iff {r : List (Operation × State)} (h : (operations c).IsRun {} r) :
    (∀ p ∈ r, Converged c p.2) ↔ Along (KeepsUp c) {} r :=
  System.isRun_forall_iff (fun _ _ _ hs _ hst _ => step_upToDate c hs hst)
    (fun _ _ _ hs hp hst => step_converged_iff c hs hp hst) (upToDate_init c) (converged_init c) h

/-! ### Two runs -/

theorem step_parse (hs : UpToDate c s) {root : Node} (hl : Loggable s.world (.document root))
    (ht : ¬ DocumentThrows root) :
    (operations c).Step s (.parse root) ⟨loaded c root (withConfig s.world), some root⟩ := by
  refine ⟨trivial, ?_, rfl⟩
  rw [Operation.code, run_bind_ok (run_logConfigGet _)]
  exact parse_ok c ((kept_withConfig s.world).wf hs.wf) rfl hl ht

theorem step_construct (hs : UpToDate c s) (name : String) :
    (operations c).Step s (.construct name) ⟨created s.world name, s.document⟩ :=
  ⟨trivial, run_bind_ok
    (run_loggerNew name (hs.wf.callable name) List.not_mem_nil List.not_mem_nil), rfl⟩

theorem step_getLogManager (hs : UpToDate c s) :
    (operations c).Step s .getLogManager ⟨managed s.world, s.document⟩ := by
  obtain ⟨m, hget, -⟩ := hs.wf.run_logManagerGet
  exact ⟨trivial, run_bind_ok hget, rfl⟩

/-- A document that configures a logger. -/
def configured : Node :=
  .map [(.scalar "Logger", .map [(.scalar "test", .map [(.scalar "LogLevel", .scalar "All")])])]

theorem configured_not_throws : ¬ DocumentThrows configured := fun h =>
  not_throws_iff.mpr ⟨(), rfl⟩ ((throws_iff noConversions configured).mpr h)

/-- After `LogManager::Get` at the start of the process. -/
def started : State := ⟨managed {}, none⟩

/-- A logger is there, without a configuration. -/
def unconfigured : State := ⟨created started.world "test", none⟩

/-- A document that configures it has been loaded. -/
def reloaded : State :=
  ⟨loaded noConversions configured (withConfig unconfigured.world), some configured⟩

/-- A reload reaches a logger that is there. -/
theorem converged_reloaded : Converged noConversions reloaded ∧
    (∃ l, unconfigured.world.loggers 1 = some l ∧ l.config = {}) ∧
    ∃ l, reloaded.world.loggers 1 = some l ∧ l.config.Level = Levels.GetAllLogLevel := by
  have h1 : (operations noConversions).Step {} .getLogManager started :=
    step_getLogManager noConversions (upToDate_init _)
  have hs1 := step_upToDate noConversions (upToDate_init _) h1
  have h2 : (operations noConversions).Step started (.construct "test") unconfigured :=
    step_construct noConversions hs1 "test"
  have hs2 := step_upToDate noConversions hs1 h2
  have h3 : (operations noConversions).Step unconfigured (.parse configured) reloaded :=
    step_parse noConversions hs2 (.inl rfl) configured_not_throws
  have hrun : (operations noConversions).IsRun {} [(.getLogManager, started),
      (.construct "test", unconfigured), (.parse configured, reloaded)] := ⟨h1, h2, h3, trivial⟩
  refine ⟨(converged_iff noConversions hrun).mpr ⟨.inr (.inl rfl), .inl rfl, fun i l hl => ?_,
    trivial⟩ (.parse configured, reloaded) (by simp), ⟨_, rfl, rfl⟩, ⟨_, rfl, rfl⟩⟩
  -- both loggers have their callbacks and their entries
  have hloggers : i = 1 ∧ l.moduleName = "test" ∨ i = 0 ∧ l.moduleName = "log-core" := by
    have hl : (created started.world "test").loggers i = some l := hl
    rw [created_loggers hs1.wf, show started.world.nextLogger = 1 from rfl] at hl
    by_cases hi : i = 1
    · rw [if_pos hi] at hl
      exact .inl ⟨hi, (congrArg Logger.moduleName (Option.some.inj hl)).symm⟩
    · rw [if_neg hi] at hl
      obtain ⟨old, hold, rfl⟩ := Option.map_eq_some_iff.mp hl
      have hold : (created {} "log-core").loggers i = some old := hold
      rw [created_loggers wf_init] at hold
      by_cases hzero : i = 0
      · rw [if_pos hzero] at hold
        obtain rfl := Option.some.inj hold
        exact .inr ⟨hzero, by split_ifs <;> rfl⟩
      · rw [if_neg hzero] at hold
        simp at hold
  rcases hloggers with ⟨rfl, hname⟩ | ⟨rfl, hname⟩ <;> rw [hname] <;> exact .inl ⟨rfl, rfl⟩

/-- **A logger whose entry is removed keeps its old configuration.** -/
theorem not_converged :
    ¬ ∀ s, (operations noConversions).Reachable s → Converged noConversions s := by
  intro h
  let s1 : State := ⟨managed {}, none⟩
  let s2 : State := ⟨loaded noConversions configured (withConfig s1.world), some configured⟩
  let s3 : State := ⟨created s2.world "test", some configured⟩
  have h1 : (operations noConversions).Step {} .getLogManager s1 :=
    step_getLogManager noConversions (upToDate_init _)
  have hs1 := step_upToDate noConversions (upToDate_init _) h1
  have h2 : (operations noConversions).Step s1 (.parse configured) s2 :=
    step_parse noConversions hs1 (.inl rfl) configured_not_throws
  have hs2 := step_upToDate noConversions hs1 h2
  have h3 : (operations noConversions).Step s2 (.construct "test") s3 :=
    step_construct noConversions hs2 "test"
  have hs3 := step_upToDate noConversions hs2 h3
  have hm : s3.world.logManager.isSome = true :=
    (kept_created s2.world "test").logManager
      ((kept_loaded noConversions ((kept_withConfig _).wf hs1.wf)).logManager rfl)
  have h4 := step_parse noConversions hs3 (.inl hm) null_not_throws
  have hr3 : (operations noConversions).Reachable s3 := .next (.next (.next (.init rfl) h1) h2) h3
  have hkeeps := (step_converged_iff noConversions hs3 (h s3 hr3) h4).mp (h _ (.next hr3 h4))
  have hnew := created_loggers hs2.wf "test" s2.world.nextLogger
  rw [if_pos rfl] at hnew
  rcases hkeeps _ _ hnew with ⟨-, hentry⟩ | hgiven
  · exact absurd hentry (by decide)
  · exact absurd hgiven (by decide)

end SampLogCore.Lifecycle.Convergence
