import SampLogCore.Lifecycle.Registration

/-!
# Callbacks on loggers that are gone

A reload on the thread of the file watcher against the construction and the destruction of loggers
on another thread, by steps: a critical section or an operation on one map each. The reload looks
the callback of a name up and calls it with `_configLock` held, but `UnsubscribeLogger` does not ask
for the mutex, so a destruction may run from its beginning to its end between the two.

`never_called_back` says which runs are without harm. A reload that nobody interrupts does what
`ParseConfigFile` does (`exec_running`).
-/

namespace SampLogCore.Lifecycle.Callbacks

open SampLogCore.Lib.Transition SampLogCore.Levels SampLogCore.Config.Yaml
  SampLogCore.Config.Settings SampLogCore.Config.Document SampLogCore.Config.Hazards
  SampLogCore.Config.Rounds SampLogCore.Lifecycle.Library SampLogCore.Lifecycle.Effects
  SampLogCore.Lifecycle.WellFormed SampLogCore.Lifecycle.Loading SampLogCore.Lifecycle.Operations
  SampLogCore.Lifecycle.Runs SampLogCore.Lifecycle.Refresh SampLogCore.Lifecycle.Registration

/-- The two threads. -/
inductive Holder
  | watcher
  | plugin

/-- Where the watcher is in `LogConfig::ParseConfigFile`. -/
inductive ReloadPc
  | idle
  /-- before the next of these actions, or at the release of `_configLock` -/
  | running (actions : List Action)
  /-- in `AddLoggerConfig`, at `_loggerConfigEvents.find` -/
  | lookUp (name : String) (config : LoggerConfig) (actions : List Action)
  /-- at `it->second(...)`, the callback of this logger -/
  | invoke (logger : LoggerId) (config : LoggerConfig) (actions : List Action)
  /-- in `OnConfigUpdate`, at `RegisterLogFile` -/
  | register (path : String) (config : LoggerConfig) (actions : List Action)
  /-- a logger that was gone has been called back -/
  | crashed

/-- Where the other thread is in the constructor or the destructor of a logger. -/
inductive PluginPc
  | idle
  /-- in `SubscribeLogger`, at `_loggerConfigEvents.emplace` -/
  | emplace (logger : LoggerId) (name : String)
  /-- at the `lock_guard`, with the callback that the map has -/
  | lock (callback : LoggerId) (name : String)
  /-- at `_loggerConfigs.find`, and at the callback if there is something -/
  | find (callback : LoggerId) (name : String)
  /-- in `OnConfigUpdate`, at `RegisterLogFile` -/
  | register (path : String) (config : LoggerConfig)
  /-- at the end of `SubscribeLogger` -/
  | unlock
  /-- in the destructor, at `UnsubscribeLogger` -/
  | unsubscribe (logger : LoggerId) (name path : String)
  /-- at `UnregisterLogFile` -/
  | unregister (logger : LoggerId) (name path : String)
  /-- at `while (_logCounter != 0)` -/
  | wait (logger : LoggerId) (name path : String)
  /-- a logger that was gone has been called back -/
  | crashed

/-- The library, the mutex, the threads, and the history. -/
structure State where
  world : World
  configLock : Option Holder := none
  watcher : ReloadPc := .idle
  plugin : PluginPc := .idle
  /-- history: the paths of the loggers that have been destroyed since the reload began -/
  gonePaths : List String := []
  /-- history: a callback has been invoked on a logger that was gone -/
  invokedGone : Bool := false
  /-- history: a reload has registered the path of a logger destroyed since the reload began -/
  putBack : Bool := false

/-- What happens next. -/
inductive Event
  /-- the watcher has loaded this document and acquires `_configLock` -/
  | reload (root : Node)
  /-- the watcher takes its next step -/
  | watcher
  /-- the other thread constructs a logger: `_logFilePath` is built from the global configuration -/
  | construct (name : String)
  /-- the other thread destroys a logger -/
  | destroy (logger : LoggerId)
  /-- the other thread takes its next step -/
  | plugin
  /-- the other thread logs a message -/
  | log (logger : LoggerId) (level : LogLevel) (msg : String)
  /-- the worker has run the first action of the queue -/
  | work

/-- After the first line of `OnConfigUpdate`. -/
def configured (w : World) (i : LoggerId) (l : Logger) (cfg : LoggerConfig) : World :=
  { w with loggers := Function.update w.loggers i (some { l with config := cfg }) }

/-- After `RegisterLogFile`. -/
def registeredAt (w : World) (path : String) (cfg : LoggerConfig) : World :=
  { w with logRotationManager := some (Function.update (entries w) path (rotation cfg)) }

/-- After `_loggerConfigEvents.emplace`. -/
def emplaced (w : World) (i : LoggerId) (name : String) : World :=
  { w with logConfig := some { config w with loggerConfigEvents := emplace (events w) name i } }

/-- After the memory of the logger has been given back. -/
def forgotten (w : World) (i : LoggerId) : World :=
  { w with loggers := Function.update w.loggers i none }

instance (w : World) (i : LoggerId) : Decidable (NoPending w i) :=
  decidable_of_iff (∀ q ∈ (w.logManager.map LogManager.queue).getD [], q.logger ≠ i) <| by
    cases hm : w.logManager <;> simp [NoPending, hm]

/-- The next step of the watcher. An exception of the document ends the process after its
actions. -/
def watcherStep (s : State) : Option State :=
  match s.watcher with
  | .idle => none
  | .running [] => some { s with configLock := none, watcher := .idle }
  | .running (.addLoggerConfig name cfg :: actions) =>
    let w := withStores s.world (·.apply (.addLoggerConfig name cfg))
    some { s with world := w, watcher := .lookUp name ((configs w name).getD cfg) actions }
  | .running (action :: actions) =>
    some { s with world := acted s.world action, watcher := .running actions }
  | .lookUp name cfg actions =>
    match events s.world name with
    | some i => some { s with watcher := .invoke i cfg actions }
    | none => some { s with watcher := .running actions }
  | .invoke i cfg actions =>
    match s.world.loggers i with
    | some l =>
      some { s with world := configured s.world i l cfg
                    watcher := .register l.logFilePath cfg actions }
    | none => some { s with invokedGone := true, watcher := .crashed }
  | .register path cfg actions =>
    some { s with
      world := registeredAt s.world path cfg
      watcher := .running actions
      putBack := s.putBack || (rotation cfg).isSome && decide (path ∈ s.gonePaths) }
  | .crashed => none

/-- The next step of the other thread. -/
def pluginStep (s : State) : Option State :=
  match s.plugin with
  | .idle => none
  | .emplace i name =>
    some { s with world := emplaced s.world i name
                  plugin := .lock ((events s.world name).getD i) name }
  | .lock callback name =>
    match s.configLock with
    | none => some { s with configLock := some .plugin, plugin := .find callback name }
    | some _ => none
  | .find callback name =>
    match configs s.world name with
    | none => some { s with plugin := .unlock }
    | some cfg =>
      match s.world.loggers callback with
      | some l =>
        some { s with world := configured s.world callback l cfg
                      plugin := .register l.logFilePath cfg }
      | none => some { s with invokedGone := true, plugin := .crashed }
  | .register path cfg =>
    some { s with world := registeredAt s.world path cfg, plugin := .unlock }
  | .unlock => some { s with configLock := none, plugin := .idle }
  | .unsubscribe i name path =>
    some { s with world := unsubscribed s.world name, plugin := .unregister i name path }
  | .unregister i name path =>
    some { s with world := unregistered s.world path, plugin := .wait i name path }
  | .wait i _ path =>
    if NoPending s.world i then
      some { s with world := forgotten s.world i, plugin := .idle
                    gonePaths := path :: s.gonePaths }
    else none
  | .crashed => none

variable (c : Conversions)

/-- **One step.** -/
def step (s : State) : Event → Option State
  | .reload root =>
    match s.watcher, s.configLock with
    | .idle, none =>
      some { s with configLock := some .watcher
                    watcher := .running (ParseDocument c (.node root)).events
                    gonePaths := [] }
    | _, _ => none
  | .watcher => watcherStep s
  | .construct name =>
    match s.plugin, s.configLock with
    | .idle, none =>
      some { s with world := withLogger s.world name
                    plugin := .emplace s.world.nextLogger name }
    | _, _ => none
  | .destroy i =>
    match s.plugin, s.world.loggers i with
    | .idle, some l => some { s with plugin := .unsubscribe i l.moduleName l.logFilePath }
    | _, _ => none
  | .plugin => pluginStep s
  | .log i level msg =>
    match s.plugin, s.world.loggers i with
    | .idle, some l =>
      if IsLogLevel l.config.Level level then
        some { s with world := enqueue s.world ⟨i, level, msg⟩ }
      else some s
    | _, _ => none
  | .work =>
    match s.world.logManager with
    | some ⟨_ :: queue, internalLogger⟩ =>
      some { s with world := { s.world with logManager := some ⟨queue, internalLogger⟩ } }
    | _ => none

/-- The library is running, and both threads are elsewhere. -/
def Quiet (s : State) : Prop :=
  Wf s.world ∧ s.world.logManager.isSome = true ∧ ∃ w : World, s = { world := w }

/-- **The transition system of the two threads.** -/
def system : System State Event := ofStep Quiet (step c)

/-! ### The runs without harm -/

/-- The destruction of the logger `i` may complete at this place of the watcher: no callback of `i`
is about to be invoked, and no rotation about to be registered for its path. -/
def Completes (w : World) (i : LoggerId) (path : String) : ReloadPc → Prop
  | .invoke j cfg _ => j ≠ i ∧
      ∀ m, w.loggers j = some m → m.logFilePath = path → rotation cfg = none
  | .register path' cfg _ => path' = path → rotation cfg = none
  | _ => True

/-- **No destruction completes while its callback is in flight**, and no reload looks up a callback
for the path of a logger that has been destroyed since the reload began. -/
def Orderly (s : State) : Event → Prop
  | .plugin => ∀ i name path, s.plugin = .wait i name path → Completes s.world i path s.watcher
  | .watcher => ∀ name cfg actions, s.watcher = .lookUp name cfg actions →
      ∀ i l, events s.world name = some i → s.world.loggers i = some l →
        l.logFilePath ∈ s.gonePaths → rotation cfg = none
  | _ => True

/-! ### What the steps leave alone -/

variable {w w' : World} {s t : State}

/-- The name and the path of a logger, which never change. -/
def ident (w : World) (i : LoggerId) : Option (String × String) :=
  (w.loggers i).map fun l => (l.moduleName, l.logFilePath)

theorem ident_eq_some {i : LoggerId} {name path : String} : ident w i = some (name, path) ↔
    ∃ l, w.loggers i = some l ∧ l.moduleName = name ∧ l.logFilePath = path := by
  simp [ident, Option.map_eq_some_iff]

/-- The same loggers, and the same callbacks. -/
structure Same (w w' : World) : Prop where
  ident : ident w' = ident w
  events : events w' = events w
  nextLogger : w'.nextLogger = w.nextLogger
  manager : w.logManager.isSome = true → w'.logManager.isSome = true

theorem same_configured {i : LoggerId} {l : Logger} (hl : w.loggers i = some l)
    (cfg : LoggerConfig) : Same w (configured w i l cfg) := by
  refine ⟨?_, rfl, rfl, id⟩
  funext j
  by_cases hj : j = i
  · subst hj
    simp [ident, configured, hl]
  · simp [ident, configured, Function.update_of_ne hj]

theorem same_registeredAt (w : World) (path : String) (cfg : LoggerConfig) :
    Same w (registeredAt w path cfg) := ⟨rfl, rfl, rfl, id⟩

theorem same_unregistered (w : World) (path : String) : Same w (unregistered w path) :=
  ⟨rfl, rfl, rfl, id⟩

theorem same_withStores (w : World) (f : Stores → Stores) : Same w (withStores w f) :=
  ⟨rfl, rfl, rfl, id⟩

theorem same_enqueue (w : World) (q : QueuedMessage) : Same w (enqueue w q) :=
  ⟨rfl, rfl, rfl, fun h => by simpa [enqueue] using h⟩

/-- An action that adds no configuration. -/
theorem same_acted (hm : w.logManager.isSome = true) {action : Action}
    (h : ∀ name cfg, action ≠ .addLoggerConfig name cfg) : Same w (acted w action) := by
  cases action with
  | logInternal level msg =>
    change Same w (loggedInternal w level msg)
    rw [loggedInternal_eq hm level msg]
    refine ⟨rfl, rfl, rfl, fun _ => ?_⟩
    obtain ⟨m, hm⟩ := Option.isSome_iff_exists.mp hm
    unfold loggedInternal
    rw [managed_of_some hm, hm]
    dsimp only
    unfold logged
    split
    · split_ifs
      · rw [managed_of_some hm]
        simp [enqueue, hm]
      · simp [hm]
    · simp [hm]
  | addLoggerConfig name cfg => exact absurd rfl (h name cfg)
  | clearLoggerConfigs => exact same_withStores w (·.apply .clearLoggerConfigs)
  | clearLevelConfigs => exact same_withStores w (·.apply .clearLevelConfigs)
  | emplaceLevelConfig level config =>
    exact same_withStores w (·.apply (.emplaceLevelConfig level config))
  | setGlobalConfig config => exact same_withStores w (·.apply (.setGlobalConfig config))

/-! ### The invariant -/

/-- A callback belongs to a logger of its name that is there. -/
structure Sound (w : World) : Prop where
  manager : w.logManager.isSome = true
  fresh : ∀ i, ident w i ≠ none → i < w.nextLogger
  callbacks : ∀ name i, events w name = some i → ∃ path, ident w i = some (name, path)

/-- The other thread has hold of loggers that are there; one that it destroys has no callback. -/
def PluginPc.Sound (w : World) : PluginPc → Prop
  | .emplace i name => ∃ path, ident w i = some (name, path)
  | .lock i _ | .find i _ => ident w i ≠ none
  | .unsubscribe i name path => ident w i = some (name, path)
  | .unregister i name path | .wait i name path =>
    ident w i = some (name, path) ∧ events w name = none
  | .crashed => False
  | _ => True

/-- The callback in flight is that of a logger that is there, and registers no path of one that is
gone. -/
def ReloadPc.Sound (w : World) (gonePaths : List String) : ReloadPc → Prop
  | .invoke i cfg _ => ∃ name path, ident w i = some (name, path) ∧
      (path ∈ gonePaths → rotation cfg = none)
  | .register path cfg _ => path ∈ gonePaths → rotation cfg = none
  | .crashed => False
  | _ => True

structure Inv (s : State) : Prop where
  world : Sound s.world
  plugin : s.plugin.Sound s.world
  watcher : s.watcher.Sound s.world s.gonePaths
  invokedGone : s.invokedGone = false
  putBack : s.putBack = false

section Same

variable (h : Same w w')
include h

theorem Sound.same (hw : Sound w) : Sound w' where
  manager := h.manager hw.manager
  fresh i := by
    rw [h.ident, h.nextLogger]
    exact hw.fresh i
  callbacks name i := by
    rw [h.ident, h.events]
    exact hw.callbacks name i

theorem PluginPc.Sound.same {pc : PluginPc} (hpc : pc.Sound w) : pc.Sound w' := by
  have heq : pc.Sound w' = pc.Sound w := by
    cases pc
    all_goals simp only [PluginPc.Sound, h.ident, h.events]
  rwa [heq]

theorem ReloadPc.Sound.same {pc : ReloadPc} {gonePaths : List String}
    (hpc : pc.Sound w gonePaths) : pc.Sound w' gonePaths := by
  have heq : pc.Sound w' gonePaths = pc.Sound w gonePaths := by
    cases pc
    all_goals simp only [ReloadPc.Sound, h.ident]
  rwa [heq]

end Same

/-! ### The watcher -/

theorem inv_watcherStep (hi : Inv s) (hc : Orderly s .watcher) (h : watcherStep s = some t) :
    Inv t := by
  -- a step to another place of the watcher, with the same loggers and callbacks
  have stay : ∀ {w : World} {pc : ReloadPc}, Same s.world w → pc.Sound w s.gonePaths →
      Inv { s with world := w, watcher := pc } := by
    intro w pc hsame hpc
    exact ⟨hi.world.same hsame, hi.plugin.same hsame, hpc, hi.invokedGone, hi.putBack⟩
  have hw := hi.watcher
  unfold watcherStep at h
  split at h
  · exact absurd h (by simp)
  · obtain rfl := Option.some.inj h
    exact ⟨hi.world, hi.plugin, trivial, hi.invokedGone, hi.putBack⟩
  · obtain rfl := Option.some.inj h
    exact stay (same_withStores _ _) trivial
  · rename_i action actions hadd _
    obtain rfl := Option.some.inj h
    exact stay (same_acted hi.world.manager hadd) trivial
  · rename_i name cfg actions hpc
    split at h
    · -- the callback that is found belongs to a logger that is there
      rename_i i hevent
      obtain rfl := Option.some.inj h
      obtain ⟨path, hident⟩ := hi.world.callbacks name i hevent
      obtain ⟨l, hl, -, hpath⟩ := ident_eq_some.mp hident
      refine ⟨hi.world, hi.plugin, ⟨name, path, hident, ?_⟩, hi.invokedGone, hi.putBack⟩
      rw [← hpath]
      exact hc name cfg actions hpc i l hevent hl
    · obtain rfl := Option.some.inj h
      exact ⟨hi.world, hi.plugin, trivial, hi.invokedGone, hi.putBack⟩
  · rename_i i cfg actions hpc
    rw [hpc] at hw
    obtain ⟨name, path, hident, hgone⟩ := hw
    obtain ⟨l, hl, -, rfl⟩ := ident_eq_some.mp hident
    rw [hl] at h
    obtain rfl := Option.some.inj h
    exact stay (same_configured hl cfg) hgone
  · rename_i path cfg actions hpc
    rw [hpc] at hw
    obtain rfl := Option.some.inj h
    have hsame := same_registeredAt s.world path cfg
    refine ⟨hi.world.same hsame, hi.plugin.same hsame, trivial, hi.invokedGone, ?_⟩
    by_cases hmem : path ∈ s.gonePaths
    · simp [hi.putBack, hw hmem]
    · simp [hi.putBack, hmem]
  · exact absurd h (by simp)

/-! ### The other thread -/

/-- A new logger leaves those that are there alone. -/
theorem ident_withLogger (hw : Sound w) (name : String) {i : LoggerId} (hi : ident w i ≠ none) :
    ident (withLogger w name) i = ident w i := by
  have hne : i ≠ w.nextLogger := (hw.fresh i hi).ne
  simp [ident, withLogger, Function.update_of_ne hne]

theorem ident_forgotten {i j : LoggerId} (hj : j ≠ i) : ident (forgotten w i) j = ident w j := by
  simp [ident, forgotten, Function.update_of_ne hj]

theorem sound_withLogger (hw : Sound w) (name : String) : Sound (withLogger w name) where
  manager := hw.manager
  fresh i hi := by
    have hnext : (withLogger w name).nextLogger = w.nextLogger + 1 := rfl
    rw [hnext]
    by_cases hne : i = w.nextLogger
    · exact hne ▸ Nat.lt_succ_self _
    · have hold : ident w i ≠ none := by
        simpa [ident, withLogger, Function.update_of_ne hne] using hi
      exact Nat.lt_succ_of_lt (hw.fresh i hold)
  callbacks name' i hi := by
    obtain ⟨path, hident⟩ := hw.callbacks name' i hi
    exact ⟨path, (ident_withLogger hw name (by simp [hident])).trans hident⟩

theorem sound_emplaced (hw : Sound w) {i : LoggerId} {name path : String}
    (hi : ident w i = some (name, path)) : Sound (emplaced w i name) where
  manager := hw.manager
  fresh := hw.fresh
  callbacks name' j hj := by
    have hj : emplace (events w) name i name' = some j := hj
    by_cases hn : name' = name
    · subst hn
      rw [emplace_self] at hj
      cases he : events w name' with
      | none =>
        rw [he] at hj
        obtain rfl := Option.some.inj hj
        exact ⟨path, hi⟩
      | some k =>
        rw [he] at hj
        obtain rfl := Option.some.inj hj
        exact hw.callbacks name' k he
    · rw [emplace_of_ne _ _ hn] at hj
      exact hw.callbacks name' j hj

theorem sound_unsubscribed (hw : Sound w) (name : String) : Sound (unsubscribed w name) where
  manager := hw.manager
  fresh := hw.fresh
  callbacks name' i hi := by
    have hi : Function.update (events w) name none name' = some i := hi
    by_cases hn : name' = name
    · subst hn
      rw [Function.update_self] at hi
      exact absurd hi (by simp)
    · rw [Function.update_of_ne hn] at hi
      exact hw.callbacks name' i hi

/-- A logger whose name has no callback may go. -/
theorem sound_forgotten (hw : Sound w) {i : LoggerId} {name path : String}
    (hi : ident w i = some (name, path)) (he : events w name = none) :
    Sound (forgotten w i) where
  manager := hw.manager
  fresh j hj := by
    refine hw.fresh j fun hnone => hj ?_
    by_cases hji : j = i
    · subst hji
      simp [ident, forgotten]
    · rw [ident_forgotten hji, hnone]
  callbacks name' j hj := by
    have hevent : events w name' = some j := hj
    obtain ⟨path', hident⟩ := hw.callbacks name' j hevent
    have hji : j ≠ i := by
      rintro rfl
      rw [hi, Option.some.injEq, Prod.mk.injEq] at hident
      rw [← hident.1, he] at hevent
      exact absurd hevent (by simp)
    exact ⟨path', (ident_forgotten hji).trans hident⟩

/-- Where the destruction of the logger may complete, the watcher has no hold of it. -/
theorem ReloadPc.Sound.forgotten {pc : ReloadPc} {gonePaths : List String} {i : LoggerId}
    {path : String} (hpc : pc.Sound w gonePaths) (hc : Completes w i path pc) :
    pc.Sound (forgotten w i) (path :: gonePaths) := by
  cases pc with
  | invoke j cfg actions =>
    obtain ⟨name', path', hj, hgone⟩ := hpc
    obtain ⟨hji, hpath⟩ := hc
    obtain ⟨m, hm, -, hmpath⟩ := ident_eq_some.mp hj
    refine ⟨name', path', (ident_forgotten hji).trans hj, fun hmem => ?_⟩
    rcases List.mem_cons.mp hmem with heq | hmem
    · exact hpath m hm (hmpath.trans heq)
    · exact hgone hmem
  | register path' cfg actions =>
    intro hmem
    rcases List.mem_cons.mp hmem with heq | hmem
    · exact hc heq
    · exact hpc hmem
  | crashed => exact hpc
  | idle | running actions | lookUp name' cfg actions => trivial

/-- A new logger does not matter to the watcher. -/
theorem ReloadPc.Sound.withLogger {pc : ReloadPc} {gonePaths : List String}
    (hw : Callbacks.Sound w) (name : String) (hpc : pc.Sound w gonePaths) :
    pc.Sound (withLogger w name) gonePaths := by
  cases pc with
  | invoke j cfg actions =>
    obtain ⟨name', path', hj, hgone⟩ := hpc
    exact ⟨name', path', (ident_withLogger hw name (by simp [hj])).trans hj, hgone⟩
  | register path' cfg actions => exact hpc
  | crashed => exact hpc
  | idle | running actions | lookUp name' cfg actions => trivial

theorem inv_pluginStep (hi : Inv s) (hc : Orderly s .plugin) (h : pluginStep s = some t) :
    Inv t := by
  have hp := hi.plugin
  unfold pluginStep at h
  split at h
  · exact absurd h (by simp)
  · rename_i i name hpc
    rw [hpc] at hp
    obtain ⟨path, hident⟩ := hp
    obtain rfl := Option.some.inj h
    refine ⟨sound_emplaced hi.world hident, ?_, hi.watcher, hi.invokedGone, hi.putBack⟩
    change ident s.world ((events s.world name).getD i) ≠ none
    cases he : events s.world name with
    | none => simp [hident]
    | some k =>
      obtain ⟨path', hk⟩ := hi.world.callbacks name k he
      simp [hk]
  · rename_i callback name hpc
    rw [hpc] at hp
    split at h
    · obtain rfl := Option.some.inj h
      exact ⟨hi.world, hp, hi.watcher, hi.invokedGone, hi.putBack⟩
    · exact absurd h (by simp)
  · rename_i callback name hpc
    rw [hpc] at hp
    split at h
    · obtain rfl := Option.some.inj h
      exact ⟨hi.world, trivial, hi.watcher, hi.invokedGone, hi.putBack⟩
    · rename_i cfg _
      obtain ⟨⟨_, _⟩, hident⟩ := Option.ne_none_iff_exists'.mp hp
      obtain ⟨l, hl, -⟩ := ident_eq_some.mp hident
      rw [hl] at h
      obtain rfl := Option.some.inj h
      have hsame := same_configured hl cfg
      exact ⟨hi.world.same hsame, trivial, hi.watcher.same hsame, hi.invokedGone, hi.putBack⟩
  · rename_i path cfg _
    obtain rfl := Option.some.inj h
    have hsame := same_registeredAt s.world path cfg
    exact ⟨hi.world.same hsame, trivial, hi.watcher.same hsame, hi.invokedGone, hi.putBack⟩
  · obtain rfl := Option.some.inj h
    exact ⟨hi.world, trivial, hi.watcher, hi.invokedGone, hi.putBack⟩
  · rename_i i name path hpc
    rw [hpc] at hp
    obtain rfl := Option.some.inj h
    exact ⟨sound_unsubscribed hi.world name, ⟨hp, Function.update_self _ _ _⟩, hi.watcher,
      hi.invokedGone, hi.putBack⟩
  · rename_i i name path hpc
    rw [hpc] at hp
    obtain rfl := Option.some.inj h
    have hsame := same_unregistered s.world path
    exact ⟨hi.world.same hsame, hp, hi.watcher.same hsame, hi.invokedGone, hi.putBack⟩
  · -- the end of the destruction: no callback of the logger is in flight
    rename_i i name path hpc
    rw [hpc] at hp
    obtain ⟨hident, he⟩ := hp
    have hcompletes := hc i name path hpc
    split_ifs at h
    obtain rfl := Option.some.inj h
    exact ⟨sound_forgotten hi.world hident he, trivial, hi.watcher.forgotten hcompletes,
      hi.invokedGone, hi.putBack⟩
  · exact absurd h (by simp)

/-! ### Runs -/

variable (c : Conversions)

/-- **Every orderly step keeps the invariant.** -/
theorem inv_step {e : Event} (hi : Inv s) (hc : Orderly s e) (h : step c s e = some t) :
    Inv t := by
  cases e with
  | reload root =>
    simp only [step] at h
    split at h
    · obtain rfl := Option.some.inj h
      exact ⟨hi.world, hi.plugin, trivial, hi.invokedGone, hi.putBack⟩
    · exact absurd h (by simp)
  | watcher => exact inv_watcherStep hi hc h
  | construct name =>
    simp only [step] at h
    split at h
    · obtain rfl := Option.some.inj h
      refine ⟨sound_withLogger hi.world name, ?_, hi.watcher.withLogger hi.world name,
        hi.invokedGone, hi.putBack⟩
      exact ⟨(newLogger s.world name).logFilePath, by simp [ident, withLogger, newLogger]⟩
    · exact absurd h (by simp)
  | destroy i =>
    simp only [step] at h
    split at h
    · rename_i l _ hl
      obtain rfl := Option.some.inj h
      exact ⟨hi.world, ident_eq_some.mpr ⟨l, hl, rfl, rfl⟩, hi.watcher, hi.invokedGone, hi.putBack⟩
    · exact absurd h (by simp)
  | plugin => exact inv_pluginStep hi hc h
  | log i level msg =>
    simp only [step] at h
    split at h
    · split_ifs at h
      · obtain rfl := Option.some.inj h
        have hsame := same_enqueue s.world ⟨i, level, msg⟩
        exact ⟨hi.world.same hsame, hi.plugin.same hsame, hi.watcher.same hsame, hi.invokedGone,
          hi.putBack⟩
      · obtain rfl := Option.some.inj h
        exact hi
    · exact absurd h (by simp)
  | work =>
    simp only [step] at h
    split at h
    · rename_i queue internalLogger _
      obtain rfl := Option.some.inj h
      have hsame : Same s.world { s.world with logManager := some ⟨queue, internalLogger⟩ } :=
        ⟨rfl, rfl, rfl, fun _ => rfl⟩
      exact ⟨hi.world.same hsame, hi.plugin.same hsame, hi.watcher.same hsame, hi.invokedGone,
        hi.putBack⟩
    · exact absurd h (by simp)

theorem inv_quiet (h : Quiet s) : Inv s := by
  obtain ⟨hw, hm, w, rfl⟩ := h
  refine ⟨⟨hm, fun i hi => ?_, fun name i hi => ?_⟩, trivial, trivial, rfl, rfl⟩
  · obtain ⟨⟨name, path⟩, hident⟩ := Option.ne_none_iff_exists'.mp hi
    obtain ⟨l, hl, rfl, -⟩ := ident_eq_some.mp hident
    exact hw.fresh i l.moduleName (names_eq_some.mpr ⟨l, hl, rfl⟩)
  · obtain ⟨l, hl, hname⟩ := names_eq_some.mp (hw.callbacks name i hi)
    exact ⟨l.logFilePath, ident_eq_some.mpr ⟨l, hl, hname, rfl⟩⟩

/-- **No logger is called back after its destruction, and no reload puts back its path**, in every
run in which no destruction completes while its callback is in flight. -/
theorem never_called_back (h : ((system c).restrict Orderly).Reachable s) :
    s.invokedGone = false ∧ s.putBack = false := by
  have hi : Inv s := by
    refine h.invariant (I := Inv) (fun s hs => inv_quiet hs) ?_
    rintro s e t hi ⟨hc, hst⟩
    exact inv_step c hi hc hst
  exact ⟨hi.invokedGone, hi.putBack⟩

/-! ### A reload alone -/

section Steps

variable {name path : String} {cfg : LoggerConfig} {action : Action} {actions : List Action}
  {i : LoggerId}

theorem step_running_nil (h : s.watcher = .running []) :
    step c s .watcher = some { s with configLock := none, watcher := .idle } := by
  rw [step, watcherStep, h]

theorem step_running_add (h : s.watcher = .running (.addLoggerConfig name cfg :: actions)) :
    step c s .watcher = some { s with
      world := withStores s.world (·.apply (.addLoggerConfig name cfg))
      watcher := .lookUp name ((configs s.world name).getD cfg) actions } := by
  have hstored :
      (configs (withStores s.world (·.apply (.addLoggerConfig name cfg))) name).getD cfg =
        (configs s.world name).getD cfg := by
    change (emplace (configs s.world) name cfg name).getD cfg = _
    rw [emplace_self]
    rfl
  rw [step, watcherStep, h]
  dsimp only
  rw [hstored]

theorem step_running (h : s.watcher = .running (action :: actions))
    (hadd : ∀ name cfg, action ≠ .addLoggerConfig name cfg) : step c s .watcher =
      some { s with world := acted s.world action, watcher := .running actions } := by
  rw [step, watcherStep, h]
  cases action with
  | addLoggerConfig name cfg => exact absurd rfl (hadd name cfg)
  | _ => rfl

theorem step_lookUp_none (h : s.watcher = .lookUp name cfg actions)
    (he : events s.world name = none) :
    step c s .watcher = some { s with watcher := .running actions } := by
  rw [step, watcherStep, h]
  dsimp only
  rw [he]

theorem step_lookUp_some (h : s.watcher = .lookUp name cfg actions)
    (he : events s.world name = some i) :
    step c s .watcher = some { s with watcher := .invoke i cfg actions } := by
  rw [step, watcherStep, h]
  dsimp only
  rw [he]

theorem step_invoke {l : Logger} (h : s.watcher = .invoke i cfg actions)
    (hl : s.world.loggers i = some l) : step c s .watcher = some { s with
      world := configured s.world i l cfg, watcher := .register l.logFilePath cfg actions } := by
  rw [step, watcherStep, h]
  dsimp only
  rw [hl]

theorem step_register (h : s.watcher = .register path cfg actions) (hgone : s.gonePaths = []) :
    step c s .watcher = some { s with
      world := registeredAt s.world path cfg, watcher := .running actions } := by
  rw [step, watcherStep, h]
  simp [hgone]

theorem step_register_gone (h : s.watcher = .register path cfg actions)
    (hgone : path ∈ s.gonePaths) (hr : rotation cfg ≠ none) :
    ∃ u, step c s .watcher = some u ∧ u.putBack = true := by
  refine ⟨{ s with
    world := registeredAt s.world path cfg, watcher := .running actions, putBack := true }, ?_, rfl⟩
  rw [step, watcherStep, h]
  simp [hgone, Option.isSome_iff_ne_none.mpr hr]

end Steps

/-- After some steps of the watcher a logger that was gone has been called back, or a path has been
put back. -/
def Harmed (s : State) : Prop :=
  ∃ n u, exec (step c) s (List.replicate n .watcher) = some u ∧
    (u.invokedGone = true ∨ u.putBack = true)

theorem harmed_next (h : step c s .watcher = some t) (ht : Harmed c t) : Harmed c s := by
  obtain ⟨n, u, hu, hharm⟩ := ht
  refine ⟨n + 1, u, ?_, hharm⟩
  rw [List.replicate_succ, exec, h]
  exact hu

theorem harmed_now (h : s.invokedGone = true ∨ s.putBack = true) : Harmed c s := ⟨0, s, rfl, h⟩

/-- The callback of a logger with the path of one that is gone. -/
theorem harmed_invoke {i : LoggerId} {l : Logger} {cfg : LoggerConfig} {actions : List Action}
    (h : s.watcher = .invoke i cfg actions) (hl : s.world.loggers i = some l)
    (hgone : l.logFilePath ∈ s.gonePaths) (hr : rotation cfg ≠ none) : Harmed c s := by
  refine harmed_next c (step_invoke c h hl) ?_
  obtain ⟨u, hu, hput⟩ := step_register_gone c (s := { s with
    world := configured s.world i l cfg, watcher := .register l.logFilePath cfg actions })
    rfl hgone hr
  exact harmed_next c hu (harmed_now c (.inr hput))

/-- **A step that is not orderly does harm**, if the watcher goes on. -/
theorem harmed_of_not_orderly {e : Event} (ho : ¬ Orderly s e) (h : step c s e = some t) :
    Harmed c t := by
  cases e with
  | plugin =>
    simp only [Orderly, not_forall] at ho
    obtain ⟨i, name, path, hp, hno⟩ := ho
    have h : pluginStep s = some t := h
    rw [pluginStep, hp] at h
    dsimp only at h
    split_ifs at h
    obtain rfl := Option.some.inj h
    cases hw : s.watcher with
    | invoke j cfg actions =>
      rw [hw, Completes] at hno
      by_cases hji : j = i
      · subst hji
        refine harmed_next c (t := { s with
          world := forgotten s.world j, plugin := .idle, gonePaths := path :: s.gonePaths
          invokedGone := true, watcher := .crashed }) ?_ (harmed_now c (.inl rfl))
        rw [step, watcherStep]
        simp [forgotten]
      · simp only [ne_eq, hji, not_false_eq_true, true_and, not_forall] at hno
        obtain ⟨m, hm, hpath, hr⟩ := hno
        have hlive : (forgotten s.world i).loggers j = some m := by
          rw [forgotten]
          exact (Function.update_of_ne hji _ _).trans hm
        exact harmed_invoke c rfl hlive (hpath ▸ List.mem_cons_self) hr
    | register path' cfg actions =>
      rw [hw, Completes] at hno
      simp only [not_forall] at hno
      obtain ⟨rfl, hr⟩ := hno
      obtain ⟨u, hu, hput⟩ := step_register_gone c (s := { s with
        world := forgotten s.world i, plugin := .idle, gonePaths := path' :: s.gonePaths
        watcher := .register path' cfg actions }) rfl List.mem_cons_self hr
      exact harmed_next c hu (harmed_now c (.inr hput))
    | idle | running actions | lookUp name' cfg actions | crashed =>
      rw [hw] at hno
      exact absurd trivial hno
  | watcher =>
    simp only [Orderly, not_forall] at ho
    obtain ⟨name, cfg, actions, hw, i, l, he, hl, hgone, hr⟩ := ho
    rw [step_lookUp_some c hw he] at h
    obtain rfl := Option.some.inj h
    exact harmed_invoke c rfl hl hgone hr
  | _ => exact absurd trivial ho

/-- The steps of `AddLoggerConfig`. -/
theorem exec_add {name : String} {cfg : LoggerConfig} {actions : List Action} (hw : Wf s.world)
    (hgone : s.gonePaths = []) (h : s.watcher = .running (.addLoggerConfig name cfg :: actions)) :
    ∃ k, ∀ n, exec (step c) s (List.replicate (n + k) .watcher) =
      exec (step c) { s with world := added s.world name cfg, watcher := .running actions }
        (List.replicate n .watcher) := by
  have hstored : emplace (configs s.world) name cfg name =
      some ((configs s.world name).getD cfg) := emplace_self _ _ _
  have hadded : added s.world name cfg =
      calledBack (withStores s.world (·.apply (.addLoggerConfig name cfg)))
        (events s.world name) (some ((configs s.world name).getD cfg)) := by
    rw [← hstored]
    rfl
  cases he : events s.world name with
  | none =>
    rw [he] at hadded
    have hlook := step_lookUp_none c (s := { s with
      world := withStores s.world (·.apply (.addLoggerConfig name cfg))
      watcher := .lookUp name ((configs s.world name).getD cfg) actions }) rfl he
    refine ⟨2, fun n => ?_⟩
    rw [List.replicate_succ, List.replicate_succ, exec, step_running_add c h, Option.bind_some,
      exec, hlook, Option.bind_some, hadded]
    rfl
  | some i =>
    obtain ⟨l, hl, -⟩ := names_eq_some.mp (hw.callbacks name i he)
    have hlogger : (withStores s.world (·.apply (.addLoggerConfig name cfg))).loggers i =
        some l := hl
    rw [he, calledBack, hlogger] at hadded
    have hlook := step_lookUp_some c (s := { s with
      world := withStores s.world (·.apply (.addLoggerConfig name cfg))
      watcher := .lookUp name ((configs s.world name).getD cfg) actions }) rfl he
    have hinvoke := step_invoke c (s := { s with
      world := withStores s.world (·.apply (.addLoggerConfig name cfg))
      watcher := .invoke i ((configs s.world name).getD cfg) actions }) rfl hlogger
    have hregister := step_register c (s := { s with
      world := configured (withStores s.world (·.apply (.addLoggerConfig name cfg))) i l
        ((configs s.world name).getD cfg)
      watcher := .register l.logFilePath ((configs s.world name).getD cfg) actions }) rfl hgone
    refine ⟨4, fun n => ?_⟩
    rw [List.replicate_succ, List.replicate_succ, List.replicate_succ, List.replicate_succ,
      exec, step_running_add c h, Option.bind_some, exec, hlook, Option.bind_some, exec, hinvoke,
      Option.bind_some, exec, hregister, Option.bind_some, hadded]
    rfl

/-- **A reload that nobody interrupts runs its actions**, and gives the mutex back. -/
theorem exec_running : ∀ {actions : List Action} {s : State}, Wf s.world →
    s.gonePaths = [] → s.watcher = .running actions →
    ∃ n, exec (step c) s (List.replicate n .watcher) = some { s with
      world := actedAll s.world actions, watcher := .idle, configLock := none }
  | [], s, _, _, h => by
    refine ⟨1, ?_⟩
    rw [List.replicate_one, exec, step_running_nil c h]
    rfl
  | action :: actions, s, hw, hgone, h => by
    have hkept := kept_acted hw action
    obtain ⟨n, hn⟩ := exec_running (s := { s with
      world := acted s.world action, watcher := .running actions }) (hkept.wf hw) hgone rfl
    by_cases hadd : ∃ name cfg, action = .addLoggerConfig name cfg
    · obtain ⟨name, cfg, rfl⟩ := hadd
      obtain ⟨k, hk⟩ := exec_add c hw hgone h
      exact ⟨n + k, (hk n).trans hn⟩
    · refine ⟨n + 1, ?_⟩
      rw [List.replicate_succ, exec,
        step_running c h fun name cfg heq => hadd ⟨name, cfg, heq⟩, Option.bind_some]
      exact hn

/-- **It does what `ParseConfigFile` does.** -/
theorem exec_reload (hs : Quiet s) (hc : s.world.logConfig.isSome = true) {root : Node}
    (ht : ¬ DocumentThrows root) : ∃ n t,
      exec (step c) s (.reload root :: List.replicate n .watcher) = some t ∧
      ParseConfigFile c (.document root) [] s.world = .ok () t.world ∧
      t.watcher = .idle ∧ t.configLock = none := by
  obtain ⟨hw, hm, w, rfl⟩ := hs
  obtain ⟨n, hn⟩ := exec_running c (s := ({
    world := w
    configLock := some .watcher
    watcher := .running (ParseDocument c (.node root)).events } : State)) hw rfl rfl
  exact ⟨n, _, hn, parse_ok c hw hc (.inl hm) ht, rfl, rfl⟩

/-! ### Runs of two threads -/

/-- A process with its internal logger. -/
def started : State := { world := managed {} }

theorem quiet_started : Quiet started := ⟨(kept_managed {}).wf wf_init, rfl, _, rfl⟩

/-- A logger is constructed, and a reload of the document with its rotation begins. -/
def reloadRun : List Event :=
  [.construct "test", .plugin, .plugin, .plugin, .plugin, .reload rotated, .watcher, .watcher,
    .watcher, .watcher, .watcher, .watcher, .watcher]

/-- The logger is destroyed. -/
def destroyRun : List Event := [.destroy 1, .plugin, .plugin, .plugin]

/-- **A logger may be called back after its destruction**, and a reload may put its path back: the
destruction fits in between the look-up and the call, and between the call and `RegisterLogFile`. -/
theorem destroyed_called_back : ¬ ∀ s, (system noConversions).Reachable s →
    s.invokedGone = false ∧ s.putBack = false := by
  intro h
  have hrun : ∃ s, exec (step noConversions) started (reloadRun ++ destroyRun ++ [.watcher]) =
      some s ∧ s.invokedGone = true := ⟨_, rfl, rfl⟩
  obtain ⟨s, hs, hinvoked⟩ := hrun
  have hno := (h s (reachable_exec _ (.init quiet_started) hs)).1
  rw [hinvoked] at hno
  exact absurd hno (by decide)

example : ∃ s, exec (step noConversions) started
    (reloadRun ++ [.watcher] ++ destroyRun ++ [.watcher]) = some s ∧ s.putBack = true :=
  ⟨_, rfl, rfl⟩

/-- A reload is orderly as long as no logger has been destroyed since it began. -/
theorem reachable_watcher : ∀ (n : ℕ) {s t : State}, ((system c).restrict Orderly).Reachable s →
    s.gonePaths = [] → exec (step c) s (List.replicate n .watcher) = some t →
    ((system c).restrict Orderly).Reachable t
  | 0, s, t, h, _, he => by
    obtain rfl := Option.some.inj he
    exact h
  | n + 1, s, t, h, hgone, he => by
    rw [List.replicate_succ, exec] at he
    obtain ⟨u, hu, he⟩ := Option.bind_eq_some_iff.mp he
    have horderly : Orderly s .watcher := by
      intro name cfg actions _ i l _ _ hmem
      simp [hgone] at hmem
    have hkept : u.gonePaths = s.gonePaths := by
      have hu : watcherStep s = some u := hu
      unfold watcherStep at hu
      split at hu
      case h_5 | h_6 => split at hu <;> obtain rfl := Option.some.inj hu <;> rfl
      all_goals simp at hu
      all_goals
        obtain rfl := hu
        rfl
    exact reachable_watcher n (h.next ⟨horderly, hu⟩) (hkept.trans hgone) he

/-- A logger is constructed, and a reload of the document with its rotation runs to its end. -/
def reloaded : State :=
  (exec (step noConversions) started ([.construct "test", .plugin, .plugin, .plugin, .plugin,
    .reload rotated] ++ List.replicate 16 .watcher)).get rfl

/-- A logger that a reload has called back is destroyed afterwards. -/
theorem never_called_back_reloaded : (∃ l, reloaded.world.loggers 1 = some l ∧
      l.config.Rotation.type = .DATE) ∧ ∃ s : State,
    exec (step noConversions) reloaded destroyRun = some s ∧
    s.world.loggers 1 = none ∧ s.invokedGone = false ∧ s.putBack = false := by
  have h0 : ((system noConversions).restrict Orderly).Reachable started := .init quiet_started
  have h1 := h0.next (e := Event.construct "test") ⟨trivial, rfl⟩
  have h2 := h1.next (e := Event.plugin) ⟨fun _ _ _ _ => trivial, rfl⟩
  have h3 := h2.next (e := Event.plugin) ⟨fun _ _ _ _ => trivial, rfl⟩
  have h4 := h3.next (e := Event.plugin) ⟨fun _ _ _ _ => trivial, rfl⟩
  have h5 := h4.next (e := Event.plugin) ⟨fun _ _ _ _ => trivial, rfl⟩
  have h6 := h5.next (e := Event.reload rotated) ⟨trivial, rfl⟩
  have h7 : ((system noConversions).restrict Orderly).Reachable reloaded :=
    reachable_watcher noConversions 16 h6 rfl rfl
  have h8 := h7.next (e := Event.destroy 1) ⟨trivial, rfl⟩
  have h9 := h8.next (e := Event.plugin) ⟨fun _ _ _ _ => trivial, rfl⟩
  have h10 := h9.next (e := Event.plugin) ⟨fun _ _ _ _ => trivial, rfl⟩
  have h11 := h10.next (e := Event.plugin) ⟨fun _ _ _ _ => trivial, rfl⟩
  exact ⟨⟨_, rfl, rfl⟩, _, rfl, rfl, never_called_back noConversions h11⟩

end SampLogCore.Lifecycle.Callbacks
