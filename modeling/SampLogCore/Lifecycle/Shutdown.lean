import SampLogCore.Lib.Transition
import SampLogCore.Lifecycle.Operations

/-!
# The configuration of the last messages

The action of a message asks for the configuration when the worker runs it: `FormatTimestamp`,
`WriteLevelLogString` for three of the levels, `GetLogLevelConfig`, and `PrintLogString` for the
console. Each of them calls `LogConfig::Get`, which creates an instance when there is none. The last
`samplog_DestroyApi` destroys `LogConfig` before it destroys `LogManager`, whose destructor waits
for the worker to empty the queue. What is still in the queue at that time is written with the
defaults.

`observes_loaded` says in which runs every action that was queued before the teardown observes the
loaded configuration.
-/

namespace SampLogCore.Lifecycle.Shutdown

open SampLogCore.Lib.Transition SampLogCore.Levels SampLogCore.Config.Yaml
  SampLogCore.Config.Settings SampLogCore.Lifecycle.Library SampLogCore.Lifecycle.WellFormed
  SampLogCore.Lifecycle.Loading SampLogCore.Lifecycle.Operations

/-- An object of the class `LogConfig`: the one that has loaded the document, or the one that a
later `Get` creates. -/
inductive Object
  | loaded
  | recreated
  deriving DecidableEq

/-- What the action of a message goes by. -/
structure Message where
  level : LogLevel
  /-- `_config.PrintToConsole` of its logger -/
  printToConsole : Bool
  /-- history: it was queued before the teardown began -/
  early : Bool

/-- The places at which an action reads the configuration. -/
inductive Read
  /-- in `FormatTimestamp` -/
  | timestamp
  /-- in `WriteLevelLogString` -/
  | levelFile
  /-- `GetLogLevelConfig`, and the flag of the result -/
  | levelConfig
  /-- in `PrintLogString` -/
  | console

/-- What is read. -/
inductive Seen
  | timeFormat (LogTimeFormat : String)
  | rootFolder (LogsRootFolder : String)
  | levelConfig (config : LogLevelConfig)
  | colors (EnableColors : Bool)

/-- What a configuration shows at a place. -/
def seen (stores : Stores) (level : LogLevel) : Read → Seen
  | .timestamp => .timeFormat stores.globalConfig.LogTimeFormat
  | .levelFile => .rootFolder stores.globalConfig.LogsRootFolder
  | .levelConfig => .levelConfig ((stores.levelConfigs level).getD {})
  | .console => .colors stores.globalConfig.EnableColors

/-- What a read leaves: the subscript of a `std::map` inserts a missing key. -/
def afterRead (stores : Stores) (level : LogLevel) : Read → Stores
  | .levelConfig => { stores with levelConfigs := emplace stores.levelConfigs level {} }
  | _ => stores

/-- Where the action reads next. -/
def next (m : Message) (stores : Stores) : Read → Option Read
  | .timestamp =>
    if m.level = WARNING ∨ m.level = ERROR ∨ m.level = FATAL then some .levelFile
    else some .levelConfig
  | .levelFile => some .levelConfig
  | .levelConfig =>
    if m.printToConsole ∨ ((stores.levelConfigs m.level).getD {}).PrintToConsole then some .console
    else none
  | .console => none

/-- Where the worker is. -/
inductive WorkerPc
  /-- between two actions -/
  | idle
  /-- at `LogConfig::Get` -/
  | get (m : Message) (read : Read)
  /-- at the call on the object, and the field of the reference that it gives -/
  | access (m : Message) (read : Read) (object : Object)
  | exited
  /-- an object that was given back has been accessed -/
  | crashed

/-- Where the other thread is in the last `samplog_DestroyApi`. -/
inductive TeardownPc
  /-- not called yet -/
  | before
  /-- at `LogRotationManager::Destroy` -/
  | rotation
  /-- at `SampConfigReader::Destroy` -/
  | reader
  /-- in `LogConfig::Destroy`, at the test of the pointer and `delete` -/
  | config
  /-- at `_instance = nullptr` -/
  | clear
  /-- in the destructor of `LogManager`, at `_threadRunning = false` -/
  | manager
  /-- at `_thread->join()` -/
  | join
  | done

/-- A read of the configuration. -/
structure Observation where
  message : Message
  read : Read
  object : Object
  /-- nothing, if the object had been given back -/
  seen : Option Seen

structure State where
  /-- `_instance` of `LogConfig` -/
  configInstance : Option Object
  /-- the objects that have been created and not been given back -/
  objects : Object → Option Stores
  queue : List Message
  threadRunning : Bool
  worker : WorkerPc
  teardown : TeardownPc
  /-- history: the reads of the configuration -/
  observed : List Observation

/-- A choice of the scheduler. -/
inductive Event
  /-- a thread queues a message -/
  | log (level : LogLevel) (printToConsole : Bool)
  /-- the worker takes its next step -/
  | worker
  /-- the last handle is given back -/
  | destroyApi
  /-- the thread in `samplog_DestroyApi` takes its next step -/
  | teardown

/-- The next step of the worker. -/
def workerStep (s : State) : Option State :=
  match s.worker with
  | .idle =>
    match s.queue with
    | m :: queue => some { s with queue := queue, worker := .get m .timestamp }
    | [] => if s.threadRunning then none else some { s with worker := .exited }
  | .get m read =>
    match s.configInstance with
    | some object => some { s with worker := .access m read object }
    | none =>
      some { s with configInstance := some .recreated
                    objects := Function.update s.objects .recreated (some {})
                    worker := .access m read .recreated }
  | .access m read object =>
    match s.objects object with
    | some stores =>
      some { s with
        objects := Function.update s.objects object (some (afterRead stores m.level read))
        observed := s.observed ++ [⟨m, read, object, some (seen stores m.level read)⟩]
        worker := match next m stores read with
          | some read => .get m read
          | none => .idle }
    | none =>
      some { s with observed := s.observed ++ [⟨m, read, object, none⟩], worker := .crashed }
  | .exited => none
  | .crashed => none

/-- The next step of the other thread. -/
def teardownStep (s : State) : Option State :=
  match s.teardown with
  | .before => none
  | .rotation => some { s with teardown := .reader }
  | .reader => some { s with teardown := .config }
  | .config =>
    match s.configInstance with
    | some object =>
      some { s with objects := Function.update s.objects object none, teardown := .clear }
    | none => some { s with teardown := .manager }
  | .clear => some { s with configInstance := none, teardown := .manager }
  | .manager => some { s with threadRunning := false, teardown := .join }
  | .join =>
    match s.worker with
    | .exited => some { s with teardown := .done }
    | _ => none
  | .done => none

/-- **One step.** -/
def step (s : State) : Event → Option State
  | .log level printToConsole =>
    match s.teardown with
    | .before => some { s with queue := s.queue ++ [⟨level, printToConsole, true⟩] }
    | .done => none
    | _ => some { s with queue := s.queue ++ [⟨level, printToConsole, false⟩] }
  | .worker => workerStep s
  | .destroyApi =>
    match s.teardown with
    | .before => some { s with teardown := .rotation }
    | _ => none
  | .teardown => teardownStep s

/-- A document has been loaded. -/
def initial (loaded : Stores) : State where
  configInstance := some .loaded
  objects object := if object = .loaded then some loaded else none
  queue := []
  threadRunning := true
  worker := .idle
  teardown := .before
  observed := []

variable (loaded : Stores)

/-- **The transition system of the shutdown.** -/
def system : System State Event := ofStep (· = initial loaded) step

/-- The read is one of the loaded configuration. -/
def Observation.FromLoaded (o : Observation) : Prop :=
  o.object = .loaded ∧ o.seen = some (Shutdown.seen loaded o.message.level o.read)

/-- **The actions queued before the teardown have observed the loaded configuration.** -/
def Good (s : State) : Prop :=
  ∀ o ∈ s.observed, o.message.early = true → o.FromLoaded loaded

/-- The message of the action that has reads to come. -/
def WorkerPc.inHand : WorkerPc → List Message
  | .get m _ | .access m _ _ => [m]
  | _ => []

/-- The actions that have reads to come. -/
def State.pending (s : State) : List Message := s.worker.inHand ++ s.queue

/-- **`LogConfig` is not destroyed before the early actions have read it.** -/
def Settled (s : State) : Event → Prop
  | .teardown => s.teardown = .config → ∀ m ∈ s.pending, m.early = false
  | _ => True

/-! ### The inversion of the steps -/

variable {loaded} {s t : State}

theorem workerStep_cases (h : workerStep s = some t) :
    (∃ m queue, s.worker = .idle ∧ s.queue = m :: queue ∧
      t = { s with queue := queue, worker := .get m .timestamp }) ∨
    (s.worker = .idle ∧ s.queue = [] ∧ s.threadRunning = false ∧ t = { s with worker := .exited }) ∨
    (∃ m read object, s.worker = .get m read ∧ s.configInstance = some object ∧
      t = { s with worker := .access m read object }) ∨
    (∃ m read, s.worker = .get m read ∧ s.configInstance = none ∧
      t = { s with configInstance := some .recreated
                   objects := Function.update s.objects .recreated (some {})
                   worker := .access m read .recreated }) ∨
    (∃ m read object stores pc, s.worker = .access m read object ∧
      s.objects object = some stores ∧ (pc = .idle ∨ ∃ read, pc = .get m read) ∧
      t = { s with
        objects := Function.update s.objects object (some (afterRead stores m.level read))
        observed := s.observed ++ [⟨m, read, object, some (seen stores m.level read)⟩]
        worker := pc }) ∨
    (∃ m read object, s.worker = .access m read object ∧ s.objects object = none ∧
      t = { s with observed := s.observed ++ [⟨m, read, object, none⟩], worker := .crashed }) := by
  unfold workerStep at h
  split at h
  · rename_i hw
    split at h
    · rename_i m queue hq
      exact .inl ⟨m, queue, hw, hq, (Option.some.inj h).symm⟩
    · rename_i hq
      split_ifs at h with hr
      exact .inr (.inl ⟨hw, hq, by simpa using hr, (Option.some.inj h).symm⟩)
  · rename_i m read hw
    split at h
    · rename_i object ho
      exact .inr (.inr (.inl ⟨m, read, object, hw, ho, (Option.some.inj h).symm⟩))
    · rename_i ho
      exact .inr (.inr (.inr (.inl ⟨m, read, hw, ho, (Option.some.inj h).symm⟩)))
  · rename_i m read object hw
    split at h
    · rename_i stores hs
      refine .inr (.inr (.inr (.inr (.inl
        ⟨m, read, object, stores, _, hw, hs, ?_, (Option.some.inj h).symm⟩))))
      split
      · exact .inr ⟨_, rfl⟩
      · exact .inl rfl
    · rename_i hs
      exact .inr (.inr (.inr (.inr (.inr
        ⟨m, read, object, hw, hs, (Option.some.inj h).symm⟩))))
  · exact absurd h (by simp)
  · exact absurd h (by simp)

theorem teardownStep_cases (h : teardownStep s = some t) :
    (s.teardown = .rotation ∧ t = { s with teardown := .reader }) ∨
    (s.teardown = .reader ∧ t = { s with teardown := .config }) ∨
    (∃ object, s.teardown = .config ∧ s.configInstance = some object ∧
      t = { s with objects := Function.update s.objects object none, teardown := .clear }) ∨
    (s.teardown = .config ∧ s.configInstance = none ∧ t = { s with teardown := .manager }) ∨
    (s.teardown = .clear ∧ t = { s with configInstance := none, teardown := .manager }) ∨
    (s.teardown = .manager ∧ t = { s with threadRunning := false, teardown := .join }) ∨
    (s.teardown = .join ∧ s.worker = .exited ∧ t = { s with teardown := .done }) := by
  unfold teardownStep at h
  split at h
  · exact absurd h (by simp)
  · rename_i hp
    exact .inl ⟨hp, (Option.some.inj h).symm⟩
  · rename_i hp
    exact .inr (.inl ⟨hp, (Option.some.inj h).symm⟩)
  · rename_i hp
    split at h
    · rename_i object ho
      exact .inr (.inr (.inl ⟨object, hp, ho, (Option.some.inj h).symm⟩))
    · rename_i ho
      exact .inr (.inr (.inr (.inl ⟨hp, ho, (Option.some.inj h).symm⟩)))
  · rename_i hp
    exact .inr (.inr (.inr (.inr (.inl ⟨hp, (Option.some.inj h).symm⟩))))
  · rename_i hp
    exact .inr (.inr (.inr (.inr (.inr (.inl ⟨hp, (Option.some.inj h).symm⟩)))))
  · rename_i hp
    split at h
    · rename_i hw
      exact .inr (.inr (.inr (.inr (.inr (.inr ⟨hp, hw, (Option.some.inj h).symm⟩)))))
    · exact absurd h (by simp)
  · exact absurd h (by simp)

/-- A step of another thread, or one of the two. -/
theorem step_cases {e : Event} (h : step s e = some t) :
    (∃ m, e ≠ .teardown ∧ (m.early = true → s.teardown = .before) ∧
      t = { s with queue := s.queue ++ [m] }) ∨
    (e = .destroyApi ∧ s.teardown = .before ∧ t = { s with teardown := .rotation }) ∨
    (e = .worker ∧ workerStep s = some t) ∨ (e = .teardown ∧ teardownStep s = some t) := by
  cases e with
  | log level printToConsole =>
    simp only [step] at h
    split at h
    · rename_i hp
      exact .inl ⟨_, nofun, fun _ => hp, (Option.some.inj h).symm⟩
    · exact absurd h (by simp)
    · exact .inl ⟨⟨level, printToConsole, false⟩, nofun, fun h => absurd h (by simp),
        (Option.some.inj h).symm⟩
  | worker => exact .inr (.inr (.inl ⟨rfl, h⟩))
  | destroyApi =>
    simp only [step] at h
    split at h
    · rename_i hp
      exact .inr (.inl ⟨rfl, hp, (Option.some.inj h).symm⟩)
    · exact absurd h (by simp)
  | teardown => exact .inr (.inr (.inr ⟨rfl, h⟩))

/-! ### What holds in every run -/

/-- Two configurations show the same. -/
def Agrees (a b : Stores) : Prop :=
  a.globalConfig = b.globalConfig ∧
    ∀ level, (a.levelConfigs level).getD {} = (b.levelConfigs level).getD {}

theorem Agrees.seen {a b : Stores} (h : Agrees a b) (level : LogLevel) (read : Read) :
    seen a level read = seen b level read := by
  cases read with
  | levelConfig => exact congrArg Seen.levelConfig (h.2 level)
  | _ => simp only [Shutdown.seen, h.1]

theorem Agrees.afterRead {a b : Stores} (h : Agrees a b) (level : LogLevel) (read : Read) :
    Agrees (afterRead a level read) b := by
  cases read with
  | levelConfig =>
    refine ⟨h.1, fun level' => ?_⟩
    rw [← h.2 level']
    by_cases hl : level' = level
    · subst hl
      change (emplace a.levelConfigs level' {} level').getD {} = _
      rw [emplace_self]
      rfl
    · change (emplace a.levelConfigs level {} level').getD {} = _
      rw [emplace_of_ne _ _ hl]
  | _ => exact h

/-- `LogConfig` has been destroyed. -/
def TeardownPc.Deleted : TeardownPc → Prop
  | .clear | .manager | .join | .done => True
  | _ => False

/-- The worker has an object of `LogConfig` in its hands. -/
def WorkerPc.Accesses (object : Object) : WorkerPc → Prop
  | .access _ _ object' => object' = object
  | _ => False

/-- Until `LogConfig` is destroyed all reads are reads of the loaded configuration. -/
structure Alive (loaded : Stores) (s : State) : Prop where
  configInstance : s.configInstance = some .loaded
  objects : ∃ stores, s.objects .loaded = some stores ∧ Agrees stores loaded
  access : ¬ s.worker.Accesses .recreated
  good : Good loaded s

/-- What holds in every reachable state. -/
structure Base (loaded : Stores) (s : State) : Prop where
  alive : ¬ s.teardown.Deleted → Alive loaded s
  deleted : s.teardown.Deleted → s.objects .loaded = none
  running : s.threadRunning = false → s.teardown = .join ∨ s.teardown = .done
  exited : s.worker = .exited → s.threadRunning = false ∧ ∀ m ∈ s.queue, m.early = false
  done : s.teardown = .done → s.worker = .exited

theorem base_initial : Base loaded (initial loaded) where
  alive _ := ⟨rfl, ⟨loaded, rfl, rfl, fun _ => rfl⟩, id, fun o ho => absurd ho (by simp [initial])⟩
  deleted h := absurd h id
  running h := absurd h (by simp [initial])
  exited h := absurd h (by simp [initial])
  done h := absurd h (by simp [initial])

/-- A read of the loaded configuration. -/
theorem good_append {m : Message} {read : Read} {stores : Stores} (hg : Good loaded s)
    (ha : Agrees stores loaded) : ∀ o ∈ s.observed ++
      [(⟨m, read, .loaded, some (seen stores m.level read)⟩ : Observation)],
    o.message.early = true → o.FromLoaded loaded := by
  intro o ho he
  rcases List.mem_append.mp ho with ho | ho
  · exact hg o ho he
  · rw [List.mem_singleton.mp ho]
    exact ⟨rfl, congrArg some (ha.seen m.level read)⟩

theorem update_loaded (objects : Object → Option Stores) (stores : Option Stores) :
    Function.update objects .loaded stores .loaded = stores := Function.update_self _ _ _

theorem update_recreated (objects : Object → Option Stores) (stores : Option Stores) :
    Function.update objects .recreated stores .loaded = objects .loaded :=
  Function.update_of_ne (show Object.loaded ≠ .recreated by decide) _ _

theorem base_workerStep (hb : Base loaded s) (h : workerStep s = some t) : Base loaded t := by
  have hdone : ∀ {pc : WorkerPc}, s.worker = pc → pc ≠ .exited → s.teardown ≠ .done := by
    rintro pc hw hne hd
    exact hne (hw.symm.trans (hb.done hd))
  rcases workerStep_cases h with ⟨m, queue, hw, -, rfl⟩ | ⟨hw, hq, hr, rfl⟩ |
    ⟨m, read, object, hw, hobj, rfl⟩ | ⟨m, read, hw, hobj, rfl⟩ |
    ⟨m, read, object, stores, pc, hw, hobj, hpc, rfl⟩ | ⟨m, read, object, hw, hobj, rfl⟩
  · refine ⟨fun hd => ?_, hb.deleted, hb.running, nofun, fun hd => ?_⟩
    · have ha := hb.alive hd
      exact ⟨ha.configInstance, ha.objects, id, ha.good⟩
    · exact absurd hd (hdone hw nofun)
  · refine ⟨fun hd => ?_, hb.deleted, hb.running, fun _ => ⟨hr, ?_⟩, fun _ => rfl⟩
    · have ha := hb.alive hd
      exact ⟨ha.configInstance, ha.objects, id, ha.good⟩
    · simp [hq]
  · refine ⟨fun hd => ?_, hb.deleted, hb.running, nofun, fun hd => ?_⟩
    · have ha := hb.alive hd
      have hloaded : object = .loaded := Option.some.inj (hobj.symm.trans ha.configInstance)
      exact ⟨ha.configInstance, ha.objects, by simp [WorkerPc.Accesses, hloaded], ha.good⟩
    · exact absurd hd (hdone hw nofun)
  · refine ⟨fun hd => ?_, fun hd => ?_, hb.running, nofun, fun hd => ?_⟩
    · exact absurd (hobj.symm.trans (hb.alive hd).configInstance) (by simp)
    · exact (update_recreated s.objects (some {})).trans (hb.deleted hd)
    · exact absurd hd (hdone hw nofun)
  · -- a read of an object that is there: the loaded one until it is destroyed, another one after
    have hnot : pc ≠ .exited := by
      rcases hpc with rfl | ⟨read', rfl⟩
      · exact nofun
      · exact nofun
    have haccess : ¬ pc.Accesses .recreated := by
      rcases hpc with rfl | ⟨read', rfl⟩
      · exact id
      · exact id
    refine ⟨fun hd => ?_, fun hd => ?_, hb.running, fun he => absurd he hnot, fun hd => ?_⟩
    · have ha := hb.alive hd
      have hloaded : object = .loaded := by
        cases object with
        | loaded => rfl
        | recreated => exact absurd (by rw [hw]; rfl) ha.access
      subst hloaded
      obtain ⟨stores', hs, hagrees⟩ := ha.objects
      obtain rfl := Option.some.inj (hs.symm.trans hobj)
      exact ⟨ha.configInstance, ⟨_, update_loaded s.objects _, hagrees.afterRead m.level read⟩,
        haccess, good_append ha.good hagrees⟩
    · cases object with
      | loaded => exact absurd (hobj.symm.trans (hb.deleted hd)) (by simp)
      | recreated =>
        exact (update_recreated s.objects (some (afterRead stores m.level read))).trans
          (hb.deleted hd)
    · exact absurd hd (hdone hw nofun)
  · refine ⟨fun hd => ?_, hb.deleted, hb.running, nofun, fun hd => ?_⟩
    · have ha := hb.alive hd
      obtain ⟨stores, hs, -⟩ := ha.objects
      cases object with
      | loaded => exact absurd (hs.symm.trans hobj) (by simp)
      | recreated => exact absurd (by rw [hw]; rfl) ha.access
    · exact absurd hd (hdone hw nofun)

theorem base_teardownStep (hb : Base loaded s) (h : teardownStep s = some t) : Base loaded t := by
  have hrunning : s.teardown ≠ .join → s.teardown ≠ .done → s.threadRunning ≠ false := by
    intro hj hd hr
    rcases hb.running hr with h | h
    · exact hj h
    · exact hd h
  have halive : ∀ {pc : TeardownPc}, ¬ s.teardown.Deleted →
      Alive loaded { s with teardown := pc } := by
    intro pc hd
    have ha := hb.alive hd
    exact ⟨ha.configInstance, ha.objects, ha.access, ha.good⟩
  rcases teardownStep_cases h with ⟨hp, rfl⟩ | ⟨hp, rfl⟩ | ⟨object, hp, hobj, rfl⟩ |
    ⟨hp, hobj, rfl⟩ | ⟨hp, rfl⟩ | ⟨hp, rfl⟩ | ⟨hp, hw, rfl⟩
  · refine ⟨fun _ => halive (by simp [hp, TeardownPc.Deleted]), nofun, fun hr => ?_, hb.exited,
      nofun⟩
    exact absurd hr (hrunning (by simp [hp]) (by simp [hp]))
  · refine ⟨fun _ => halive (by simp [hp, TeardownPc.Deleted]), nofun, fun hr => ?_, hb.exited,
      nofun⟩
    exact absurd hr (hrunning (by simp [hp]) (by simp [hp]))
  · have ha := hb.alive (by simp [hp, TeardownPc.Deleted])
    have hloaded : object = .loaded := Option.some.inj (hobj.symm.trans ha.configInstance)
    refine ⟨fun hd => absurd trivial hd, fun _ => ?_, fun hr => ?_, hb.exited, nofun⟩
    · subst hloaded
      exact update_loaded s.objects _
    · exact absurd hr (hrunning (by simp [hp]) (by simp [hp]))
  · have ha := hb.alive (by simp [hp, TeardownPc.Deleted])
    exact absurd (hobj.symm.trans ha.configInstance) (by simp)
  · refine ⟨fun hd => absurd trivial hd, fun _ => hb.deleted (by simp [hp, TeardownPc.Deleted]),
      fun hr => ?_, hb.exited, nofun⟩
    exact absurd hr (hrunning (by simp [hp]) (by simp [hp]))
  · exact ⟨fun hd => absurd trivial hd, fun _ => hb.deleted (by simp [hp, TeardownPc.Deleted]),
      fun _ => .inl rfl, fun he => ⟨rfl, (hb.exited he).2⟩, nofun⟩
  · exact ⟨fun hd => absurd trivial hd, fun _ => hb.deleted (by simp [hp, TeardownPc.Deleted]),
      fun _ => .inr rfl, hb.exited, fun _ => hw⟩

theorem base_step {e : Event} (hb : Base loaded s) (h : step s e = some t) : Base loaded t := by
  rcases step_cases h with ⟨m, -, hearly, rfl⟩ | ⟨-, hp, rfl⟩ | ⟨-, h⟩ | ⟨-, h⟩
  · refine ⟨fun hd => ?_, hb.deleted, hb.running, fun he => ?_, hb.done⟩
    · have ha := hb.alive hd
      exact ⟨ha.configInstance, ha.objects, ha.access, ha.good⟩
    · obtain ⟨hr, hqueue⟩ := hb.exited he
      refine ⟨hr, fun m' hm' => ?_⟩
      rcases List.mem_append.mp hm' with hm' | hm'
      · exact hqueue m' hm'
      · rw [List.mem_singleton.mp hm', Bool.eq_false_iff]
        -- the worker is gone, so the teardown has begun
        intro htrue
        rcases hb.running hr with hj | hj
        · exact absurd ((hearly htrue).symm.trans hj) (by simp)
        · exact absurd ((hearly htrue).symm.trans hj) (by simp)
  · have ha := hb.alive (by simp [hp, TeardownPc.Deleted])
    refine ⟨fun _ => ⟨ha.configInstance, ha.objects, ha.access, ha.good⟩, nofun, fun hr => ?_,
      hb.exited, nofun⟩
    rcases hb.running hr with hj | hj
    · exact absurd (hp.symm.trans hj) (by simp)
    · exact absurd (hp.symm.trans hj) (by simp)
  · exact base_workerStep hb h
  · exact base_teardownStep hb h

/-! ### The worker's reads -/

/-- A step of the worker reads for the action in its hands, if at all. -/
theorem workerStep_observed (h : workerStep s = some t) : t.teardown = s.teardown ∧
    (∀ m ∈ t.pending, m ∈ s.pending) ∧
    (t.observed = s.observed ∨
      ∃ o, t.observed = s.observed ++ [o] ∧ o.message ∈ s.worker.inHand) := by
  rcases workerStep_cases h with ⟨m, queue, hw, hq, rfl⟩ | ⟨hw, hq, -, rfl⟩ |
    ⟨m, read, object, hw, -, rfl⟩ | ⟨m, read, hw, -, rfl⟩ |
    ⟨m, read, object, stores, pc, hw, -, hpc, rfl⟩ | ⟨m, read, object, hw, -, rfl⟩
  · exact ⟨rfl, by simp [State.pending, WorkerPc.inHand, hw, hq], .inl rfl⟩
  · exact ⟨rfl, by simp [State.pending, WorkerPc.inHand, hq], .inl rfl⟩
  · exact ⟨rfl, by simp [State.pending, WorkerPc.inHand, hw], .inl rfl⟩
  · exact ⟨rfl, by simp [State.pending, WorkerPc.inHand, hw], .inl rfl⟩
  · refine ⟨rfl, fun m' hm' => ?_, .inr ⟨_, rfl, by simp [WorkerPc.inHand, hw]⟩⟩
    rcases List.mem_append.mp hm' with hm' | hm'
    · rcases hpc with rfl | ⟨read', rfl⟩
      · exact absurd hm' (by simp [WorkerPc.inHand])
      · simpa [State.pending, WorkerPc.inHand, hw] using .inl (List.mem_singleton.mp hm')
    · exact List.mem_append_right _ hm'
  · refine ⟨rfl, fun m' hm' => ?_, .inr ⟨_, rfl, by simp [WorkerPc.inHand, hw]⟩⟩
    exact List.mem_append_right _ hm'

/-! ### Enough -/

/-- All reads of early actions are good, and none is to come once `LogConfig` is destroyed. -/
structure Clean (loaded : Stores) (s : State) : Prop where
  base : Base loaded s
  good : Good loaded s
  pending : s.teardown.Deleted → ∀ m ∈ s.pending, m.early = false

theorem clean_step {e : Event} (hi : Clean loaded s) (hc : Settled s e) (h : step s e = some t) :
    Clean loaded t := by
  have hb := base_step hi.base h
  rcases step_cases h with ⟨m, -, hearly, rfl⟩ | ⟨-, hp, rfl⟩ | ⟨-, h⟩ | ⟨rfl, h⟩
  · refine ⟨hb, hi.good, fun hd m' hm' => ?_⟩
    have hm' : m' ∈ s.worker.inHand ++ (s.queue ++ [m]) := hm'
    rw [← List.append_assoc] at hm'
    rcases List.mem_append.mp hm' with hm' | hm'
    · exact hi.pending hd m' hm'
    · rw [List.mem_singleton.mp hm', Bool.eq_false_iff]
      intro htrue
      have hd : s.teardown.Deleted := hd
      rw [hearly htrue] at hd
      exact hd
  · exact ⟨hb, hi.good, nofun⟩
  · obtain ⟨hteardown, hpending, hobserved⟩ := workerStep_observed h
    by_cases hd : s.teardown.Deleted
    · refine ⟨hb, fun o ho he => ?_, fun _ m hm => hi.pending hd m (hpending m hm)⟩
      rcases hobserved with heq | ⟨o', heq, hmem⟩
      · exact hi.good o (heq ▸ ho) he
      · rw [heq] at ho
        rcases List.mem_append.mp ho with ho | ho
        · exact hi.good o ho he
        · -- the action in hand was not queued before the teardown
          rw [List.mem_singleton.mp ho] at he
          have hfalse := hi.pending hd _ (List.mem_append_left _ hmem)
          exact absurd (he.symm.trans hfalse) (by simp)
    · rw [← hteardown] at hd
      exact ⟨hb, (hb.alive hd).good, fun hd' => absurd hd' hd⟩
  · rcases teardownStep_cases h with ⟨hp, rfl⟩ | ⟨hp, rfl⟩ | ⟨object, hp, -, rfl⟩ |
      ⟨hp, -, rfl⟩ | ⟨hp, rfl⟩ | ⟨hp, rfl⟩ | ⟨hp, -, rfl⟩
    · exact ⟨hb, hi.good, nofun⟩
    · exact ⟨hb, hi.good, nofun⟩
    · exact ⟨hb, hi.good, fun _ => hc hp⟩
    · exact ⟨hb, hi.good, fun _ => hc hp⟩
    · exact ⟨hb, hi.good, fun _ => hi.pending (by simp [hp, TeardownPc.Deleted])⟩
    · exact ⟨hb, hi.good, fun _ => hi.pending (by simp [hp, TeardownPc.Deleted])⟩
    · exact ⟨hb, hi.good, fun _ => hi.pending (by simp [hp, TeardownPc.Deleted])⟩

/-! ### Necessary -/

/-- `LogConfig` is destroyed, and an early action has read something else or will do so. -/
structure Doomed (loaded : Stores) (s : State) : Prop where
  base : Base loaded s
  deleted : s.teardown.Deleted
  early : (∃ o ∈ s.observed, o.message.early = true ∧ ¬ o.FromLoaded loaded) ∨
    ∃ m ∈ s.pending, m.early = true

/-- After the destruction no read is a read of the loaded configuration. -/
theorem doomed_workerStep (hi : Doomed loaded s) (h : workerStep s = some t) :
    Doomed loaded t := by
  obtain ⟨hb, hd, hearly⟩ := hi
  have hbase := base_workerStep hb h
  obtain ⟨hteardown, -, hobserved⟩ := workerStep_observed h
  refine ⟨hbase, hteardown ▸ hd, ?_⟩
  rcases hearly with ⟨o, ho, hbad⟩ | ⟨m', hm', he⟩
  · refine .inl ⟨o, ?_, hbad⟩
    rcases hobserved with heq | ⟨o', heq, -⟩
    · exact heq ▸ ho
    · rw [heq]
      exact List.mem_append_left _ ho
  rcases workerStep_cases h with ⟨m, queue, hw, hq, rfl⟩ | ⟨hw, hq, -, rfl⟩ |
    ⟨m, read, object, hw, -, rfl⟩ | ⟨m, read, hw, -, rfl⟩ |
    ⟨m, read, object, stores, pc, hw, hobj, hpc, rfl⟩ | ⟨m, read, object, hw, hobj, rfl⟩
  · exact .inr ⟨m', by simpa [State.pending, WorkerPc.inHand, hw, hq] using hm', he⟩
  · exact absurd hm' (by simp [State.pending, WorkerPc.inHand, hw, hq])
  · exact .inr ⟨m', by simpa [State.pending, WorkerPc.inHand, hw] using hm', he⟩
  · exact .inr ⟨m', by simpa [State.pending, WorkerPc.inHand, hw] using hm', he⟩
  · simp only [State.pending, WorkerPc.inHand, hw, List.mem_append, List.mem_singleton] at hm'
    rcases hm' with rfl | hm'
    · -- the object that was read is not the loaded one, which is gone
      refine .inl ⟨_, List.mem_append_right _ (List.mem_singleton.mpr rfl), he, ?_⟩
      rintro ⟨hloaded, -⟩
      have hloaded : object = .loaded := hloaded
      rw [hloaded, hb.deleted hd] at hobj
      exact absurd hobj (by simp)
    · exact .inr ⟨m', List.mem_append_right _ hm', he⟩
  · simp only [State.pending, WorkerPc.inHand, hw, List.mem_append, List.mem_singleton] at hm'
    rcases hm' with rfl | hm'
    · refine .inl ⟨_, List.mem_append_right _ (List.mem_singleton.mpr rfl), he, ?_⟩
      rintro ⟨-, hseen⟩
      exact absurd hseen (by simp)
    · exact .inr ⟨m', List.mem_append_right _ hm', he⟩

theorem doomed_step {e : Event} (hi : Doomed loaded s) (h : step s e = some t) :
    Doomed loaded t := by
  have hbase := base_step hi.base h
  rcases step_cases h with ⟨m, -, -, rfl⟩ | ⟨-, hp, rfl⟩ | ⟨-, h⟩ | ⟨-, h⟩
  · refine ⟨hbase, hi.deleted, hi.early.imp_right ?_⟩
    rintro ⟨m', hm', he⟩
    have hmem : m' ∈ s.worker.inHand ++ (s.queue ++ [m]) := by
      rw [← List.append_assoc]
      exact List.mem_append_left _ hm'
    exact ⟨m', hmem, he⟩
  · have hd := hi.deleted
    rw [hp] at hd
    exact absurd hd id
  · exact doomed_workerStep hi h
  · have hd := hi.deleted
    rcases teardownStep_cases h with ⟨hp, rfl⟩ | ⟨hp, rfl⟩ | ⟨object, hp, -, rfl⟩ |
      ⟨hp, -, rfl⟩ | ⟨hp, rfl⟩ | ⟨hp, rfl⟩ | ⟨hp, -, rfl⟩
    · rw [hp] at hd
      exact absurd hd id
    · rw [hp] at hd
      exact absurd hd id
    all_goals exact ⟨hbase, trivial, hi.early⟩

/-- A destruction of `LogConfig` with reads of early actions to come dooms the run. -/
theorem doomed_of_not_settled {e : Event} (hb : Base loaded s) (hc : ¬ Settled s e)
    (h : step s e = some t) : Doomed loaded t := by
  have hbase := base_step hb h
  cases e with
  | teardown =>
    simp only [Settled, Classical.not_imp, not_forall] at hc
    obtain ⟨hp, m, hm, he⟩ := hc
    have he : m.early = true := by simpa using he
    have h : teardownStep s = some t := h
    have ha := hb.alive (by simp [hp, TeardownPc.Deleted])
    rw [teardownStep, hp] at h
    dsimp only at h
    rw [ha.configInstance] at h
    obtain rfl := Option.some.inj h
    exact ⟨hbase, trivial, .inr ⟨m, hm, he⟩⟩
  | _ => exact absurd trivial hc

/-- At the end of the teardown nothing is to come. -/
theorem not_good_of_doomed (hi : Doomed loaded s) (hd : s.teardown = .done) :
    ¬ Good loaded s := by
  intro hg
  have hw := hi.base.done hd
  rcases hi.early with ⟨o, ho, he, hbad⟩ | ⟨m, hm, he⟩
  · exact hbad (hg o ho he)
  · have hm : m ∈ s.queue := by simpa [State.pending, WorkerPc.inHand, hw] using hm
    exact absurd (he.symm.trans ((hi.base.exited hw).2 m hm)) (by simp)

/-! ### Runs -/

variable (loaded)

/-- **What the last messages are written with.** In a run in which `LogConfig` is not destroyed
before the early actions have read it, they all observe the loaded configuration; and in a run to
the end of the teardown they do so only then. -/
theorem observes_loaded {r : List (Event × State)} (h : (system loaded).IsRun (initial loaded) r) :
    (Along Settled (initial loaded) r → ∀ p ∈ r, Good loaded p.2) ∧
    (∀ p, r.getLast? = some p → p.2.teardown = .done → Good loaded p.2 →
      Along Settled (initial loaded) r) := by
  constructor
  · intro hc p hp
    have hgood : Good loaded (initial loaded) := fun o ho => absurd ho (by simp [initial])
    have hclean := System.invariant_of_along (I := Clean loaded)
      (fun _ _ _ hs hc hst => clean_step hs hc hst) ⟨base_initial, hgood, nofun⟩ h hc
    exact (hclean p hp).good
  · intro p hp hdone hg
    refine System.along_of_last (I := Base loaded) (D := Doomed loaded)
      (Q := fun s => s.teardown = .done ∧ Good loaded s) (fun _ _ _ hs hst => base_step hs hst)
      (fun _ _ _ hs hc hst => doomed_of_not_settled hs hc hst)
      (fun _ _ _ hs hst => doomed_step hs hst) ?_ base_initial h p hp ⟨hdone, hg⟩
    exact fun s hs hq => not_good_of_doomed hs hq.1 hq.2

/-! ### An action alone -/

/-- The worker gets through the action in its hands and leaves the object with this content. -/
def Finishes (s : State) (object : Object) (stores : Stores) : Prop :=
  ∃ n t, exec step s (List.replicate n .worker) = some t ∧ t.worker = .idle ∧
    t.objects object = some stores

section Action

variable {m : Message} {object : Object} {stores final : Stores}

theorem finishes_idle (hw : s.worker = .idle) (ho : s.objects object = some stores) :
    Finishes s object stores := ⟨0, s, rfl, hw, ho⟩

/-- One read, and the rest of the action. -/
theorem finishes_read {read : Read} (hw : s.worker = .get m read)
    (hi : s.configInstance = some object) (ho : s.objects object = some stores)
    (h : Finishes { s with
      objects := Function.update s.objects object (some (afterRead stores m.level read))
      observed := s.observed ++ [⟨m, read, object, some (seen stores m.level read)⟩]
      worker := match next m stores read with
        | some read => .get m read
        | none => .idle } object final) : Finishes s object final := by
  obtain ⟨n, t, ht, hidle, hfinal⟩ := h
  have hget : step s .worker = some { s with worker := .access m read object } := by
    rw [step, workerStep, hw]
    dsimp only
    rw [hi]
  have haccess : step { s with worker := .access m read object } .worker = some { s with
      objects := Function.update s.objects object (some (afterRead stores m.level read))
      observed := s.observed ++ [⟨m, read, object, some (seen stores m.level read)⟩]
      worker := match next m stores read with
        | some read => .get m read
        | none => .idle } := by
    rw [step, workerStep]
    dsimp only
    rw [ho]
  refine ⟨n + 2, t, ?_, hidle, hfinal⟩
  rw [List.replicate_succ, List.replicate_succ, exec, hget, Option.bind_some, exec, haccess,
    Option.bind_some, ht]

theorem finishes_console (hw : s.worker = .get m .console) (hi : s.configInstance = some object)
    (ho : s.objects object = some stores) : Finishes s object stores :=
  finishes_read hw hi ho (finishes_idle rfl (Function.update_self ..))

theorem finishes_levelConfig (hw : s.worker = .get m .levelConfig)
    (hi : s.configInstance = some object) (ho : s.objects object = some stores) :
    Finishes s object (afterRead stores m.level .levelConfig) := by
  refine finishes_read hw hi ho ?_
  by_cases hprint : m.printToConsole ∨ ((stores.levelConfigs m.level).getD {}).PrintToConsole
  · have hnext : next m stores .levelConfig = some .console := if_pos hprint
    rw [hnext]
    exact finishes_console rfl hi (Function.update_self ..)
  · have hnext : next m stores .levelConfig = none := if_neg hprint
    rw [hnext]
    exact finishes_idle rfl (Function.update_self ..)

theorem finishes_levelFile (hw : s.worker = .get m .levelFile)
    (hi : s.configInstance = some object) (ho : s.objects object = some stores) :
    Finishes s object (afterRead stores m.level .levelConfig) :=
  finishes_read hw hi ho (finishes_levelConfig rfl hi (Function.update_self ..))

theorem finishes_timestamp (hw : s.worker = .get m .timestamp)
    (hi : s.configInstance = some object) (ho : s.objects object = some stores) :
    Finishes s object (afterRead stores m.level .levelConfig) := by
  refine finishes_read hw hi ho ?_
  by_cases hlevel : m.level = WARNING ∨ m.level = ERROR ∨ m.level = FATAL
  · have hnext : next m stores .timestamp = some .levelFile := if_pos hlevel
    rw [hnext]
    exact finishes_levelFile rfl hi (Function.update_self ..)
  · have hnext : next m stores .timestamp = some .levelConfig := if_neg hlevel
    rw [hnext]
    exact finishes_levelConfig rfl hi (Function.update_self ..)

end Action

/-- **An action that nobody interrupts** leaves `LogConfig` as `runMessage` does. -/
theorem finishes_runMessage {w : World} {q : QueuedMessage} {l : Logger} {early : Bool}
    {object : Object} (hl : w.loggers q.logger = some l)
    (hw : s.worker = .get ⟨q.level, l.config.PrintToConsole, early⟩ .timestamp)
    (hi : s.configInstance = some object)
    (ho : s.objects object = some (Effects.config w).stores) :
    ∃ u, runMessage q [] w = .ok () u ∧ Finishes s object (Effects.config u).stores :=
  ⟨_, run_runMessage hl List.not_mem_nil, finishes_timestamp hw hi ho⟩

/-! ### Two runs -/

/-- A document that sets the folder of the logs. -/
def custom : Node := .map [(.scalar "LogsRootFolder", .scalar "custom/")]

/-- A warning is queued, and the worker is slower than the teardown. -/
def lateRun : List Event :=
  [.log WARNING false, .destroyApi, .teardown, .teardown, .teardown, .teardown, .teardown,
    .worker, .worker, .worker, .worker, .worker]

/-- **A warning that is still queued goes to the folder `logs/`**, whatever the document says. -/
theorem not_observes_loaded :
    ¬ ∀ loaded s, (system loaded).Reachable s → Good loaded s := by
  intro h
  have hrun : ∃ s, exec step (initial (built noConversions custom)) lateRun = some s ∧
      s.observed.getLast? = some ⟨⟨WARNING, false, true⟩, .levelFile, .recreated,
        some (.rootFolder "logs/")⟩ := ⟨_, rfl, rfl⟩
  obtain ⟨s, hs, hlast⟩ := hrun
  have hgood := h _ s (reachable_exec lateRun (.init rfl) hs) _ (List.mem_of_getLast? hlast) rfl
  have hseen : some (Seen.rootFolder "logs/") = some (Seen.rootFolder
      (built noConversions custom).globalConfig.LogsRootFolder) := hgood.2
  have hfolder := Seen.rootFolder.inj (Option.some.inj hseen)
  exact absurd hfolder (by decide)

/-- The worker is done before the teardown begins. -/
theorem observes_loaded_early : ∃ r : List (Event × State),
    (system (built noConversions custom)).IsRun (initial (built noConversions custom)) r ∧
    (∀ p ∈ r, Good (built noConversions custom) p.2) ∧
    Along Settled (initial (built noConversions custom)) r := by
  have hrun : ∃ r : List (Event × State),
      (system (built noConversions custom)).IsRun (initial (built noConversions custom)) r ∧
      r.map Prod.fst = [.log WARNING false, .worker, .worker, .worker, .worker, .worker, .worker,
        .worker, .destroyApi, .teardown, .teardown, .teardown, .teardown, .teardown, .worker,
        .teardown] ∧
      (∃ p, r.getLast? = some p ∧ p.2.teardown = .done) ∧
      Along Settled (initial (built noConversions custom)) r :=
    ⟨[(.log WARNING false, _), (.worker, _), (.worker, _), (.worker, _), (.worker, _),
      (.worker, _), (.worker, _), (.worker, _), (.destroyApi, _), (.teardown, _), (.teardown, _),
      (.teardown, _), (.teardown, _), (.teardown, _), (.worker, _), (.teardown, _)],
      ⟨rfl, rfl, rfl, rfl, rfl, rfl, rfl, rfl, rfl, rfl, rfl, rfl, rfl, rfl, rfl, rfl, trivial⟩,
      rfl, ⟨_, rfl, rfl⟩, trivial, trivial, trivial, trivial, trivial, trivial, trivial, trivial,
      trivial, nofun, nofun, fun _ _ hm => absurd hm List.not_mem_nil, nofun, nofun, trivial, nofun,
      trivial⟩
  obtain ⟨r, hr, -, ⟨p, hp, hd⟩, hc⟩ := hrun
  have hgood := (observes_loaded _ hr).1 hc
  exact ⟨r, hr, hgood, (observes_loaded _ hr).2 p hp hd (hgood p (List.mem_of_getLast? hp))⟩

end SampLogCore.Lifecycle.Shutdown
