import SampLogCore.Lib.LockOrder
import SampLogCore.Lifecycle.Library

/-!
# The threads of the library and their mutexes

Any number of clients call the interface, the worker runs the queued actions, the watcher reloads
the configuration, and the rotation thread goes through the registered files. What they do to the
three mutexes and to each other is a program for each function of the source. The data is left
out: where the source branches on it, the program may go either way.

Who waits is who waits for a mutex, in a join, or for pending actions. The condition variable is not
modelled: a wait releases `_queueMtx` and may return at any time, so a worker that sleeps is none of
those (what its lost notifications do is in `LogManager.Wakeup`). Every thread runs its program
once.

The mutexes have an order: `_configLock`, `_rotationEntriesLock`, `_queueMtx`. All functions keep to
it, with one exception. The first `LogManager::Get` constructs the internal logger, which takes
`_configLock`; where a message is logged with `_configLock` or `_rotationEntriesLock` held, this is
against the order. So the threads are live exactly when `LogManager` is there before the first such
message (**`live_iff`**); `managed` says that it is.
-/

namespace SampLogCore.Lifecycle.Threads

open SampLogCore.Lib.Transition SampLogCore.Lib.LockOrder SampLogCore.Lifecycle.Library

inductive ThreadId
  /-- a thread that calls the interface -/
  | client (n : ℕ)
  /-- `LogManager::_thread` -/
  | worker
  /-- `FileChangeDetector::_eventThread` -/
  | watcher
  /-- `LogRotationManager::_thread` -/
  | rotation
  deriving DecidableEq

/-- What a function does with the mutexes and the threads. -/
abbrev Program := Cmd Mutex ThreadId

/-- One after the other. -/
def block : List Program → Program
  | [] => .skip
  | c :: cs => .seq c (block cs)

/-- One of them. -/
def oneOf : List Program → Program
  | [] => .skip
  | c :: cs => .choice c (oneOf cs)

/-- `std::lock_guard<std::mutex> lock(k)` around a block. -/
def guarded (k : Mutex) (c : Program) : Program := block [.acquire k, c, .release k]

/-! ### `LogConfig`, `LogRotationManager` and `Logger` -/

def GetGlobalConfig : Program := guarded .configLock .skip

def GetLogLevelConfig : Program := guarded .configLock .skip

def RegisterLogFile : Program := guarded .rotationEntriesLock .skip

def UnregisterLogFile : Program := guarded .rotationEntriesLock .skip

/-- `Logger::OnConfigUpdate`. -/
def OnConfigUpdate : Program := block [.skip, RegisterLogFile]

/-- `LogConfig::AddLoggerConfig`, with or without a callback. -/
def AddLoggerConfig : Program := oneOf [OnConfigUpdate]

/-- `LogConfig::SubscribeLogger`, with or without a configuration. -/
def SubscribeLogger : Program := block [.skip, guarded .configLock (oneOf [OnConfigUpdate])]

/-- `LogConfig::UnsubscribeLogger`. -/
def UnsubscribeLogger : Program := .skip

/-- `Logger::Logger`. -/
def Logger.new : Program := block [GetGlobalConfig, SubscribeLogger]

/-- `Logger::~Logger`: it waits for the worker while actions of the logger are pending. -/
def Logger.delete : Program := block [UnsubscribeLogger, UnregisterLogFile, oneOf [.await .worker]]

/-! ### `LogManager` -/

/-- `LogManager::Get`: the constructor creates the internal logger when there is no instance. -/
def LogManager.Get (managed : Bool) : Program :=
  if managed then .skip else oneOf [Logger.new]

/-- `LogManager::Queue`. -/
def Queue : Program := guarded .queueMtx .skip

/-- `Logger::Log`: nothing happens for a level that the logger does not log. -/
def Log (managed : Bool) : Program := oneOf [block [LogManager.Get managed, Queue]]

/-- `LogManager::Get()->LogInternal(level, msg)`. -/
def LogInternal (managed : Bool) : Program := block [LogManager.Get managed, Log managed]

/-- The action that `Logger::Log` queues: `FormatTimestamp`, `WriteLevelLogString`, the level's
settings, `PrintLogString`. -/
def action : Program :=
  block [GetGlobalConfig, LogManager.Get false, oneOf [GetGlobalConfig], GetLogLevelConfig,
    oneOf [GetGlobalConfig]]

/-- `_queueNotifier.wait(lk)`, which may return without a notification: what it does to the
mutex. -/
def wait : Program := block [.release .queueMtx, .skip, .acquire .queueMtx]

/-- The loop body of `LogManager::Process`. -/
def processRound : Program :=
  block [wait, .loop (block [.release .queueMtx, action, .acquire .queueMtx])]

/-- `LogManager::Process`. -/
def Process : Program :=
  block [.acquire .queueMtx, processRound, .loop processRound, .release .queueMtx]

/-- `LogManager::Destroy`. -/
def LogManager.Destroy : Program :=
  oneOf [block [guarded .queueMtx .skip, .skip, .join .worker, Logger.delete]]

/-! ### Loading the configuration -/

/-- `ParseLogLevel`. -/
def ParseLogLevel (managed : Bool) : Program := oneOf [LogInternal managed]

/-- One round of the loop over the loggers: a name that is refused, or the levels, the rotation and
the configuration. -/
def ParseLogger (managed : Bool) : Program :=
  oneOf [LogInternal managed,
    block [.loop (ParseLogLevel managed), oneOf [LogInternal managed], AddLoggerConfig]]

/-- `LogConfig::ParseConfigFile`: a parser exception, no file, or a document. -/
def ParseConfigFile (managed : Bool) : Program :=
  oneOf [LogInternal false, .skip, guarded .configLock (block [AddLoggerConfig,
    .loop (ParseLogger managed), .loop (ParseLogLevel managed), oneOf [LogInternal managed]])]

/-- The callback of the file watcher. -/
def onFileChange (managed : Bool) : Program :=
  block [LogInternal false, ParseConfigFile managed, LogInternal false]

/-- `FileChangeDetector::EventLoop`. -/
def EventLoop (managed : Bool) : Program :=
  block [oneOf [LogInternal false],
    .loop (oneOf [.skip, LogInternal false, onFileChange managed]), oneOf [LogInternal false]]

/-- `LogConfig::Initialize`: a watcher that is there is replaced, which joins its thread. -/
def Initialize (managed : Bool) : Program := block [ParseConfigFile managed, oneOf [.join .watcher]]

/-! ### Rotation -/

def CheckDateRotation : Program := .skip

/-- `CheckSizeRotation`, which logs a size that it cannot read. -/
def CheckSizeRotation (managed : Bool) : Program := oneOf [LogInternal managed]

/-- `LogRotationManager::Process`. -/
def LogRotationManager.Process (managed : Bool) : Program :=
  .loop (block [.skip, guarded .rotationEntriesLock
    (.loop (oneOf [CheckDateRotation, CheckSizeRotation managed])), .skip])

/-! ### The interface -/

/-- `samplog_GetApi`. -/
def samplog_GetApi (managed : Bool) : Program :=
  block [oneOf [block [Initialize managed, LogManager.Get false]], oneOf [LogInternal false]]

/-- `samplog_DestroyApi`. -/
def samplog_DestroyApi : Program :=
  oneOf [block [oneOf [.join .rotation], .skip, oneOf [.join .watcher], LogManager.Destroy]]

/-- `AmxDebugManager::Get`. -/
def AmxDebugManager.Get : Program := oneOf [GetGlobalConfig]

/-- `Logger::LogNativeCall`. -/
def LogNativeCall : Program := oneOf [block [AmxDebugManager.Get, Log false]]

/-- A thread that calls the interface, whatever and as often as it likes. -/
def clientCalls (managed : Bool) : Program :=
  .loop (oneOf [samplog_GetApi managed, samplog_DestroyApi, oneOf [Logger.new], Logger.delete,
    Log false, LogNativeCall, AmxDebugManager.Get])

/-- What each thread runs. -/
def program (managed : Bool) : ThreadId → Program
  | .client _ => clientCalls managed
  | .worker => Process
  | .watcher => EventLoop managed
  | .rotation => LogRotationManager.Process managed

/-! ### The order of the mutexes -/

/-- The order in which the mutexes are taken. -/
def rank : Mutex → ℕ
  | .configLock => 0
  | .rotationEntriesLock => 1
  | .queueMtx => 2

theorem rank_le (k : Mutex) : rank k ≤ 2 := by
  cases k <;> decide

/-- **All threads keep the order** as long as `LogManager` is there. -/
theorem disciplined : Disciplined rank (program true) where
  checked := by
    have hclient : check rank (clientCalls true) [] = some [] := by decide
    intro t
    cases t with
    | client n => exact hclient
    | worker => decide
    | watcher => decide
    | rotation => decide
  waited := by
    have hclient : ∀ u ∈ waits (clientCalls true), waits (program true u) = [] := by decide
    intro t u hu
    cases t with
    | client n => exact hclient u hu
    | worker => exact absurd hu (List.not_mem_nil (a := u))
    | watcher => exact absurd hu (List.not_mem_nil (a := u))
    | rotation => exact absurd hu (List.not_mem_nil (a := u))

/-! ### Without an instance -/

/-- The choices of the watcher on the way to a message about a name that is refused, under
`_configLock` and with no instance of `LogManager`. -/
def badReload : List Bool :=
  [true, false, true, true, true, false, false, true, true, true, false, true, true, false, true,
    true, true, false, false, true, true, true, true, true, false, true, true, true, true, true,
    true, true, true]

/-- The thread waits for a mutex that it holds. -/
def waitsForItself (s : State Mutex ThreadId) (t : ThreadId) : Bool :=
  match s.left t with
  | .acquire k :: _ => s.owner k = some t
  | _ => false

theorem deadlocked_of_waitsForItself {s : State Mutex ThreadId} {t : ThreadId}
    (h : waitsForItself s t = true) : Deadlocked s := by
  refine ⟨{t}, Set.singleton_nonempty t, ?_⟩
  rintro u rfl
  refine ⟨u, rfl, ?_⟩
  unfold waitsForItself at h
  split at h
  · exact .mutex ‹_› (by simpa using h)
  · exact absurd h (by simp)

/-- A message that is logged under `_configLock` before `LogManager` is there stops its thread. -/
theorem deadlock_reachable : ∃ s, (threads (program false)).Reachable s ∧ Deadlocked s := by
  have hrun : (exec step ⟨fun t => [program false t], fun _ => none⟩
      (badReload.map fun b => (ThreadId.watcher, b))).map (waitsForItself · .watcher) =
      some true := by decide
  obtain ⟨s, hexec, hs⟩ := Option.map_eq_some_iff.mp hrun
  exact ⟨s, reachable_exec _ (.init rfl) hexec, deadlocked_of_waitsForItself hs⟩

/-- **The threads of the library are live**, as far as mutexes, joins and pending actions go, in
every reachable state of every interleaving, exactly when `LogManager` is there before a message is
logged with a mutex held. -/
theorem live_iff (managed : Bool) :
    (∀ s, (threads (program managed)).Reachable s → Live s) ↔ managed = true := by
  constructor
  · intro h
    cases managed
    · obtain ⟨s, hs, hdead⟩ := deadlock_reachable
      exact absurd hdead (h s hs).1
    · rfl
  · rintro rfl s hs
    exact disciplined.live rank_le hs

end SampLogCore.Lifecycle.Threads
