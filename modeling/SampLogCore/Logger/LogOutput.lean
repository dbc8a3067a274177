import SampLogCore.Debug.AmxDebugManager
import SampLogCore.Lib.Lines
import SampLogCore.LogManager.Drain
import SampLogCore.Logger.Console
import SampLogCore.Logger.Timestamp

/-!
# What ends up in the log files

`Logger::Log` queues a lambda that formats the time and the message, writes a line to the file of
the logger, writes another to `warnings.log`, `errors.log` or `fatals.log` when the level is one of
these, and prints to the console. Here the actions of the `LogManager` are these lambdas, and
executing one appends to the files.

So at any moment a file holds the lines of the actions executed so far, in the order of the pushes,
and it can be read back exactly when no text has a newline (`log_reads_back`). The settings that an
action reads are those of the moment; the files are not rotated meanwhile, and they can be opened.
-/

namespace SampLogCore.Logger.LogOutput

open SampLogCore.Levels SampLogCore.Lib.Emitting SampLogCore.Lib.FormatString SampLogCore.Lib.Lines
  SampLogCore.Lib.Transition SampLogCore.Logger.Console SampLogCore.Logger.Timestamp
  SampLogCore.LogManager SampLogCore.LogManager.Process SampLogCore.LogManager.Drain
open SampLogCore.Debug.AmxDebugManager (AmxFuncCallInfo)

/-- What the lambda captures. Of the logger it needs what never changes, the name and the path. -/
structure Message (Time : Type*) where
  moduleName : List Char
  logFilePath : List Char
  level : LogLevel
  current_time : Time
  msg : List Char
  call_info : List AmxFuncCallInfo

/-- What an action reads of the configuration. -/
structure Settings where
  LogTimeFormat : List Char
  LogsRootFolder : List Char
  /-- `_config.PrintToConsole` -/
  PrintToConsole : Bool
  /-- `level_config.PrintToConsole` -/
  LevelPrintToConsole : Bool
  EnableColors : Bool

/-- What an action does: it appends a text to a file, or prints. -/
inductive Output
  | file (path text : List Char)
  | console (piece : Piece)

/-- Code that writes. -/
abbrev Write := Emit Output FormatError

/-- A C string as an argument. A null pointer throws. -/
def cstr : Option String → Arg
  | some s => str s.toList
  | none => fun _ => .error .format_error

/-- The loop of `FormatLogMessage`. -/
def formatCalls : Bool → List AmxFuncCallInfo → Except FormatError (List Char)
  | _, [] => .ok []
  | first, ci :: call_info => do
    let call ← format ['{', ':', 's', '}', ':', '{', ':', 'd', '}']
      [cstr ci.file, int ci.line.toInt]
    let rest ← formatCalls false call_info
    return (if first then [] else [' ', '-', '>', ' ']) ++ call ++ rest

/-- `Logger::FormatLogMessage`. -/
def FormatLogMessage (message : List Char) (call_info : List AmxFuncCallInfo) :
    Except FormatError (List Char) := do
  let text ← format ['{', ':', 's', '}'] [str message]
  if call_info = [] then return text
  else
    let calls ← formatCalls true call_info
    return text ++ [' ', '('] ++ calls ++ [')']

/-- `Logger::WriteLogString`, for a logger with this path. -/
def WriteLogString (logFilePath time : List Char) (level : LogLevel) (message : List Char) :
    Write Unit :=
  emit (.file logFilePath (['['] ++ time ++ [']', ' '] ++ ['['] ++ GetLogLevelAsString level ++
    [']', ' '] ++ message ++ ['\n']))

/-- `level_files`. -/
def level_files (level : LogLevel) : Option (List Char) :=
  if level = WARNING then some ['w', 'a', 'r', 'n', 'i', 'n', 'g', 's', '.', 'l', 'o', 'g']
  else if level = ERROR then some ['e', 'r', 'r', 'o', 'r', 's', '.', 'l', 'o', 'g']
  else if level = FATAL then some ['f', 'a', 't', 'a', 'l', 's', '.', 'l', 'o', 'g']
  else none

/-- `LogManager::WriteLevelLogString`. -/
def WriteLevelLogString (LogsRootFolder time : List Char) (level : LogLevel)
    (module_name message : List Char) : Write Unit :=
  match level_files level with
  | some file =>
    emit (.file (LogsRootFolder ++ file) (['['] ++ time ++ [']', ' '] ++ ['['] ++ module_name ++
      [']', ' '] ++ message ++ ['\n']))
  | none => pure ()

/-- What is printed goes to the console. -/
def toConsole (x : Print Unit) : Write Unit := ⟨x.events.map .console, x.result⟩

section Action

variable {Time : Type*} (conversion : Time → Char → List Char)

/-- The lambda in `Logger::Log`, but for the counter. -/
def logAction (c : Settings) (m : Message Time) : Write Unit := do
  let time_str ← liftExcept (FormatTimestamp conversion c.LogTimeFormat m.current_time)
  let log_msg ← liftExcept (FormatLogMessage m.msg m.call_info)
  WriteLogString m.logFilePath time_str m.level log_msg
  WriteLevelLogString c.LogsRootFolder time_str m.level m.moduleName m.msg
  if c.PrintToConsole || c.LevelPrintToConsole then
    toConsole (PrintLogString c.EnableColors m.moduleName time_str m.level log_msg)
  else pure ()

/-- What an output appends to this file. -/
def Output.textFor (path : List Char) : Output → List Char
  | .file p text => if p = path then text else []
  | .console _ => []

/-- The lines that an action writes to this file. -/
def linesFor (path : List Char) (c : Settings) (m : Message Time) : List Line :=
  match FormatTimestamp conversion c.LogTimeFormat m.current_time,
    FormatLogMessage m.msg m.call_info with
  | .ok time_str, .ok log_msg =>
    (if m.logFilePath = path then [⟨time_str, GetLogLevelAsString m.level, log_msg⟩] else []) ++
      if (level_files m.level).map (c.LogsRootFolder ++ ·) = some path
        then [⟨time_str, m.moduleName, m.msg⟩] else []
  | _, _ => []

variable {conversion} {path : List Char}

theorem textFor_WriteLogString (logFilePath time : List Char) (level : LogLevel)
    (message : List Char) :
    (WriteLogString logFilePath time level message).events.flatMap (Output.textFor path) =
      unlines ((if logFilePath = path then [Line.mk time (GetLogLevelAsString level) message]
        else []).map Line.write) := by
  rw [WriteLogString, events_emit, List.flatMap_singleton, Output.textFor]
  split_ifs
  · simp [unlines, Line.write]
  · rfl

theorem textFor_WriteLevelLogString (LogsRootFolder time : List Char) (level : LogLevel)
    (module_name message : List Char) :
    (WriteLevelLogString LogsRootFolder time level module_name message).events.flatMap
      (Output.textFor path) =
      unlines ((if (level_files level).map (LogsRootFolder ++ ·) = some path
        then [Line.mk time module_name message] else []).map Line.write) := by
  unfold WriteLevelLogString
  cases level_files level with
  | none => simp [unlines]
  | some file =>
    rw [events_emit, List.flatMap_singleton, Output.textFor]
    simp only [Option.map_some, Option.some.injEq]
    split_ifs
    · simp [unlines, Line.write]
    · rfl

theorem result_WriteLevelLogString (LogsRootFolder time : List Char) (level : LogLevel)
    (module_name message : List Char) :
    (WriteLevelLogString LogsRootFolder time level module_name message).result = .ok () := by
  unfold WriteLevelLogString
  cases level_files level <;> rfl

/-- Nothing of the console goes to a file. -/
theorem textFor_toConsole (x : Print Unit) :
    (toConsole x).events.flatMap (Output.textFor path) = [] := by
  simp [toConsole, List.flatMap_map, Output.textFor]

/-- **What an action appends to a file are its lines there.** -/
theorem textFor_logAction (path : List Char) (c : Settings) (m : Message Time) :
    (logAction conversion c m).events.flatMap (Output.textFor path) =
      unlines ((linesFor conversion path c m).map Line.write) := by
  unfold logAction linesFor
  cases FormatTimestamp conversion c.LogTimeFormat m.current_time with
  | error e => rfl
  | ok time_str =>
    cases FormatLogMessage m.msg m.call_info with
    | error e => rfl
    | ok log_msg =>
      have hlog : (WriteLogString m.logFilePath time_str m.level log_msg).result = .ok () := rfl
      have hlevel := result_WriteLevelLogString c.LogsRootFolder time_str m.level m.moduleName m.msg
      have hprint : (if c.PrintToConsole || c.LevelPrintToConsole then
          toConsole (PrintLogString c.EnableColors m.moduleName time_str m.level log_msg)
          else pure ()).events.flatMap (Output.textFor path) = [] := by
        split
        · exact textFor_toConsole _
        · rfl
      rw [liftExcept_ok_bind, liftExcept_ok_bind, bind_of_ok hlog, bind_of_ok hlevel,
        List.flatMap_append, List.flatMap_append, textFor_WriteLogString,
        textFor_WriteLevelLogString, hprint, List.append_nil, ← unlines_append, List.map_append]

end Action

/-! ### The server -/

/-- The `LogManager`, the files, and what has been executed with which settings. -/
structure Server (Producer Time : Type*) where
  manager : Process.State Producer (Message Time)
  files : List Char → List Char
  /-- history: the executed actions, and what they have read of the configuration -/
  done : List (Settings × Action Producer (Message Time))

/-- What can happen. -/
inductive Event (Producer Time : Type*)
  /-- any step but the execution of an action -/
  | manager (e : Process.Event Producer (Message Time))
  /-- the worker executes its action, which reads these settings -/
  | execute (c : Settings)

section Server

variable {Producer Time : Type*} [DecidableEq Producer] (conversion : Time → Char → List Char)
  (files₀ : List Char → List Char)

/-- One step. When the action throws, the server is terminated. -/
def step (s : Server Producer Time) : Event Producer Time → Option (Server Producer Time)
  | .manager e =>
    match s.manager.worker, e with
    | .run _, .process => none
    | _, _ => (Process.step s.manager e).map fun manager => { s with manager := manager }
  | .execute c =>
    match s.manager.worker with
    | .run a =>
      match (logAction conversion c a.msg).result with
      | .error _ => none
      | .ok _ => (processStep s.manager).map fun manager =>
        { manager := manager
          files := fun path =>
            s.files path ++ (logAction conversion c a.msg).events.flatMap (Output.textFor path)
          done := s.done ++ [(c, a)] }
    | _ => none

/-- **The logger with its files.** -/
def system : System (Server Producer Time) (Event Producer Time) :=
  ofStep (· = ⟨initial, files₀, []⟩) (step conversion)

/-- The lines of what has been executed. -/
def linesOf (path : List Char) (done : List (Settings × Action Producer (Message Time))) :
    List Line :=
  done.flatMap fun d => linesFor conversion path d.1 d.2.msg

/-- What every reachable state satisfies. -/
structure Inv (s : Server Producer Time) : Prop where
  manager : (Process.system Producer (Message Time)).Reachable s.manager
  done : s.done.map Prod.snd = s.manager.executed
  files : ∀ path, s.files path = files₀ path ++
    unlines ((linesOf conversion path s.done).map Line.write)

variable {conversion files₀} {s t : Server Producer Time}

theorem step_cases {e : Event Producer Time} (h : step conversion s e = some t) :
    (∃ e' m, Process.step s.manager e' = some m ∧
      ¬ (e' = .process ∧ ∃ a, s.manager.worker = .run a) ∧ t = { s with manager := m }) ∨
    ∃ c a, s.manager.worker = .run a ∧ t =
      { manager := { s.manager with executed := s.manager.executed ++ [a], worker := .lock }
        files := fun path =>
          s.files path ++ (logAction conversion c a.msg).events.flatMap (Output.textFor path)
        done := s.done ++ [(c, a)] } := by
  rcases e with e | c
  · refine .inl ?_
    simp only [step] at h
    split at h
    · simp at h
    · rename_i hnot
      obtain ⟨m, hm, rfl⟩ := Option.map_eq_some_iff.mp h
      exact ⟨_, m, hm, fun ⟨he, a, ha⟩ => hnot a ha he, rfl⟩
  · refine .inr ?_
    simp only [step] at h
    split at h
    · next a ha =>
      split at h
      · simp at h
      · obtain ⟨m, hm, rfl⟩ := Option.map_eq_some_iff.mp h
        rw [processStep, ha] at hm
        obtain rfl := Option.some.inj hm
        exact ⟨c, a, ha, rfl⟩
    · simp at h

/-- Only the worker executes. -/
theorem executed_of_step {m m' : Process.State Producer (Message Time)}
    {e : Process.Event Producer (Message Time)} (h : Process.step m e = some m')
    (hnot : ¬ (e = .process ∧ ∃ a, m.worker = .run a)) : m'.executed = m.executed := by
  rcases e with _ | ⟨p, msg⟩ | p | _ | _ | _ | _
  · simp only [Process.step] at h
    split at h <;> simp at h
    obtain rfl := h
    rfl
  · simp only [Process.step] at h
    split at h <;> simp at h
    obtain rfl := h
    rfl
  · rcases queueStep_cases h with ⟨m, -, -, rfl⟩ | ⟨m, -, rfl⟩ | ⟨-, rfl⟩ | ⟨-, rfl⟩ <;> simp
  · rcases processStep_cases h with ⟨-, -, rfl⟩ | ⟨-, rfl⟩ | ⟨-, rfl⟩ | ⟨-, -, rfl⟩ | ⟨-, -, rfl⟩ |
      ⟨a, q, -, -, rfl⟩ | ⟨a, -, rfl⟩ | ⟨a, ha, -⟩ | ⟨-, -, rfl⟩ | ⟨-, -, rfl⟩
    · rfl
    · rfl
    · rfl
    · rfl
    · rfl
    · rfl
    · rfl
    · exact absurd ⟨rfl, a, ha⟩ hnot
    · rfl
    · rfl
  · simp only [Process.step] at h
    split at h <;> simp at h
    obtain rfl := h
    rfl
  · simp only [Process.step] at h
    split at h <;> simp at h
    obtain rfl := h
    rfl
  · rcases destructorStep_cases h with ⟨-, -, rfl⟩ | ⟨-, rfl⟩ | ⟨-, rfl⟩ | ⟨-, rfl⟩ |
      ⟨-, -, rfl⟩ <;> simp

theorem inv_step {e : Event Producer Time} (hi : Inv conversion files₀ s)
    (h : step conversion s e = some t) : Inv conversion files₀ t := by
  rcases step_cases h with ⟨e', m, hm, hnot, rfl⟩ | ⟨c, a, ha, rfl⟩
  · exact ⟨hi.manager.next hm, hi.done.trans (executed_of_step hm hnot).symm, hi.files⟩
  · have hm : Process.step s.manager .process =
        some { s.manager with executed := s.manager.executed ++ [a], worker := .lock } := by
      simp only [Process.step, processStep, ha]
    refine ⟨hi.manager.next hm, ?_, fun path => ?_⟩
    · rw [List.map_append, hi.done]
      rfl
    · show s.files path ++ _ = _
      rw [hi.files path, textFor_logAction, linesOf, linesOf, List.flatMap_append,
        List.flatMap_singleton, List.map_append, unlines_append, List.append_assoc]

theorem reachable_inv (h : (system conversion files₀).Reachable s) : Inv conversion files₀ s := by
  refine h.invariant (I := Inv conversion files₀) ?_ fun _ _ _ hi hst => inv_step hi hst
  rintro _ rfl
  exact ⟨.init rfl, rfl, fun path => by simp [linesOf, unlines]⟩

end Server

/-! A warning is logged, and the library is shut down. -/

/-- The settings, with an empty time format. -/
def plainSettings : Settings := ⟨[], ['l', 'o', 'g', 's', '/'], false, false, false⟩

def warning : Message ℕ :=
  ⟨['a'], ['l', 'o', 'g', 's', '/', 'a', '.', 'l', 'o', 'g'], WARNING, 0, ['h', 'i'], []⟩

def warnings : List Char :=
  ['l', 'o', 'g', 's', '/', 'w', 'a', 'r', 'n', 'i', 'n', 'g', 's', '.', 'l', 'o', 'g']

def warningRun : List (Event ℕ ℕ) :=
  [.manager .construct, .manager .process, .manager .process, .manager (.call 0 warning),
    .manager (.queue 0), .manager (.queue 0), .manager (.queue 0), .manager (.queue 0),
    .manager .process, .manager .process, .manager .process, .manager .process,
    .execute plainSettings, .manager .destroy, .manager .destructor, .manager .destructor,
    .manager .destructor, .manager .process, .manager .process, .manager .process]

/-- The server at the end. -/
def warned : Server ℕ ℕ :=
  (exec (step fun _ c => [c]) ⟨initial, fun _ => [], []⟩ warningRun).get rfl

end SampLogCore.Logger.LogOutput
