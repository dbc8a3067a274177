import SampLogCore.Levels
import SampLogCore.Debug.AmxDebugManager

/-!
# Messages with debug context

`PluginLogger::Log(amx, level, msg)` asks for a call trace and hands the message to the logger with
it, `PluginLogger::Log(level, msg)` hands it over without one. The logger queues what its level lets
through.

The first of the two puts a `&&` between the trace and the logger, so a message without a trace is
dropped. As no trace is ever delivered, this loses every message: the two agree exactly on the
levels that the logger does not log (`contextCostsNothing_iff`).
-/

namespace SampLogCore.Debug.PluginLogger

open SampLogCore.Levels SampLogCore.Debug.AmxDebugManager

/-- A queued message. -/
structure Message where
  level : LogLevel
  msg : String
  call_info : List AmxFuncCallInfo

/-- `Logger::Log`: the result and the queue, for a logger with the mask `Level`. -/
def Log (Level level : LogLevel) (msg : String) (call_info : List AmxFuncCallInfo)
    (queue : List Message) : Bool × List Message :=
  if IsLogLevel Level level = false then (false, queue)
  else (true, queue ++ [⟨level, msg, call_info⟩])

/-- `PluginLogger::Log(level, msg)`. -/
def LogPlain (Level level : LogLevel) (msg : String) (queue : List Message) :
    Bool × List Message :=
  Log Level level msg [] queue

variable {P : Type*} [DecidableEq P]

/-- `Api::GetAmxFunctionCallTrace`. -/
def GetAmxFunctionCallTrace (m : Manager P) (amx : P) (regs : AMX) (dest : List AmxFuncCallInfo)
    (rounds : ℕ) : Option (Bool × List AmxFuncCallInfo) :=
  match GetFunctionCallTrace m amx regs dest rounds with
  | none => none
  | some (false, dest) => some (false, dest)
  | some (true, dest) => some (!dest.isEmpty, dest)

/-- `PluginLogger::Log(amx, level, msg)`. -/
def LogAmx (m : Manager P) (amx : P) (regs : AMX) (Level level : LogLevel) (msg : String)
    (queue : List Message) (rounds : ℕ) : Option (Bool × List Message) :=
  match GetAmxFunctionCallTrace m amx regs [] rounds with
  | none => none
  | some (false, _) => some (false, queue)
  | some (true, call_info) => some (Log Level level msg call_info queue)

/-- A call on the manager. -/
inductive Call (P : Type*)
  | RegisterAmx (amx : P) (base : AMX_HEADER)
  | EraseAmx (amx : P)

/-- The manager after one more call. -/
def Call.run (m : Manager P) : Call P → Manager P
  | RegisterAmx amx base => m.RegisterAmx amx base
  | EraseAmx amx => m.EraseAmx amx

/-- The manager after a history of calls, from its constructor on. -/
def history (disableDebugInfo : Bool) (available : List (AMX_HEADER × AMX_DBG))
    (calls : List (Call P)) : Manager P :=
  calls.foldl Call.run ⟨disableDebugInfo, available, fun _ => none⟩

/-- The message with context is queued exactly when the message without context is. -/
def ContextCostsNothing (m : Manager P) (amx : P) (regs : AMX) (Level level : LogLevel)
    (msg : String) (queue : List Message) : Prop :=
  ∃ rounds result queue', LogAmx m amx regs Level level msg queue rounds = some (result, queue') ∧
    ((∃ call_info, queue' = queue ++ [⟨level, msg, call_info⟩]) ↔
      (LogPlain Level level msg queue).2 = queue ++ [⟨level, msg, []⟩])

omit [DecidableEq P] in
/-- The message with context is dropped. -/
theorem logAmx_eq (m : Manager P) (amx : P) (regs : AMX) (Level level : LogLevel) (msg : String)
    (queue : List Message) (rounds : ℕ) :
    LogAmx m amx regs Level level msg queue rounds = some (false, queue) := by
  simp only [LogAmx, GetAmxFunctionCallTrace, getFunctionCallTrace_eq]

/-- The message without context is queued when its level is logged. -/
theorem logPlain_queues_iff (Level level : LogLevel) (msg : String) (queue : List Message) :
    (LogPlain Level level msg queue).2 = queue ++ [⟨level, msg, []⟩] ↔
      IsLogLevel Level level = true := by
  unfold LogPlain Log
  split_ifs with h <;> simp [h]

/-- **Debug context costs every message that would be logged**: after any history of registrations,
with any tables, the two calls agree exactly on the levels that are not logged. -/
theorem contextCostsNothing_iff (disableDebugInfo : Bool)
    (available : List (AMX_HEADER × AMX_DBG)) (calls : List (Call P)) (amx : P) (regs : AMX)
    (Level level : LogLevel) (msg : String) (queue : List Message) :
    ContextCostsNothing (history disableDebugInfo available calls) amx regs Level level msg queue ↔
      IsLogLevel Level level = false := by
  unfold ContextCostsNothing
  simp only [logAmx_eq, logPlain_queues_iff, Option.some.injEq, Prod.mk.injEq]
  constructor
  · rintro ⟨_, _, _, ⟨rfl, rfl⟩, h⟩
    by_contra hlevel
    obtain ⟨call_info, hq⟩ := h.mpr (by simpa using hlevel)
    exact absurd (congrArg List.length hq) (by simp)
  · intro hlevel
    refine ⟨0, false, queue, ⟨rfl, rfl⟩, ?_⟩
    constructor
    · rintro ⟨call_info, hq⟩
      exact absurd (congrArg List.length hq) (by simp)
    · intro h
      rw [hlevel] at h
      exact absurd h (by simp)

/-- An error of a plugin whose script is not registered is dropped by a logger of errors. -/
theorem not_contextCostsNothing_error :
    ¬ ContextCostsNothing (history false [] ([] : List (Call Unit))) () ⟨0, 0, fun _ => 0⟩
      ERROR ERROR "error" [] := by
  rintro ⟨rounds, result, queue', hlog, h⟩
  rw [logAmx_eq] at hlog
  obtain ⟨rfl, rfl⟩ := Prod.mk.inj (Option.some.inj hlog)
  obtain ⟨call_info, hq⟩ := h.mpr rfl
  exact absurd (congrArg List.length hq) (by simp)

end SampLogCore.Debug.PluginLogger
