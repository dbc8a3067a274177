import SampLogCore.Amx.Strings
import SampLogCore.Debug.PluginLogger
import SampLogCore.Lib.FormatString

/-!
# Logging a native call

`Logger::LogNativeCall` makes a message of the name of a native, and of its parameters as a format
string of one character a parameter says. The parameters are an array of the script: its first cell
is the size of the rest in bytes. The loop does not look at that cell, and reads a parameter before
it looks at the character. A character it does not know ends it without a message.

Behind the guards the call is safe exactly when the parameters of the characters that are reached
are there and those of `s` are strings (`logNativeCall_safe_iff`).
-/

namespace SampLogCore.Logger.NativeCall

open SampLogCore.Amx.Strings SampLogCore.Levels SampLogCore.Debug.PluginLogger
open SampLogCore.Lib.FormatString SampLogCore.Lib.Number
open SampLogCore.Debug.AmxDebugManager (Cell Manager GetFunctionCallTrace getFunctionCallTrace_eq)

/-- The parameters of a native: `params[0]` is the number of bytes of the arguments. -/
structure Params where
  size : Cell
  args : List Cell
  size_eq : size.toNat = 4 * args.length

/-- `params[k]`. -/
def Params.cell (params : Params) (k : ℕ) : Except Fault Cell :=
  match (params.size :: params.args)[k]? with
  | some c => .ok c
  | none => .error .out_of_bounds

/-- `fmt::format_to(fmt_msg, format_str, args…)`. -/
def format_to (fmt_msg format_str : List Char) (args : List Arg) : Except Fault (List Char) :=
  match format format_str args with
  | .ok text => .ok (fmt_msg ++ text)
  | .error _ => .error .exception

/-- A float, of which only this text for `{:f}` is known. -/
def float (text : List Char) : Arg
  | ['f'] => .ok text
  | _ => .error .format_error

variable (amx : AMX) (ctof : Cell → List Char)

/-- The `switch` over a character: `fmt_msg`, unless the character is not known. The text of a float
is `ctof`. -/
def formatParam (c : Char) (current_param : Cell) (fmt_msg : List Char) :
    Except Fault (Option (List Char)) :=
  if c = 'd' ∨ c = 'i' then
    return some (← format_to fmt_msg ['{', ':', 'd', '}'] [int (signed current_param)])
  else if c = 'f' then
    return some (← format_to fmt_msg ['{', ':', 'f', '}'] [float (ctof current_param)])
  else if c = 'h' ∨ c = 'x' then
    return some (← format_to fmt_msg ['{', ':', 'x', '}'] [int (signed current_param)])
  else if c = 'b' then
    return some (← format_to fmt_msg ['{', ':', 'b', '}'] [int (signed current_param)])
  else if c = 's' then do
    let string ← amx_GetCppString amx current_param
    return some (← format_to fmt_msg ['"', '{', ':', 's', '}', '"'] [str string])
  else if c = '*' then
    return some (← format_to fmt_msg ['"', '*', '*', '*', '*', '*', '"'] [])
  else if c = 'r' then
    -- null is 0
    let addr_dest : Cell :=
      if (amx_GetAddr amx current_param).isSome then amx.address + current_param else 0
    return some (← format_to fmt_msg ['{', ':', '#', '0', '8', 'x', '}'] [int addr_dest.toNat])
  else if c = 'p' then
    return some (← format_to fmt_msg ['{', ':', '#', '0', '8', 'x', '}']
      [int (signed current_param)])
  else return none

/-- `if (i != 0) fmt::format_to(fmt_msg, ", ")`. -/
def separate (i : ℕ) (fmt_msg : List Char) : Except Fault (List Char) :=
  if i ≠ 0 then format_to fmt_msg [',', ' '] [] else return fmt_msg

/-- The loop over `params_format`, from index `i` on. -/
def formatParams (params : Params) : ℕ → List Char → List Char →
    Except Fault (Option (List Char))
  | _, [], fmt_msg => return some fmt_msg
  | i, c :: params_format, fmt_msg => do
    let fmt_msg ← separate i fmt_msg
    let current_param ← params.cell (i + 1)
    match ← formatParam amx ctof c current_param fmt_msg with
    | some fmt_msg => formatParams params (i + 1) params_format fmt_msg
    | none => return none

variable {P : Type*} (m : Manager P) (Level : LogLevel)

/-- `Logger::LogNativeCall`: the result and the queue, for a logger with the mask `Level`. An `amx`
has an address, by which the debug manager `m` knows it. -/
def LogNativeCall (amx : Option (P × AMX)) (params : Option Params)
    (name params_format : List Char) (queue : List Message) (rounds : ℕ) :
    Except Fault (Bool × List Message) :=
  match amx, params with
  | none, _ => return (false, queue)
  | some _, none => return (false, queue)
  | some (ptr, amx), some params =>
    if name = [] then return (false, queue)
    else if IsLogLevel Level DEBUG = false then return (false, queue)
    else do
      let fmt_msg ← format_to [] ['{', ':', 's', '}', '('] [str name]
      match ← formatParams amx ctof params 0 params_format fmt_msg with
      | none => return (false, queue)
      | some fmt_msg =>
        let fmt_msg ← format_to fmt_msg [')'] []
        match GetFunctionCallTrace m ptr amx.toAMX [] rounds with
        | none => throw .no_trace
        | some (_, call_info) => return Log Level DEBUG (String.ofList fmt_msg) call_info queue

/-- The characters that stand for a parameter. -/
def specifiers : List Char := ['d', 'i', 'f', 'h', 'x', 'b', 's', '*', 'r', 'p']

/-- What can be read for a format string: the argument of each character that is reached is there,
and that of an `s` is a string. -/
def Readable (amx : AMX) (args : List Cell) (params_format : List Char) : Prop :=
  ∀ i c, params_format[i]? = some c → (∀ d ∈ params_format.take i, d ∈ specifiers) →
    ∃ a, args[i]? = some a ∧ (c = 's' → StringAt amx a)

/-- The call comes to its end, and reads nothing that it must not. -/
def Safe (amx : Option (P × AMX)) (params : Option Params) (name params_format : List Char)
    (queue : List Message) (rounds : ℕ) : Prop :=
  ∃ result queue',
    LogNativeCall ctof m Level amx params name params_format queue rounds = .ok (result, queue')

/-! ### One parameter -/

variable {amx ctof m Level} {c : Char} {a : Cell} {args : List Cell} {params : Params} {ptr : P}
  {name params_format fmt_msg text : List Char} {queue : List Message} {rounds i : ℕ}

/-- The text for an argument. -/
def rendering (amx : AMX) (ctof : Cell → List Char) (c : Char) (a : Cell) : List Char :=
  if c = 'd' ∨ c = 'i' then formatD (signed a)
  else if c = 'f' then ctof a
  else if c = 'h' ∨ c = 'x' then formatBase 16 (signed a)
  else if c = 'b' then formatBase 2 (signed a)
  else if c = 's' then ['"'] ++ stringAt amx a ++ ['"']
  else if c = '*' then ['"', '*', '*', '*', '*', '*', '"']
  else if c = 'r' then
    formatPointer (if Accepts amx (signed a) then amx.address + a else (0 : Cell)).toNat
  else formatPointer (signed a)

/-- A known character appends the text for its argument. -/
theorem formatParam_eq (hc : c ∈ specifiers) (hs : c = 's' → StringAt amx a) :
    formatParam amx ctof c a fmt_msg = .ok (some (fmt_msg ++ rendering amx ctof c a)) := by
  by_cases hstring : c = 's'
  · subst hstring
    have htext := amx_GetCppString_eq (hs rfl)
    simp [formatParam, rendering, htext, format_to, format, vformat, field, str, bind,
      Except.bind, Except.map, pure, Except.pure]
  by_cases href : c = 'r'
  · subst href
    by_cases haccepts : Accepts amx (signed a) <;>
      simp [formatParam, rendering, haccepts, amx_GetAddr, format_to, format, vformat, field, int,
        bind, Except.bind, pure, Except.pure]
  -- the others are one field, or no field at all
  simp only [specifiers, List.mem_cons, List.not_mem_nil, or_false, hstring, href, false_or] at hc
  rcases hc with rfl | rfl | rfl | rfl | rfl | rfl | rfl | rfl <;>
    simp [formatParam, rendering, format_to, format, vformat, field, int, float, bind, Except.bind,
      Except.map, pure, Except.pure]

theorem formatParam_unknown (hc : c ∉ specifiers) :
    formatParam amx ctof c a fmt_msg = .ok none := by
  simp only [specifiers, List.mem_cons, List.not_mem_nil, or_false, not_or] at hc
  simp [formatParam, hc, pure, Except.pure]

/-- An `s` needs a string. -/
theorem formatParam_string (h : ¬ StringAt amx a) :
    ∃ e, formatParam amx ctof 's' a fmt_msg = .error e := by
  cases hstring : amx_GetCppString amx a with
  | ok s => exact absurd (getCppString_ok_iff.mp ⟨s, hstring⟩) h
  | error e => exact ⟨e, by simp [formatParam, hstring, bind, Except.bind]⟩

/-! ### The loop -/

theorem cell_of_some (h : params.args[i]? = some a) : params.cell (i + 1) = .ok a := by
  simp [Params.cell, h]

theorem cell_of_none (h : params.args[i]? = none) :
    params.cell (i + 1) = .error .out_of_bounds := by
  simp [Params.cell, h]

/-- The separator in front of a parameter. -/
def separator (i : ℕ) : List Char := if i ≠ 0 then [',', ' '] else []

theorem separate_eq (i : ℕ) (fmt_msg : List Char) :
    separate i fmt_msg = .ok (fmt_msg ++ separator i) := by
  unfold separate separator
  split_ifs
  · simp [format_to, format, vformat, Except.map]
  · simp [pure, Except.pure]

/-- What a round of the loop does with a parameter that is there. -/
theorem formatParams_cons (h : params.args[i]? = some a) :
    formatParams amx ctof params i (c :: params_format) fmt_msg =
      match formatParam amx ctof c a (fmt_msg ++ separator i) with
      | .error e => .error e
      | .ok none => .ok none
      | .ok (some fmt_msg) => formatParams amx ctof params (i + 1) params_format fmt_msg := by
  rw [formatParams, separate_eq]
  simp only [bind, Except.bind, cell_of_some h]
  cases formatParam amx ctof c a (fmt_msg ++ separator i) with
  | error e => rfl
  | ok r => cases r <;> rfl

theorem formatParams_of_none (h : params.args[i]? = none) :
    formatParams amx ctof params i (c :: params_format) fmt_msg = .error .out_of_bounds := by
  rw [formatParams, separate_eq]
  simp only [bind, Except.bind, cell_of_none h]

theorem readable_cons : Readable amx args (c :: params_format) ↔
    (∃ a, args[0]? = some a ∧ (c = 's' → StringAt amx a)) ∧
      (c ∈ specifiers → Readable amx (args.drop 1) params_format) := by
  constructor
  · refine fun h => ⟨h 0 c rfl (by simp), fun hc i d hd hreached => ?_⟩
    have hnext := h (i + 1) d hd (by simpa [hc] using hreached)
    simpa [Nat.add_comm 1 i] using hnext
  · rintro ⟨hhead, htail⟩ i d hd hreached
    cases i with
    | zero =>
      obtain rfl : c = d := by simpa using hd
      exact hhead
    | succ i =>
      simp only [List.take_succ_cons, List.forall_mem_cons] at hreached
      have hnext := htail hreached.1 i d hd hreached.2
      simpa [Nat.add_comm 1 i] using hnext

/-- **When the loop comes to its end.** -/
theorem formatParams_ok_iff : (∃ r, formatParams amx ctof params i params_format fmt_msg = .ok r) ↔
    Readable amx (params.args.drop i) params_format := by
  induction params_format generalizing i fmt_msg with
  | nil =>
    refine ⟨fun _ j c hc => ?_, fun _ => ⟨_, rfl⟩⟩
    simp at hc
  | cons c params_format ih =>
    rw [readable_cons, List.getElem?_drop, List.drop_drop, Nat.add_zero]
    cases ha : params.args[i]? with
    | none => simp [formatParams_of_none ha]
    | some a =>
      rw [formatParams_cons ha]
      simp only [Option.some.injEq, exists_eq_left']
      by_cases hs : c = 's' → StringAt amx a
      · rw [and_iff_right hs]
        by_cases hc : c ∈ specifiers
        · simp only [formatParam_eq hc hs, ih, hc, true_imp_iff]
        · simp [formatParam_unknown hc, hc]
      · obtain ⟨rfl, hstring⟩ := Classical.not_imp.mp hs
        have herror : ∃ e, formatParam amx ctof 's' a (fmt_msg ++ separator i) = .error e :=
          formatParam_string hstring
        obtain ⟨e, he⟩ := herror
        simp [he, hstring]

/-! ### The call -/

/-- Behind its guards the call is the loop. -/
theorem logNativeCall_eq {amx : AMX} (hname : name ≠ []) (hlevel : IsLogLevel Level DEBUG = true) :
    LogNativeCall ctof m Level (some (ptr, amx)) (some params) name params_format queue rounds =
      match formatParams amx ctof params 0 params_format (name ++ ['(']) with
      | .error e => .error e
      | .ok none => .ok (false, queue)
      | .ok (some fmt_msg) =>
        .ok (true, queue ++ [⟨DEBUG, String.ofList (fmt_msg ++ [')']), []⟩]) := by
  have hhead : format_to [] ['{', ':', 's', '}', '('] [str name] = .ok (name ++ ['(']) := by
    simp [format_to, format, vformat, field, str, Except.map]
  rw [LogNativeCall]
  simp only [if_neg hname, hlevel, hhead, bind, Except.bind, Bool.true_eq_false, if_false]
  cases formatParams amx ctof params 0 params_format (name ++ ['(']) with
  | error e => rfl
  | ok r =>
    cases r with
    | none => rfl
    | some fmt_msg =>
      have hend : format_to fmt_msg [')'] [] = .ok (fmt_msg ++ [')']) := by
        simp [format_to, format, vformat, Except.map]
      simp [hend, getFunctionCallTrace_eq, Log, hlevel, pure, Except.pure]

/-- A guard ends the call without a message. -/
theorem logNativeCall_of_guard {amx : AMX}
    (h : ¬ (name ≠ [] ∧ IsLogLevel Level DEBUG = true)) :
    LogNativeCall ctof m Level (some (ptr, amx)) (some params) name params_format queue rounds =
      .ok (false, queue) := by
  rw [LogNativeCall]
  split_ifs with hname hlevel
  · rfl
  · rfl
  · exact absurd ⟨hname, by simpa using hlevel⟩ h

/-- **When a native call is safe**: behind the guards, every parameter that is reached can be
read. -/
theorem logNativeCall_safe_iff (ctof : Cell → List Char) (m : Manager P) (Level : LogLevel)
    (amx : Option (P × AMX)) (params : Option Params) (name params_format : List Char)
    (queue : List Message) (rounds : ℕ) :
    Safe ctof m Level amx params name params_format queue rounds ↔
      ∀ ptr regs array, amx = some (ptr, regs) → params = some array → name ≠ [] →
        IsLogLevel Level DEBUG = true → Readable regs array.args params_format := by
  unfold Safe
  match amx, params with
  | none, _ => exact ⟨fun _ => by simp, fun _ => ⟨_, _, rfl⟩⟩
  | some _, none => exact ⟨fun _ => by simp, fun _ => ⟨_, _, rfl⟩⟩
  | some (ptr, regs), some array =>
    by_cases hguard : name ≠ [] ∧ IsLogLevel Level DEBUG = true
    · have hloop := @formatParams_ok_iff regs ctof array params_format (name ++ ['(']) 0
      rw [List.drop_zero] at hloop
      rw [logNativeCall_eq hguard.1 hguard.2]
      trans Readable regs array.args params_format
      · rw [← hloop]
        cases hformat : formatParams regs ctof array 0 params_format (name ++ ['(']) with
        | error e => simp
        | ok r => cases r <;> simp
      · refine ⟨fun h _ _ _ hamx hparams _ _ => ?_, fun h => h _ _ _ rfl rfl hguard.1 hguard.2⟩
        obtain ⟨-, rfl⟩ := Prod.mk.inj (Option.some.inj hamx)
        obtain rfl := Option.some.inj hparams
        exact h
    · refine ⟨fun _ _ _ _ _ _ hname hlevel => absurd ⟨hname, hlevel⟩ hguard, fun _ => ?_⟩
      exact ⟨_, _, logNativeCall_of_guard hguard⟩

theorem not_safe_of_error {amx : Option (P × AMX)} {params : Option Params} {e : Fault}
    (h : LogNativeCall ctof m Level amx params name params_format queue rounds = .error e) :
    ¬ Safe ctof m Level amx params name params_format queue rounds := by
  rintro ⟨result, queue', hok⟩
  rw [h] at hok
  exact absurd hok (by simp)

/-- An AMX without a gap, and 16 bytes. -/
def small : AMX := ⟨⟨0, 0, fun _ => 0⟩, 0, 0, 16, 0⟩

/-- A string at a negative address, and a parameter that is not there. -/
theorem not_safe_string :
    ¬ Safe (fun _ => []) (⟨false, [], fun _ => none⟩ : Manager Unit) DEBUG (some ((), small))
      (some ⟨4, [0xFFFFFFFF], rfl⟩) ['f'] ['s'] [] 0 ∧
    ¬ Safe (fun _ => []) (⟨false, [], fun _ => none⟩ : Manager Unit) DEBUG (some ((), small))
      (some ⟨0, [], rfl⟩) ['f'] ['d'] [] 0 := by
  constructor
  · exact not_safe_of_error (e := .null_pointer) rfl
  · exact not_safe_of_error (e := .out_of_bounds) rfl

end SampLogCore.Logger.NativeCall
