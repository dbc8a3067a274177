import SampLogCore.Lib.Loop
import Mathlib.Logic.Function.Basic
import Mathlib.Data.List.Basic

/-!
# `AmxDebugManager`

The manager holds the debug tables of the AMX files it found and maps a registered AMX to its
table. `GetFunctionCall` resolves a code address to a line, a file and a function.
`GetFunctionCallTrace` resolves `cip` and then walks the chain of frames in the data segment: behind
the frame at `frm` are the saved frame and the return address.

Cells are 32-bit patterns. An AMX is known by its address `P`; the registers and the data segment
are those at the time of the call. A call that reads through a null pointer, or that is still in the
loop after the given rounds, has no result.
-/

namespace SampLogCore.Debug.AmxDebugManager

open SampLogCore.Lib.Loop

abbrev Cell := UInt32

/-- The bytes of an `AMX_HEADER`. -/
abbrev AMX_HEADER := List UInt8

structure AMX_DBG_FILE where
  address : Cell
  name : String

structure AMX_DBG_LINE where
  address : Cell
  line : Int32

/-- The kind of a symbol that is a function. -/
def iFUNCTN : UInt8 := 9

structure AMX_DBG_SYMBOL where
  codestart : Cell
  codeend : Cell
  ident : UInt8
  name : String

/-- A debug table. The line table ends where the first symbol begins. -/
structure AMX_DBG where
  filetbl : List AMX_DBG_FILE
  linetbl : List AMX_DBG_LINE
  symboltbl : List AMX_DBG_SYMBOL

/-- `samplog::AmxFuncCallInfo`; a null pointer is `none`. -/
structure AmxFuncCallInfo where
  line : Int32
  file : Option String
  function : Option String
  deriving DecidableEq

variable {P : Type*}

/-- The members of the manager. -/
structure Manager (P : Type*) where
  disableDebugInfo : Bool
  availableDebugInfo : List (AMX_HEADER × AMX_DBG)
  amxDebugMap : P → Option AMX_DBG

/-- What the trace reads of an AMX: the registers, and the cell at an offset in the data segment. -/
structure AMX where
  cip : Cell
  frm : Cell
  data : Cell → Cell

namespace Manager

variable [DecidableEq P] (m : Manager P)

/-- `AmxDebugManager::RegisterAmx`, for an AMX with this header. -/
def RegisterAmx (amx : P) (base : AMX_HEADER) : Manager P :=
  if m.disableDebugInfo then m
  else if (m.amxDebugMap amx).isSome then m
  else
    match m.availableDebugInfo.find? fun d => d.1 = base with
    | some d => { m with amxDebugMap := Function.update m.amxDebugMap amx (some d.2) }
    | none => m

/-- `AmxDebugManager::EraseAmx`. -/
def EraseAmx (amx : P) : Manager P :=
  if m.disableDebugInfo then m
  else { m with amxDebugMap := Function.update m.amxDebugMap amx none }

end Manager

/-- `dbg_LookupFile`. -/
def dbg_LookupFile (amxdbg : AMX_DBG) (address : Cell) : Option String :=
  (amxdbg.filetbl.takeWhile (·.address ≤ address)).getLast?.map (·.name)

/-- `dbg_LookupFunction`: the search goes from the last symbol to the first. -/
def dbg_LookupFunction (amxdbg : AMX_DBG) (address : Cell) : Option String :=
  (amxdbg.symboltbl.reverse.find? fun s =>
    s.ident = iFUNCTN ∧ s.codestart ≤ address ∧ address < s.codeend).map (·.name)

/-- The part of `GetFunctionCall` that looks the address up in a table, writing to `dest`. -/
def lookup (amx_dbg : AMX_DBG) (address : Cell) (dest : AmxFuncCallInfo) :
    Bool × AmxFuncCallInfo :=
  let below := amx_dbg.linetbl.takeWhile (·.address ≤ address)
  if below.length ≥ amx_dbg.linetbl.length then (false, dest)
  else
    match below.getLast? with
    | none => (false, dest)
    | some l =>
      let dest := { dest with line := l.line + 1, file := dbg_LookupFile amx_dbg address }
      if dest.file = none then (false, dest)
      else
        let dest := { dest with function := dbg_LookupFunction amx_dbg address }
        if dest.function = none then (false, dest) else (true, dest)

variable (m : Manager P)

/-- `AmxDebugManager::GetFunctionCall`: the result and `dest`. The position of the first symbol is
read through `symboltbl`, which is null when there is no symbol. -/
def GetFunctionCall (amx : P) (address : Cell) (dest : AmxFuncCallInfo) :
    Option (Bool × AmxFuncCallInfo) :=
  if m.disableDebugInfo then some (false, dest)
  else
    match m.amxDebugMap amx with
    | none => some (false, dest)
    | some amx_dbg =>
      if amx_dbg.symboltbl = [] then none else some (lookup amx_dbg address dest)

/-- The entry of a return address that does not resolve. -/
def unknown : AmxFuncCallInfo := ⟨0, some "<unknown>", some "<unknown>"⟩

/-- The variables of the loop over the frames. -/
structure Frames where
  frm_addr : Cell
  call_info : AmxFuncCallInfo
  dest : List AmxFuncCallInfo

/-- One round of the loop over the frames. -/
def frameRound (amx : P) (data : Cell → Cell) (s : Frames) :
    Round Frames (Option (List AmxFuncCallInfo)) :=
  let ret_addr := data (s.frm_addr + 4)
  if ret_addr = 0 then .leave (some s.dest)
  else
    match GetFunctionCall m amx ret_addr s.call_info with
    | none => .leave none
    | some (found, call_info) =>
      let dest := s.dest ++ [if found then call_info else unknown]
      let frm_addr := data s.frm_addr
      if frm_addr = 0 then .leave (some dest) else .again ⟨frm_addr, call_info, dest⟩

/-- `dest.back().line--`, when there is more than one entry. -/
def adjustLast (dest : List AmxFuncCallInfo) : List AmxFuncCallInfo :=
  match dest.getLast? with
  | some last =>
    if dest.length > 1 then dest.dropLast ++ [{ last with line := last.line - 1 }] else dest
  | none => dest

/-- `GetFunctionCallTrace` behind its guards. -/
def traceFrames (amx : P) (regs : AMX) (dest : List AmxFuncCallInfo) (rounds : ℕ) :
    Option (Bool × List AmxFuncCallInfo) :=
  match GetFunctionCall m amx regs.cip ⟨0, none, none⟩ with
  | none => none
  | some (false, _) => some (false, dest)
  | some (true, call_info) =>
    match iter (frameRound m amx regs.data) rounds ⟨regs.frm, call_info, dest ++ [call_info]⟩ with
    | some (some dest) => some (true, adjustLast dest)
    | _ => none

/-- `AmxDebugManager::GetFunctionCallTrace`: the result and `dest`. -/
def GetFunctionCallTrace (amx : P) (regs : AMX) (dest : List AmxFuncCallInfo) (rounds : ℕ) :
    Option (Bool × List AmxFuncCallInfo) :=
  if m.disableDebugInfo then some (false, dest)
  else if (m.amxDebugMap amx).isSome then some (false, dest)
  else traceFrames m amx regs dest rounds

/-! ### What a lookup depends on -/

variable {m} {amx : P} {address : Cell} {dest info : AmxFuncCallInfo}

/-- A successful lookup overwrites all of `dest`. -/
theorem lookup_of_found {amx_dbg : AMX_DBG} (h : lookup amx_dbg address dest = (true, info))
    (dest' : AmxFuncCallInfo) : lookup amx_dbg address dest' = (true, info) := by
  unfold lookup at h ⊢
  dsimp only at h ⊢
  cases hl : (amx_dbg.linetbl.takeWhile (·.address ≤ address)).getLast? with
  | none => simp [hl] at h
  | some l =>
    simp only [hl] at h ⊢
    split_ifs at h ⊢
    · exact absurd h (by simp)
    · exact absurd h (by simp)
    · exact absurd h (by simp)
    · exact h

/-- Whether a lookup succeeds does not depend on `dest`. -/
theorem lookup_fst (amx_dbg : AMX_DBG) (dest dest' : AmxFuncCallInfo) :
    (lookup amx_dbg address dest).1 = (lookup amx_dbg address dest').1 := by
  cases h : lookup amx_dbg address dest with
  | mk found info =>
    cases h' : lookup amx_dbg address dest' with
    | mk found' info' =>
      cases found with
      | true => rw [lookup_of_found h dest'] at h'; exact (Prod.mk.inj h').1
      | false =>
        cases found' with
        | true => rw [lookup_of_found h' dest] at h; exact absurd h (by simp)
        | false => rfl

/-- An AMX that resolves an address is registered, with a table that has symbols. -/
theorem getFunctionCall_found (h : GetFunctionCall m amx address dest = some (true, info)) :
    m.disableDebugInfo = false ∧ ∃ amx_dbg, m.amxDebugMap amx = some amx_dbg ∧
      amx_dbg.symboltbl ≠ [] ∧ lookup amx_dbg address dest = (true, info) := by
  unfold GetFunctionCall at h
  split_ifs at h with hd
  · exact absurd h (by simp)
  · split at h
    · exact absurd h (by simp)
    · rename_i amx_dbg hmap
      split_ifs at h with hs
      exact ⟨by simpa using hd, amx_dbg, hmap, hs, Option.some.inj h⟩

theorem getFunctionCall_of_unregistered (h : m.amxDebugMap amx = none) :
    GetFunctionCall m amx address dest = some (false, dest) := by
  simp [GetFunctionCall, h]

/-- The trace gives up at its guard, or at `cip` when the AMX is not registered. -/
theorem getFunctionCallTrace_eq (m : Manager P) (amx : P) (regs : AMX)
    (dest : List AmxFuncCallInfo) (rounds : ℕ) :
    GetFunctionCallTrace m amx regs dest rounds = some (false, dest) := by
  unfold GetFunctionCallTrace
  split_ifs with _ hreg
  · rfl
  · rfl
  · have hnone : m.amxDebugMap amx = none := by simpa using hreg
    rw [traceFrames, getFunctionCall_of_unregistered hnone]

end SampLogCore.Debug.AmxDebugManager
