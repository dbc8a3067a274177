import SampLogCore.Debug.AmxDebugManager

/-!
# Call traces

A chain of frames in the data segment ends with a return address `0` or with a saved frame `0`
(`FrameChain`). The trace of a call is the entry of `cip` followed by the entries of the return
addresses of the chain, innermost first, where the line of the last one is one less.

Behind its guards `GetFunctionCallTrace` delivers this trace (`traceFrames_delivers`): each round of
its loop appends the entry of one return address. But the guard asks whether the AMX is *not* at the
end of the map, so a registered AMX never gets to the loop. The main result, `delivers_iff`, says
that the specification holds exactly where it asks for no trace.
-/

namespace SampLogCore.Debug.CallTrace

open SampLogCore.Lib.Loop SampLogCore.Debug.AmxDebugManager

variable {P : Type*} {m : Manager P} {amx : P} {data : Cell → Cell}

/-- The frames from `frm` on end, and these are their return addresses. -/
inductive FrameChain (data : Cell → Cell) : Cell → List Cell → Prop
  /-- the return address is `0` -/
  | returnsToZero {frm : Cell} (h : data (frm + 4) = 0) : FrameChain data frm []
  /-- the saved frame is `0` -/
  | savedZero {frm : Cell} (hret : data (frm + 4) ≠ 0) (h : data frm = 0) :
      FrameChain data frm [data (frm + 4)]
  /-- there is one more frame -/
  | next {frm : Cell} {rets : List Cell} (hret : data (frm + 4) ≠ 0) (hfrm : data frm ≠ 0)
      (h : FrameChain data (data frm) rets) : FrameChain data frm (data (frm + 4) :: rets)

/-- The entry of a return address. -/
def entry (m : Manager P) (amx : P) (address : Cell) : AmxFuncCallInfo :=
  match GetFunctionCall m amx address ⟨0, none, none⟩ with
  | some (true, info) => info
  | _ => unknown

/-- One less in the line of the last entry. -/
def decrementLast : List AmxFuncCallInfo → List AmxFuncCallInfo
  | [] => []
  | [e] => [{ e with line := e.line - 1 }]
  | e :: f :: es => e :: decrementLast (f :: es)

/-- The trace of a call at an address with this info and these return addresses. -/
def callTrace (m : Manager P) (amx : P) (info : AmxFuncCallInfo) (rets : List Cell) :
    List AmxFuncCallInfo :=
  info :: decrementLast (rets.map (entry m amx))

/-- The code changes the last entry as the specification says. -/
theorem adjustLast_cons (info : AmxFuncCallInfo) (es : List AmxFuncCallInfo) :
    adjustLast (info :: es) = info :: decrementLast es := by
  have hlast : ∀ es : List AmxFuncCallInfo, ∀ last, es.getLast? = some last →
      es.dropLast ++ [{ last with line := last.line - 1 }] = decrementLast es := by
    intro es
    induction es with
    | nil => intro last h; exact absurd h (by simp)
    | cons e es ih =>
      intro last h
      cases es with
      | nil =>
        obtain rfl : e = last := by simpa using h
        rfl
      | cons f es =>
        rw [List.getLast?_cons_cons] at h
        rw [List.dropLast_cons_cons, List.cons_append, ih last h, decrementLast]
  cases es with
  | nil => rfl
  | cons e es =>
    obtain ⟨last, h⟩ : ∃ last, (e :: es).getLast? = some last :=
      ⟨_, List.getLast?_eq_some_getLast (by simp)⟩
    simp only [adjustLast, List.getLast?_cons_cons, h, List.length_cons]
    rw [if_pos (by omega), List.dropLast_cons_cons, List.cons_append, hlast _ last h]

/-! ### The loop over the frames -/

/-- What a round appends is the entry of its return address. -/
theorem getFunctionCall_entry {amx_dbg : AMX_DBG} (hd : m.disableDebugInfo = false)
    (hmap : m.amxDebugMap amx = some amx_dbg) (hs : amx_dbg.symboltbl ≠ []) (address : Cell)
    (dest : AmxFuncCallInfo) :
    ∃ found info, GetFunctionCall m amx address dest = some (found, info) ∧
      (if found then info else unknown) = entry m amx address := by
  have hcall : ∀ d, GetFunctionCall m amx address d = some (lookup amx_dbg address d) := by
    intro d
    simp [GetFunctionCall, hd, hmap, hs]
  refine ⟨(lookup amx_dbg address dest).1, (lookup amx_dbg address dest).2, hcall dest, ?_⟩
  have hfst : (lookup amx_dbg address dest).1 = (lookup amx_dbg address ⟨0, none, none⟩).1 :=
    lookup_fst amx_dbg dest _
  cases h : lookup amx_dbg address ⟨0, none, none⟩ with
  | mk found info =>
    rw [h] at hfst
    cases found with
    | true => simp [entry, hcall, h, lookup_of_found h dest]
    | false => simp [entry, hcall, h, hfst]

/-- **The loop walks the chain**, one entry a round. -/
theorem ends_of_frameChain {amx_dbg : AMX_DBG} (hd : m.disableDebugInfo = false)
    (hmap : m.amxDebugMap amx = some amx_dbg) (hs : amx_dbg.symboltbl ≠ []) {frm : Cell}
    {rets : List Cell} (h : FrameChain data frm rets) :
    ∀ call_info dest, Ends (frameRound m amx data) ⟨frm, call_info, dest⟩
      (some (dest ++ rets.map (entry m amx))) := by
  induction h with
  | returnsToZero h =>
    intro call_info dest
    exact ends_of_leave (by simp [frameRound, h])
  | @savedZero frm hret h =>
    intro call_info dest
    obtain ⟨found, info, hcall, hentry⟩ :=
      getFunctionCall_entry hd hmap hs (data (frm + 4)) call_info
    exact ends_of_leave (by simp [frameRound, hret, h, hcall, hentry])
  | @next frm rets hret hfrm _ ih =>
    intro call_info dest
    obtain ⟨found, info, hcall, hentry⟩ :=
      getFunctionCall_entry hd hmap hs (data (frm + 4)) call_info
    have hround : frameRound m amx data ⟨frm, call_info, dest⟩ =
        .again ⟨data frm, info, dest ++ [entry m amx (data (frm + 4))]⟩ := by
      simp [frameRound, hret, hfrm, hcall, hentry]
    rw [ends_of_again hround]
    simpa using ih info (dest ++ [entry m amx (data (frm + 4))])

/-- **Behind its guards the code delivers the trace.** -/
theorem traceFrames_delivers {regs : AMX} {info : AmxFuncCallInfo} {rets : List Cell}
    (hcip : GetFunctionCall m amx regs.cip ⟨0, none, none⟩ = some (true, info))
    (hchain : FrameChain regs.data regs.frm rets) :
    ∃ rounds, traceFrames m amx regs [] rounds = some (true, callTrace m amx info rets) := by
  obtain ⟨hd, amx_dbg, hmap, hs, _⟩ := getFunctionCall_found hcip
  obtain ⟨rounds, hrounds⟩ := ends_of_frameChain hd hmap hs hchain info [info]
  refine ⟨rounds, ?_⟩
  rw [traceFrames, hcip]
  simp only [List.nil_append, hrounds, List.singleton_append, adjustLast_cons, callTrace]

/-! ### The specification -/

/-- The manager has a table for the AMX. -/
def Registered (m : Manager P) (amx : P) : Prop := (m.amxDebugMap amx).isSome = true

/-- A registered AMX whose `cip` resolves and whose frames end gets its trace, and for an AMX that
is not registered the call returns false and leaves `dest` alone. -/
def Delivers (m : Manager P) (amx : P) (regs : AMX) : Prop :=
  (m.disableDebugInfo = false → Registered m amx → ∀ info rets,
    GetFunctionCall m amx regs.cip ⟨0, none, none⟩ = some (true, info) →
    FrameChain regs.data regs.frm rets →
    ∃ rounds, GetFunctionCallTrace m amx regs [] rounds =
      some (true, callTrace m amx info rets)) ∧
  (¬ Registered m amx → ∀ dest, ∃ rounds,
    GetFunctionCallTrace m amx regs dest rounds = some (false, dest))

/-- The specification asks for a trace. -/
def AsksForTrace (m : Manager P) (amx : P) (regs : AMX) : Prop :=
  m.disableDebugInfo = false ∧ Registered m amx ∧
    (∃ info, GetFunctionCall m amx regs.cip ⟨0, none, none⟩ = some (true, info)) ∧
    ∃ rets, FrameChain regs.data regs.frm rets

/-- **A trace is never delivered**: the specification holds exactly where it asks for none. -/
theorem delivers_iff (m : Manager P) (amx : P) (regs : AMX) :
    Delivers m amx regs ↔ ¬ AsksForTrace m amx regs := by
  constructor
  · rintro ⟨htrace, _⟩ ⟨hd, hreg, ⟨info, hcip⟩, rets, hchain⟩
    obtain ⟨rounds, h⟩ := htrace hd hreg info rets hcip hchain
    rw [getFunctionCallTrace_eq] at h
    exact absurd h (by simp)
  · intro hasks
    refine ⟨fun hd hreg info rets hcip hchain => ?_, fun _ dest => ?_⟩
    · exact absurd ⟨hd, hreg, ⟨info, hcip⟩, rets, hchain⟩ hasks
    · exact ⟨0, getFunctionCallTrace_eq m amx regs dest 0⟩

/-- A script with one file, two lines and one function. -/
def script : AMX_DBG where
  filetbl := [⟨0, "script.pwn"⟩]
  linetbl := [⟨0, 4⟩, ⟨16, 5⟩]
  symboltbl := [⟨0, 32, iFUNCTN, "main"⟩]

/-- A registered script in its first line, called from nowhere, gets no trace. -/
theorem not_delivers_script :
    ¬ Delivers (⟨false, [], fun _ => some script⟩ : Manager Unit) () ⟨8, 0, fun _ => 0⟩ := by
  rintro ⟨htrace, _⟩
  obtain ⟨rounds, h⟩ := htrace rfl rfl ⟨5, some "script.pwn", some "main"⟩ [] (by decide)
    (.returnsToZero rfl)
  rw [getFunctionCallTrace_eq] at h
  exact absurd h (by simp)

end SampLogCore.Debug.CallTrace
