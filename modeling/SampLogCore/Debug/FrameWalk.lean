import SampLogCore.Debug.CallTrace
import SampLogCore.Lib.Walk

/-!
# The walk over the frames

The loop of `GetFunctionCallTrace` follows the saved frames in the data segment of a script,
whatever is in there. A round reads the return address and, unless it is `0`, the saved frame
(`reads`), and goes on unless one of the two is `0` (`nextFrame`). The loop knows neither the extent
of the segment nor the frames it has seen. So it ends and stays in the segment exactly when the
cells of every frame that it comes to are in there, and none of these frames leads back to itself
(`walksInside_iff`).

This is about the loop on its own, behind the guards and a lookup of `cip` that has succeeded.
-/

namespace SampLogCore.Debug.FrameWalk

open SampLogCore.Lib.Loop SampLogCore.Lib.Walk SampLogCore.Debug.AmxDebugManager
  SampLogCore.Debug.CallTrace

/-- The frame that a round goes on with. -/
def nextFrame (data : Cell → Cell) (frm : Cell) : Option Cell :=
  if data (frm + 4) = 0 then none
  else if data frm = 0 then none
  else some (data frm)

/-- The cells that a round reads. -/
def reads (data : Cell → Cell) (frm : Cell) : List Cell :=
  if data (frm + 4) = 0 then [frm + 4] else [frm + 4, frm]

/-- The cell at this offset is in a data segment of `size` bytes. -/
def Inside (size : ℕ) (offset : Cell) : Prop := offset.toNat + 4 ≤ size

variable {P : Type*}

/-- The loop performs finitely many rounds, and every cell it reads is in the data segment. -/
structure WalksInside (m : Manager P) (amx : P) (data : Cell → Cell) (size : ℕ) (s : Frames) :
    Prop where
  halts : Halts (frameRound m amx data) s
  inside : ∀ t, Reaches (frameRound m amx data) s t →
    ∀ offset ∈ reads data t.frm_addr, Inside size offset

variable {m : Manager P} {amx : P} {data data' : Cell → Cell} {size : ℕ} {s : Frames}
  {frm cip : Cell} {info : AmxFuncCallInfo}

/-- There are finitely many offsets. -/
instance : Finite Cell := Finite.of_injective UInt32.toFin fun _ _ => UInt32.toFin_inj.mp

/-! ### One round -/

/-- Once `cip` resolves, no lookup reads through a null pointer, and a round goes on with the next
frame or leaves with what it has got. -/
theorem frameRound_spec
    (hcip : GetFunctionCall m amx cip ⟨0, none, none⟩ = some (true, info)) (s : Frames) :
    ∃ call_info dest, frameRound m amx data s =
      match nextFrame data s.frm_addr with
      | none => .leave (some dest)
      | some frm => .again ⟨frm, call_info, dest⟩ := by
  obtain ⟨hd, amx_dbg, hmap, hs, -⟩ := getFunctionCall_found hcip
  obtain ⟨found, call_info, hcall, -⟩ :=
    getFunctionCall_entry hd hmap hs (data (s.frm_addr + 4)) s.call_info
  by_cases hret : data (s.frm_addr + 4) = 0
  · exact ⟨call_info, s.dest, by simp [frameRound, nextFrame, hret]⟩
  refine ⟨call_info, s.dest ++ [if found then call_info else unknown], ?_⟩
  by_cases hfrm : data s.frm_addr = 0
  · simp [frameRound, nextFrame, hret, hcall, hfrm]
  · simp [frameRound, nextFrame, hret, hcall, hfrm]

/-- **The loop follows the saved frames.** -/
theorem follows (hcip : GetFunctionCall m amx cip ⟨0, none, none⟩ = some (true, info)) :
    Follows (frameRound m amx data) Frames.frm_addr (nextFrame data) where
  again s t h := by
    obtain ⟨call_info, dest, hround⟩ := frameRound_spec hcip s
    rw [hround] at h
    split at h
    · exact absurd h (by simp)
    · rename_i frm hnext
      rw [← Round.again.inj h]
      exact hnext
  leave s r h := by
    obtain ⟨call_info, dest, hround⟩ := frameRound_spec hcip s
    rw [hround] at h
    split at h
    · assumption
    · exact absurd h (by simp)

/-! ### The walk -/

/-- **When the walk ends in the segment**: when the cells of every frame on its way are in there,
and no frame on its way leads back to itself. -/
theorem walksInside_iff (hcip : GetFunctionCall m amx cip ⟨0, none, none⟩ = some (true, info))
    (data : Cell → Cell) (size : ℕ) (s : Frames) :
    WalksInside m amx data size s ↔ ∀ frm, ComesTo (nextFrame data) s.frm_addr frm →
      (∀ offset ∈ reads data frm, Inside size offset) ∧ ¬ OnCycle (nextFrame data) frm := by
  have hfollows : Follows (frameRound m amx data) Frames.frm_addr (nextFrame data) := follows hcip
  constructor
  · rintro ⟨hhalts, hinside⟩ frm hfrm
    obtain ⟨t, hreach, rfl⟩ := hfollows.exists_reaches hfrm
    exact ⟨hinside t hreach, hfollows.halts_iff.mp hhalts _ hfrm⟩
  · intro h
    refine ⟨hfollows.halts_iff.mpr fun frm hfrm => (h frm hfrm).2, fun t hreach => ?_⟩
    exact (h _ (hfollows.comesTo hreach)).1

/-- A walk that comes to no cycle is a chain of frames. -/
theorem exists_frameChain_iff :
    (∃ rets, FrameChain data frm rets) ↔
      ∀ b, ComesTo (nextFrame data) frm b → ¬ OnCycle (nextFrame data) b := by
  rw [← acc_iff_no_cycle]
  constructor
  · rintro ⟨rets, h⟩
    induction h with
    | returnsToZero h => exact acc_of_none (by simp [nextFrame, h])
    | savedZero hret h => exact acc_of_none (by simp [nextFrame, h])
    | next hret hfrm _ ih => exact (acc_of_leads (by simp [Leads, nextFrame, hret, hfrm])).mpr ih
  · intro h
    induction h with
    | intro frm _ ih =>
      by_cases hret : data (frm + 4) = 0
      · exact ⟨[], .returnsToZero hret⟩
      by_cases hfrm : data frm = 0
      · exact ⟨_, .savedZero hret hfrm⟩
      · obtain ⟨rets, hrets⟩ := ih (data frm) (by simp [Leads, nextFrame, hret, hfrm])
        exact ⟨_, .next hret hfrm hrets⟩

/-! ### Two stacks -/

/-- The frame at 8 is called from the one at 16, and that from nowhere. -/
def stack (offset : Cell) : Cell := if offset = 8 then 16 else if offset = 12 then 4 else 0

/-- A manager that has the table of the script. -/
def manager : Manager Unit := ⟨false, [], fun _ => some script⟩

theorem manager_cip :
    GetFunctionCall manager () 8 ⟨0, none, none⟩ = some (true, ⟨5, "script.pwn", "main"⟩) := by
  decide

theorem frameChain_stack : FrameChain stack 8 [4] :=
  .next (by decide) (by decide) (.returnsToZero (by decide))

/-- The walk over this stack ends. -/
theorem walksInside_stack : WalksInside manager () stack 24 ⟨8, unknown, []⟩ := by
  refine (walksInside_iff manager_cip stack 24 ⟨8, unknown, []⟩).mpr fun frm hfrm => ?_
  refine ⟨?_, exists_frameChain_iff.mp ⟨_, frameChain_stack⟩ frm hfrm⟩
  have hnext : nextFrame stack 8 = some 16 := by decide
  have hlast : nextFrame stack 16 = none := by decide
  have hfirst : ∀ offset ∈ reads stack 8, Inside 24 offset := by
    simp [reads, stack, Inside]
  have hsecond : ∀ offset ∈ reads stack 16, Inside 24 offset := by
    simp [reads, stack, Inside]
  rcases comesTo_of_leads hnext hfrm with rfl | hfrm
  · exact hfirst
  · obtain rfl := comesTo_of_none hlast hfrm
    exact hsecond

/-- **A saved frame that is its own caller** keeps the loop going for ever. -/
theorem not_walksInside_loop : ¬ WalksInside manager () (fun _ => 8) 16 ⟨8, unknown, []⟩ := by
  have hnext : nextFrame (fun _ => 8) 8 = some 8 := by decide
  intro h
  exact (follows manager_cip).halts_iff.mp h.halts 8 .refl (.single hnext)

end SampLogCore.Debug.FrameWalk
