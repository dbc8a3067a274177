import Mathlib.Data.Fintype.EquivFin
import Mathlib.Logic.Relation
import SampLogCore.Lib.Loop

/-!
# Walks over finitely many places

A partial function `next` leads from one place to the next, or nowhere. From a place the walk ends
when no place that it comes to is on a cycle, and only then if there are finitely many places
(`acc_iff_no_cycle`). So a loop whose rounds follow such a walk ends exactly when it comes to no
cycle (`halts_iff`), whatever else its state holds.
-/

namespace SampLogCore.Lib.Walk

open SampLogCore.Lib.Loop

variable {α σ ρ : Type*}

/-- The place behind `a` is `b`. -/
def Leads (next : α → Option α) (a b : α) : Prop := next a = some b

/-- The walk from `a` comes to `b`. -/
def ComesTo (next : α → Option α) : α → α → Prop := Relation.ReflTransGen (Leads next)

/-- The walk from `a` comes to `a` again. -/
def OnCycle (next : α → Option α) (a : α) : Prop := Relation.TransGen (Leads next) a a

variable {next : α → Option α} {a b : α}

theorem Leads.unique {c : α} (h : Leads next a b) (h' : Leads next a c) : b = c :=
  Option.some.inj (h.symm.trans h')

theorem comesTo_of_none (h : next a = none) (hab : ComesTo next a b) : b = a := by
  rcases hab.cases_head with rfl | ⟨c, hac, -⟩
  · rfl
  · exact absurd (hac.symm.trans h) (by simp)

theorem comesTo_of_leads {c : α} (h : Leads next a c) (hab : ComesTo next a b) :
    b = a ∨ ComesTo next c b := by
  rcases hab.cases_head with rfl | ⟨c', hac, hcb⟩
  · exact .inl rfl
  · exact .inr (h.unique hac ▸ hcb)

theorem acc_of_none (h : next a = none) : Acc (fun b a => Leads next a b) a :=
  ⟨_, fun _ hb => absurd (hb.symm.trans h) (by simp)⟩

theorem acc_of_leads (h : Leads next a b) :
    Acc (fun b a => Leads next a b) a ↔ Acc (fun b a => Leads next a b) b := by
  refine ⟨fun ha => ha.inv h, fun hb => ⟨_, fun c hc => ?_⟩⟩
  rw [← h.unique hc]
  exact hb

/-- The place behind one on a cycle is on a cycle. -/
theorem OnCycle.step (h : OnCycle next a) (hab : Leads next a b) : OnCycle next b := by
  obtain ⟨c, hac, hca⟩ := Relation.TransGen.head'_iff.mp h
  obtain rfl := hab.unique hac
  exact Relation.TransGen.tail' hca hab

/-- A walk that ends is on no cycle. -/
theorem not_onCycle_of_acc (h : Acc (fun b a => Leads next a b) a) : ¬ OnCycle next a := by
  induction h with
  | intro a _ ih =>
    intro hcycle
    obtain ⟨b, hab, -⟩ := Relation.TransGen.head'_iff.mp hcycle
    exact ih b hab (hcycle.step hab)

theorem Acc.comesTo (h : Acc (fun b a => Leads next a b) a) (hab : ComesTo next a b) :
    Acc (fun b a => Leads next a b) b := by
  induction hab with
  | refl => exact h
  | tail _ hbc ih => exact ih.inv hbc

/-- **A walk over finitely many places ends** when it comes to no cycle. -/
theorem acc_iff_no_cycle [Finite α] :
    Acc (fun b a => Leads next a b) a ↔ ∀ b, ComesTo next a b → ¬ OnCycle next b := by
  constructor
  · exact fun h b hab => not_onCycle_of_acc (Acc.comesTo h hab)
  · intro hno
    -- on the places that the walk comes to, "comes later" is a strict order
    let later : {b // ComesTo next a b} → {b // ComesTo next a b} → Prop := fun c b =>
      Relation.TransGen (Leads next) b.1 c.1
    have htrans : IsTrans _ later := ⟨fun _ _ _ hcb hba => hba.trans hcb⟩
    have hirrefl : Std.Irrefl later := ⟨fun b hb => hno b.1 b.2 hb⟩
    have hwf : WellFounded later := Finite.wellFounded_of_trans_of_irrefl later
    have hacc : ∀ b : {b // ComesTo next a b}, Acc (fun b a => Leads next a b) b.1 := fun b =>
      hwf.induction (C := fun b => Acc (fun b a => Leads next a b) b.1) b fun b ih =>
        ⟨_, fun c hbc => ih ⟨c, b.2.tail hbc⟩ (.single hbc)⟩
    exact hacc ⟨a, .refl⟩

/-! ### Loops that follow a walk -/

/-- A round that goes on does so to the next place, and the loop leaves where there is none. -/
structure Follows (body : σ → Round σ ρ) (place : σ → α) (next : α → Option α) : Prop where
  again : ∀ s t, body s = .again t → Leads next (place s) (place t)
  leave : ∀ s r, body s = .leave r → next (place s) = none

namespace Follows

variable {body : σ → Round σ ρ} {place : σ → α} (h : Follows body place next) {s t : σ}
include h

theorem comesTo (hst : Reaches body s t) : ComesTo next (place s) (place t) := by
  induction hst with
  | refl => exact .refl
  | tail _ htu ih => exact ih.tail (h.again _ _ htu)

theorem exists_reaches (hb : ComesTo next (place s) b) :
    ∃ t, Reaches body s t ∧ place t = b := by
  induction hb with
  | refl => exact ⟨s, .refl, rfl⟩
  | tail _ hbc ih =>
    obtain ⟨t, hst, rfl⟩ := ih
    cases hround : body t with
    | again u => exact ⟨u, hst.tail hround, (h.again t u hround).unique hbc⟩
    | leave r => exact absurd (hbc.symm.trans (h.leave t r hround)) (by simp)

theorem acc_of_halts (hs : Halts body s) : Acc (fun b a => Leads next a b) (place s) := by
  obtain ⟨r, n, hn⟩ := hs
  induction n generalizing s with
  | zero => simp [iter] at hn
  | succ n ih =>
    rw [iter] at hn
    cases hround : body s with
    | again t =>
      rw [hround] at hn
      exact (acc_of_leads (h.again s t hround)).mpr (ih hn)
    | leave r => exact acc_of_none (h.leave s r hround)

theorem halts_of_acc (ha : Acc (fun b a => Leads next a b) a) (hs : place s = a) :
    Halts body s := by
  induction ha generalizing s with
  | intro a _ ih =>
    cases hround : body s with
    | again t => exact (halts_of_again hround).mpr (ih _ (hs ▸ h.again s t hround) rfl)
    | leave r => exact ⟨r, ends_of_leave hround⟩

/-- **A loop that follows a walk ends** when the walk comes to no cycle. -/
theorem halts_iff [Finite α] :
    Halts body s ↔ ∀ b, ComesTo next (place s) b → ¬ OnCycle next b := by
  rw [← acc_iff_no_cycle]
  exact ⟨h.acc_of_halts, fun ha => h.halts_of_acc ha rfl⟩

end Follows

end SampLogCore.Lib.Walk
