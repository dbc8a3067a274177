import Mathlib.Logic.Relation
import Mathlib.Order.Basic
import Mathlib.Tactic.TypeStar

/-!
# Loops that need not end

The body of a `while (true)` loop maps a state to the state of the next round (`again`) or to what
the loop leaves with (`leave`). `iter body n s` runs at most `n` rounds, `Ends body s r` says that
the loop started in `s` leaves with `r`. A loop ends where the loop from the next round does
(`halts_of_again`), and never ends in a set of states that every round stays in
(`not_halts_of_invariant`).
-/

namespace SampLogCore.Lib.Loop

/-- What one round of a loop does. -/
inductive Round (σ ρ : Type*)
  /-- go round again from this state -/
  | again (s : σ)
  /-- leave the loop with this result -/
  | leave (r : ρ)

variable {σ ρ : Type*}

/-- At most `n` rounds from `s`: the result, if the loop leaves within them. -/
def iter (body : σ → Round σ ρ) : ℕ → σ → Option ρ
  | 0, _ => none
  | n + 1, s =>
    match body s with
    | .again t => iter body n t
    | .leave r => some r

/-- The loop started in `s` leaves with `r`. -/
def Ends (body : σ → Round σ ρ) (s : σ) (r : ρ) : Prop := ∃ n, iter body n s = some r

/-- The loop started in `s` comes to `t`. -/
def Reaches (body : σ → Round σ ρ) : σ → σ → Prop :=
  Relation.ReflTransGen fun s t => body s = .again t

/-- The loop started in `s` ends. -/
def Halts (body : σ → Round σ ρ) (s : σ) : Prop := ∃ r, Ends body s r

variable {body : σ → Round σ ρ}

theorem ends_of_leave {s : σ} {r : ρ} (h : body s = .leave r) : Ends body s r :=
  ⟨1, by simp [iter, h]⟩

theorem ends_of_again {s t : σ} {r : ρ} (h : body s = .again t) :
    Ends body s r ↔ Ends body t r := by
  constructor
  · rintro ⟨n, hn⟩
    cases n with
    | zero => simp [iter] at hn
    | succ n => exact ⟨n, by simpa [iter, h] using hn⟩
  · rintro ⟨n, hn⟩
    exact ⟨n + 1, by simpa [iter, h] using hn⟩

/-- A round more changes nothing once the loop has left. -/
theorem iter_mono {m n : ℕ} (hmn : m ≤ n) {s : σ} {r : ρ} (h : iter body m s = some r) :
    iter body n s = some r := by
  induction m generalizing n s with
  | zero => simp [iter] at h
  | succ m ih =>
    obtain ⟨n, rfl⟩ : ∃ k, n = k + 1 := ⟨n - 1, by omega⟩
    rw [iter] at h ⊢
    cases hb : body s with
    | again t =>
      simp only [hb] at h ⊢
      exact ih (by omega) h
    | leave r' =>
      simp only [hb] at h ⊢
      exact h

/-- A loop leaves with one result only. -/
theorem Ends.unique {s : σ} {r r' : ρ} (h : Ends body s r) (h' : Ends body s r') : r = r' := by
  obtain ⟨m, hm⟩ := h
  obtain ⟨n, hn⟩ := h'
  have hmax := iter_mono (Nat.le_max_left m n) hm
  rw [iter_mono (Nat.le_max_right m n) hn] at hmax
  exact (Option.some.inj hmax).symm

theorem halts_of_again {s t : σ} (h : body s = .again t) : Halts body s ↔ Halts body t :=
  exists_congr fun _ => ends_of_again h

/-- **A loop that stays in `P` never ends.** -/
theorem not_halts_of_invariant (P : σ → Prop) (h : ∀ s, P s → ∃ t, body s = .again t ∧ P t)
    {s : σ} (hs : P s) : ¬ Halts body s := by
  rintro ⟨r, n, hn⟩
  induction n generalizing s with
  | zero => simp [iter] at hn
  | succ n ih =>
    obtain ⟨t, hb, ht⟩ := h s hs
    exact ih ht (by simpa [iter, hb] using hn)

end SampLogCore.Lib.Loop
