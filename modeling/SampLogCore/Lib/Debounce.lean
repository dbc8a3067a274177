import Mathlib.Algebra.Order.Group.Basic
import Mathlib.Data.List.Basic
import Mathlib.Tactic

/-!
# A debounce that drops

Each event reads a clock. It fires when its reading is more than `gap` after the one of the event
that fired last, or after `start`; else it is dropped, not delayed. The events are numbered by
their readings, `Debounced k F` says that of the first `k` events those of the list `F` fire.

`exists_iff` tells when some event fires that has a property which, once it holds, holds from then
on (such as: its effect comes after a given time).
-/

namespace SampLogCore.Lib.Debounce

section Last

variable {T : Type*} (start : T) (now : ℕ → T)

/-- The reading of the last of the events that fire, or the start. -/
def last (F : List ℕ) : T := (F.getLast?.map now).getD start

@[simp] theorem last_append (F : List ℕ) (k : ℕ) : last start now (F ++ [k]) = now k := by
  simp [last]

theorem last_mem {F : List ℕ} (h : F ≠ []) : ∃ i ∈ F, last start now F = now i := by
  obtain ⟨F', k, rfl⟩ := List.eq_nil_or_concat' F |>.resolve_left h
  exact ⟨k, by simp, by simp⟩

end Last

theorem filter_append_of_pos {P : ℕ → Prop} [DecidablePred P] {k : ℕ} (F : List ℕ) (hk : P k) :
    (F ++ [k]).filter P = F.filter P ++ [k] := by
  simp [hk]

theorem filter_append_of_neg {P : ℕ → Prop} [DecidablePred P] {k : ℕ} (F : List ℕ)
    (hk : ¬ P k) : (F ++ [k]).filter P = F.filter P := by
  simp [hk]

variable {T : Type*} [AddCommGroup T] [LinearOrder T] (gap start : T) (now : ℕ → T)

/-- **Of the first `k` events those of the list fire.** -/
inductive Debounced : ℕ → List ℕ → Prop
  | zero : Debounced 0 []
  | fire {k : ℕ} {F : List ℕ} (h : Debounced k F) (hgap : gap < now k - last start now F) :
      Debounced (k + 1) (F ++ [k])
  | drop {k : ℕ} {F : List ℕ} (h : Debounced k F) (hgap : ¬ gap < now k - last start now F) :
      Debounced (k + 1) F

variable {gap start now}

namespace Debounced

variable {k : ℕ} {F : List ℕ}

theorem lt_of_mem (h : Debounced gap start now k F) : ∀ i ∈ F, i < k := by
  induction h with
  | zero => simp
  | fire h _ ih =>
    intro i hi
    rcases List.mem_append.mp hi with hi | hi
    · have := ih i hi
      omega
    · have := List.mem_singleton.mp hi
      omega
  | drop h _ ih =>
    intro i hi
    have := ih i hi
    omega

/-- What grows with the events is largest at the last one that fires. -/
theorem le_last {S : Type*} [Preorder S] {f : ℕ → S} (hf : Monotone f) (s0 : S)
    (h : Debounced gap start now k F) : ∀ i ∈ F, f i ≤ last s0 f F := by
  induction h with
  | zero => simp
  | @fire k F h _ ih =>
    intro i hi
    rw [last_append]
    rcases List.mem_append.mp hi with hi | hi
    · exact hf (h.lt_of_mem i hi).le
    · rw [List.mem_singleton.mp hi]
  | drop h _ ih => exact ih

section Clock

variable [IsOrderedAddMonoid T] (hnow : Monotone now) (hstart : ∀ i, start ≤ now i)
include hnow hstart

omit [IsOrderedAddMonoid T] in
/-- The last of some of the events that fire is not later than the last of all. -/
theorem last_filter_le (P : ℕ → Prop) [DecidablePred P] (h : Debounced gap start now k F) :
    last start now (F.filter P) ≤ last start now F := by
  have hle : ∀ {k F}, Debounced gap start now k F →
      ∀ j, k ≤ j → last start now (F.filter P) ≤ now j := by
    intro k F h
    induction h with
    | zero => exact fun j _ => hstart j
    | @fire k F h _ ih =>
      intro j hj
      by_cases hk : P k
      · rw [filter_append_of_pos F hk, last_append]
        exact hnow (by omega)
      · rw [filter_append_of_neg F hk]
        exact ih j (by omega)
    | drop h _ ih => exact fun j hj => ih j (by omega)
  induction h with
  | zero => exact le_rfl
  | @fire k F h _ ih =>
    by_cases hk : P k
    · rw [filter_append_of_pos F hk, last_append, last_append]
    · rw [filter_append_of_neg F hk, last_append]
      exact hle h k le_rfl
  | drop h _ ih => exact ih

/-- An event with the property that fires is far from the last one without it. -/
theorem gap_of_mem {P : ℕ → Prop} [DecidablePred P] (hP : ∀ i j, i ≤ j → P i → P j)
    (h : Debounced gap start now k F) :
    ∀ i ∈ F, P i → gap < now i - last start now (F.filter fun j => ¬ P j) := by
  induction h with
  | zero => simp
  | @fire k F h hgap ih =>
    intro i hi hPi
    have hik : i ≤ k := by
      rcases List.mem_append.mp hi with hi | hi
      · exact (h.lt_of_mem i hi).le
      · exact (List.mem_singleton.mp hi).le
    have hPk : P k := hP i k hik hPi
    rw [filter_append_of_neg F (not_not.mpr hPk)]
    rcases List.mem_append.mp hi with hi | hi
    · exact ih i hi hPi
    · obtain rfl := List.mem_singleton.mp hi
      exact hgap.trans_le (sub_le_sub_left (h.last_filter_le hnow hstart _) _)
  | drop h _ ih => exact ih

/-- **When an event with the property fires**: exactly when the reading of the last event is more
than `gap` after the last one that fired without the property. -/
theorem exists_iff {P : ℕ → Prop} [DecidablePred P] (hP : ∀ i j, i ≤ j → P i → P j)
    (h : Debounced gap start now (k + 1) F) (hk : P k) :
    (∃ i ∈ F, P i) ↔ gap < now k - last start now (F.filter fun j => ¬ P j) := by
  constructor
  · rintro ⟨i, hi, hPi⟩
    have hik : i ≤ k := Nat.lt_succ_iff.mp (h.lt_of_mem i hi)
    exact (h.gap_of_mem hnow hstart hP i hi hPi).trans_le (sub_le_sub_right (hnow hik) _)
  · intro hgap
    by_contra hno
    have hall : F.filter (fun j => ¬ P j) = F := by
      rw [List.filter_eq_self]
      intro j hj
      simpa using fun hPj => hno ⟨j, hj, hPj⟩
    rw [hall] at hgap
    cases h with
    | fire h _ => exact hno ⟨k, by simp, hk⟩
    | drop h hdrop => exact hdrop hgap

end Clock

end Debounced

end SampLogCore.Lib.Debounce
