import Mathlib.Order.WellFounded
import SampLogCore.Lib.Transition

/-!
# Runs that come to an end

A state from which a run can always take a step that makes a measure smaller reaches its goal
(`exists_run`), whatever other steps there are. Where every step makes it smaller, the measure
bounds the length of all runs (`length_le_of_measure`). What every step keeps holds to the end of a
run (`along_run`).
-/

namespace SampLogCore.Lib.Progress

open SampLogCore.Lib.Transition

variable {σ ε α : Type*} {S : System σ ε}

/-- The state a run ends in. -/
def endOf : σ → List (ε × σ) → σ
  | s, [] => s
  | _, (_, t) :: r => endOf t r

/-- **A goal that can always be approached is reached.** The steps of the run all meet `A`. -/
theorem exists_run [Preorder α] [WellFoundedLT α] (Good Goal : σ → Prop) (A : ε → Prop)
    (measure : σ → α) (h : ∀ s, Good s → ¬ Goal s →
      ∃ e t, A e ∧ S.Step s e t ∧ Good t ∧ measure t < measure s) (s : σ) (hs : Good s) :
    ∃ r, S.IsRun s r ∧ (∀ p ∈ r, A p.1) ∧ Goal (endOf s r) := by
  induction hm : measure s using WellFoundedLT.induction generalizing s with
  | ind m ih =>
    by_cases hgoal : Goal s
    · exact ⟨[], trivial, by simp, hgoal⟩
    · obtain ⟨e, t, he, hst, ht, hlt⟩ := h s hs hgoal
      obtain ⟨r, hr, hall, hend⟩ := ih (measure t) (hm ▸ hlt) t ht rfl
      exact ⟨(e, t) :: r, ⟨hst, hr⟩, List.forall_mem_cons.mpr ⟨he, hall⟩, hend⟩

/-- **Runs whose steps all come closer are short.** The steps of the run all meet `A`. -/
theorem length_le_of_measure {I : σ → Prop} {A : ε → Prop} {measure : σ → ℕ}
    (h : ∀ s e t, I s → A e → S.Step s e t → I t ∧ measure t < measure s) :
    ∀ {r : List (ε × σ)} {s : σ}, I s → S.IsRun s r → (∀ p ∈ r, A p.1) →
      I (endOf s r) ∧ r.length ≤ measure s
  | [], _, hs, _, _ => ⟨hs, Nat.zero_le _⟩
  | (e, t) :: r, s, hs, hr, hall => by
    obtain ⟨hst, hr⟩ := hr
    obtain ⟨he, hall⟩ := List.forall_mem_cons.mp hall
    obtain ⟨ht, hlt⟩ := h s e t hs he hst
    obtain ⟨hend, hle⟩ := length_le_of_measure h ht hr hall
    exact ⟨hend, by rw [List.length_cons]; omega⟩

/-- What every step keeps holds in all states of a run. -/
theorem along_run {I : σ → Prop} (hI : ∀ s e t, I s → S.Step s e t → I t) :
    ∀ {r : List (ε × σ)} {s : σ}, I s → S.IsRun s r → I (endOf s r) ∧ ∀ p ∈ r, I p.2
  | [], _, hs, _ => ⟨hs, by simp⟩
  | (e, t) :: r, s, hs, hr => by
    obtain ⟨hst, hr⟩ := hr
    have ht : I t := hI s e t hs hst
    obtain ⟨hend, hall⟩ := along_run hI ht hr
    exact ⟨hend, List.forall_mem_cons.mpr ⟨ht, hall⟩⟩

/-- A list of steps is a run to the state it leads to. -/
theorem exists_isRun_of_exec {init : σ → Prop} {step : σ → ε → Option σ} :
    ∀ (es : List ε) {s t : σ}, exec step s es = some t →
      ∃ r, (ofStep init step).IsRun s r ∧ endOf s r = t
  | [], s, t, h => ⟨[], trivial, Option.some.inj h⟩
  | e :: es, s, t, h => by
    simp only [exec, Option.bind_eq_some_iff] at h
    obtain ⟨u, hu, h⟩ := h
    obtain ⟨r, hr, hend⟩ := exists_isRun_of_exec es h
    exact ⟨(e, u) :: r, ⟨hu, hr⟩, hend⟩

end SampLogCore.Lib.Progress
