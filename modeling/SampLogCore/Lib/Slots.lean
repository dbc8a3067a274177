import Mathlib.Algebra.Order.Ring.Int
import Mathlib.Logic.Function.Basic
import Mathlib.Tactic.Common

/-!
# Numbered slots

Things are kept in slots with numbers. A slot is cleared, or moved to another number, where it
replaces what is there; to move an empty slot does nothing. `loop` goes over a list of numbers and
counts down: it clears while the count has not come below a limit, and from then on moves each slot
to the `next` number.

Over a descending list, which may have repetitions, a slot that only its lower neighbour is moved to
ends with what the neighbour held, or empty, or as it was (`loop_apply`). When the list is strictly
descending and has all numbers in use, the upper neighbour of a number is empty by the time the loop
comes to the number (`loop_upper`).
-/

namespace SampLogCore.Lib.Slots

variable {α : Type*}

/-- Slot `n` without what is in it. -/
def clear (f : ℤ → Option α) (n : ℤ) : ℤ → Option α := Function.update f n none

/-- What is in slot `n` goes to slot `m`. -/
def move (f : ℤ → Option α) (n m : ℤ) : ℤ → Option α :=
  match f n with
  | some a => Function.update (clear f n) m (some a)
  | none => f

variable (next : ℤ → ℤ) (limit : ℤ)

/-- One number of the loop. -/
def visit (f : ℤ → Option α) (count n : ℤ) : ℤ → Option α :=
  if count ≥ limit then clear f n else move f n (next n)

/-- The loop over a list of numbers. -/
def loop : ℤ → List ℤ → (ℤ → Option α) → ℤ → Option α
  | _, [], f => f
  | count, n :: ns, f => loop (count - 1) ns (visit next limit f count n)

/-- The number is still in the list when the count is below the limit. -/
def Kept (count : ℤ) (ns : List ℤ) (n : ℤ) : Prop := count - ns.countP (n < ·) < limit

instance (count : ℤ) (ns : List ℤ) (n : ℤ) : Decidable (Kept limit count ns n) := by
  unfold Kept
  infer_instance

variable {next limit} {f : ℤ → Option α} {n m count : ℤ} {ns : List ℤ}

/-! ### One number -/

theorem clear_self : clear f n n = none := by
  rw [clear, Function.update_self]

theorem clear_of_ne (h : m ≠ n) : clear f n m = f m := by
  rw [clear, Function.update_of_ne h]

theorem move_of_none (h : f n = none) (m : ℤ) : move f n m = f := by
  simp only [move, h]

theorem move_target (h : (f n).isSome) : move f n m m = f n := by
  obtain ⟨a, ha⟩ := Option.isSome_iff_exists.mp h
  simp only [move, ha, Function.update_self]

theorem move_source (h : m ≠ n) : move f n m n = none := by
  cases hn : f n with
  | some a => simp only [move, hn, Function.update_of_ne h.symm, clear_self]
  | none => rw [move_of_none hn, hn]

theorem move_of_ne {k : ℤ} (hn : k ≠ n) (hm : k ≠ m) : move f n m k = f k := by
  cases hf : f n with
  | some a => simp only [move, hf, Function.update_of_ne hm, clear_of_ne hn]
  | none => rw [move_of_none hf]

theorem visit_self (h : next n ≠ n) : visit next limit f count n n = none := by
  unfold visit
  split_ifs
  · exact clear_self
  · exact move_source h

theorem visit_of_ne (hn : m ≠ n) (hm : m ≠ next n) : visit next limit f count n m = f m := by
  unfold visit
  split_ifs
  · exact clear_of_ne hn
  · exact move_of_ne hn hm

/-! ### The loop -/

/-- A slot that is not visited, and that nothing is moved to. -/
theorem loop_of_notMem (hm : m ∉ ns) (hnext : ∀ n ∈ ns, next n ≠ m) :
    loop next limit count ns f m = f m := by
  induction ns generalizing f count with
  | nil => rfl
  | cons n ns ih =>
    simp only [List.mem_cons, not_or] at hm
    rw [List.forall_mem_cons] at hnext
    rw [loop, ih hm.2 hnext.2, visit_of_ne hm.1 hnext.1.symm]

/-- The count behind a list with one number more. -/
theorem count_cons (count m : ℤ) (ms : List ℤ) :
    count - 1 - ms.length = count - (m :: ms).length := by
  rw [List.length_cons]
  push_cast
  omega

/-- One list after the other. -/
theorem loop_append {ms : List ℤ} :
    loop next limit count (ms ++ ns) f =
      loop next limit (count - ms.length) ns (loop next limit count ms f) := by
  induction ms generalizing f count with
  | nil => simp [loop]
  | cons m ms ih =>
    rw [List.cons_append, loop, ih, loop, count_cons]

theorem countP_eq_zero_of_sorted (h : (n :: ns).Pairwise (· ≥ ·)) (hn : n ≤ m) :
    (n :: ns).countP (m < ·) = 0 := by
  rw [List.countP_eq_zero]
  intro x hx
  rcases List.mem_cons.mp hx with rfl | hx
  · simpa using hn
  · have := (List.pairwise_cons.mp h).1 x hx
    simp only [decide_eq_true_eq]
    omega

/-- The first number is kept when the count is below the limit. -/
theorem kept_head (h : (n :: ns).Pairwise (· ≥ ·)) :
    Kept limit count (n :: ns) n ↔ ¬ count ≥ limit := by
  rw [Kept, countP_eq_zero_of_sorted h (le_refl n)]
  simp

/-- For a smaller number the first one does not count any more. -/
theorem kept_tail (h : m < n) : Kept limit count (n :: ns) m ↔ Kept limit (count - 1) ns m := by
  unfold Kept
  rw [List.countP_cons, if_pos (by simpa using h)]
  push_cast
  exact iff_of_eq (by congr 1; omega)

/-- **What the loop leaves in a slot** that only its lower neighbour is moved to. -/
theorem loop_apply (hsorted : ns.Pairwise (· ≥ ·)) (hnext : m - 1 ∈ ns → next (m - 1) = m)
    (hslot : ∀ n ∈ ns, next n = m → n + 1 = m) (hsource : ∀ n ∈ ns, next n = m - 1 → n + 2 = m) :
    loop next limit count ns f m =
      if m - 1 ∈ ns ∧ Kept limit count ns (m - 1) ∧ (f (m - 1)).isSome then f (m - 1)
      else if m ∈ ns then none else f m := by
  induction ns generalizing f count with
  | nil => simp [loop]
  | cons n ns ih =>
    have hle := (List.pairwise_cons.mp hsorted).1
    have hslot' := List.forall_mem_cons.mp hslot
    have hsource' := List.forall_mem_cons.mp hsource
    have ih := @ih (visit next limit f count n) (count - 1) (List.pairwise_cons.mp hsorted).2
      (fun h => hnext (List.mem_cons_of_mem n h)) hslot'.2 hsource'.2
    rcases lt_trichotomy n (m - 1) with hn | rfl | hn
    · -- neither slot is visited any more
      have hnot : ∀ k, n < k → k ∉ n :: ns := fun k hk h => by
        rcases List.mem_cons.mp h with rfl | h
        · omega
        · have := hle k h
          omega
      rw [if_neg (hnot m (by omega)), if_neg fun h => hnot _ hn h.1]
      refine loop_of_notMem (hnot m (by omega)) fun k hk h => hnot _ hn ?_
      rw [show m - 1 = k by have := hslot k hk h; omega]
      exact hk
    · -- the lower neighbour is visited for the first time
      have hself : visit next limit f count (m - 1) (m - 1) = none := visit_self fun h => by
        have := hnext List.mem_cons_self
        omega
      have hrest : m ∉ ns := fun h => by
        have := hle m h
        omega
      have hkept : Kept limit count ((m - 1) :: ns) (m - 1) ↔ ¬ count ≥ limit :=
        kept_head hsorted
      have hm : m ∉ (m - 1) :: ns := fun h => (List.mem_cons.mp h).elim (by omega) hrest
      rw [loop, ih, hself, if_neg (by simp), if_neg hrest, if_neg hm, visit]
      by_cases hcount : count ≥ limit
      · rw [if_pos hcount, if_neg (fun h => hkept.mp h.2.1 hcount), clear_of_ne (by omega)]
      · rw [if_neg hcount, hnext List.mem_cons_self]
        by_cases hsome : (f (m - 1)).isSome
        · rw [move_target hsome, if_pos ⟨List.mem_cons_self, hkept.mpr hcount, hsome⟩]
        · rw [if_neg (fun h => hsome h.2.2), move_of_none (by simpa using hsome)]
    · have hlower : visit next limit f count n (m - 1) = f (m - 1) :=
        visit_of_ne (by omega) fun h => by
          have := hsource'.1 h.symm
          omega
      have hmem : m - 1 ∈ n :: ns ↔ m - 1 ∈ ns := by
        rw [List.mem_cons]
        exact or_iff_right (by omega)
      rw [loop, ih, hlower]
      refine if_congr (and_congr hmem.symm (and_congr_left' (kept_tail hn).symm)) rfl ?_
      by_cases hn : m = n
      · subst hn
        have hself : visit next limit f count m m = none := visit_self fun h => by
          have := hslot'.1 h
          omega
        rw [hself, if_pos List.mem_cons_self, ite_self]
      · have hsame : visit next limit f count n m = f m := visit_of_ne hn fun h => by
          have := hslot'.1 h.symm
          omega
        rw [hsame]
        exact if_congr (by rw [List.mem_cons, or_iff_right hn]) rfl rfl

/-- **The upper neighbour is empty** when the loop comes to a number. -/
theorem loop_upper {pre post : List ℤ} (hsorted : (pre ++ n :: post).Pairwise (· > ·))
    (hused : (f (n + 1)).isSome → n + 1 ∈ pre ++ n :: post)
    (hslot : ∀ k ∈ pre, next k ≠ n + 1) (hsource : ∀ k ∈ pre, next k ≠ n) :
    loop next limit count pre f (n + 1) = none := by
  obtain ⟨hpre, hpost, hacross⟩ := List.pairwise_append.mp hsorted
  have hlower : n ∉ pre := fun h => lt_irrefl n (hacross n h n List.mem_cons_self)
  have hn : n + 1 - 1 = n := by omega
  rw [loop_apply (hpre.imp fun h => le_of_lt h) (by rw [hn]; exact fun h => absurd h hlower)
    (fun k hk h => absurd h (hslot k hk)) (by rw [hn]; exact fun k hk h => absurd h (hsource k hk)),
    hn, if_neg fun h => hlower h.1]
  by_cases hupper : n + 1 ∈ pre
  · rw [if_pos hupper]
  · rw [if_neg hupper]
    by_contra hsome
    rcases List.mem_append.mp (hused (Option.isSome_iff_ne_none.mpr hsome)) with h | h
    · exact hupper h
    · rcases List.mem_cons.mp h with h | h
      · omega
      · have := (List.pairwise_cons.mp hpost).1 _ h
        omega

end SampLogCore.Lib.Slots
