import Mathlib.Data.List.TakeWhile
import Mathlib.Order.Lattice
import Mathlib.Tactic.Common
import SampLogCore.Lib.Loop

/-!
# Tables with ascending keys

The entry for `a` in a table with ascending keys is the last one whose key is at or below `a`
(`IsLastBelow`). A linear search goes on as long as the entries are at or below `a`, and stops at
the first one above or at the end of the table (`ends_scan`); the entry is the one in front of where
it stops (`isLastBelow_getLast`). It stops before the end exactly when some entry is above `a`
(`takeWhile_lt_iff`).
-/

namespace SampLogCore.Lib.Lookup

open SampLogCore.Lib.Loop

variable {α κ : Type*}

/-- One round of a linear search: on to the next index while `p` holds. -/
def scanRound (p : α → Bool) (xs : List α) (index : ℕ) : Round ℕ ℕ :=
  match xs[index]? with
  | some x => if p x then .again (index + 1) else .leave index
  | none => .leave index

/-- **A linear search stops behind the entries that pass.** -/
theorem ends_scan (p : α → Bool) (xs : List α) (index : ℕ) :
    Ends (scanRound p xs) index (index + ((xs.drop index).takeWhile p).length) := by
  induction hn : xs.length - index using Nat.strongRecOn generalizing index with
  | ind n ih =>
    by_cases hindex : index < xs.length
    · have hget : xs[index]? = some xs[index] := List.getElem?_eq_getElem hindex
      rw [List.drop_eq_getElem_cons hindex]
      by_cases hp : p xs[index] = true
      · have hround : scanRound p xs index = .again (index + 1) := by
          simp [scanRound, hget, hp]
        have hnext := ih (xs.length - (index + 1)) (by omega) (index + 1) rfl
        rw [ends_of_again hround, List.takeWhile_cons_of_pos hp, List.length_cons]
        convert hnext using 1
        omega
      · rw [List.takeWhile_cons_of_neg hp]
        exact ends_of_leave (by simp [scanRound, hget, hp])
    · have hget : xs[index]? = none := List.getElem?_eq_none (by omega)
      rw [List.drop_eq_nil_of_le (by omega)]
      exact ends_of_leave (by simp [scanRound, hget])

variable [LinearOrder κ] {key : α → κ} {xs : List α} {a : κ} {x : α}

/-- `x` is the last entry at or below `a`. -/
def IsLastBelow (key : α → κ) (a : κ) (xs : List α) (x : α) : Prop :=
  ∃ before after, xs = before ++ x :: after ∧ key x ≤ a ∧ ∀ y ∈ after, a < key y

/-- What a search leaves behind it is above, when the keys ascend. -/
theorem lt_of_mem_dropWhile (h : xs.Pairwise fun x y => key x ≤ key y) :
    ∀ y ∈ xs.dropWhile (key · ≤ a), a < key y := by
  induction xs with
  | nil => simp
  | cons x xs ih =>
    obtain ⟨hx, hxs⟩ := List.pairwise_cons.mp h
    by_cases hle : key x ≤ a
    · rw [List.dropWhile_cons_of_pos (by simpa using hle)]
      exact ih hxs
    · rw [List.dropWhile_cons_of_neg (by simpa using hle)]
      intro y hy
      rcases List.mem_cons.mp hy with rfl | hy
      · exact not_le.mp hle
      · exact (not_le.mp hle).trans_le (hx y hy)

/-- **The entry in front of where a search stops is the last one at or below.** -/
theorem isLastBelow_getLast (h : xs.Pairwise fun x y => key x ≤ key y)
    (hx : (xs.takeWhile (key · ≤ a)).getLast? = some x) : IsLastBelow key a xs x := by
  obtain ⟨before, hbefore⟩ := List.getLast?_eq_some_iff.mp hx
  refine ⟨before, xs.dropWhile (key · ≤ a), ?_, ?_, lt_of_mem_dropWhile h⟩
  · have hsplit : xs.takeWhile (key · ≤ a) ++ xs.dropWhile (key · ≤ a) = xs :=
      List.takeWhile_append_dropWhile
    rw [hbefore] at hsplit
    simpa using hsplit.symm
  · have hmem : x ∈ xs.takeWhile (key · ≤ a) := by simp [hbefore]
    simpa using List.mem_takeWhile_imp hmem

/-- A search that begins at or below finds an entry. -/
theorem exists_getLast (h : ∃ y, xs.head? = some y ∧ key y ≤ a) :
    ∃ x, (xs.takeWhile (key · ≤ a)).getLast? = some x := by
  obtain ⟨y, hy, hle⟩ := h
  obtain ⟨rest, rfl⟩ := List.head?_eq_some_iff.mp hy
  rw [List.takeWhile_cons_of_pos (by simpa using hle), List.getLast?_cons]
  exact ⟨_, rfl⟩

/-- A search stops before the end where an entry is above. -/
theorem takeWhile_lt_iff : (xs.takeWhile (key · ≤ a)).length < xs.length ↔ ∃ y ∈ xs, a < key y := by
  have hsplit : xs.takeWhile (key · ≤ a) ++ xs.dropWhile (key · ≤ a) = xs :=
    List.takeWhile_append_dropWhile
  constructor
  · intro hlt
    by_contra hall
    have hself : xs.takeWhile (key · ≤ a) = xs := by
      rw [List.takeWhile_eq_self_iff]
      intro y hy
      have : key y ≤ a := not_lt.mp fun hlt => hall ⟨y, hy, hlt⟩
      simpa using this
    rw [hself] at hlt
    exact lt_irrefl _ hlt
  · rintro ⟨y, hy, hlt⟩
    refine lt_of_le_of_ne (List.takeWhile_sublist _).length_le fun heq => ?_
    have hself := (List.takeWhile_sublist (key · ≤ a)).eq_of_length heq
    rw [← hself] at hy
    have hle : key y ≤ a := by simpa using List.mem_takeWhile_imp hy
    exact absurd hlt (not_lt.mpr hle)

end SampLogCore.Lib.Lookup
