import Mathlib.Data.List.DropRight
import Mathlib.Data.List.TakeWhile
import Mathlib.Tactic.Common

/-!
# Fields

A separator cuts a list into fields, none of which has it (`List.splitOn`). The first field is what
stands in front of the first separator (`head?_splitOn`). What stands in front of the first
separator or behind the last one is also found by taking or dropping elements, and by its position.
-/

namespace SampLogCore.Lib.Fields

variable {α : Type*} [DecidableEq α] {a : α} {xs ys : List α}

theorem all_ne (h : a ∉ xs) : ∀ x ∈ xs, decide (x ≠ a) = true := by
  intro x hx
  have hne : x ≠ a := fun heq => h (heq ▸ hx)
  simpa using hne

theorem takeWhile_ne_eq_self (h : a ∉ xs) : xs.takeWhile (· ≠ a) = xs :=
  List.takeWhile_eq_self_iff.mpr (all_ne h)

theorem dropWhile_ne_eq_nil (h : a ∉ xs) : xs.dropWhile (· ≠ a) = [] :=
  List.dropWhile_eq_nil_iff.mpr (all_ne h)

theorem takeWhile_ne_append (h : a ∉ xs) : (xs ++ a :: ys).takeWhile (· ≠ a) = xs := by
  rw [List.takeWhile_append_of_pos (all_ne h), List.takeWhile_cons_of_neg (by simp),
    List.append_nil]

theorem dropWhile_ne_append (h : a ∉ xs) : (xs ++ a :: ys).dropWhile (· ≠ a) = a :: ys := by
  rw [List.dropWhile_append_of_pos (all_ne h), List.dropWhile_cons_of_neg (by simp)]

omit [DecidableEq α] in
/-- A list splits at its last `a`. -/
theorem eq_append_last (h : a ∈ xs) : ∃ ys zs, xs = ys ++ a :: zs ∧ a ∉ zs := by
  obtain ⟨as, bs, hrev, hnot⟩ := List.eq_append_cons_of_mem (List.mem_reverse.mpr h)
  refine ⟨bs.reverse, as.reverse, ?_, fun ha => hnot (List.mem_reverse.mp ha)⟩
  rw [← List.reverse_reverse xs, hrev]
  simp

/-- What follows the last `a`. -/
theorem rtakeWhile_append (h : a ∉ ys) : (xs ++ a :: ys).rtakeWhile (· ≠ a) = ys := by
  have hrev : (xs ++ a :: ys).reverse = ys.reverse ++ a :: xs.reverse := by simp
  have hnot : a ∉ ys.reverse := fun ha => h (List.mem_reverse.mp ha)
  rw [List.rtakeWhile, hrev, takeWhile_ne_append hnot, List.reverse_reverse]

theorem rdropWhile_append (h : a ∉ ys) : (xs ++ a :: ys).rdropWhile (· ≠ a) = xs ++ [a] := by
  have hsplit : (xs ++ a :: ys).rdropWhile (· ≠ a) ++ (xs ++ a :: ys).rtakeWhile (· ≠ a) =
      xs ++ a :: ys := List.rdropWhile_append_rtakeWhile
  rw [rtakeWhile_append h] at hsplit
  rw [← List.append_left_inj ys]
  simpa using hsplit

/-- The first position of `a` from `pos` on. -/
def findFrom (a : α) (xs : List α) (pos : ℕ) : Option ℕ :=
  ((xs.drop pos).findIdx? (· = a)).map (pos + ·)

theorem findIdx?_eq_none (h : a ∉ xs) : xs.findIdx? (· = a) = none := by
  rw [List.findIdx?_eq_none_iff]
  intro x hx
  have hne : x ≠ a := fun heq => h (heq ▸ hx)
  simpa using hne

theorem findFrom_of_notMem {pos : ℕ} (h : a ∉ xs.drop pos) : findFrom a xs pos = none := by
  simp [findFrom, findIdx?_eq_none h]

theorem findFrom_of_drop {pos : ℕ} {zs : List α} (h : xs.drop pos = ys ++ a :: zs) (hys : a ∉ ys) :
    findFrom a xs pos = some (pos + ys.length) := by
  simp [findFrom, h, List.findIdx?_append, List.findIdx?_cons, findIdx?_eq_none hys]

/-- A field has no separator. -/
theorem notMem_of_mem_splitOn : ∀ {xs : List α}, ∀ ys ∈ xs.splitOn a, a ∉ ys
  | [], ys, hys => by
    rw [List.splitOn_nil, List.mem_singleton] at hys
    simp [hys]
  | x :: xs, ys, hys => by
    have ih := @notMem_of_mem_splitOn xs
    rw [List.splitOn_cons_eq_if_modifyHead] at hys
    split at hys
    · rcases List.mem_cons.mp hys with rfl | hys
      · simp
      · exact ih ys hys
    · rename_i hx
      cases hsplit : xs.splitOn a with
      | nil => exact absurd hsplit (List.splitOn_ne_nil a xs)
      | cons z zs =>
        rw [hsplit, List.modifyHead_cons] at hys
        rcases List.mem_cons.mp hys with rfl | hys
        · have hz := ih z (by simp [hsplit])
          simpa [hz] using Ne.symm (by simpa using hx)
        · exact ih ys (by simp [hsplit, hys])

/-- The first field. -/
theorem head?_splitOn (a : α) (xs : List α) :
    (xs.splitOn a).head? = some (xs.takeWhile (· ≠ a)) := by
  by_cases hmem : a ∈ xs
  · obtain ⟨ys, zs, rfl, hys⟩ := List.eq_append_cons_of_mem hmem
    rw [List.splitOn_append_cons_self_of_not_mem hys, takeWhile_ne_append hys, List.head?_cons]
  · rw [List.splitOn_eq_singleton hmem, takeWhile_ne_eq_self hmem, List.head?_cons]

/-- Anything but the separator is in a field. -/
theorem exists_mem_splitOn {x : α} (hx : x ≠ a) : (∃ ys ∈ xs.splitOn a, x ∈ ys) ↔ x ∈ xs := by
  induction hn : xs.length using Nat.strongRecOn generalizing xs with
  | ind n ih =>
    by_cases hmem : a ∈ xs
    · obtain ⟨ys, zs, rfl, hys⟩ := List.eq_append_cons_of_mem hmem
      have hzs := @ih zs.length (by simp at hn; omega) zs rfl
      simp [List.splitOn_append_cons_self_of_not_mem hys, hzs, hx]
    · simp [List.splitOn_eq_singleton hmem]

omit [DecidableEq α] in
theorem intercalate_append {ls ms : List (List α)} (hls : ls ≠ []) (hms : ms ≠ []) :
    [a].intercalate (ls ++ ms) = [a].intercalate ls ++ a :: [a].intercalate ms := by
  induction ls with
  | nil => exact absurd rfl hls
  | cons l ls ih =>
    cases ls with
    | nil => simp [List.intercalate_cons_of_ne_nil hms]
    | cons l' ls =>
      rw [List.cons_append, List.cons_append, List.intercalate_cons_cons, ← List.cons_append,
        ih (by simp), List.intercalate_cons_cons]
      simp

/-- The first fields are those of what stands in front of a separator. -/
theorem exists_of_splitOn_eq_append {ls ms : List (List α)} (h : xs.splitOn a = ls ++ ms)
    (hls : ls ≠ []) (hms : ms ≠ []) : ∃ ys zs, xs = ys ++ a :: zs ∧ ys.splitOn a = ls := by
  refine ⟨[a].intercalate ls, [a].intercalate ms, ?_, ?_⟩
  · rw [← intercalate_append hls hms, ← h, List.intercalate_splitOn]
  · refine List.splitOn_intercalate a (fun l hl => ?_) hls
    have hmem : l ∈ xs.splitOn a := by simp [h, hl]
    exact notMem_of_mem_splitOn l hmem

end SampLogCore.Lib.Fields
