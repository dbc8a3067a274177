import Mathlib.Data.List.AList

/-!
# Maps under names

A `Naming` gives things names, and finds the thing of a name. An association list by things is then
a map by names (`Naming.map`), which is undefined at a name of nothing.

A map that keeps the first value for each key is built by joining single values on the right: one
value more is one entry more (`map_join`), and the values of a list, one after the other, are the
entries of the list in which the first one with a name counts (`foldl_join`).
-/

namespace SampLogCore.Lib.Names

/-- Names, and the thing of a name. -/
structure Naming (ι κ : Type) where
  name : ι → κ
  find : κ → Option ι
  find_eq_some : ∀ k i, find k = some i ↔ name i = k

/-- The map keeps what it has, and has `a` at `key` otherwise. -/
def join {κ α : Type} [DecidableEq κ] (map : κ → Option α) (key : κ) (a : α) : κ → Option α :=
  fun k => (map k).or (if key = k then some a else none)

namespace Naming

variable {ι κ α β : Type} (N : Naming ι κ) (conv : β → α)

theorem find_name (i : ι) : N.find (N.name i) = some i := (N.find_eq_some _ i).mpr rfl

variable [DecidableEq ι]

/-- The values of a list by names; the first one counts. -/
def listed (es : List (Sigma fun _ : ι => β)) : κ → Option α :=
  fun k => (N.find k).bind fun i => (es.dlookup i).map conv

/-- The values of an association list by names. -/
def map (l : AList fun _ : ι => β) : κ → Option α := N.listed conv l.entries

variable {N conv} {l : AList fun _ : ι => β} {i : ι} {k : κ}

theorem map_of_find (h : N.find k = some i) : N.map conv l k = (l.lookup i).map conv := by
  unfold map listed
  rw [h]
  rfl

theorem map_of_find_none (h : N.find k = none) : N.map conv l k = none := by
  unfold map listed
  rw [h]
  rfl

@[simp] theorem map_empty : N.map conv (∅ : AList fun _ : ι => β) = fun _ => none := by
  funext k
  unfold map listed
  rcases N.find k with _ | i <;> rfl

theorem listed_nil : N.listed conv [] k = none := by
  unfold listed
  rcases N.find k with _ | i <;> rfl

variable [DecidableEq κ]

theorem listed_cons (e : Sigma fun _ : ι => β) (es : List (Sigma fun _ : ι => β)) :
    N.listed conv (e :: es) k =
      (if N.name e.1 = k then some (conv e.2) else none).or (N.listed conv es k) := by
  obtain ⟨i, b⟩ := e
  unfold listed
  by_cases hname : N.name i = k
  · rw [if_pos hname, (N.find_eq_some k i).mpr hname, Option.bind_some, List.dlookup_cons_eq]
    rfl
  · rw [if_neg hname, Option.none_or]
    rcases hfind : N.find k with _ | j
    · rfl
    · have hne : j ≠ i := by
        rintro rfl
        exact hname ((N.find_eq_some k j).mp hfind)
      rw [Option.bind_some, Option.bind_some, List.dlookup_cons_ne es ⟨i, b⟩ hne]

/-- **One value more is one entry more.** -/
theorem map_join (l : AList fun _ : ι => β) (i : ι) (b : β) :
    N.map conv (l ∪ AList.singleton i b) = join (N.map conv l) (N.name i) (conv b) := by
  funext k
  unfold join
  rcases hfind : N.find k with _ | j
  · have hne : ¬ N.name i = k := by
      intro hname
      rw [(N.find_eq_some k i).mpr hname] at hfind
      exact absurd hfind (by simp)
    rw [map_of_find_none hfind, map_of_find_none hfind, if_neg hne]
    rfl
  · have hname : N.name i = k ↔ j = i := by
      rw [← N.find_eq_some, hfind, Option.some.injEq]
    rw [map_of_find hfind, map_of_find hfind]
    by_cases hmem : j ∈ l
    · obtain ⟨b', hb'⟩ := Option.isSome_iff_exists.mp (AList.lookup_isSome.mpr hmem)
      rw [AList.lookup_union_left hmem, hb']
      rfl
    · rw [AList.lookup_union_right hmem, AList.lookup_eq_none.mpr hmem]
      by_cases hj : j = i
      · subst hj
        rw [if_pos (hname.mpr rfl), ← AList.insert_empty, AList.lookup_insert]
        rfl
      · rw [if_neg fun h => hj (hname.mp h), ← AList.insert_empty, AList.lookup_insert_ne hj,
          AList.lookup_empty]
        rfl

/-- **The values of a list, one after the other.** -/
theorem foldl_join : ∀ (es : List (Sigma fun _ : ι => β)) (m : κ → Option α),
    es.foldl (fun m e => join m (N.name e.1) (conv e.2)) m k = (m k).or (N.listed conv es k)
  | [], m => by rw [listed_nil, Option.or_none, List.foldl_nil]
  | e :: es, m => by
    rw [List.foldl_cons, foldl_join es, listed_cons, ← Option.or_assoc]
    rfl

end Naming

end SampLogCore.Lib.Names
