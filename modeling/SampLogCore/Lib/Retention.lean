import Mathlib.Data.Finset.Card
import Mathlib.Data.Finset.Sort
import Mathlib.Data.Fintype.Basic

/-!
# Keeping the newest

In a linear order `newest k D` is the set of the `k` greatest elements of `D`. A program that sorts
a list and deletes elements from the front deletes those with few smaller ones (`mem_take_iff`), and
what is left of a list without repetitions is a set of newest elements (`mem_drop_iff`), whatever
order the list was in before.
-/

namespace SampLogCore.Lib.Retention

variable {α β : Type*} [LinearOrder α] [LinearOrder β]

/-- The `k` newest elements of a finite set. -/
def newest (k : ℕ) (D : Finset α) : Finset α := D.filter fun a => (D.filter (a < ·)).card < k

theorem mem_newest {k : ℕ} {D : Finset α} {a : α} :
    a ∈ newest k D ↔ a ∈ D ∧ (D.filter (a < ·)).card < k := Finset.mem_filter

/-- **The front of a sorted list** holds the elements with few smaller ones. -/
theorem mem_take_iff {a : α} : ∀ {l : List α} {r : ℕ}, l.Pairwise (· ≤ ·) →
    (a ∈ l.take r ↔ a ∈ l ∧ l.countP (· < a) < r)
  | [], r, _ => by simp
  | b :: l, 0, _ => by simp
  | b :: l, r + 1, h => by
    obtain ⟨hb, hl⟩ := List.pairwise_cons.mp h
    rw [List.take_succ_cons, List.mem_cons, List.mem_cons, mem_take_iff hl, List.countP_cons]
    by_cases hab : a = b
    · subst hab
      have hnone : l.countP (· < a) = 0 := by
        rw [List.countP_eq_zero]
        intro x hx
        simpa using hb x hx
      simp [hnone]
    · constructor
      · rintro (rfl | ⟨ha, hcount⟩)
        · exact absurd rfl hab
        · have hba : b < a := lt_of_le_of_ne (hb a ha) (Ne.symm hab)
          exact ⟨.inr ha, by simp only [hba, decide_true, if_true]; omega⟩
      · rintro ⟨rfl | ha, hcount⟩
        · exact absurd rfl hab
        · have hba : b < a := lt_of_le_of_ne (hb a ha) (Ne.symm hab)
          simp only [hba, decide_true, if_true] at hcount
          exact .inr ⟨ha, by omega⟩

/-- An element of a sorted list stays when few elements come from it on. -/
theorem notMem_take_iff {l : List α} {a : α} {k : ℕ} {p : α → Bool} (hp : ∀ b, p b ↔ a ≤ b)
    (h : l.Pairwise (· ≤ ·)) (ha : a ∈ l) : a ∉ l.take (l.length - k) ↔ l.countP p ≤ k := by
  have hnot : l.countP (fun b => ¬ (b < a)) = l.countP p :=
    List.countP_congr fun b _ => by simp [hp]
  have hlen := List.length_eq_countP_add_countP (l := l) (p := (· < a))
  simp only [decide_eq_true_eq, hnot] at hlen
  rw [mem_take_iff h]
  simp only [ha, true_and, not_lt]
  omega

/-- An element splits a set into what is older, itself, and what is newer. -/
theorem card_split {D : Finset α} {a : α} (ha : a ∈ D) :
    (D.filter (· < a)).card + 1 + (D.filter (a < ·)).card = D.card := by
  have hle : D.filter (fun b => ¬ b < a) = insert a (D.filter (a < ·)) := by
    ext b
    simp only [Finset.mem_filter, Finset.mem_insert, not_lt]
    constructor
    · rintro ⟨hb, hab⟩
      rcases hab.eq_or_lt with rfl | hab
      · exact .inl rfl
      · exact .inr ⟨hb, hab⟩
    · rintro (rfl | ⟨hb, hab⟩)
      · exact ⟨ha, le_refl _⟩
      · exact ⟨hb, hab.le⟩
  have hcard := Finset.card_filter_add_card_filter_not (s := D) (· < a)
  rw [hle, Finset.card_insert_of_notMem (by simp)] at hcard
  omega

section Nodup

variable {l : List α} {D : Finset α} (hl : l.Pairwise (· ≤ ·)) (hnodup : l.Nodup)
  (hD : ∀ a, a ∈ l ↔ a ∈ D)

include hnodup hD

theorem countP_eq_card (p : α → Prop) [DecidablePred p] :
    l.countP (p ·) = (D.filter p).card := by
  have hfilter : D.filter p = (l.filter (p ·)).toFinset := by
    ext a
    simp [hD]
  rw [hfilter, List.toFinset_card_of_nodup (hnodup.filter _), List.countP_eq_length_filter]

theorem length_eq_card : l.length = D.card := by
  have hset : D = l.toFinset := by
    ext a
    simp [hD]
  rw [hset, List.toFinset_card_of_nodup hnodup]

include hl

/-- **What is left of a sorted list** after its front is deleted are the newest elements. -/
theorem mem_drop_iff {k : ℕ} {a : α} : a ∈ l.drop (l.length - k) ↔ a ∈ newest k D := by
  have hdrop : a ∈ l.drop (l.length - k) ↔ a ∈ l ∧ a ∉ l.take (l.length - k) := by
    have hdisj := List.disjoint_take_drop hnodup (le_refl (l.length - k))
    constructor
    · intro ha
      exact ⟨List.mem_of_mem_drop ha, fun ht => hdisj ht ha⟩
    · rintro ⟨ha, hn⟩
      rw [← List.take_append_drop (l.length - k) l, List.mem_append] at ha
      exact ha.resolve_left hn
  have hlen := length_eq_card hnodup hD
  rw [hdrop, mem_take_iff hl, mem_newest, hD, countP_eq_card hnodup hD]
  constructor
  · rintro ⟨ha, hn⟩
    have hsplit := card_split ha
    have hge := not_lt.mp fun h => hn ⟨ha, h⟩
    exact ⟨ha, by omega⟩
  · rintro ⟨ha, hcount⟩
    have hsplit := card_split ha
    exact ⟨ha, by rintro ⟨-, h⟩; omega⟩

end Nodup

theorem card_newest (k : ℕ) (D : Finset α) : (newest k D).card = min k D.card := by
  have hmem : ∀ a, a ∈ D.sort.drop (D.sort.length - k) ↔ a ∈ newest k D := fun a =>
    mem_drop_iff (D.pairwise_sort (· ≤ ·)) (D.sort_nodup (· ≤ ·)) fun a => D.mem_sort (· ≤ ·)
  have hnodup : (D.sort.drop (D.sort.length - k)).Nodup :=
    (D.sort_nodup (· ≤ ·)).sublist (List.drop_sublist _ _)
  rw [← length_eq_card hnodup hmem, List.length_drop, Finset.length_sort]
  omega

/-- What is newer than a newest element is one. -/
theorem mem_newest_of_lt {k : ℕ} {D : Finset α} {a b : α} (ha : a ∈ newest k D) (hb : b ∈ D)
    (hab : a < b) : b ∈ newest k D := by
  rw [mem_newest] at ha ⊢
  refine ⟨hb, lt_of_le_of_lt (Finset.card_le_card ?_) ha.2⟩
  intro x hx
  rw [Finset.mem_filter] at hx ⊢
  exact ⟨hx.1, hab.trans hx.2⟩

theorem newest_subset (k : ℕ) (D : Finset α) : newest k D ⊆ D := Finset.filter_subset _ _

theorem subset_newest_iff {k : ℕ} {D : Finset α} : D ⊆ newest k D ↔ D.card ≤ k := by
  constructor
  · intro h
    have hle := Finset.card_le_card h
    rw [card_newest] at hle
    omega
  · intro h
    refine (Finset.eq_of_subset_of_card_le (newest_subset k D) ?_).ge
    rw [card_newest]
    omega

/-- An order embedding keeps the newest elements. -/
theorem newest_map (f : α ↪o β) (k : ℕ) (D : Finset α) :
    newest k (D.map f.toEmbedding) = (newest k D).map f.toEmbedding := by
  have hcount : ∀ a, ((D.map f.toEmbedding).filter (f a < ·)).card = (D.filter (a < ·)).card := by
    intro a
    rw [Finset.filter_map, Finset.card_map]
    simp
  ext b
  simp only [mem_newest, Finset.mem_map]
  constructor
  · rintro ⟨⟨a, ha, rfl⟩, hb⟩
    exact ⟨a, ⟨ha, by rw [← hcount]; exact hb⟩, rfl⟩
  · rintro ⟨a, ⟨ha, hb⟩, rfl⟩
    exact ⟨⟨a, ha, rfl⟩, by rw [← hcount] at hb; exact hb⟩

end SampLogCore.Lib.Retention
