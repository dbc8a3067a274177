import Mathlib.Data.List.Induction
import Mathlib.Logic.Function.Basic
import Mathlib.Tactic

/-!
# Registries

Objects are registered under a key, each with the value it wants there, or not at all. Several
objects may have one key. `update` gives an object a new wish and writes it to the registry under
the key of the object, `add` brings an object without a wish, `remove` takes one away with whatever
is registered under its key.

`Matches` says that the registry is what the objects want. For each way of changing the table the
exact condition under which it still matches: nothing is erased under a key with which another
object wants to be registered.
-/

namespace SampLogCore.Lib.Registry

/-- The objects and the registry. -/
structure Table (Id Key Value : Type*) where
  /-- the keys of the objects that are there -/
  key : Id → Option Key
  wants : Id → Option Value
  entries : Key → Option Value

namespace Table

variable {Id Key Value : Type*}

/-- **The registry is what the objects want.** -/
structure Matches (s : Table Id Key Value) : Prop where
  live : ∀ k v, s.entries k = some v → ∃ i, s.key i = some k ∧ s.wants i = some v
  entry : ∀ i k, s.key i = some k → s.wants i ≠ none → s.entries k ≠ none

variable [DecidableEq Id] [DecidableEq Key] (s : Table Id Key Value)

/-- A new wish of an object. -/
def update (i : Id) (v : Option Value) : Table Id Key Value :=
  match s.key i with
  | none => s
  | some k =>
    { s with wants := Function.update s.wants i v, entries := Function.update s.entries k v }

/-- New wishes, one after the other. -/
def updates (us : List (Id × Option Value)) : Table Id Key Value :=
  us.foldl (fun s u => s.update u.1 u.2) s

/-- A new object, without a wish. -/
def add (i : Id) (k : Key) : Table Id Key Value :=
  { s with key := Function.update s.key i (some k), wants := Function.update s.wants i none }

/-- An object goes. -/
def remove (i : Id) : Table Id Key Value :=
  match s.key i with
  | none => s
  | some k =>
    { s with
      key := Function.update s.key i none
      wants := Function.update s.wants i none
      entries := Function.update s.entries k none }

/-- The last update of an object with this key. -/
def lastOf (k : Key) (us : List (Id × Option Value)) : Option (Id × Option Value) :=
  (us.filter fun u => s.key u.1 = some k).getLast?

/-- What an object wants after the updates: what the last of its own says. -/
def wantsAfter (us : List (Id × Option Value)) (i : Id) : Option Value :=
  ((us.filter fun u => u.1 = i).getLast?.map Prod.snd).getD (s.wants i)

/-- **Where the last update of a key erases, nobody with this key wants to be registered.** -/
def Keeps (us : List (Id × Option Value)) : Prop :=
  ∀ k i, s.lastOf k us = some (i, none) → ∀ j, s.key j = some k → s.wantsAfter us j = none

/-! ### One update -/

section Update

variable {s} {i : Id} {k : Key} (hi : s.key i = some k) (v : Option Value)
include hi

theorem update_eq : s.update i v = { s with
    wants := Function.update s.wants i v, entries := Function.update s.entries k v } := by
  unfold update
  rw [hi]

end Update

theorem update_eq_self {s : Table Id Key Value} {i : Id} (hi : s.key i = none)
    (v : Option Value) : s.update i v = s := by
  unfold update
  rw [hi]

@[simp] theorem update_key (i : Id) (v : Option Value) : (s.update i v).key = s.key := by
  unfold update
  split <;> rfl

/-! ### Updates -/

theorem updates_append (us vs : List (Id × Option Value)) :
    s.updates (us ++ vs) = (s.updates us).updates vs := by
  simp [updates]

theorem updates_concat (us : List (Id × Option Value)) (u : Id × Option Value) :
    s.updates (us ++ [u]) = (s.updates us).update u.1 u.2 :=
  updates_append s us [u]

@[simp] theorem updates_key (us : List (Id × Option Value)) : (s.updates us).key = s.key := by
  induction us using List.reverseRecOn with
  | nil => rfl
  | append_singleton us u ih => rw [updates_concat, update_key, ih]

omit [DecidableEq Id] in
theorem lastOf_append (k : Key) (us : List (Id × Option Value)) (u : Id × Option Value) :
    s.lastOf k (us ++ [u]) = if s.key u.1 = some k then some u else s.lastOf k us := by
  by_cases hu : s.key u.1 = some k
  · simp [lastOf, hu]
  · simp [lastOf, hu]

omit [DecidableEq Key] in
theorem wantsAfter_append (i : Id) (us : List (Id × Option Value)) (u : Id × Option Value) :
    s.wantsAfter (us ++ [u]) i = if u.1 = i then u.2 else s.wantsAfter us i := by
  by_cases hu : u.1 = i
  · simp [wantsAfter, hu]
  · simp [wantsAfter, hu]

variable {s} {k : Key} {us : List (Id × Option Value)}

omit [DecidableEq Id] in
theorem key_of_lastOf {u : Id × Option Value} (h : s.lastOf k us = some u) :
    s.key u.1 = some k := by
  have hmem := List.mem_of_getLast? h
  simpa using (List.mem_filter.mp hmem).2

/-- The registry has what the last update of the key says. -/
theorem updates_entries (us : List (Id × Option Value)) (k : Key) :
    (s.updates us).entries k = ((s.lastOf k us).map Prod.snd).getD (s.entries k) := by
  induction us using List.reverseRecOn with
  | nil => rfl
  | append_singleton us u ih =>
    rw [updates_concat, lastOf_append]
    cases hu : s.key u.1 with
    | none =>
      rw [update_eq_self (by rw [updates_key, hu]), if_neg (by simp), ih]
    | some k' =>
      rw [update_eq (by rw [updates_key, hu])]
      by_cases hk : k' = k
      · subst hk
        simp
      · have hne : some k' ≠ some k := fun h => hk (Option.some.inj h)
        rw [if_neg hne, ← ih]
        exact Function.update_of_ne (Ne.symm hk) _ _

theorem updates_wants {i : Id} (hi : s.key i = some k) (us : List (Id × Option Value)) :
    (s.updates us).wants i = s.wantsAfter us i := by
  induction us using List.reverseRecOn with
  | nil => rfl
  | append_singleton us u ih =>
    rw [updates_concat, wantsAfter_append]
    by_cases hu : u.1 = i
    · subst hu
      rw [update_eq (by rw [updates_key, hi]), if_pos rfl]
      exact Function.update_self _ _ _
    · rw [if_neg hu, ← ih]
      cases hkey : s.key u.1 with
      | none => rw [update_eq_self (by rw [updates_key, hkey])]
      | some k' =>
        rw [update_eq (by rw [updates_key, hkey])]
        exact Function.update_of_ne (Ne.symm hu) _ _

/-- The object of the last update of a key wants what it says. -/
theorem wants_of_lastOf {i : Id} {v : Option Value} (h : s.lastOf k us = some (i, v)) :
    s.wantsAfter us i = v := by
  induction us using List.reverseRecOn with
  | nil => exact absurd h (by simp [lastOf])
  | append_singleton us u ih =>
    have hi := key_of_lastOf h
    rw [lastOf_append] at h
    rw [wantsAfter_append]
    split_ifs at h with hu
    · rw [Option.some.inj h, if_pos rfl]
    · rw [if_neg, ih h]
      rintro rfl
      exact hu hi

/-- An object is left alone with its key. -/
theorem wants_of_lastOf_none {i : Id} (hi : s.key i = some k) (h : s.lastOf k us = none) :
    s.wantsAfter us i = s.wants i := by
  induction us using List.reverseRecOn with
  | nil => rfl
  | append_singleton us u ih =>
    rw [lastOf_append] at h
    rw [wantsAfter_append]
    split_ifs at h with hu
    rw [if_neg, ih h]
    rintro rfl
    exact hu hi

/-! ### When the table still matches -/

/-- **After updates.** -/
theorem matches_updates_iff (h : s.Matches) : (s.updates us).Matches ↔ s.Keeps us := by
  constructor
  · intro hm k i hlast j hj
    by_contra hwants
    have hentry := hm.entry j k (by rw [updates_key, hj]) (by rwa [updates_wants hj])
    rw [updates_entries, hlast] at hentry
    exact hentry rfl
  · intro hkeeps
    refine ⟨fun k v hv => ?_, fun j k hj hwants => ?_⟩
    · rw [updates_entries] at hv
      cases hlast : s.lastOf k us with
      | none =>
        rw [hlast] at hv
        obtain ⟨i, hi, hwants⟩ := h.live k v hv
        refine ⟨i, by rw [updates_key, hi], ?_⟩
        rw [updates_wants hi, wants_of_lastOf_none hi hlast, hwants]
      | some u =>
        rw [hlast] at hv
        have hi := key_of_lastOf hlast
        refine ⟨u.1, by rw [updates_key, hi], ?_⟩
        rw [updates_wants hi, wants_of_lastOf (v := u.2) hlast]
        exact hv
    · rw [updates_key] at hj
      rw [updates_wants hj] at hwants
      rw [updates_entries]
      cases hlast : s.lastOf k us with
      | none =>
        rw [wants_of_lastOf_none hj hlast] at hwants
        exact h.entry j k hj hwants
      | some u =>
        obtain ⟨i, v⟩ := u
        intro hv
        have hv : v = none := hv
        subst hv
        exact hwants (hkeeps k i hlast j hj)

/-- Updates that all register erase nothing. -/
theorem keeps_of_ne_none (h : ∀ u ∈ us, u.2 ≠ none) : s.Keeps us := by
  intro k i hlast
  have hmem := (List.mem_filter.mp (List.mem_of_getLast? hlast)).1
  exact absurd rfl (h _ hmem)

omit [DecidableEq Key] in
theorem wantsAfter_eq_none {i : Id} (hi : s.wants i = none) (h : ∀ u ∈ us, u.2 = none) :
    s.wantsAfter us i = none := by
  induction us using List.reverseRecOn with
  | nil => exact hi
  | append_singleton us u ih =>
    rw [wantsAfter_append, ih fun v hv => h v (by simp [hv])]
    split_ifs
    · exact h u (by simp)
    · rfl

omit [DecidableEq Key] in
/-- **After a new object.** -/
theorem matches_add (h : s.Matches) {i : Id} (hi : s.key i = none) (k : Key) :
    (s.add i k).Matches := by
  refine ⟨fun k' v hv => ?_, fun j k' hj hwants => ?_⟩
  · obtain ⟨j, hj, hwants⟩ := h.live k' v hv
    have hne : j ≠ i := by
      rintro rfl
      rw [hi] at hj
      exact absurd hj (by simp)
    exact ⟨j, (Function.update_of_ne hne _ _).trans hj,
      (Function.update_of_ne hne _ _).trans hwants⟩
  · by_cases hji : j = i
    · subst hji
      exact absurd (Function.update_self _ _ _) hwants
    · have hj : Function.update s.key i (some k) j = some k' := hj
      have hwants : Function.update s.wants i none j ≠ none := hwants
      rw [Function.update_of_ne hji] at hj hwants
      exact h.entry j k' hj hwants

section Remove

variable {i : Id} (hi : s.key i = some k)
include hi

theorem remove_eq : s.remove i = { s with
    key := Function.update s.key i none
    wants := Function.update s.wants i none
    entries := Function.update s.entries k none } := by
  unfold remove
  rw [hi]

theorem remove_entries_self : (s.remove i).entries k = none := by
  rw [remove_eq hi]
  exact Function.update_self _ _ _

theorem remove_entries_of_ne {k' : Key} (hk : k' ≠ k) :
    (s.remove i).entries k' = s.entries k' := by
  rw [remove_eq hi]
  exact Function.update_of_ne hk _ _

theorem remove_key_self : (s.remove i).key i = none := by
  rw [remove_eq hi]
  exact Function.update_self _ _ _

theorem remove_of_ne {j : Id} (hj : j ≠ i) :
    (s.remove i).key j = s.key j ∧ (s.remove i).wants j = s.wants j := by
  rw [remove_eq hi]
  exact ⟨Function.update_of_ne hj _ _, Function.update_of_ne hj _ _⟩

/-- **After an object is gone.** -/
theorem matches_remove_iff (h : s.Matches) :
    (s.remove i).Matches ↔ ∀ j ≠ i, s.key j = some k → s.wants j = none := by
  constructor
  · intro hm j hji hj
    obtain ⟨hkey, hwants⟩ := remove_of_ne hi hji
    by_contra hne
    exact hm.entry j k (hkey.trans hj) (by rwa [hwants]) (remove_entries_self hi)
  · intro hnone
    refine ⟨fun k' v hv => ?_, fun j k' hj hne => ?_⟩
    · by_cases hk : k' = k
      · subst hk
        rw [remove_entries_self hi] at hv
        exact absurd hv (by simp)
      · rw [remove_entries_of_ne hi hk] at hv
        obtain ⟨j, hj, hjv⟩ := h.live k' v hv
        have hji : j ≠ i := by
          rintro rfl
          exact hk (Option.some.inj (hj.symm.trans hi))
        obtain ⟨hkey, hwants⟩ := remove_of_ne hi hji
        exact ⟨j, hkey.trans hj, hwants.trans hjv⟩
    · by_cases hji : j = i
      · subst hji
        rw [remove_key_self hi] at hj
        exact absurd hj (by simp)
      · obtain ⟨hkey, hwants⟩ := remove_of_ne hi hji
        rw [hkey] at hj
        rw [hwants] at hne
        have hk : k' ≠ k := by
          rintro rfl
          exact hne (hnone j hji hj)
        rw [remove_entries_of_ne hi hk]
        exact h.entry j k' hj hne

end Remove

end Table

end SampLogCore.Lib.Registry
