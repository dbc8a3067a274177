import Mathlib.Order.Interval.Finset.Nat
import SampLogCore.Rotation.Calls

/-!
# The backups along a run by size

What every event of a run does with the chain of backups, as long as other programs leave the names
of the log alone: a rotation with `backup_count ≥ 1` keeps the newest `backup_count` files of the
chain, the log file among them, and everything else keeps them all.
-/

namespace SampLogCore.Rotation.ChainRuns

open SampLogCore.Lib.Number SampLogCore.Rotation.LogDirectory SampLogCore.Rotation.Backups
  SampLogCore.Rotation.Listing SampLogCore.Rotation.DateRotation SampLogCore.Rotation.Calls
open SampLogCore.Rotation.SizeRotation hiding Event step system

/-- Between two calls the gap is at one of the ends. -/
def Settled (c : Chain) : Prop :=
  (c.gap = 0 ∧ c.ids.length ≤ INT_MAX) ∨
    (0 < c.gap ∧ c.gap = c.ids.length ∧ c.ids.length ≤ INT_MAX + 1)

variable {td : Tinydir} {F : LogFile} {d : Directory Record} {c : Chain}

/-- **A rotation keeps the newest files of the chain.** -/
theorem Chained.opsFrom {N : ℕ} (h1 : 1 ≤ N) : ∀ {n : ℕ} {d : Directory Record} {c : Chain},
    Chained F d c → c.gap = n + 1 →
    (if N ≤ n then c.ids.length = n + 1 else c.ids.length ≤ N) →
    ∃ c', Chained F ((Listing.opsFrom F N n).foldl FileOp.run d) c' ∧ c'.gap = 0 ∧
      c'.ids = c.ids.take N
  | 0, d, c, h, hgap, hlen => by
    have hN : ¬ N ≤ 0 := by omega
    rw [if_neg hN] at hlen
    refine ⟨c.bump, ?_, by simp [Chain.bump, hgap], (List.take_of_length_le hlen).symm⟩
    have hop : ¬ ((N : ℕ) : ℤ) ≤ ((0 : ℕ) : ℤ) := by omega
    simp only [Listing.opsFrom, opAt, if_neg hop, List.foldl_cons, List.foldl_nil, FileOp.run]
    exact h.rename hgap
  | n + 1, d, c, h, hgap, hlen => by
    by_cases hN : N ≤ n + 1
    · rw [if_pos hN] at hlen
      have hop : ((N : ℕ) : ℤ) ≤ ((n + 1 : ℕ) : ℤ) := by omega
      have hdrop : c.dropOldest.ids.length = n + 1 := by
        simp [Chain.dropOldest, hlen]
      obtain ⟨c', hc', hgap', hids⟩ := Chained.opsFrom h1 (n := n) (h.remove hgap hlen)
        (by simp [Chain.dropOldest, hgap]) (by rw [hdrop]; split_ifs <;> omega)
      refine ⟨c', ?_, hgap', ?_⟩
      · simpa only [Listing.opsFrom, opAt, if_pos hop, List.foldl_cons, FileOp.run] using hc'
      · rw [hids, show c.dropOldest.ids = c.ids.dropLast from rfl, List.dropLast_eq_take,
          List.take_take, hlen]
        congr 1
        omega
    · rw [if_neg hN] at hlen
      have hop : ¬ ((N : ℕ) : ℤ) ≤ ((n + 1 : ℕ) : ℤ) := by omega
      obtain ⟨c', hc', hgap', hids⟩ := Chained.opsFrom h1 (n := n) (h.rename hgap)
        (by simp [Chain.bump, hgap]) (by rw [if_neg (by omega)]; exact hlen)
      refine ⟨c', ?_, hgap', hids⟩
      simpa only [Listing.opsFrom, opAt, if_neg hop, List.foldl_cons, FileOp.run] using hc'

/-! ### One step -/

/-- The backups are the files of the chain without the log file. -/
theorem Chained.card_backups (h : Chained F d c) (hs : Settled c) :
    (backups F d).card = if c.gap = 0 then c.ids.length else c.ids.length - 1 := by
  have hcard : ∀ k, (∀ n, 1 ≤ n → ((∃ j, j < c.ids.length ∧ n = c.number j) ↔ n ≤ k)) →
      (backups F d).card = k := by
    intro k hk
    have hset : backups F d = (Finset.Icc 1 k).image F.backup := by
      ext name
      rw [mem_backups, Finset.mem_image]
      constructor
      · rintro ⟨hmem, hname, hne⟩
        obtain ⟨n, hn, hle, rfl⟩ := (h.mem_names_iff hk hname hne).mp hmem
        exact ⟨n, Finset.mem_Icc.mpr ⟨hn, hle⟩, rfl⟩
      · rintro ⟨n, hn, rfl⟩
        obtain ⟨hn, hle⟩ := Finset.mem_Icc.mp hn
        have hne : F.backup n ≠ F.file_name := by
          intro heq
          have h0 : n = 0 := F.backup_injective heq
          omega
        exact ⟨(h.mem_names_iff hk (F.prefix_backup n) hne).mpr ⟨n, hn, hle, rfl⟩,
          F.prefix_backup n, hne⟩
    rw [hset, Finset.card_image_of_injective _ fun _ _ => F.backup_injective, Nat.card_Icc,
      Nat.add_sub_cancel]
  rcases hs with ⟨hgap, -⟩ | ⟨hpos, hgap, -⟩
  · rw [if_pos hgap]
    refine hcard _ fun n hn => ?_
    rw [c.exists_number_of_front hgap]
    exact and_iff_right hn
  · rw [if_neg (by omega)]
    refine hcard _ fun n hn => ?_
    rw [c.exists_number_of_end hgap]
    omega

/-- No event of the run is a rotation by date. -/
def BySize : Event → Prop
  | .checkDate _ _ _ _ => False
  | _ => True

/-- What a step does with the chain. -/
inductive ChainStep (F : LogFile) (d : Directory Record) (c : Chain) (e : Event) : Chain → Prop
  /-- no rotation -/
  | same {c' : Chain} (h : ¬ Triggered F d e) (hids : c.ids ⊆ c'.ids) : ChainStep F d c e c'
  /-- the log file is cleared -/
  | cleared (h : Triggered F d e) (h0 : e.count = some 0) : ChainStep F d c e c
  /-- the log file becomes a backup -/
  | moved {n : ℤ} {c' : Chain} (h : Triggered F d e) (hn : e.count = some n) (h1 : 1 ≤ n)
      (hlog : 0 < c.gap) (hgap : c'.gap = 0) (hids : c'.ids = c.ids.take n.toNat) :
      ChainStep F d c e c'

section Check

variable {max_size : UInt32} {backup_count : Int32} {found : List Name}
  (h : Chained F d c) (hs : Settled c)

include h hs

/-- **A rotation by size** keeps the newest files. -/
theorem Chained.checkSize (hfound : found.Perm d.names.keys)
    (ht : Triggered F d (.checkSize max_size backup_count found))
    (hcount : 0 ≤ backup_count.toInt) :
    ∃ c', Chained F (CheckSizeRotation td d F.file_path max_size backup_count found) c' ∧
      Settled c' ∧ ChainStep F d c (.checkSize max_size backup_count found) c' := by
  have hpos : 0 < c.gap := by
    by_contra hgap
    obtain ⟨i, hi, -⟩ := ht
    rw [h.find_log_none (by omega)] at hi
    exact absurd hi (by simp)
  rw [CheckSizeRotation_of_triggered ht]
  by_cases h0 : backup_count.toInt = 0
  · refine ⟨c, ?_, hs, .cleared ht (congrArg some h0)⟩
    simpa [h0, fileOps, renameLoop, lastOp, FileOp.run] using h.truncate hpos
  obtain ⟨hgap, hmax⟩ : c.gap = c.ids.length ∧ (c.ids.length : ℤ) ≤ INT_MAX + 1 := by
    rcases hs with ⟨hzero, -⟩ | ⟨-, hgap, hmax⟩
    · omega
    · exact ⟨hgap, hmax⟩
  obtain ⟨k, hk⟩ : ∃ k, c.ids.length = k + 1 := ⟨c.ids.length - 1, by omega⟩
  have hN : backup_count.toInt = (backup_count.toInt.toNat : ℕ) := by omega
  have hle : backup_count.toInt ≤ INT_MAX := by
    have := Int32.toInt_lt backup_count
    simp only [INT_MAX]
    omega
  rw [if_pos (by omega), movedNums_eq h.names hgap h.reg hk (by omega) hfound,
    fileOps_downFrom (by omega) hle (by omega), hN]
  obtain ⟨c', hc', hgap', hids⟩ := Chained.opsFrom (N := backup_count.toInt.toNat) (by omega) h
    (n := k) (by omega) (by split_ifs <;> omega)
  refine ⟨c', hc', .inl ⟨hgap', ?_⟩, .moved ht rfl (by omega) hpos hgap' hids⟩
  rw [hids, List.length_take]
  omega

end Check

/-- **Every step of a run by size** is one of these. -/
theorem Chained.step (h : Chained F d c) (hs : Settled c) {e : Event} {d' : Directory Record}
    (hstep : step td F d e = some d') (hund : Undisturbed F e) (hsize : BySize e)
    (hcount : ∀ n, e.count = some n → 0 ≤ n) :
    ∃ c', Chained F d' c' ∧ Settled c' ∧ ChainStep F d c e c' := by
  have hno : ∀ {c'}, c.ids ⊆ c'.ids → ¬ Triggered F d e → ChainStep F d c e c' :=
    fun hids ht => .same ht hids
  cases e with
  | log r =>
    simp only [Calls.step, Option.some.injEq, Directory.openAppend] at hstep
    rcases hs with ⟨hgap, hmax⟩ | ⟨hpos, hgap, hmax⟩
    · have hi : d.next ∉ c.ids := fun hmem => absurd (h.lt_next hmem) (lt_irrefl _)
      rw [h.find_log_none hgap] at hstep
      simp only [F.split_file_path] at hstep
      refine ⟨c.push d.next hi, hstep ▸ (h.create_log hgap hi).append _ r, .inr ?_,
        hno (List.subset_cons_self _ _) fun ht => ht⟩
      simp only [Chain.push, List.length_cons]
      exact ⟨by omega, trivial, by omega⟩
    · have hlt : 0 < c.ids.length := by omega
      rw [h.find_log hpos, List.head?_eq_getElem?, List.getElem?_eq_getElem hlt] at hstep
      exact ⟨c, hstep ▸ h.append _ r, .inr ⟨hpos, hgap, hmax⟩,
        hno (List.Subset.refl _) fun ht => ht⟩
  | checkSize max_size backup_count found =>
    obtain ⟨hfound, rfl⟩ := step_checkSize hstep
    by_cases ht : Triggered F d (.checkSize max_size backup_count found)
    · exact Chained.checkSize h hs hfound ht (hcount _ rfl)
    · rw [CheckSizeRotation_of_not_triggered ht]
      exact ⟨c, h, hs, hno (List.Subset.refl _) ht⟩
  | checkDate => exact absurd hsize id
  | create name =>
    obtain ⟨-, rfl⟩ := step_create hstep
    exact ⟨c, h.create_other hund, hs, hno (List.Subset.refl _) fun ht => ht⟩
  | delete name =>
    simp only [Calls.step, Option.some.injEq] at hstep
    exact ⟨c, hstep ▸ h.delete_other hund, hs, hno (List.Subset.refl _) fun ht => ht⟩

end SampLogCore.Rotation.ChainRuns
