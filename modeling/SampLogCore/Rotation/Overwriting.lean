import Mathlib.Data.Int.ConditionallyCompleteOrder
import Mathlib.Data.Int.Interval
import Mathlib.Data.Multiset.Basic
import SampLogCore.Lib.Retention
import SampLogCore.Rotation.History
import SampLogCore.Rotation.Numbering

/-!
# What a size rotation overwrites

In a directory where the names of the log are those of the log file and of regular files `F.n`, with
an arbitrary finite set `S` of numbers from `0` to `INT_MAX`, the loop of the size rotation goes
over `S` from the greatest number down. The next number is free when the loop comes to a number,
with two exceptions: the file `F.0` is renamed to `F.1`, which is the name that the log file gets in
the end, and behind `INT_MAX` the numbers start again at `INT_MIN`. So nothing is overwritten and
the files keep their order exactly when neither of the two is renamed (`overwrites_nothing_iff`).
-/

namespace SampLogCore.Rotation.Overwriting

open SampLogCore.Lib.Number SampLogCore.Lib.Slots SampLogCore.Lib.Retention
  SampLogCore.Rotation.LogDirectory SampLogCore.Rotation.SizeRotation
  SampLogCore.Rotation.DateRotation SampLogCore.Rotation.Listing SampLogCore.Rotation.Calls
  SampLogCore.Rotation.Numbering SampLogCore.Rotation.History

/-- The names that begin with that of the log are the log file and regular files with the numbers
`S`. -/
structure Numbered (F : LogFile) (d : Directory Record) (S : Finset ℤ) : Prop where
  range : ∀ n ∈ S, 0 ≤ n ∧ n ≤ INT_MAX
  names : ∀ name, F.file_name <+: name →
    (name ∈ d.names ↔ name = F.file_name ∨ ∃ n ∈ S, name = numbered F n)
  reg : ∀ n ∈ S, ∀ i, d.names.lookup (numbered F n) = some i → (d.inodes i).is_reg = true

/-- The contents of all files. -/
def allContents (d : Directory Record) : Multiset (List Record) :=
  (d.names.keys : Multiset Name).map d.contents

/-- The names of the files passed to `std::remove`. -/
def removed (ops : List FileOp) : List Name :=
  ops.filterMap fun
    | .remove path => some (SplitFilePath path).2
    | _ => none

variable (td : Tinydir) (F : LogFile) (S : Finset ℤ) (d : Directory Record)

/-- No rename of the call has an existing file as its target, the removed files are those with the
greatest numbers, nothing but their contents goes away, and the other files keep their order, with
the former log file in front of them. -/
structure OverwritesNothing (max_size : UInt32) (backup_count : Int32) (found : List Name) :
    Prop where
  free : ∀ pre old new, pre ++ [.rename old new] <+:
      fileOps F.file_path backup_count.toInt (movedNums td d F.file_name found) →
    (pre.foldl FileOp.run d).find new = none
  oldest : ∀ name, name ∈ removed
      (fileOps F.file_path backup_count.toInt (movedNums td d F.file_name found)) ↔
    ∃ n ∈ newest (S.card + 1 - backup_count.toInt.toNat) S, name = numbered F n
  contents : allContents (CheckSizeRotation td d F.file_path max_size backup_count found) +
      (removed (fileOps F.file_path backup_count.toInt
        (movedNums td d F.file_name found)) : Multiset Name).map d.contents = allContents d
  order : ∃ number : ℤ → ℤ,
    StrictMonoOn number ↑(S \ newest (S.card + 1 - backup_count.toInt.toNat) S) ∧
    (∀ n ∈ S \ newest (S.card + 1 - backup_count.toInt.toNat) S, 1 < number n ∧
      slots F (CheckSizeRotation td d F.file_path max_size backup_count found) (number n) =
        slots F d n) ∧
    slots F (CheckSizeRotation td d F.file_path max_size backup_count found) 1 =
      d.find F.file_path

variable {td F S d} {found : List Name} {n m : ℤ} {N : ℕ}

namespace Numbered

variable (h : Numbered F d S)
include h

/-! ### The numbers -/

theorem int_range (hn : n ∈ S) : INT_MIN ≤ n ∧ n ≤ INT_MAX :=
  ⟨INT_MIN_le (h.range n hn).1, (h.range n hn).2⟩

theorem isSome_slots : (slots F d n).isSome ↔ n ∈ S := by
  rw [slots, AList.lookup_isSome, h.names _ (prefix_numbered n)]
  constructor
  · rintro (heq | ⟨k, hk, heq⟩)
    · exact absurd heq (numbered_ne_file_name n)
    · rw [numbered_injective heq]
      exact hk
  · exact fun hn => .inr ⟨n, hn, rfl⟩

theorem slots_eq_none (hn : n ∉ S) : slots F d n = none := by
  rw [← Option.not_isSome_iff_eq_none, h.isSome_slots]
  exact hn

theorem movedNum_iff {fn : Name} :
    movedNum td d F.file_name fn = some n ↔ n ∈ S ∧ fn = numbered F n := by
  constructor
  · intro hfn
    obtain ⟨i, hlookup, -, hprefix, hnum⟩ := movedNum_eq_some_iff.mp hfn
    rcases (h.names fn hprefix).mp (mem_of_lookup hlookup) with rfl | ⟨k, hk, rfl⟩
    · rw [extension_file_name] at hnum
      exact absurd hnum (by simp [show strtol ['l', 'o', 'g'] = (0, ['l', 'o', 'g']) by decide])
    · obtain ⟨h0, h1⟩ := h.int_range hk
      have hext : td.extension (numbered F k) = formatD k := extension_dated (dot_formatD k)
      rw [hext, strtol_formatD_int h0 h1] at hnum
      obtain rfl : k = n := by simpa using hnum
      exact ⟨hk, rfl⟩
  · rintro ⟨hn, rfl⟩
    obtain ⟨h0, h1⟩ := h.int_range hn
    obtain ⟨i, hi⟩ := Option.isSome_iff_exists.mp (h.isSome_slots.mpr hn)
    exact movedNum_numbered h0 h1 hi (h.reg n hn i hi)

variable (hfound : found.Perm d.names.keys)
include hfound

theorem mem_movedNums : n ∈ movedNums td d F.file_name found ↔ n ∈ S := by
  rw [movedNums, List.mem_mergeSort, List.mem_filterMap]
  constructor
  · rintro ⟨fn, -, hfn⟩
    exact (h.movedNum_iff.mp hfn).1
  · intro hn
    refine ⟨numbered F n, ?_, h.movedNum_iff.mpr ⟨hn, rfl⟩⟩
    rw [hfound.mem_iff, ← AList.mem_keys, ← AList.lookup_isSome]
    exact h.isSome_slots.mpr hn

theorem nodup_movedNums : (movedNums td d F.file_name found).Nodup := by
  have hnodup : found.Nodup := hfound.nodup_iff.mpr d.names.keys_nodup
  rw [movedNums, (List.mergeSort_perm _ _).nodup_iff]
  refine hnodup.filterMap fun fn fn' k hfn hfn' => ?_
  rw [(h.movedNum_iff.mp hfn).2, (h.movedNum_iff.mp hfn').2]

theorem descending_movedNums : (movedNums td d F.file_name found).Pairwise (· > ·) :=
  ((sorted_movedNums td d F.file_name found).and (h.nodup_movedNums hfound)).imp
    fun hab => lt_of_le_of_ne hab.1 (Ne.symm hab.2)

theorem length_movedNums : (movedNums td d F.file_name found).length = S.card :=
  length_eq_card (h.nodup_movedNums hfound) fun _ => h.mem_movedNums hfound

/-- Which numbers are kept. -/
theorem kept_iff : Kept N (cint (movedNums td d F.file_name found).length)
      (movedNums td d F.file_name found) n ↔
    cint S.card - (S.filter (n < ·)).card < N := by
  rw [Kept, h.length_movedNums hfound,
    countP_eq_card (h.nodup_movedNums hfound) (fun _ => h.mem_movedNums hfound) (n < ·)]

end Numbered

/-! ### Contents -/

variable {i : ℕ} {name : Name} {old new : Path} {count : ℤ} {ns : List ℤ}

theorem contents_of_lookup (h : d.names.lookup name = some i) :
    d.contents name = (d.inodes i).records := by
  simp only [Directory.contents, h]

theorem ne_of_mem_erase {name' : Name} (h : name' ∈ (d.names.erase name).keys) :
    name' ≠ name := (AList.mem_erase.mp (AList.mem_keys.mpr h)).1

/-- The contents of all files, one of them first. -/
theorem allContents_eq (h : name ∈ d.names) :
    allContents d =
      d.contents name ::ₘ ((d.names.erase name).keys : Multiset Name).map d.contents := by
  have hnot : name ∉ (d.names.erase name).keys := fun hmem => ne_of_mem_erase hmem rfl
  have hperm : d.names.keys.Perm (name :: (d.names.erase name).keys) := by
    rw [List.perm_ext_iff_of_nodup d.names.keys_nodup
      (List.nodup_cons.mpr ⟨hnot, AList.keys_nodup _⟩)]
    intro name'
    rw [List.mem_cons, ← AList.mem_keys, ← AList.mem_keys, AList.mem_erase]
    by_cases heq : name' = name
    · simp [heq, h]
    · simp [heq]
  rw [allContents, Multiset.coe_eq_coe.mpr hperm, ← Multiset.cons_coe, Multiset.map_cons]

/-- A removed file takes its contents with it. -/
theorem allContents_remove {path : Path} (h : (SplitFilePath path).2 ∈ d.names) :
    d.contents (SplitFilePath path).2 ::ₘ allContents (d.remove path) = allContents d := by
  rw [allContents_eq h, allContents, Directory.remove]
  congr 1
  refine Multiset.map_congr rfl fun name hname => contents_congr rfl ?_
  exact AList.lookup_erase_ne (ne_of_mem_erase (Multiset.mem_coe.mp hname))

/-- A rename to a free name loses nothing. -/
theorem allContents_rename (hnew : d.find new = none) :
    allContents (d.rename old new) = allContents d := by
  unfold Directory.rename
  cases hold : d.find old with
  | none => rfl
  | some i =>
    have hmem : (SplitFilePath old).2 ∈ d.names := mem_of_lookup hold
    have hfree : (SplitFilePath new).2 ∉ d.names.erase (SplitFilePath old).2 := fun h => by
      rw [Directory.find, AList.lookup_eq_none] at hnew
      exact hnew (AList.mem_erase.mp h).2
    have hkeys : ((d.names.erase (SplitFilePath old).2).insert (SplitFilePath new).2 i).keys =
        (SplitFilePath new).2 :: (d.names.erase (SplitFilePath old).2).keys := by
      rw [AList.insert_of_notMem hfree]
      rfl
    rw [allContents_eq hmem, allContents, hkeys, ← Multiset.cons_coe, Multiset.map_cons]
    congr 1
    · rw [contents_of_lookup (AList.lookup_insert _), contents_of_lookup hold]
    · refine Multiset.map_congr rfl fun name hname => contents_congr rfl ?_
      have hname := Multiset.mem_coe.mp hname
      have hne : name ≠ (SplitFilePath new).2 := by
        rintro rfl
        exact hfree (AList.mem_keys.mpr hname)
      rw [AList.lookup_insert_ne hne, AList.lookup_erase_ne (ne_of_mem_erase hname)]

/-! ### The loop -/

theorem removed_cons_opOf (ops : List FileOp) :
    removed (opOf F N count n :: ops) =
      if count ≥ N then numbered F n :: removed ops else removed ops := by
  unfold opOf
  split_ifs
  · simp [removed, split_filename_count]
  · simp [removed]

/-- **The removed files** are those whose numbers are not kept. -/
theorem mem_removed_renameLoop (hsorted : ns.Pairwise (· > ·)) :
    name ∈ removed (renameLoop F.file_path N count ns) ↔
      ∃ n ∈ ns, ¬ Kept N count ns n ∧ name = numbered F n := by
  induction ns generalizing count with
  | nil => simp [renameLoop, removed]
  | cons n ns ih =>
    obtain ⟨hlt, hns⟩ := List.pairwise_cons.mp hsorted
    have hhead : Kept (N : ℤ) count (n :: ns) n ↔ ¬ count ≥ N :=
      kept_head (hsorted.imp fun h => le_of_lt h)
    have htail : (∃ k ∈ ns, ¬ Kept (N : ℤ) count (n :: ns) k ∧ name = numbered F k) ↔
        name ∈ removed (renameLoop F.file_path N (count - 1) ns) := by
      rw [ih hns]
      refine exists_congr fun k => and_congr_right fun hk => ?_
      rw [kept_tail (hlt k hk)]
    rw [renameLoop_cons, removed_cons_opOf, List.exists_mem_cons_iff, htail, hhead, not_not]
    by_cases hcount : count ≥ N
    · simp [hcount]
    · simp [hcount]

/-- A visit leaves smaller numbers alone. -/
theorem slots_opOf_of_lt (h0 : 0 ≤ m) (hmn : m < n) (hmax : n ≤ INT_MAX) :
    slots F ((opOf F N count n).run d) m = slots F d m := by
  rw [slots_opOf]
  refine visit_of_ne (by omega) ?_
  have hmin : INT_MIN < 0 := by decide
  rcases next_cases (INT_MIN_le (by omega)) hmax with heq | heq <;> omega

/-- **Nothing but the removed contents goes away** in a loop that overwrites nothing. -/
theorem allContents_renameLoop (hsorted : ns.Pairwise (· > ·))
    (hrange : ∀ n ∈ ns, 0 ≤ n ∧ n ≤ INT_MAX) (hpresent : ∀ n ∈ ns, (slots F d n).isSome)
    (hfree : ∀ pre old new, pre ++ [.rename old new] <+: renameLoop F.file_path N count ns →
      (pre.foldl FileOp.run d).find new = none) :
    allContents ((renameLoop F.file_path N count ns).foldl FileOp.run d) +
      (removed (renameLoop F.file_path N count ns) : Multiset Name).map d.contents =
        allContents d := by
  induction ns generalizing d count with
  | nil => simp [renameLoop, removed]
  | cons n ns ih =>
    obtain ⟨hlt, hns⟩ := List.pairwise_cons.mp hsorted
    obtain ⟨hn, hrange⟩ := List.forall_mem_cons.mp hrange
    have hsame : ∀ k ∈ ns, slots F ((opOf F N count n).run d) k = slots F d k := fun k hk =>
      slots_opOf_of_lt (hrange k hk).1 (hlt k hk) hn.2
    have hih := @ih ((opOf F N count n).run d) (count - 1) hns hrange
      (fun k hk => by rw [hsame k hk]; exact hpresent k (List.mem_cons_of_mem n hk))
      (fun pre old new hpre => by
        refine hfree (opOf F N count n :: pre) old new ?_
        rw [renameLoop_cons]
        exact List.cons_prefix_cons.mpr ⟨rfl, hpre⟩)
    have hcontents : (removed (renameLoop F.file_path N (count - 1) ns) : Multiset Name).map
        ((opOf F N count n).run d).contents =
          (removed (renameLoop F.file_path N (count - 1) ns) : Multiset Name).map d.contents := by
      refine Multiset.map_congr rfl fun name hname => ?_
      obtain ⟨k, hk, -, rfl⟩ := (mem_removed_renameLoop hns).mp (Multiset.mem_coe.mp hname)
      exact contents_congr (opOf_inodes _ _ _) (hsame k hk)
    rw [hcontents] at hih
    rw [renameLoop_cons, List.foldl_cons, removed_cons_opOf]
    by_cases hcount : count ≥ N
    · have hop : opOf F N count n = .remove (filename_count F.file_path n) := if_pos hcount
      have hmem : (SplitFilePath (filename_count F.file_path n)).2 ∈ d.names := by
        rw [split_filename_count, ← AList.lookup_isSome]
        exact hpresent n List.mem_cons_self
      have hremove := allContents_remove hmem
      rw [if_pos hcount, ← Multiset.cons_coe, Multiset.map_cons, Multiset.add_cons, hih, hop,
        FileOp.run, ← hremove, split_filename_count]
    · have hop : opOf F N count n =
          .rename (filename_count F.file_path n) (filename_count F.file_path (next n)) :=
        if_neg hcount
      have hrename := @allContents_rename d (filename_count F.file_path n) _
        (hfree [] _ _ (by
          rw [renameLoop_cons, hop]
          exact List.cons_prefix_cons.mpr ⟨rfl, List.nil_prefix⟩))
      rw [if_neg hcount, hih, hop, FileOp.run, hrename]

/-! ### Free targets -/

section Descending

variable (h : Numbered F d S) (hsorted : ns.Pairwise (· > ·)) (hmem : ∀ n, n ∈ ns ↔ n ∈ S)
include h hsorted hmem

/-- **The next number is free** when the loop comes to a number. -/
theorem free_renameLoop {pre : List FileOp}
    (hpre : pre ++ [.rename old new] <+: renameLoop F.file_path N count ns) :
    (pre.foldl FileOp.run d).find new = none := by
  obtain ⟨ns₁, n, ns₂, rfl, rfl, hop⟩ := prefix_renameLoop hpre
  have hnew : new = filename_count F.file_path (next n) := by
    unfold opOf at hop
    split_ifs at hop
    exact (FileOp.rename.inj hop).2
  have hgt : ∀ k ∈ ns₁, k > n := fun k hk =>
    (List.pairwise_append.mp hsorted).2.2 k hk n List.mem_cons_self
  have hrange : ∀ k ∈ ns₁ ++ n :: ns₂, 0 ≤ k ∧ k ≤ INT_MAX := fun k hk =>
    h.range k ((hmem k).mp hk)
  have hn := hrange n (by simp)
  rw [hnew, find_filename_count, slots_renameLoop]
  rcases hn.2.lt_or_eq with hlt | rfl
  · have hnext : ∀ k ∈ ns₁, next k = k + 1 ∨ next k = INT_MIN := by
      intro k hk
      obtain ⟨hk0, hk1⟩ := hrange k (List.mem_append_left _ hk)
      exact next_cases (INT_MIN_le hk0) hk1
    have hmin : INT_MIN < 0 := by decide
    rw [next_eq (by omega) hlt]
    refine loop_upper hsorted (fun hsome => (hmem _).mpr (h.isSome_slots.mp hsome)) ?_ ?_
    · intro k hk
      have := hgt k hk
      rcases hnext k hk with heq | heq <;> omega
    · intro k hk
      have := hgt k hk
      rcases hnext k hk with heq | heq <;> omega
  · -- nothing comes before `INT_MAX`, and there is no file with the number `INT_MIN`
    have hnil : ns₁ = [] := List.eq_nil_iff_forall_not_mem.mpr fun k hk => by
      have := hgt k hk
      have := (hrange k (List.mem_append_left _ hk)).2
      omega
    rw [hnil, next_max]
    refine h.slots_eq_none fun hmin => ?_
    exact absurd (h.range _ hmin).1 (by decide)

/-- What the loop leaves in a positive slot. -/
theorem loop_positive (h0 : 0 < m) (h1 : m ≤ INT_MAX) :
    loop next N count ns (slots F d) m =
      if m - 1 ∈ S ∧ Kept N count ns (m - 1) then slots F d (m - 1) else none := by
  have hmin : INT_MIN + 1 < 0 := by decide
  rw [loop_next (fun n hn => h.int_range ((hmem n).mp hn)) (hsorted.imp fun hab => le_of_lt hab)
    (by omega) h1]
  simp only [hmem, h.isSome_slots]
  by_cases hkept : m - 1 ∈ S ∧ Kept N count ns (m - 1)
  · rw [if_pos ⟨hkept.1, hkept.2, hkept.1⟩, if_pos hkept]
  · rw [if_neg fun hall => hkept ⟨hall.1, hall.2.1⟩, if_neg hkept]
    split_ifs with hm
    · rfl
    · exact h.slots_eq_none hm

/-- **Nothing is overwritten** unless the file with the number `0` is kept. -/
theorem free_iff (hN : (N : ℤ) ≠ 0) (hcount : count = cint ns.length) :
    (∀ pre old new, pre ++ [.rename old new] <+: fileOps F.file_path N ns →
      (pre.foldl FileOp.run d).find new = none) ↔ ¬ (0 ∈ S ∧ Kept N count ns 0) := by
  have hslot : loop next N count ns (slots F d) 1 = _ :=
    loop_positive h hsorted hmem (by omega) (by decide)
  have hlast : ((renameLoop F.file_path N count ns).foldl FileOp.run d).find
      (filename_count F.file_path 1) = none ↔ ¬ (0 ∈ S ∧ Kept N count ns 0) := by
    rw [find_filename_count, slots_renameLoop, hslot]
    simp only [sub_self]
    split_ifs with hkept
    · simp only [hkept, not_true_eq_false, iff_false, and_self]
      rw [← Option.not_isSome_iff_eq_none, not_not, h.isSome_slots]
      exact hkept.1
    · simp only [hkept, not_false_eq_true]
  rw [← hlast, fileOps, lastOp_eq hN, ← hcount]
  constructor
  · exact fun hfree => hfree _ _ _ (List.prefix_refl _)
  · intro hfree pre old new hpre
    rcases List.prefix_concat_iff.mp hpre with heq | hpre
    · obtain ⟨rfl, hop⟩ := List.append_inj' heq rfl
      obtain ⟨-, rfl⟩ := FileOp.rename.inj (List.cons.inj hop).1
      exact hfree
    · exact free_renameLoop h hsorted hmem hpre

end Descending

/-! ### The call -/

/-- The number of a survivor after the call. -/
theorem not_kept_iff (hcard : (S.card : ℤ) ≤ INT_MAX) (hn : n ∈ S) :
    ¬ cint S.card - (S.filter (n < ·)).card < N ↔ n ∈ newest (S.card + 1 - N) S := by
  rw [mem_newest, cint_natCast hcard]
  simp only [hn, true_and]
  omega

/-- Nothing is above the greatest `int`. -/
theorem Numbered.card_above_max (h : Numbered F d S) : (S.filter (INT_MAX < ·)).card = 0 := by
  rw [Finset.card_eq_zero, Finset.filter_eq_empty_iff]
  intro n hn
  have := (h.range n hn).2
  omega

/-- The file with the number `0` is the last one. -/
theorem Numbered.card_above_zero (h : Numbered F d S) (h0 : 0 ∈ S) :
    (S.filter (0 < ·)).card + 1 = S.card := by
  have hsplit := card_split h0
  have hbelow : (S.filter (· < (0 : ℤ))).card = 0 := by
    rw [Finset.card_eq_zero, Finset.filter_eq_empty_iff]
    intro n hn
    have := (h.range n hn).1
    omega
  omega

theorem removed_fileOps (hN : (N : ℤ) ≠ 0) :
    removed (fileOps F.file_path N ns) =
      removed (renameLoop F.file_path N (cint ns.length) ns) := by
  simp [fileOps, lastOp_eq hN, removed]

section Call

variable {max_size : UInt32} {backup_count : Int32} (h : Numbered F d S)
  (h1 : 1 ≤ backup_count.toInt) (hfound : found.Perm d.names.keys)
include h h1 hfound

/-- When nothing is overwritten. -/
theorem Numbered.free_call_iff :
    (∀ pre old new, pre ++ [.rename old new] <+:
        fileOps F.file_path backup_count.toInt (movedNums td d F.file_name found) →
      (pre.foldl FileOp.run d).find new = none) ↔
    ¬ (0 ∈ S ∧ cint S.card - (S.filter (0 < ·)).card < backup_count.toInt) := by
  have hcount : backup_count.toInt = (backup_count.toInt.toNat : ℕ) := by omega
  rw [hcount, free_iff h (h.descending_movedNums hfound) (fun _ => h.mem_movedNums hfound)
    (by omega) rfl, h.kept_iff hfound]

/-- The removed files have the greatest numbers. -/
theorem Numbered.removed_call (hcard : (S.card : ℤ) ≤ INT_MAX) (name : Name) :
    name ∈ removed (fileOps F.file_path backup_count.toInt (movedNums td d F.file_name found)) ↔
      ∃ n ∈ newest (S.card + 1 - backup_count.toInt.toNat) S, name = numbered F n := by
  have hcount : backup_count.toInt = (backup_count.toInt.toNat : ℕ) := by omega
  rw [hcount, removed_fileOps (by omega), mem_removed_renameLoop (h.descending_movedNums hfound)]
  simp only [Int.toNat_natCast, h.mem_movedNums hfound, h.kept_iff hfound]
  constructor
  · rintro ⟨n, hn, hkept, rfl⟩
    exact ⟨n, (not_kept_iff hcard hn).mp hkept, rfl⟩
  · rintro ⟨n, hn, rfl⟩
    have hS := newest_subset _ _ hn
    exact ⟨n, hS, (not_kept_iff hcard hS).mpr hn, rfl⟩

variable (ht : Triggered F d (.checkSize max_size backup_count found))
include ht

/-- The numbered names after the call. -/
theorem Numbered.slots_call (h0 : 0 < m) (hmax : m ≤ INT_MAX) :
    slots F (CheckSizeRotation td d F.file_path max_size backup_count found) m =
      if m = 1 then d.find F.file_path
      else if m - 1 ∈ S ∧ cint S.card - (S.filter (m - 1 < ·)).card < backup_count.toInt
        then slots F d (m - 1) else none := by
  have hcount : backup_count.toInt = (backup_count.toInt.toNat : ℕ) := by omega
  obtain ⟨i, hlog, -⟩ := id ht
  have hloop : loop next (backup_count.toInt.toNat : ℕ)
      (cint (movedNums td d F.file_name found).length) (movedNums td d F.file_name found)
        (slots F d) m = _ :=
    loop_positive h (h.descending_movedNums hfound) (fun _ => h.mem_movedNums hfound) h0 hmax
  rw [CheckSizeRotation_of_triggered ht, if_pos (by omega), slots_fileOps (by omega) hlog, hcount,
    hloop, hlog]
  simp only [h.kept_iff hfound]

/-- Numbers that are no `int` have no files. -/
theorem Numbered.slots_call_beyond (hmax : INT_MAX < m) :
    slots F (CheckSizeRotation td d F.file_path max_size backup_count found) m = none := by
  obtain ⟨i, hlog, -⟩ := id ht
  have hint : (1 : ℤ) ≤ INT_MAX := by decide
  rw [CheckSizeRotation_of_triggered ht, if_pos (by omega), slots_fileOps (by omega) hlog,
    if_neg (by omega), loop_beyond (fun n hn => movedNums_range hfound hn) hmax]
  refine h.slots_eq_none fun hm => ?_
  have := (h.range m hm).2
  omega

/-- Where nothing is overwritten, nothing but the removed contents goes away. -/
theorem Numbered.contents_call (hzero : ¬ (0 ∈ S ∧
      cint S.card - (S.filter (0 < ·)).card < backup_count.toInt)) :
    allContents (CheckSizeRotation td d F.file_path max_size backup_count found) +
      (removed (fileOps F.file_path backup_count.toInt
        (movedNums td d F.file_name found)) : Multiset Name).map d.contents = allContents d := by
  have hcount : backup_count.toInt = (backup_count.toInt.toNat : ℕ) := by omega
  have hfree := (@Numbered.free_call_iff td F S d found backup_count h h1 hfound).mpr hzero
  have hsorted := @Numbered.descending_movedNums td F S d found h hfound
  rw [CheckSizeRotation_of_triggered ht, if_pos (by omega)]
  rw [hcount] at hfree ⊢
  have hloop := allContents_renameLoop hsorted
    (fun n hn => h.range n ((h.mem_movedNums hfound).mp hn))
    (fun n hn => h.isSome_slots.mpr ((h.mem_movedNums hfound).mp hn))
    (fun pre old new hpre => hfree pre old new (hpre.trans (List.prefix_append _ _)))
  have hlast := hfree (renameLoop F.file_path backup_count.toInt.toNat
    (cint (movedNums td d F.file_name found).length) (movedNums td d F.file_name found))
    F.file_path (filename_count F.file_path 1) (by rw [fileOps, lastOp_eq (by omega)])
  rw [removed_fileOps (by omega), ← hloop, fileOps, List.foldl_append, List.foldl_cons,
    List.foldl_nil, lastOp_eq (by omega), FileOp.run, allContents_rename hlast]

/-- The survivors get the next number. -/
theorem Numbered.slots_survivor (hcard : (S.card : ℤ) ≤ INT_MAX)
    (hmax : INT_MAX ∈ S → backup_count.toInt ≤ S.card)
    (hn : n ∈ S \ newest (S.card + 1 - backup_count.toInt.toNat) S) (hpos : 0 < n) :
    slots F (CheckSizeRotation td d F.file_path max_size backup_count found) (n + 1) =
      slots F d n := by
  have hcount : backup_count.toInt = (backup_count.toInt.toNat : ℕ) := by omega
  obtain ⟨hS, hnot⟩ := Finset.mem_sdiff.mp hn
  have hkept := not_not.mp fun hno => hnot ((not_kept_iff hcard hS).mp hno)
  have hlt : n < INT_MAX := by
    refine lt_of_le_of_ne (h.range n hS).2 ?_
    rintro rfl
    rw [h.card_above_max, cint_natCast hcard] at hkept
    have := hmax hS
    omega
  have hprev : n + 1 - 1 = n := by omega
  rw [h.slots_call h1 hfound ht (by omega) (by omega), if_neg (by omega), hprev, hcount,
    if_pos ⟨hS, hkept⟩]

/-- A number above 1 that has a file after the call comes from the number below it. -/
theorem Numbered.pred_mem (h0 : 1 < m)
    (hsome : (slots F (CheckSizeRotation td d F.file_path max_size backup_count found) m).isSome) :
    m - 1 ∈ S.erase INT_MAX := by
  rcases le_or_gt m INT_MAX with hmax | hmax
  · rw [h.slots_call h1 hfound ht (by omega) hmax, if_neg (by omega)] at hsome
    split_ifs at hsome with hkept
    · exact Finset.mem_erase.mpr ⟨by omega, hkept.1⟩
    · exact absurd hsome (by simp)
  · rw [h.slots_call_beyond h1 hfound ht hmax] at hsome
    exact absurd hsome (by simp)

end Call

/-- Without `0` there are at most `INT_MAX` numbers. -/
theorem Numbered.card_le (h : Numbered F d S) :
    (S.card : ℤ) ≤ INT_MAX + 1 ∧ (0 ∉ S → (S.card : ℤ) ≤ INT_MAX) := by
  constructor
  · have hsub : S ⊆ Finset.Icc 0 INT_MAX := fun n hn => Finset.mem_Icc.mpr (h.range n hn)
    have hle := Finset.card_le_card hsub
    rw [Int.card_Icc] at hle
    simp only [INT_MAX] at hle ⊢
    omega
  · intro h0
    have hsub : S ⊆ Finset.Icc 1 INT_MAX := fun n hn => by
      have hne : n ≠ 0 := fun hn0 => h0 (hn0 ▸ hn)
      have := h.range n hn
      exact Finset.mem_Icc.mpr (by omega)
    have hle := Finset.card_le_card hsub
    rw [Int.card_Icc] at hle
    simp only [INT_MAX] at hle ⊢
    omega

/-- When the file with the number `0` is not renamed. -/
theorem Numbered.zero_iff {backup_count : Int32} (h : Numbered F d S)
    (h1 : 1 ≤ backup_count.toInt) :
    ¬ (0 ∈ S ∧ cint S.card - (S.filter (0 < ·)).card < backup_count.toInt) ↔
      (S.card : ℤ) ≤ INT_MAX ∧ (0 ∈ S → backup_count.toInt = 1) := by
  constructor
  · intro hzero
    have hcard : (S.card : ℤ) ≤ INT_MAX := by
      obtain ⟨hle, hno⟩ := h.card_le
      by_contra hlt
      -- all numbers are there, and their count is no `int`
      have hall : (S.card : ℤ) = INT_MAX + 1 := by omega
      have hmin : cint (INT_MAX + 1) = INT_MIN := by decide
      refine hzero ⟨not_not.mp fun h0 => hlt (hno h0), ?_⟩
      rw [hall, hmin]
      simp only [INT_MIN]
      omega
    refine ⟨hcard, fun h0 => ?_⟩
    have habove := h.card_above_zero h0
    have hle := not_lt.mp fun hlt => hzero ⟨h0, hlt⟩
    rw [cint_natCast hcard] at hle
    omega
  · rintro ⟨hcard, hone⟩ ⟨h0, hlt⟩
    have habove := h.card_above_zero h0
    rw [cint_natCast hcard, hone h0] at hlt
    omega

/-- With the file `INT_MAX` not all files survive: only `card - 1` numbers above 1 have a file
afterwards. -/
theorem OverwritesNothing.le_card {max_size : UInt32} {backup_count : Int32}
    (hnothing : OverwritesNothing td F S d max_size backup_count found) (h : Numbered F d S)
    (h1 : 1 ≤ backup_count.toInt) (hfound : found.Perm d.names.keys)
    (ht : Triggered F d (.checkSize max_size backup_count found)) (hmax : INT_MAX ∈ S) :
    backup_count.toInt ≤ S.card := by
  by_contra hlt
  have hpos := Finset.card_pos.mpr ⟨_, hmax⟩
  have hnone : S.card + 1 - backup_count.toInt.toNat = 0 := by omega
  obtain ⟨number, hmono, hslots, -⟩ := hnothing.order
  have hS : S \ newest (S.card + 1 - backup_count.toInt.toNat) S = S := by
    rw [hnone, Finset.sdiff_eq_self_iff_disjoint, Finset.disjoint_left]
    intro n _ hn
    exact absurd (mem_newest.mp hn).2 (Nat.not_lt_zero _)
  rw [hS] at hmono hslots
  have hle := Finset.card_le_card_of_injOn (t := S.erase INT_MAX) (fun n => number n - 1)
    (fun n hn => h.pred_mem h1 hfound ht (hslots n hn).1 (by
      rw [(hslots n hn).2]
      exact h.isSome_slots.mpr hn))
    (fun a ha b hb hab => hmono.injOn ha hb (by simpa using hab))
  rw [Finset.card_erase_of_mem hmax] at hle
  omega

/-- **When a size rotation overwrites nothing**: neither the file with the number `0` nor the one
with the greatest `int` is renamed. -/
theorem overwrites_nothing_iff {max_size : UInt32} {backup_count : Int32} (h : Numbered F d S)
    (h1 : 1 ≤ backup_count.toInt) (hfound : found.Perm d.names.keys)
    (ht : Triggered F d (.checkSize max_size backup_count found)) :
    OverwritesNothing td F S d max_size backup_count found ↔
      (S.card : ℤ) ≤ INT_MAX ∧ (0 ∈ S → backup_count.toInt = 1) ∧
        (INT_MAX ∈ S → backup_count.toInt ≤ S.card) := by
  have hfree := @Numbered.free_call_iff td F S d found backup_count h h1 hfound
  constructor
  · intro hnothing
    obtain ⟨hcard, hone⟩ := (h.zero_iff h1).mp (hfree.mp hnothing.free)
    exact ⟨hcard, hone, hnothing.le_card h h1 hfound ht⟩
  · rintro ⟨hcard, hone, hmax⟩
    have hzero := (h.zero_iff h1).mpr ⟨hcard, hone⟩
    have hpos : ∀ n ∈ S \ newest (S.card + 1 - backup_count.toInt.toNat) S, 0 < n := by
      intro n hn
      obtain ⟨hS, hnot⟩ := Finset.mem_sdiff.mp hn
      refine lt_of_le_of_ne (h.range n hS).1 ?_
      rintro rfl
      have habove := h.card_above_zero hS
      have := hone hS
      exact hnot (mem_newest.mpr ⟨hS, by omega⟩)
    refine ⟨hfree.mpr hzero, h.removed_call h1 hfound hcard, h.contents_call h1 hfound ht hzero,
      fun n => n + 1, fun a _ b _ hab => by simpa using hab, fun n hn => ?_, ?_⟩
    · have := hpos n hn
      exact ⟨show 1 < n + 1 by omega, h.slots_survivor h1 hfound ht hcard hmax hn (hpos n hn)⟩
    · rw [h.slots_call h1 hfound ht (by omega) (by decide), if_pos rfl]

/-- The log file and the file with one number. -/
def pair (n : ℤ) : Directory Record :=
  (start.dir.create (numbered logA n)).create logA.file_name

theorem numbered_pair (h0 : 0 ≤ n) (h1 : n ≤ INT_MAX) : Numbered logA (pair n) {n} where
  range k hk := by
    rw [Finset.mem_singleton.mp hk]
    exact ⟨h0, h1⟩
  names name _ := by
    simp only [pair, start, Directory.create, AList.mem_insert, AList.notMem_empty, or_false,
      Finset.mem_singleton, exists_eq_left]
  reg k _ i _ := by
    simp only [pair, start, Directory.create, Function.update_apply]
    split_ifs <;> rfl

theorem triggered_pair (n : ℤ) (found : List Name) :
    Triggered logA (pair n) (.checkSize 0 2 found) :=
  ⟨1, by rw [find_file_path]; exact AList.lookup_insert _, Nat.zero_le _⟩

/-- With the file `1` nothing is overwritten. -/
theorem overwrites_nothing_pair :
    OverwritesNothing Tinydir.strrchr logA {1} (pair 1) 0 2 (pair 1).names.keys :=
  (overwrites_nothing_iff (numbered_pair (by decide) (by decide)) (by decide) (List.Perm.refl _)
    (triggered_pair 1 _)).mpr (by decide)

/-- With the file `0` the log file overwrites it. -/
theorem not_overwrites_nothing_zero :
    ¬ OverwritesNothing Tinydir.strrchr logA {0} (pair 0) 0 2 (pair 0).names.keys := by
  intro h
  have hfree := (@Numbered.free_call_iff Tinydir.strrchr logA {0} (pair 0) (pair 0).names.keys 2
    (numbered_pair (by decide) (by decide)) (by decide) (List.Perm.refl _)).mp h.free
  exact hfree (by decide)

end SampLogCore.Rotation.Overwriting
