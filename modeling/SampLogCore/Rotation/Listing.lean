import SampLogCore.Rotation.Backups

/-!
# What a rotation finds and does

With the log file in place the names of a chain of `k + 1` files are the log file and its backups
`1` to `k`. Whatever the order in which the directory lists them, `moved_nums` is `k, …, 1`
(`movedNums_eq`), and the loop over it followed by the last rename is the list of operations
`opsFrom`: one for each of the numbers `k, …, 1, 0`, a remove from `backup_count` on and a rename
below.
-/

namespace SampLogCore.Rotation.Listing

open SampLogCore.Lib.Number SampLogCore.Rotation.LogDirectory SampLogCore.Rotation.SizeRotation
  SampLogCore.Rotation.Backups

/-- The numbers `k, …, 1`. -/
def downFrom : ℕ → List ℤ
  | 0 => []
  | k + 1 => (k + 1 : ℕ) :: downFrom k

theorem mem_downFrom {x : ℤ} : ∀ {k : ℕ}, x ∈ downFrom k ↔ ∃ n, n < k ∧ x = (n + 1 : ℕ)
  | 0 => by simp [downFrom]
  | k + 1 => by
    rw [downFrom, List.mem_cons, mem_downFrom]
    constructor
    · rintro (rfl | ⟨n, hn, rfl⟩)
      · exact ⟨k, by omega, rfl⟩
      · exact ⟨n, by omega, rfl⟩
    · rintro ⟨n, hn, rfl⟩
      rcases Nat.lt_succ_iff_lt_or_eq.mp hn with hn | rfl
      · exact .inr ⟨n, hn, rfl⟩
      · exact .inl rfl

theorem pairwise_downFrom : ∀ k, (downFrom k).Pairwise (· > ·)
  | 0 => List.Pairwise.nil
  | k + 1 => by
    refine List.pairwise_cons.mpr ⟨fun x hx => ?_, pairwise_downFrom k⟩
    obtain ⟨n, hn, rfl⟩ := mem_downFrom.mp hx
    omega

theorem length_downFrom : ∀ k, (downFrom k).length = k
  | 0 => rfl
  | k + 1 => by rw [downFrom, List.length_cons, length_downFrom k]

/-! ### The loop over the directory -/

variable {td : Tinydir} {F : LogFile} {d : Directory Record} {c : Chain}

/-- The numbers are sorted, the greatest first. -/
theorem sorted_movedNums (td : Tinydir) (d : Directory Record) (file_name : Name)
    (found : List Name) : (movedNums td d file_name found).Pairwise (· ≥ ·) := by
  have htrans : ∀ x y z : ℤ, decide (x ≥ y) = true → decide (y ≥ z) = true →
      decide (x ≥ z) = true := by
    intro x y z hxy hyz
    simp only [decide_eq_true_eq] at *
    omega
  have htotal : ∀ x y : ℤ, (decide (x ≥ y) || decide (y ≥ x)) = true := by
    intro x y
    simp only [Bool.or_eq_true, decide_eq_true_eq]
    omega
  have := List.pairwise_mergeSort htrans htotal (found.filterMap (movedNum td d file_name))
  simpa [movedNums] using this

theorem extension_file_name : td.extension F.file_name = ['l', 'o', 'g'] :=
  td.extension_append F.stem ['l', 'o', 'g'] (by decide)

theorem extension_backup (n : ℕ) : td.extension (F.backup (n + 1)) = formatD (n + 1 : ℕ) :=
  td.extension_append F.file_name _ (notMem_formatD (by decide))

/-- What the loop over the directory takes. -/
theorem movedNum_eq_some_iff {file_name fn : Name} {x : ℤ} :
    movedNum td d file_name fn = some x ↔ ∃ i, d.names.lookup fn = some i ∧
      (d.inodes i).is_reg = true ∧ file_name <+: fn ∧ strtol (td.extension fn) = (x, []) := by
  unfold movedNum
  cases hi : d.names.lookup fn with
  | none => simp
  | some i =>
    rcases hnum : strtol (td.extension fn) with ⟨num, _ | _⟩
    · simp
    · simp

/-- Only the backups count. -/
theorem movedNum_eq_some (h : Represents F d c) (hgap : c.gap = c.ids.length)
    (hreg : ∀ i ∈ c.ids, (d.inodes i).is_reg = true) (hmax : c.ids.length ≤ INT_MAX + 1)
    {fn : Name} {x : ℤ} :
    movedNum td d F.file_name fn = some x ↔
      ∃ n, n + 1 < c.ids.length ∧ fn = F.backup (n + 1) ∧ x = (n + 1 : ℕ) := by
  constructor
  · intro hx
    obtain ⟨i, hlookup, -, hprefix, hnum⟩ := movedNum_eq_some_iff.mp hx
    obtain ⟨j, hj, rfl⟩ := (h fn hprefix i).mp hlookup
    have hlt := (List.getElem?_eq_some_iff.mp hj).1
    rw [c.number_of_lt (by omega)] at hnum ⊢
    cases j with
    | zero =>
      rw [LogFile.backup, extension_file_name] at hnum
      exact absurd hnum (by simp [show strtol ['l', 'o', 'g'] = (0, ['l', 'o', 'g']) by decide])
    | succ n =>
      rw [extension_backup, strtol_formatD (by omega)] at hnum
      exact ⟨n, hlt, rfl, by simpa using hnum.symm⟩
  · rintro ⟨n, hn, rfl, rfl⟩
    have hlookup : d.names.lookup (F.backup (n + 1)) = some c.ids[n + 1] :=
      h.lookup_backup.mpr
        ⟨n + 1, List.getElem?_eq_getElem hn, (c.number_of_lt (by omega)).symm⟩
    have hi := hreg _ (List.getElem_mem hn)
    refine movedNum_eq_some_iff.mpr ⟨_, hlookup, hi, F.prefix_backup _, ?_⟩
    rw [extension_backup, strtol_formatD (by omega)]

/-- **In whatever order the directory is listed, the loop finds `k, …, 1`.** -/
theorem movedNums_eq (h : Represents F d c) (hgap : c.gap = c.ids.length)
    (hreg : ∀ i ∈ c.ids, (d.inodes i).is_reg = true) {k : ℕ} (hlen : c.ids.length = k + 1)
    (hmax : (k : ℤ) ≤ INT_MAX) {found : List Name} (hfound : found.Perm d.names.keys) :
    movedNums td d F.file_name found = downFrom k := by
  have hmem : ∀ {fn x}, movedNum td d F.file_name fn = some x ↔
      ∃ n, n + 1 < c.ids.length ∧ fn = F.backup (n + 1) ∧ x = (n + 1 : ℕ) :=
    movedNum_eq_some h hgap hreg (by omega)
  have hnodup : found.Nodup := hfound.nodup_iff.mpr d.names.keys_nodup
  have hnodup' : (found.filterMap (movedNum td d F.file_name)).Nodup := by
    refine hnodup.filterMap fun fn fn' x hx hx' => ?_
    obtain ⟨n, _, rfl, rfl⟩ := hmem.mp hx
    obtain ⟨m, _, rfl, hm⟩ := hmem.mp hx'
    rw [show n = m by omega]
  have hperm : (found.filterMap (movedNum td d F.file_name)).Perm (downFrom k) := by
    rw [List.perm_ext_iff_of_nodup hnodup' ((pairwise_downFrom k).imp ne_of_gt)]
    intro x
    rw [List.mem_filterMap, mem_downFrom]
    constructor
    · rintro ⟨fn, _, hx⟩
      obtain ⟨n, hn, _, rfl⟩ := hmem.mp hx
      exact ⟨n, by omega, rfl⟩
    · rintro ⟨n, hn, rfl⟩
      refine ⟨F.backup (n + 1), ?_, hmem.mpr ⟨n, by omega, rfl, rfl⟩⟩
      rw [hfound.mem_iff, ← AList.mem_keys]
      exact mem_of_lookup (i := c.ids[n + 1]) (h.lookup_backup.mpr
        ⟨n + 1, List.getElem?_eq_getElem (by omega), (c.number_of_lt (by omega)).symm⟩)
  refine List.Perm.eq_of_pairwise (fun a b _ _ hab hba => le_antisymm hba hab)
    (sorted_movedNums td d F.file_name found)
    ((pairwise_downFrom k).imp le_of_lt) ((List.mergeSort_perm _ _).trans hperm)

/-! ### The file operations -/

/-- The operation on the file with the number `n`. -/
def opAt (F : LogFile) (backup_count : ℤ) (n : ℕ) : FileOp :=
  if backup_count ≤ n then .remove (backupPath F n)
  else .rename (backupPath F n) (backupPath F (n + 1))

/-- The operations on the files with the numbers `n, …, 0`. -/
def opsFrom (F : LogFile) (backup_count : ℤ) : ℕ → List FileOp
  | 0 => [opAt F backup_count 0]
  | n + 1 => opAt F backup_count (n + 1) :: opsFrom F backup_count n

theorem renameLoop_downFrom {backup_count : ℤ} (hmax : backup_count ≤ INT_MAX) :
    ∀ k : ℕ, renameLoop F.file_path backup_count k (downFrom k) ++ [opAt F backup_count 0] =
      opsFrom F backup_count k
  | 0 => rfl
  | k + 1 => by
    have hcount : ((k + 1 : ℕ) : ℤ) - 1 = k := by omega
    have hop : (if ((k + 1 : ℕ) : ℤ) ≥ backup_count
        then FileOp.remove (filename_count F.file_path (k + 1 : ℕ))
        else .rename (filename_count F.file_path (k + 1 : ℕ))
          (filename_count F.file_path (cint ((k + 1 : ℕ) + 1)))) = opAt F backup_count (k + 1) := by
      by_cases hn : backup_count ≤ ((k + 1 : ℕ) : ℤ)
      · rw [if_pos hn, opAt, if_pos hn, backupPath]
      · have hcint : cint (((k + 1 : ℕ) : ℤ) + 1) = ((k + 1 + 1 : ℕ) : ℤ) := by
          rw [cint_eq (INT_MIN_le (by omega)) (by omega)]
          omega
        rw [if_neg hn, hcint, opAt, if_neg hn, backupPath, backupPath]
    rw [downFrom, renameLoop, hop, hcount, List.cons_append, renameLoop_downFrom hmax k, opsFrom]

/-- **A rotation that found `k, …, 1` does one operation for each of `k, …, 0`.** -/
theorem fileOps_downFrom {backup_count : ℤ} (h1 : 1 ≤ backup_count)
    (hmax : backup_count ≤ INT_MAX) {k : ℕ} (hk : (k : ℤ) ≤ INT_MAX) :
    fileOps F.file_path backup_count (downFrom k) = opsFrom F backup_count k := by
  have hlast : lastOp F.file_path backup_count = opAt F backup_count 0 := by
    have h0 : backup_count ≠ 0 := by omega
    have h1 : ¬ backup_count ≤ ((0 : ℕ) : ℤ) := by omega
    simp only [lastOp, opAt, if_pos h0, if_neg h1]
    simp only [backupPath, zero_add, Nat.cast_one]
  rw [fileOps, length_downFrom, cint_natCast hk, hlast,
    renameLoop_downFrom hmax]

end SampLogCore.Rotation.Listing
