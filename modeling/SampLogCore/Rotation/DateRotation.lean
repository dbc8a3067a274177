import SampLogCore.Config.Settings
import SampLogCore.Lib.Retention
import SampLogCore.Rotation.LocalTime
import SampLogCore.Rotation.SizeRotation

/-!
# Date rotation

`LogRotationManager::CheckDateRotation` reads the local time. When the time type calls for a
rotation and the backup named after this minute is not there yet, it lists the directory, sorts the
extensions of the names it finds, deletes backups from the front of the list, and renames the log
file. In contrast to the size rotation it does not look whether there is a log file.

The abstract state is the set `D` of the dates of the backups (`Dated`). A call that fires keeps the
newest `backup_count - 1` of them, and adds the present minute if there is a log file
(`Dated.check`).
-/

namespace SampLogCore.Rotation.DateRotation

open SampLogCore.Lib.Fields SampLogCore.Lib.Number SampLogCore.Lib.Retention
  SampLogCore.Config.Settings
  SampLogCore.Rotation.LogDirectory SampLogCore.Rotation.LocalTime
  SampLogCore.Rotation.SizeRotation

/-- The lambda `day_check_func`: every night at 00:00. -/
def day_check_func (tm : Tm) : Prop := tm.tm_hour = 0 ∧ tm.tm_min = 0

/-- The switch over the time type. -/
def due (time_type : LogRotationTimeType) (tm : Tm) : Prop :=
  match time_type with
  | .DAILY => day_check_func tm
  | .WEEKLY => tm.tm_wday = 1 ∧ day_check_func tm
  | .MONTHLY => tm.tm_mday = 1 ∧ day_check_func tm

instance (tm : Tm) : Decidable (day_check_func tm) := by
  unfold day_check_func; infer_instance

instance (time_type : LogRotationTimeType) (tm : Tm) : Decidable (due time_type tm) := by
  unfold due; cases time_type <;> infer_instance

/-- `"{:s}.{:s}"`. -/
def dated (file_path : Path) (date : List Char) : Path := file_path ++ '.' :: date

/-- `new_filename`. -/
def new_filename (file_path : Path) (tm : Tm) : Path := dated file_path tm.format

variable (td : Tinydir)

/-- One round of the loop over the directory: the extension it pushes to `logfile_dates`, if any. -/
def dateOf (d : Directory Record) (file_name fn : Name) : Option (List Char) :=
  match d.names.lookup fn with
  | none => none
  | some i =>
    if (d.inodes i).is_reg = false then none
    else if ¬ file_name <+: fn then none
    else if fn = file_name then none
    else some (td.extension fn)

/-- `logfile_dates`, sorted. -/
def logfile_dates (d : Directory Record) (file_name : Name) (found : List Name) :
    List (List Char) :=
  (found.filterMap (dateOf td d file_name)).mergeSort (· ≤ ·)

/-- The loop over `logfile_dates`, from `count` on. -/
def deleteLoop (file_path : Path) (backup_count : ℤ) : ℤ → List (List Char) → List FileOp
  | _, [] => []
  | count, date :: dates =>
    if count < backup_count then []
    else .remove (dated file_path date) :: deleteLoop file_path backup_count (count - 1) dates

/-- All file operations of a rotation that found these dates. A process of 32 bits has no vector of
`2 ^ 31` strings, so the size of `logfile_dates` is an `int`. -/
def dateOps (file_path : Path) (backup_count : ℤ) (tm : Tm) (dates : List (List Char)) :
    List FileOp :=
  deleteLoop file_path backup_count dates.length dates ++
    [if backup_count ≠ 0 then .rename file_path (new_filename file_path tm)
      else .truncate file_path]

/-- `CheckDateRotation` at the local time `tm`, with the names in the order `found`. -/
def CheckDateRotation (d : Directory Record) (file_path : Path) (time_type : LogRotationTimeType)
    (backup_count : Int32) (tm : Tm) (found : List Name) : Directory Record :=
  if ¬ due time_type tm then d
  else if (d.find (new_filename file_path tm)).isSome then d
  else
    let dates := if backup_count.toInt > 0
      then logfile_dates td d (SplitFilePath file_path).2 found else []
    (dateOps file_path backup_count.toInt tm dates).foldl FileOp.run d

/-- The call goes beyond its checks. -/
def Fires (d : Directory Record) (file_path : Path) (time_type : LogRotationTimeType) (tm : Tm) :
    Prop :=
  due time_type tm ∧ d.find (new_filename file_path tm) = none

instance (d : Directory Record) (file_path : Path) (time_type : LogRotationTimeType) (tm : Tm) :
    Decidable (Fires d file_path time_type tm) := by
  unfold Fires; infer_instance

variable {td} {F : LogFile} {d : Directory Record} {time_type : LogRotationTimeType}
  {backup_count : Int32} {tm : Tm} {found : List Name}

theorem CheckDateRotation_of_not_fires (h : ¬ Fires d F.file_path time_type tm) :
    CheckDateRotation td d F.file_path time_type backup_count tm found = d := by
  unfold CheckDateRotation
  by_cases hdue : due time_type tm
  · have hsome : (d.find (new_filename F.file_path tm)).isSome := by
      rw [Option.isSome_iff_ne_none]
      exact fun hnone => h ⟨hdue, hnone⟩
    rw [if_neg (not_not.mpr hdue), if_pos hsome]
  · rw [if_pos hdue]

/-- With no backup to keep a call that fires clears the log file. -/
theorem CheckDateRotation_of_zero (h : Fires d F.file_path time_type tm)
    (h0 : backup_count.toInt = 0) :
    CheckDateRotation td d F.file_path time_type backup_count tm found =
      d.truncate F.file_path := by
  obtain ⟨hdue, hnew⟩ := h
  have hsome : ¬ (d.find (new_filename F.file_path tm)).isSome = true := by simp [hnew]
  rw [CheckDateRotation, if_neg (not_not.mpr hdue), if_neg hsome]
  simp [h0, dateOps, deleteLoop, FileOp.run]

/-! ### The names of backups -/

theorem split_dated {date : List Char} (h : '/' ∉ date) :
    SplitFilePath (dated F.file_path date) = (F.file_dir, F.dated date) := by
  have hpath : dated F.file_path date = F.file_dir ++ '/' :: F.dated date := by
    simp [dated, LogFile.file_path, LogFile.dated]
  have hname : '/' ∉ F.dated date := by
    simp only [LogFile.dated, List.mem_append, List.mem_cons, not_or]
    exact ⟨F.slash_file_name, by decide, h⟩
  rw [hpath, SplitFilePath_append hname]

theorem dated_injective {date date' : List Char} (h : F.dated date = F.dated date') :
    date = date' :=
  (List.cons.inj (List.append_cancel_left h)).2

theorem prefix_dated (date : List Char) : F.file_name <+: F.dated date := List.prefix_append _ _

theorem dated_ne_file_name (date : List Char) : F.dated date ≠ F.file_name := by
  intro h
  have := congrArg List.length h
  simp [LogFile.dated] at this

theorem dot_format (tm : Tm) : '.' ∉ tm.format := notMem_format (by decide) (by decide)

theorem slash_format (tm : Tm) : '/' ∉ tm.format := notMem_format (by decide) (by decide)

theorem extension_dated {date : List Char} (h : '.' ∉ date) : td.extension (F.dated date) = date :=
  td.extension_append F.file_name date h

/-- The extension of a name that begins with that of the log has no dot. -/
theorem dot_extension {fn : Name} (h : F.file_name <+: fn) : '.' ∉ td.extension fn := by
  have hdot : '.' ∈ fn := h.subset (by simp [LogFile.file_name])
  obtain ⟨stem, ext, rfl, hext⟩ := eq_append_last hdot
  rw [td.extension_append _ _ hext]
  exact hext

/-- The extension of a name has only characters of the name. -/
theorem extension_notMem {fn : Name} (h : F.file_name <+: fn) {c : Char} (hc : c ∉ fn) :
    c ∉ td.extension fn := by
  have hdot : '.' ∈ fn := h.subset (by simp [LogFile.file_name])
  obtain ⟨stem, ext, rfl, hext⟩ := eq_append_last hdot
  rw [td.extension_append _ _ hext]
  exact fun hmem => hc (List.mem_append_right _ (List.mem_cons_of_mem _ hmem))

/-- Removing `F.date` removes the backup with this date and no other one. -/
theorem split_dated_eq_iff {date date' : List Char} (hdot : '.' ∉ date) (hslash' : '/' ∉ date') :
    (SplitFilePath (dated F.file_path date)).2 = F.dated date' ↔ date = date' := by
  constructor
  · intro h
    by_cases hslash : '/' ∈ date
    · exfalso
      obtain ⟨ys, zs, rfl, hzs⟩ := eq_append_last hslash
      have hpath : dated F.file_path (ys ++ '/' :: zs) = dated F.file_path ys ++ '/' :: zs := by
        simp [dated]
      rw [hpath, SplitFilePath_append hzs] at h
      refine hdot (List.mem_append_right _ (List.mem_cons_of_mem _ ?_))
      rw [show zs = F.dated date' from h]
      simp [LogFile.dated]
    · rw [split_dated hslash] at h
      exact dated_injective h
  · rintro rfl
    rw [split_dated hslash']

/-! ### The file operations -/

/-- The loop deletes from the front, until fewer than `backup_count` dates are left. -/
theorem deleteLoop_eq {file_path : Path} {N : ℕ} (h1 : 1 ≤ N) : ∀ dates : List (List Char),
    deleteLoop file_path N dates.length dates =
      (dates.take (dates.length - (N - 1))).map fun date => .remove (dated file_path date)
  | [] => by simp [deleteLoop]
  | date :: dates => by
    have hcount : (((date :: dates).length : ℕ) : ℤ) - 1 = dates.length := by simp
    rw [deleteLoop, hcount, deleteLoop_eq h1 dates, List.length_cons]
    by_cases hlt : ((dates.length + 1 : ℕ) : ℤ) < N
    · have hzero : dates.length + 1 - (N - 1) = 0 := by omega
      rw [if_pos hlt, hzero, List.take_zero, List.map_nil]
    · have hsucc : dates.length + 1 - (N - 1) = dates.length - (N - 1) + 1 := by omega
      rw [if_neg hlt, hsucc, List.take_succ_cons, List.map_cons]

theorem dateOps_eq (h1 : 1 ≤ backup_count.toInt) (dates : List (List Char)) :
    dateOps F.file_path backup_count.toInt tm dates =
      (dates.take (dates.length - (backup_count.toInt.toNat - 1))).map
        (fun date => .remove (dated F.file_path date)) ++
          [.rename F.file_path (new_filename F.file_path tm)] := by
  have hcount : backup_count.toInt = (backup_count.toInt.toNat : ℕ) := by omega
  have hne : backup_count.toInt ≠ 0 := by omega
  rw [dateOps, if_pos hne, hcount, deleteLoop_eq (by omega), Int.toNat_natCast]

/-- The directory without the backups of these dates. -/
def deletes (file_path : Path) (d : Directory Record) (dates : List (List Char)) :
    Directory Record :=
  dates.foldl (fun d date => d.remove (dated file_path date)) d

theorem deletes_inodes (dates : List (List Char)) :
    (deletes F.file_path d dates).inodes = d.inodes ∧
      (deletes F.file_path d dates).next = d.next := by
  induction dates generalizing d with
  | nil => exact ⟨rfl, rfl⟩
  | cons date dates ih => exact ih

theorem deletes_lookup {dates : List (List Char)} {name : Name} {i : ℕ} :
    (deletes F.file_path d dates).names.lookup name = some i ↔
      (∀ date ∈ dates, (SplitFilePath (dated F.file_path date)).2 ≠ name) ∧
        d.names.lookup name = some i := by
  induction dates generalizing d with
  | nil => simp [deletes]
  | cons date dates ih =>
    rw [deletes, List.foldl_cons, ← deletes, ih, List.forall_mem_cons]
    by_cases hname : (SplitFilePath (dated F.file_path date)).2 = name
    · subst hname
      simp [Directory.remove]
    · rw [Directory.remove, AList.lookup_erase_ne (Ne.symm hname)]
      constructor
      · rintro ⟨hdates, hlookup⟩
        exact ⟨⟨hname, hdates⟩, hlookup⟩
      · rintro ⟨⟨-, hdates⟩, hlookup⟩
        exact ⟨hdates, hlookup⟩

/-- Among the names with a date those of the given dates are deleted. -/
theorem deletes_lookup_dated {dates : List (List Char)} (hdot : ∀ date ∈ dates, '.' ∉ date)
    {date : List Char} (hslash : '/' ∉ date) {i : ℕ} :
    (deletes F.file_path d dates).names.lookup (F.dated date) = some i ↔
      date ∉ dates ∧ d.names.lookup (F.dated date) = some i := by
  rw [deletes_lookup]
  refine and_congr_left' ⟨fun hne hmem => ?_, fun hnot date' hmem heq => hnot ?_⟩
  · exact hne date hmem ((split_dated_eq_iff (hdot date hmem) hslash).mpr rfl)
  · rwa [← (split_dated_eq_iff (hdot date' hmem) hslash).mp heq]

/-- **A call that fires** deletes from the front of the sorted dates all but `backup_count - 1`, and
then renames the log file. -/
theorem CheckDateRotation_of_fires (h : Fires d F.file_path time_type tm)
    (h1 : 1 ≤ backup_count.toInt) :
    CheckDateRotation td d F.file_path time_type backup_count tm found =
      (deletes F.file_path d ((logfile_dates td d F.file_name found).take
        ((logfile_dates td d F.file_name found).length - (backup_count.toInt.toNat - 1)))).rename
          F.file_path (new_filename F.file_path tm) := by
  obtain ⟨hdue, hnew⟩ := h
  have hpos : backup_count.toInt > 0 := by omega
  have hsome : ¬ (d.find (new_filename F.file_path tm)).isSome = true := by simp [hnew]
  rw [CheckDateRotation, if_neg (not_not.mpr hdue), if_neg hsome]
  simp only [if_pos hpos, F.split_file_path, dateOps_eq h1, List.foldl_append, List.foldl_map]
  rfl

/-! ### The dates of the backups -/

/-- What the loop over the directory takes. -/
theorem dateOf_eq_some_iff {file_name fn : Name} {date : List Char} :
    dateOf td d file_name fn = some date ↔ ∃ i, d.names.lookup fn = some i ∧
      (d.inodes i).is_reg = true ∧ file_name <+: fn ∧ fn ≠ file_name ∧ td.extension fn = date := by
  unfold dateOf
  cases hi : d.names.lookup fn with
  | none => simp
  | some i => simp

/-- The sorted dates are those of the directory. -/
theorem perm_logfile_dates (hfound : found.Perm d.names.keys) :
    (logfile_dates td d F.file_name found).Perm
      (d.names.keys.filterMap (dateOf td d F.file_name)) :=
  (List.mergeSort_perm _ _).trans (hfound.filterMap _)

/-- A regular file with a date is found. -/
theorem mem_logfile_dates_of_dated (hfound : found.Perm d.names.keys) {date : List Char}
    (hdot : '.' ∉ date) {i : ℕ} (hi : d.names.lookup (F.dated date) = some i)
    (hreg : (d.inodes i).is_reg = true) : date ∈ logfile_dates td d F.file_name found := by
  rw [(perm_logfile_dates hfound).mem_iff, List.mem_filterMap]
  exact ⟨F.dated date, AList.mem_keys.mp (mem_of_lookup hi), dateOf_eq_some_iff.mpr
    ⟨i, hi, hreg, prefix_dated date, dated_ne_file_name date, extension_dated hdot⟩⟩

/-- What is found is the extension of a name. -/
theorem exists_extension_of_mem {date : List Char}
    (h : date ∈ logfile_dates td d F.file_name found) :
    ∃ fn ∈ d.names, F.file_name <+: fn ∧ date = td.extension fn := by
  rw [logfile_dates, List.mem_mergeSort, List.mem_filterMap] at h
  obtain ⟨fn, -, hfn⟩ := h
  obtain ⟨i, hlookup, -, hprefix, -, rfl⟩ := dateOf_eq_some_iff.mp hfn
  exact ⟨fn, mem_of_lookup hlookup, hprefix, rfl⟩

theorem dot_of_mem_logfile_dates {date : List Char}
    (h : date ∈ logfile_dates td d F.file_name found) : '.' ∉ date := by
  obtain ⟨fn, -, hprefix, rfl⟩ := exists_extension_of_mem h
  exact dot_extension hprefix

/-- The names of the log are those of the log file and of its backups with the dates `D`, and the
backups are regular files. -/
structure Dated (F : LogFile) (d : Directory Record) (D : Finset (List Char)) : Prop where
  names : ∀ name, F.file_name <+: name → name ≠ F.file_name →
    (name ∈ d.names ↔ ∃ date ∈ D, name = F.dated date)
  dot : ∀ date ∈ D, '.' ∉ date
  slash : ∀ date ∈ D, '/' ∉ date
  reg : ∀ date ∈ D, ∀ i, d.names.lookup (F.dated date) = some i → (d.inodes i).is_reg = true

variable {D : Finset (List Char)}

theorem Dated.mem_names (h : Dated F d D) {date : List Char} :
    F.dated date ∈ d.names ↔ date ∈ D := by
  rw [h.names _ (prefix_dated date) (dated_ne_file_name date)]
  constructor
  · rintro ⟨date', hmem, heq⟩
    rw [dated_injective heq]
    exact hmem
  · intro hmem
    exact ⟨date, hmem, rfl⟩

theorem Dated.dateOf_eq_some (h : Dated F d D) {fn : Name} {date : List Char} :
    dateOf td d F.file_name fn = some date ↔ date ∈ D ∧ fn = F.dated date := by
  constructor
  · intro hdate
    obtain ⟨i, hlookup, -, hprefix, hne, rfl⟩ := dateOf_eq_some_iff.mp hdate
    obtain ⟨date', hD, rfl⟩ := (h.names fn hprefix hne).mp (mem_of_lookup hlookup)
    rw [extension_dated (h.dot date' hD)]
    exact ⟨hD, rfl⟩
  · rintro ⟨hD, rfl⟩
    obtain ⟨i, hi⟩ := mem_iff_lookup.mp (h.mem_names.mpr hD)
    exact dateOf_eq_some_iff.mpr ⟨i, hi, h.reg date hD i hi, prefix_dated date,
      dated_ne_file_name date, extension_dated (h.dot date hD)⟩

/-- **In whatever order the directory is listed, the loop finds the dates of the backups.** -/
theorem Dated.mem_logfile_dates (h : Dated F d D) (hfound : found.Perm d.names.keys)
    {date : List Char} : date ∈ logfile_dates td d F.file_name found ↔ date ∈ D := by
  rw [logfile_dates, List.mem_mergeSort, List.mem_filterMap]
  constructor
  · rintro ⟨fn, -, hdate⟩
    exact (h.dateOf_eq_some.mp hdate).1
  · intro hD
    refine ⟨F.dated date, ?_, h.dateOf_eq_some.mpr ⟨hD, rfl⟩⟩
    rw [hfound.mem_iff, ← AList.mem_keys]
    exact h.mem_names.mpr hD

theorem Dated.nodup_logfile_dates (h : Dated F d D) (hfound : found.Perm d.names.keys) :
    (logfile_dates td d F.file_name found).Nodup := by
  have hnodup : found.Nodup := hfound.nodup_iff.mpr d.names.keys_nodup
  rw [logfile_dates, (List.mergeSort_perm _ _).nodup_iff]
  refine hnodup.filterMap fun fn fn' date hdate hdate' => ?_
  rw [(h.dateOf_eq_some.mp hdate).2, (h.dateOf_eq_some.mp hdate').2]

theorem sorted_logfile_dates (d : Directory Record) (file_name : Name) (found : List Name) :
    (logfile_dates td d file_name found).Pairwise (· ≤ ·) := by
  have htrans : ∀ x y z : List Char, decide (x ≤ y) = true → decide (y ≤ z) = true →
      decide (x ≤ z) = true := by
    intro x y z hxy hyz
    simp only [decide_eq_true_eq] at *
    exact le_trans hxy hyz
  have htotal : ∀ x y : List Char, (decide (x ≤ y) || decide (y ≤ x)) = true := by
    intro x y
    simp only [Bool.or_eq_true, decide_eq_true_eq]
    exact le_total x y
  have := List.pairwise_mergeSort htrans htotal (found.filterMap (dateOf td d file_name))
  simpa [logfile_dates] using this

/-! ### What a call leaves -/

theorem CheckDateRotation_inodes (h1 : 1 ≤ backup_count.toInt) :
    (CheckDateRotation td d F.file_path time_type backup_count tm found).inodes = d.inodes := by
  by_cases h : Fires d F.file_path time_type tm
  · rw [CheckDateRotation_of_fires h h1, rename_inodes]
    exact (deletes_inodes _).1
  · rw [CheckDateRotation_of_not_fires h]

/-- The dates that stay. -/
theorem Dated.deletes_lookup (h : Dated F d D) (hfound : found.Perm d.names.keys) {k : ℕ}
    {name : Name} {i : ℕ} :
    (deletes F.file_path d ((logfile_dates td d F.file_name found).take
      ((logfile_dates td d F.file_name found).length - k))).names.lookup name = some i ↔
        d.names.lookup name = some i ∧
          ∀ date ∈ D, name = F.dated date → date ∈ newest k D := by
  set dates := logfile_dates td d F.file_name found with hdates
  have hnodup : dates.Nodup := h.nodup_logfile_dates hfound
  have hsorted : dates.Pairwise (· ≤ ·) := sorted_logfile_dates d F.file_name found
  have hmem : ∀ date, date ∈ dates ↔ date ∈ D := fun date => h.mem_logfile_dates hfound
  have hstay : ∀ date ∈ D, date ∉ dates.take (dates.length - k) ↔ date ∈ newest k D := by
    intro date hD
    rw [← mem_drop_iff hsorted hnodup hmem]
    have hsplit := (hmem date).mpr hD
    rw [← List.take_append_drop (dates.length - k) dates, List.mem_append] at hsplit
    constructor
    · exact fun hn => hsplit.resolve_left hn
    · exact fun hd ht => List.disjoint_take_drop hnodup (le_refl _) ht hd
  rw [DateRotation.deletes_lookup, and_comm]
  refine and_congr_right fun _ => ?_
  constructor
  · intro hne date hD hname
    rw [← hstay date hD]
    intro ht
    exact hne date ht ((split_dated_eq_iff (h.dot date hD) (h.slash date hD)).mpr rfl ▸ hname.symm)
  · intro hnew date ht heq
    have hD := (hmem date).mp (List.mem_of_mem_take ht)
    rw [(split_dated_eq_iff (h.dot date hD) (h.slash date hD)).mpr rfl] at heq
    exact (hstay date hD).mpr (hnew date hD heq.symm) ht

section Fires

variable (h : Dated F d D) (hfires : Fires d F.file_path time_type tm)
  (h1 : 1 ≤ backup_count.toInt) (hfound : found.Perm d.names.keys)

theorem find_new_filename :
    d.find (new_filename F.file_path tm) = d.names.lookup (F.dated tm.format) := by
  rw [Directory.find, new_filename, split_dated (slash_format tm)]

include h hfires h1 hfound

/-- Without a log file only the deletions happen. -/
theorem Dated.check_lookup_none (hlog : d.find F.file_path = none) {name : Name} {i : ℕ} :
    (CheckDateRotation td d F.file_path time_type backup_count tm found).names.lookup name =
        some i ↔
      d.names.lookup name = some i ∧
        ∀ date ∈ D, name = F.dated date → date ∈ newest (backup_count.toInt.toNat - 1) D := by
  rw [CheckDateRotation_of_fires hfires h1, ← @Dated.deletes_lookup td F d found D h hfound]
  set e := deletes F.file_path d _ with he
  have hnone : e.find F.file_path = none := by
    rw [find_file_path, Option.eq_none_iff_forall_not_mem]
    intro j hj
    rw [find_file_path] at hlog
    rw [he, Option.mem_def, h.deletes_lookup hfound, hlog] at hj
    exact absurd hj.1 (by simp)
  rw [Directory.rename, hnone]

/-- With a log file it becomes the backup of this minute. -/
theorem Dated.check_lookup_some {j : ℕ} (hlog : d.find F.file_path = some j) {name : Name}
    {i : ℕ} :
    (CheckDateRotation td d F.file_path time_type backup_count tm found).names.lookup name =
        some i ↔
      (name = F.dated tm.format ∧ i = j) ∨
        (name ≠ F.dated tm.format ∧ name ≠ F.file_name ∧ d.names.lookup name = some i ∧
          ∀ date ∈ D, name = F.dated date →
            date ∈ newest (backup_count.toInt.toNat - 1) D) := by
  rw [CheckDateRotation_of_fires hfires h1, ← @Dated.deletes_lookup td F d found D h hfound]
  set e := deletes F.file_path d _ with he
  have hsome : e.find F.file_path = some j := by
    rw [find_file_path] at hlog ⊢
    rw [he, h.deletes_lookup hfound]
    exact ⟨hlog, fun date _ heq => absurd heq.symm (dated_ne_file_name date)⟩
  simp only [Directory.rename, hsome, F.split_file_path, new_filename,
    split_dated (slash_format tm)]
  by_cases hnew : name = F.dated tm.format
  · subst hnew
    rw [AList.lookup_insert, Option.some.injEq]
    simp [eq_comm]
  · rw [AList.lookup_insert_ne hnew]
    by_cases hold : name = F.file_name
    · subst hold
      simp [hnew]
    · rw [AList.lookup_erase_ne hold]
      simp [hnew, hold]

end Fires

end SampLogCore.Rotation.DateRotation
