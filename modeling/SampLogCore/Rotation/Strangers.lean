import SampLogCore.Rotation.History
import SampLogCore.Rotation.Numbering
import SampLogCore.Rotation.QuietPeriods

/-!
# Files that are no backups

Both rotations take a file for a backup by the beginning of its name and by what is behind the last
dot of it. A *stranger* is a file that is neither the log file nor has the name of a backup, and may
be taken for one all the same: `strtol` reads signs and leading zeros, and the dates are not read at
all.

A rotation is run on two directories that differ only in strangers. A stranger that is recognised
counts, and the count decides which backups are deleted; and it is renamed or deleted itself when
its name is the one that the code makes of what it has recognised. So the strangers have no
influence exactly when none of them has such a name, and all counts are on the same side of
`BackupCount` (`uninfluenced_iff`).
-/

namespace SampLogCore.Rotation.Strangers

open SampLogCore.Lib.Number SampLogCore.Lib.Slots SampLogCore.Lib.Retention
  SampLogCore.Config.Settings SampLogCore.Rotation.LogDirectory SampLogCore.Rotation.LocalTime
  SampLogCore.Rotation.SizeRotation SampLogCore.Rotation.DateRotation SampLogCore.Rotation.Listing
  SampLogCore.Rotation.Calls SampLogCore.Rotation.Numbering SampLogCore.Rotation.QuietPeriods
  SampLogCore.Rotation.History

/-- What a rotation gets besides the directory and `BackupCount`. -/
inductive Kind
  | size (max_size : UInt32)
  | date (time_type : LogRotationTimeType) (tm : Tm)
      (year : 1000 ≤ tm.tm_year + 1900 ∧ tm.tm_year + 1900 < 10000)

/-- The call. -/
def Kind.event (backup_count : Int32) (found : List Name) : Kind → Calls.Event
  | size max_size => .checkSize max_size backup_count found
  | date time_type tm _ => .checkDate time_type backup_count tm found

/-- The names of backups: a number without leading zeros, or a minute. -/
def Kind.Backup (F : LogFile) : Kind → Name → Prop
  | size _, name => ∃ n : ℤ, 1 ≤ n ∧ name = numbered F n
  | date _ _ _, name => ∃ s : Stamp, name = F.dated s.text

/-- The names of other files. -/
def Stranger (F : LogFile) (r : Kind) (name : Name) : Prop :=
  name ≠ F.file_name ∧ ¬ r.Backup F name

/-- What a name leads to. -/
def view (d : Directory Record) (name : Name) : Option (Inode Record) :=
  (d.names.lookup name).map d.inodes

/-- No name has a slash, and the names that begin with that of the log and one more dot are those of
regular files. -/
structure WellFormed (F : LogFile) (d : Directory Record) : Prop where
  slash : ∀ name ∈ d.names, '/' ∉ name
  reg : ∀ ext i, '.' ∉ ext → d.names.lookup (F.dated ext) = some i → (d.inodes i).is_reg = true

/-- Two directories that differ only in strangers. -/
def Alike (F : LogFile) (r : Kind) (d₁ d₂ : Directory Record) : Prop :=
  ∀ name, ¬ Stranger F r name → view d₁ name = view d₂ name

variable (td : Tinydir) (F : LogFile) (backup_count : Int32)

/-- The file operations of a call. -/
def operations (found : List Name) (d : Directory Record) : Kind → List FileOp
  | .size max_size => sizeOperations td d F.file_path max_size backup_count found
  | .date time_type tm _ => dateOperations td d F.file_path time_type backup_count tm found

/-- The directory after the call. -/
def after (found : List Name) (d : Directory Record) (r : Kind) : Directory Record :=
  (operations td F backup_count found d r).foldl FileOp.run d

/-- A regular stranger is where it was, at every moment of the call. -/
def Spares (r : Kind) (found : List Name) (d : Directory Record) : Prop :=
  ∀ name inode, Stranger F r name → view d name = some inode → inode.is_reg = true →
    ∀ pre, pre <+: operations td F backup_count found d r →
      (pre.foldl FileOp.run d).names.lookup name = d.names.lookup name

/-- The rotation leaves the log file and its backups in the same state, and strangers alone. -/
def Uninfluenced (r : Kind) (found₁ found₂ : List Name) (d₁ d₂ : Directory Record) : Prop :=
  (∃ d₁' d₂', Calls.step td F d₁ (r.event backup_count found₁) = some d₁' ∧
    Calls.step td F d₂ (r.event backup_count found₂) = some d₂' ∧ Alike F r d₁' d₂') ∧
  Spares td F backup_count r found₁ d₁ ∧ Spares td F backup_count r found₂ d₂

/-- When a call has come to the backup with this number, few enough are left. -/
def KeptNumber (d : Directory Record) (n : ℤ) : Prop :=
  Kept backup_count.toInt (cint (recognised F td d).length) (recognised F td d) n

/-- Few enough extensions come from this one on. -/
def KeptDate (d : Directory Record) (ext : List Char) : Prop :=
  (datesFrom td F d ext : ℤ) < backup_count.toInt

instance (d : Directory Record) (n : ℤ) : Decidable (KeptNumber td F backup_count d n) := by
  unfold KeptNumber
  infer_instance

instance (d : Directory Record) (ext : List Char) :
    Decidable (KeptDate td F backup_count d ext) := by
  unfold KeptDate
  infer_instance

/-- No stranger has a name that the code makes of what it recognises, and deletes or renames. -/
def NoneTouched (d : Directory Record) : Kind → Prop
  | .size _ => ∀ n, INT_MIN ≤ n → n ≤ 0 → numbered F n ∉ d.names
  | .date _ _ _ => ∀ ext, '.' ∉ ext → (∀ s : Stamp, ext ≠ s.text) → F.dated ext ∈ d.names →
    KeptDate td F backup_count d ext

/-- The same backups are kept. -/
def SameKept (d₁ d₂ : Directory Record) : Kind → Prop
  | .size _ => ∀ n, 1 ≤ n → n < INT_MAX → numbered F n ∈ d₁.names →
    (KeptNumber td F backup_count d₁ n ↔ KeptNumber td F backup_count d₂ n)
  | .date _ _ _ => ∀ s : Stamp, F.dated s.text ∈ d₁.names →
    (KeptDate td F backup_count d₁ s.text ↔ KeptDate td F backup_count d₂ s.text)

/-- The dates that a call deletes. -/
def deletedDates (found : List Name) (d : Directory Record) : List (List Char) :=
  (logfile_dates td d F.file_name found).take
    ((logfile_dates td d F.file_name found).length - (backup_count.toInt.toNat - 1))

variable {td F backup_count} {d d₁ d₂ d' : Directory Record} {found found₁ found₂ : List Name}
  {name : Name} {n m : ℤ} {ext : List Char} {r : Kind} {max_size : UInt32}

/-! ### Views -/

theorem view_of_lookup {i : ℕ} (h : d.names.lookup name = some i) :
    view d name = some (d.inodes i) := by
  rw [view, h, Option.map_some]

theorem view_eq_none : view d name = none ↔ d.names.lookup name = none := Option.map_eq_none_iff

theorem isSome_view : (view d name).isSome ↔ name ∈ d.names := by
  rw [view, Option.isSome_map, AList.lookup_isSome]

/-- The same choice between a value and nothing. -/
theorem ite_eq_ite_iff {α : Type*} {a b : Option α} (hab : a = b) {p q : Prop} [Decidable p]
    [Decidable q] :
    ((if p then a else none) = if q then b else none) ↔ (a.isSome → (p ↔ q)) := by
  subst hab
  cases a with
  | none => simp
  | some x => by_cases hp : p <;> by_cases hq : q <;> simp [hp, hq]

theorem not_stranger_file_name : ¬ Stranger F r F.file_name := fun h => h.1 rfl

theorem not_stranger_backup (h : r.Backup F name) : ¬ Stranger F r name := fun hs => hs.2 h

/-- Only the log file and its backups matter. -/
theorem alike_iff : Alike F r d₁ d₂ ↔ view d₁ F.file_name = view d₂ F.file_name ∧
    ∀ name, r.Backup F name → view d₁ name = view d₂ name := by
  constructor
  · exact fun h => ⟨h _ not_stranger_file_name, fun name hb => h name (not_stranger_backup hb)⟩
  · rintro ⟨hlog, hbackup⟩ name hns
    by_cases hname : name = F.file_name
    · rw [hname]
      exact hlog
    · exact hbackup name (not_not.mp fun hb => hns ⟨hname, hb⟩)

/-! ### A call -/

/-- **A call runs its operations.** -/
theorem step_event (hfound : found.Perm d.names.keys) :
    Calls.step td F d (r.event backup_count found) =
      some (after td F backup_count found d r) := by
  cases r with
  | size max_size =>
    rw [Kind.event, Calls.step, if_pos hfound, CheckSizeRotation_eq]
    rfl
  | date time_type tm year =>
    rw [Kind.event, Calls.step, if_pos hfound, CheckDateRotation_eq]
    rfl

theorem operations_of_not_triggered (h : ¬ Triggered F d (r.event backup_count found)) :
    operations td F backup_count found d r = [] := by
  cases r with
  | size max_size =>
    cases hlog : d.find F.file_path with
    | none => simp only [operations, sizeOperations, hlog]
    | some i =>
      have hsmall : fileSize (d.inodes i).records < (max_size * 1000).toNat :=
        not_le.mp fun hlarge => h ⟨i, hlog, hlarge⟩
      simp only [operations, sizeOperations, hlog, if_pos hsmall]
  | date time_type tm year => exact if_neg h

theorem operations_size (h1 : 1 ≤ backup_count.toInt)
    (ht : Triggered F d (.checkSize max_size backup_count found)) :
    operations td F backup_count found d (.size max_size) =
      fileOps F.file_path backup_count.toInt (movedNums td d F.file_name found) := by
  obtain ⟨i, hi, hlarge⟩ := ht
  have hpos : backup_count.toInt > 0 := by omega
  simp only [operations, sizeOperations, F.split_file_path, hi, if_neg (not_lt.mpr hlarge),
    if_pos hpos]

theorem operations_date {time_type : LogRotationTimeType} {tm : Tm}
    {year : 1000 ≤ tm.tm_year + 1900 ∧ tm.tm_year + 1900 < 10000} (h1 : 1 ≤ backup_count.toInt)
    (hfires : Fires d F.file_path time_type tm) :
    operations td F backup_count found d (.date time_type tm year) =
      (deletedDates td F backup_count found d).map (fun date => .remove (dated F.file_path date)) ++
        [.rename F.file_path (new_filename F.file_path tm)] := by
  rw [operations, dateOperations, F.split_file_path, if_pos hfires, if_pos (by omega),
    dateOps_eq h1, deletedDates]

/-- Whether a rotation is triggered is seen in the log file and its backups. -/
theorem triggered_congr (h : Alike F r d₁ d₂) :
    Triggered F d₁ (r.event backup_count found₁) ↔
      Triggered F d₂ (r.event backup_count found₂) := by
  obtain ⟨hlog, hbackup⟩ := alike_iff.mp h
  cases r with
  | size max_size =>
    have hview : ∀ d found, Triggered F d ((Kind.size max_size).event backup_count found) ↔
        ∃ inode, view d F.file_name = some inode ∧
          (max_size * 1000).toNat ≤ fileSize inode.records := by
      intro d found
      simp only [Kind.event, Triggered, find_file_path, view, Option.map_eq_some_iff]
      constructor
      · rintro ⟨i, hi, hlarge⟩
        exact ⟨_, ⟨i, hi, rfl⟩, hlarge⟩
      · rintro ⟨_, ⟨i, hi, rfl⟩, hlarge⟩
        exact ⟨i, hi, hlarge⟩
    rw [hview, hview, hlog]
  | date time_type tm year =>
    have hview : ∀ d found, Triggered F d ((Kind.date time_type tm year).event backup_count found) ↔
        due time_type tm ∧ view d (F.dated tm.format) = none := by
      intro d found
      simp only [Kind.event, Triggered, Fires, find_new_filename, view_eq_none]
    rw [hview, hview, hbackup _ ⟨tm.stamp year, by rw [tm.format_eq_text year]⟩]

/-! ### Size rotation -/

section Found

variable (hfound : found.Perm d.names.keys)
include hfound

/-- A number that is in use is found. -/
theorem mem_movedNums (hw : WellFormed F d) (h0 : INT_MIN ≤ n) (hmax : n ≤ INT_MAX)
    (hn : (slots F d n).isSome) : n ∈ movedNums td d F.file_name found := by
  obtain ⟨i, hi⟩ := Option.isSome_iff_exists.mp hn
  rw [(perm_movedNums hfound).mem_iff]
  exact mem_recognised_of_numbered h0 hmax hi (hw.reg _ i (dot_formatD n) hi)

theorem kept_iff :
    Kept backup_count.toInt (cint (movedNums td d F.file_name found).length)
      (movedNums td d F.file_name found) n ↔ KeptNumber td F backup_count d n := by
  have hperm := @perm_movedNums F td d found hfound
  rw [KeptNumber, Kept, Kept, hperm.length_eq, hperm.countP_eq]

end Found

section Size

variable (hw : WellFormed F d) (h1 : 1 ≤ backup_count.toInt) (hfound : found.Perm d.names.keys)
  (ht : Triggered F d (.checkSize max_size backup_count found))
include h1 ht

theorem view_size :
    view (after td F backup_count found d (.size max_size)) name =
      (((fileOps F.file_path backup_count.toInt (movedNums td d F.file_name found)).foldl FileOp.run
        d).names.lookup name).map d.inodes := by
  rw [view, after, operations_size h1 ht, fileOps_inodes (by omega)]

theorem view_size_file_name :
    view (after td F backup_count found d (.size max_size)) F.file_name = none := by
  obtain ⟨i, hlog, -⟩ := id ht
  rw [view_size h1 ht, lookup_file_name_fileOps (by omega) hlog, Option.map_none]

/-- The log file is the first backup. -/
theorem view_size_one :
    view (after td F backup_count found d (.size max_size)) (numbered F 1) =
      view d F.file_name := by
  obtain ⟨i, hlog, -⟩ := id ht
  rw [view_size h1 ht, lookup_numbered, slots_fileOps (by omega) hlog, if_pos rfl, view,
    ← find_file_path, hlog]

/-- A file is not there any more after the operation on its number. -/
theorem exists_gone (h0 : INT_MIN ≤ n) (hmax : n < INT_MAX)
    (hn : n ∈ movedNums td d F.file_name found) :
    ∃ pre, pre <+: operations td F backup_count found d (.size max_size) ∧
      (pre.foldl FileOp.run d).names.lookup (numbered F n) = none := by
  obtain ⟨ns₁, ns₂, hns⟩ := List.append_of_mem hn
  have hsplit : ∀ N count, renameLoop F.file_path N count (movedNums td d F.file_name found) =
      renameLoop F.file_path N count (ns₁ ++ [n]) ++
        renameLoop F.file_path N (count - (ns₁ ++ [n]).length) ns₂ := by
    intro N count
    rw [← renameLoop_append, List.append_assoc, hns]
    rfl
  refine ⟨renameLoop F.file_path backup_count.toInt
    (cint (movedNums td d F.file_name found).length) (ns₁ ++ [n]), ?_, ?_⟩
  · rw [operations_size h1 ht, fileOps, hsplit, List.append_assoc]
    exact List.prefix_append _ _
  · rw [lookup_numbered, slots_renameLoop, loop_append, loop, loop, visit_self]
    rw [next_eq h0 hmax]
    omega

include hfound

/-- The names that a size rotation is about. -/
theorem names_operations_size {op : FileOp}
    (hop : op ∈ operations td F backup_count found d (.size max_size)) (hname : name ∈ names op) :
    name = F.file_name ∨ ∃ k, INT_MIN ≤ k ∧ k ≤ INT_MAX ∧ name = numbered F k := by
  rw [operations_size h1 ht, fileOps, List.mem_append, List.mem_singleton] at hop
  rcases hop with hop | rfl
  · obtain ⟨n, hn, count, rfl⟩ := mem_renameLoop hop
    obtain ⟨hmin, hmax⟩ := movedNums_range hfound hn
    rcases names_opOf hname with h | h
    · exact .inr ⟨n, hmin, hmax, h⟩
    · exact .inr ⟨next n, (next_range n).1, (next_range n).2, h⟩
  · rw [lastOp_eq (by omega)] at hname
    simp only [names, List.mem_cons, List.not_mem_nil, or_false, F.split_file_path,
      split_filename_count] at hname
    rcases hname with h | h
    · exact .inl h
    · exact .inr ⟨1, by decide, by decide, h⟩

/-- Numbers that are no `int` are left alone. -/
theorem view_size_beyond (hmax : INT_MAX < m) :
    view (after td F backup_count found d (.size max_size)) (numbered F m) =
      view d (numbered F m) := by
  obtain ⟨i, hlog, -⟩ := id ht
  have hint : (1 : ℤ) ≤ INT_MAX := by decide
  rw [view_size h1 ht, lookup_numbered, slots_fileOps (by omega) hlog, if_neg (by omega),
    loop_beyond (fun n hn => movedNums_range hfound hn) hmax]
  rfl

include hw

/-- **The numbered names after a size rotation.** -/
theorem view_size_numbered (h0 : 1 < m) (hmax : m ≤ INT_MAX) :
    view (after td F backup_count found d (.size max_size)) (numbered F m) =
      if KeptNumber td F backup_count d (m - 1) then view d (numbered F (m - 1)) else none := by
  obtain ⟨i, hlog, -⟩ := id ht
  have hmin : INT_MIN + 1 < m := by
    simp only [INT_MIN]
    omega
  have hmem : ∀ {k}, INT_MIN ≤ k → k ≤ INT_MAX → (slots F d k).isSome →
      k ∈ movedNums td d F.file_name found := fun hk0 hk1 hk => mem_movedNums hfound hw hk0 hk1 hk
  have hslot : (if m ∈ movedNums td d F.file_name found then none else slots F d m) = none := by
    split_ifs with hm
    · rfl
    · rw [← Option.not_isSome_iff_eq_none]
      exact fun hsome => hm (hmem (by omega) hmax hsome)
  rw [view_size h1 ht, lookup_numbered, slots_fileOps (by omega) hlog, if_neg (by omega),
    loop_next (fun n hn => movedNums_range hfound hn) (sorted_movedNums td d F.file_name found)
      hmin hmax, view, lookup_numbered]
  simp only [hslot, kept_iff hfound]
  by_cases hsome : (slots F d (m - 1)).isSome
  · simp only [hmem (by omega) (by omega) hsome, hsome, true_and, and_true]
    split_ifs
    · rfl
    · rfl
  · simp [Option.not_isSome_iff_eq_none.mp hsome]

/-- **A size rotation spares the strangers** when none has a number that is an `int`. -/
theorem spares_size_iff :
    Spares td F backup_count (.size max_size) found d ↔
      NoneTouched td F backup_count d (.size max_size) := by
  constructor
  · intro hspares n h0 hn hmem
    obtain ⟨i, hi⟩ := mem_iff_lookup.mp hmem
    have hmax : n < INT_MAX := lt_of_le_of_lt hn (by decide)
    have hstranger : Stranger F (.size max_size) (numbered F n) := by
      refine ⟨numbered_ne_file_name n, ?_⟩
      rintro ⟨k, hk, heq⟩
      rw [numbered_injective heq] at hn
      omega
    have hfoundn : n ∈ movedNums td d F.file_name found :=
      mem_movedNums hfound hw h0 hmax.le (by rw [slots, hi]; rfl)
    obtain ⟨pre, hpre, hgone⟩ := exists_gone h1 ht h0 hmax hfoundn
    have hsame := hspares _ _ hstranger (view_of_lookup hi) (hw.reg _ i (dot_formatD n) hi) pre hpre
    rw [hgone, hi] at hsame
    exact absurd hsame (by simp)
  · intro hnone name inode hs hview _ pre hpre
    refine lookup_foldl fun op hop hname => ?_
    rcases names_operations_size h1 hfound ht (hpre.subset hop) hname with rfl | ⟨k, h0, -, rfl⟩
    · exact hs.1 rfl
    · by_cases hk : 1 ≤ k
      · exact hs.2 ⟨k, hk, rfl⟩
      · exact hnone k h0 (by omega) (isSome_view.mp (by rw [hview]; rfl))

end Size

/-- **Two size rotations leave the same backups** when they keep the same ones. -/
theorem alike_size_iff (h : Alike F (.size max_size) d₁ d₂) (hw₁ : WellFormed F d₁)
    (hw₂ : WellFormed F d₂) (h1 : 1 ≤ backup_count.toInt) (hfound₁ : found₁.Perm d₁.names.keys)
    (hfound₂ : found₂.Perm d₂.names.keys)
    (ht : Triggered F d₁ ((Kind.size max_size).event backup_count found₁)) :
    Alike F (.size max_size) (after td F backup_count found₁ d₁ (.size max_size))
        (after td F backup_count found₂ d₂ (.size max_size)) ↔
      SameKept td F backup_count d₁ d₂ (.size max_size) := by
  have ht₂ : Triggered F d₂ ((Kind.size max_size).event backup_count found₂) :=
    (triggered_congr h).mp ht
  obtain ⟨hlog, hbackup⟩ := alike_iff.mp h
  have hnext : ∀ {m}, 1 < m → m ≤ INT_MAX →
      (view (after td F backup_count found₁ d₁ (.size max_size)) (numbered F m) =
        view (after td F backup_count found₂ d₂ (.size max_size)) (numbered F m) ↔
      (numbered F (m - 1) ∈ d₁.names →
        (KeptNumber td F backup_count d₁ (m - 1) ↔ KeptNumber td F backup_count d₂ (m - 1)))) := by
    intro m h0 hmax
    rw [view_size_numbered hw₁ h1 hfound₁ ht h0 hmax, view_size_numbered hw₂ h1 hfound₂ ht₂ h0 hmax,
      ite_eq_ite_iff (hbackup _ ⟨m - 1, by omega, rfl⟩), isSome_view]
  rw [alike_iff]
  constructor
  · rintro ⟨-, hsame⟩ n h0 hmax
    have hn : n + 1 - 1 = n := by omega
    have := (hnext (by omega) (by omega)).mp (hsame _ ⟨n + 1, by omega, rfl⟩)
    rwa [hn] at this
  · intro hkept
    refine ⟨?_, ?_⟩
    · rw [view_size_file_name h1 ht, view_size_file_name h1 ht₂]
    · rintro _ ⟨m, hm, rfl⟩
      rcases hm.eq_or_lt with rfl | h0
      · rw [view_size_one h1 ht, view_size_one h1 ht₂, hlog]
      rcases le_or_gt m INT_MAX with hmax | hmax
      · exact (hnext h0 hmax).mpr (hkept (m - 1) (by omega) (by omega))
      · rw [view_size_beyond h1 hfound₁ ht hmax, view_size_beyond h1 hfound₂ ht₂ hmax]
        exact hbackup _ ⟨m, by omega, rfl⟩

/-! ### Date rotation -/

section Date

variable {time_type : LogRotationTimeType} {tm : Tm}
  {year : 1000 ≤ tm.tm_year + 1900 ∧ tm.tm_year + 1900 < 10000}

theorem dot_deletedDates : ∀ date ∈ deletedDates td F backup_count found d, '.' ∉ date :=
  fun _ h => dot_of_mem_logfile_dates (List.mem_of_mem_take h)

/-- The extensions of names without a slash have none. -/
theorem slash_deletedDates (hw : WellFormed F d) :
    ∀ date ∈ deletedDates td F backup_count found d, '/' ∉ date := by
  intro date h
  obtain ⟨fn, hfn, hprefix, rfl⟩ := exists_extension_of_mem (List.mem_of_mem_take h)
  exact extension_notMem hprefix (hw.slash fn hfn)

/-- The deletions leave the log file alone. -/
theorem find_deletedDates (hw : WellFormed F d) :
    (deletes F.file_path d (deletedDates td F backup_count found d)).find F.file_path =
      d.find F.file_path := by
  rw [find_file_path, find_file_path]
  refine Option.ext fun i => ?_
  rw [deletes_lookup]
  refine and_iff_right fun date hdate heq => ?_
  rw [split_dated (slash_deletedDates hw date hdate)] at heq
  exact dated_ne_file_name date heq

/-- A date in use is not deleted when few enough come from it on. -/
theorem notMem_deletedDates_iff (hw : WellFormed F d) (h1 : 1 ≤ backup_count.toInt)
    (hfound : found.Perm d.names.keys) (hdot : '.' ∉ ext) (hmem : F.dated ext ∈ d.names) :
    ext ∉ deletedDates td F backup_count found d ↔ KeptDate td F backup_count d ext := by
  obtain ⟨i, hi⟩ := mem_iff_lookup.mp hmem
  have hperm := @perm_logfile_dates td F d found hfound
  have hdate : ext ∈ logfile_dates td d F.file_name found :=
    mem_logfile_dates_of_dated hfound hdot hi (hw.reg ext i hdot hi)
  rw [deletedDates, notMem_take_iff (fun _ => decide_eq_true_iff)
    (sorted_logfile_dates d F.file_name found) hdate, KeptDate, datesFrom, hperm.countP_eq]
  omega

variable (hw : WellFormed F d) (h1 : 1 ≤ backup_count.toInt) (hfound : found.Perm d.names.keys)
  (hfires : Fires d F.file_path time_type tm)
include h1 hfires

theorem after_date :
    after td F backup_count found d (.date time_type tm year) =
      (deletes F.file_path d (deletedDates td F backup_count found d)).rename F.file_path
        (new_filename F.file_path tm) := by
  rw [after, operations_date h1 hfires, List.foldl_append, List.foldl_map]
  rfl

theorem view_date :
    view (after td F backup_count found d (.date time_type tm year)) name =
      (((deletes F.file_path d (deletedDates td F backup_count found d)).rename F.file_path
        (new_filename F.file_path tm)).names.lookup name).map d.inodes := by
  rw [view, after_date h1 hfires, rename_inodes, (deletes_inodes _).1]

theorem view_date_file_name :
    view (after td F backup_count found d (.date time_type tm year)) F.file_name = none := by
  rw [view_date h1 hfires, Directory.rename, F.split_file_path, new_filename,
    split_dated (slash_format tm)]
  set e := deletes F.file_path d (deletedDates td F backup_count found d)
  cases hlog : e.find F.file_path with
  | none =>
    rw [find_file_path] at hlog
    simp only [hlog, Option.map_none]
  | some i =>
    simp only [AList.lookup_insert_ne (dated_ne_file_name tm.format).symm, AList.lookup_erase,
      Option.map_none]

include hw

/-- The log file becomes the backup of this minute. -/
theorem view_date_new :
    view (after td F backup_count found d (.date time_type tm year)) (F.dated tm.format) =
      view d F.file_name := by
  have hnew : d.names.lookup (F.dated tm.format) = none := by
    rw [← find_new_filename]
    exact hfires.2
  rw [view_date h1 hfires, Directory.rename, find_deletedDates hw, F.split_file_path,
    new_filename, split_dated (slash_format tm), view, ← find_file_path]
  cases hlog : d.find F.file_path with
  | none =>
    have hnone : (deletes F.file_path d
        (deletedDates td F backup_count found d)).names.lookup (F.dated tm.format) = none := by
      rw [Option.eq_none_iff_forall_not_mem]
      intro i hi
      rw [Option.mem_def, deletes_lookup, hnew] at hi
      exact absurd hi.2 (by simp)
    simp only [hnone, Option.map_none]
  | some i => simp only [AList.lookup_insert]

include hfound

/-- **The dates after a date rotation.** -/
theorem view_date_dated (hdot : '.' ∉ ext) (hslash : '/' ∉ ext) (hne : ext ≠ tm.format) :
    view (after td F backup_count found d (.date time_type tm year)) (F.dated ext) =
      if KeptDate td F backup_count d ext then view d (F.dated ext) else none := by
  have hrename : ((deletes F.file_path d (deletedDates td F backup_count found d)).rename
      F.file_path (new_filename F.file_path tm)).names.lookup (F.dated ext) =
        (deletes F.file_path d (deletedDates td F backup_count found d)).names.lookup
          (F.dated ext) := by
    refine @lookup_run _ (F.dated ext) (.rename F.file_path (new_filename F.file_path tm)) ?_
    simp only [names, F.split_file_path, new_filename, split_dated (slash_format tm),
      List.mem_cons, List.not_mem_nil, or_false, not_or]
    exact ⟨dated_ne_file_name ext, fun heq => hne (dated_injective heq)⟩
  have hdeletes : (deletes F.file_path d (deletedDates td F backup_count found d)).names.lookup
      (F.dated ext) =
        if KeptDate td F backup_count d ext then d.names.lookup (F.dated ext) else none := by
    refine Option.ext fun i => ?_
    rw [deletes_lookup_dated dot_deletedDates hslash]
    by_cases hi : d.names.lookup (F.dated ext) = some i
    · rw [notMem_deletedDates_iff hw h1 hfound hdot (mem_of_lookup hi), hi]
      simp
    · simp [hi]
  rw [view_date h1 hfires, hrename, hdeletes, view]
  split_ifs
  · rfl
  · rfl

/-- **A date rotation spares the strangers** when it deletes none of them. -/
theorem spares_date_iff :
    Spares td F backup_count (.date time_type tm year) found d ↔
      NoneTouched td F backup_count d (.date time_type tm year) := by
  constructor
  · intro hspares ext hdot hne hmem
    obtain ⟨i, hi⟩ := mem_iff_lookup.mp hmem
    have hstranger : Stranger F (.date time_type tm year) (F.dated ext) := by
      refine ⟨dated_ne_file_name ext, ?_⟩
      rintro ⟨s, heq⟩
      exact hne s (dated_injective heq)
    rw [← notMem_deletedDates_iff hw h1 hfound hdot hmem]
    intro hdeleted
    -- the call up to the rename of the log file
    have hsame := hspares _ _ hstranger (view_of_lookup hi) (hw.reg ext i hdot hi)
      ((deletedDates td F backup_count found d).map fun date => .remove (dated F.file_path date))
      (by rw [operations_date h1 hfires]; exact List.prefix_append _ _)
    rw [List.foldl_map, hi] at hsame
    exact (deletes_lookup.mp hsame).1 ext hdeleted
      ((split_dated_eq_iff hdot (slash_deletedDates hw ext hdeleted)).mpr rfl)
  · intro hnone name inode hs hview _ pre hpre
    refine lookup_foldl fun op hop hname => ?_
    have hop := hpre.subset hop
    rw [operations_date h1 hfires, List.mem_append, List.mem_singleton] at hop
    rcases hop with hop | rfl
    · obtain ⟨date, hdate, rfl⟩ := List.mem_map.mp hop
      rw [names, split_dated (slash_deletedDates hw date hdate), List.mem_singleton] at hname
      subst hname
      have hdot := dot_deletedDates date hdate
      have hmem : F.dated date ∈ d.names := isSome_view.mp (by rw [hview]; rfl)
      refine (notMem_deletedDates_iff hw h1 hfound hdot hmem).mpr (hnone date hdot ?_ hmem) hdate
      rintro stamp rfl
      exact hs.2 ⟨stamp, rfl⟩
    · simp only [names, List.mem_cons, List.not_mem_nil, or_false, F.split_file_path, new_filename,
        split_dated (slash_format tm)] at hname
      rcases hname with rfl | rfl
      · exact hs.1 rfl
      · exact hs.2 ⟨tm.stamp year, by rw [tm.format_eq_text year]⟩

end Date

/-- **Two date rotations leave the same backups** when they keep the same ones. -/
theorem alike_date_iff {time_type : LogRotationTimeType} {tm : Tm}
    {year : 1000 ≤ tm.tm_year + 1900 ∧ tm.tm_year + 1900 < 10000}
    (h : Alike F (.date time_type tm year) d₁ d₂) (hw₁ : WellFormed F d₁) (hw₂ : WellFormed F d₂)
    (h1 : 1 ≤ backup_count.toInt) (hfound₁ : found₁.Perm d₁.names.keys)
    (hfound₂ : found₂.Perm d₂.names.keys)
    (ht : Triggered F d₁ ((Kind.date time_type tm year).event backup_count found₁)) :
    Alike F (.date time_type tm year) (after td F backup_count found₁ d₁ (.date time_type tm year))
        (after td F backup_count found₂ d₂ (.date time_type tm year)) ↔
      SameKept td F backup_count d₁ d₂ (.date time_type tm year) := by
  have ht₂ : Triggered F d₂ ((Kind.date time_type tm year).event backup_count found₂) :=
    (triggered_congr h).mp ht
  obtain ⟨hlog, hbackup⟩ := alike_iff.mp h
  have hother : ∀ {s : Stamp}, s.text ≠ tm.format →
      (view (after td F backup_count found₁ d₁ (.date time_type tm year)) (F.dated s.text) =
        view (after td F backup_count found₂ d₂ (.date time_type tm year)) (F.dated s.text) ↔
      (F.dated s.text ∈ d₁.names →
        (KeptDate td F backup_count d₁ s.text ↔ KeptDate td F backup_count d₂ s.text))) := by
    intro s hne
    have hdot : '.' ∉ s.text := notMem_stamp (by decide) (by decide)
    have hslash : '/' ∉ s.text := notMem_stamp (by decide) (by decide)
    rw [view_date_dated hw₁ h1 hfound₁ ht hdot hslash hne,
      view_date_dated hw₂ h1 hfound₂ ht₂ hdot hslash hne, ite_eq_ite_iff (hbackup _ ⟨s, rfl⟩),
      isSome_view]
  rw [alike_iff]
  constructor
  · rintro ⟨-, hsame⟩ s hmem
    refine (hother ?_).mp (hsame _ ⟨s, rfl⟩) hmem
    -- the file of this minute is not there yet
    rintro heq
    have hnew := ht.2
    rw [find_new_filename, AList.lookup_eq_none, ← heq] at hnew
    exact hnew hmem
  · intro hkept
    refine ⟨?_, ?_⟩
    · rw [view_date_file_name h1 ht, view_date_file_name h1 ht₂]
    · rintro _ ⟨s, rfl⟩
      by_cases hnew : s.text = tm.format
      · rw [hnew, view_date_new hw₁ h1 ht, view_date_new hw₂ h1 ht₂, hlog]
      · exact (hother hnew).mpr (hkept s)

/-! ### Both rotations -/

theorem alike_after_iff (h : Alike F r d₁ d₂) (hw₁ : WellFormed F d₁) (hw₂ : WellFormed F d₂)
    (h1 : 1 ≤ backup_count.toInt) (hfound₁ : found₁.Perm d₁.names.keys)
    (hfound₂ : found₂.Perm d₂.names.keys) (ht : Triggered F d₁ (r.event backup_count found₁)) :
    Alike F r (after td F backup_count found₁ d₁ r) (after td F backup_count found₂ d₂ r) ↔
      SameKept td F backup_count d₁ d₂ r := by
  cases r with
  | size max_size => exact alike_size_iff h hw₁ hw₂ h1 hfound₁ hfound₂ ht
  | date time_type tm year => exact alike_date_iff h hw₁ hw₂ h1 hfound₁ hfound₂ ht

theorem spares_iff (hw : WellFormed F d) (h1 : 1 ≤ backup_count.toInt)
    (hfound : found.Perm d.names.keys) (ht : Triggered F d (r.event backup_count found)) :
    Spares td F backup_count r found d ↔ NoneTouched td F backup_count d r := by
  cases r with
  | size max_size => exact spares_size_iff hw h1 hfound ht
  | date time_type tm year => exact spares_date_iff hw h1 hfound ht

/-- A call that is not triggered spares everything. -/
theorem spares_of_not_triggered (h : ¬ Triggered F d (r.event backup_count found)) :
    Spares td F backup_count r found d := by
  intro name inode _ _ _ pre hpre
  rw [operations_of_not_triggered h] at hpre
  rw [List.prefix_nil.mp hpre, List.foldl_nil]

theorem uninfluenced_iff_after (hfound₁ : found₁.Perm d₁.names.keys)
    (hfound₂ : found₂.Perm d₂.names.keys) :
    Uninfluenced td F backup_count r found₁ found₂ d₁ d₂ ↔
      Alike F r (after td F backup_count found₁ d₁ r) (after td F backup_count found₂ d₂ r) ∧
        Spares td F backup_count r found₁ d₁ ∧ Spares td F backup_count r found₂ d₂ := by
  rw [Uninfluenced, step_event hfound₁, step_event hfound₂]
  simp only [Option.some.injEq, exists_eq_left', ↓existsAndEq, true_and]

/-- **When strangers have no influence on a rotation.** -/
theorem uninfluenced_iff (h : Alike F r d₁ d₂) (hw₁ : WellFormed F d₁) (hw₂ : WellFormed F d₂)
    (h1 : 1 ≤ backup_count.toInt) (hfound₁ : found₁.Perm d₁.names.keys)
    (hfound₂ : found₂.Perm d₂.names.keys) :
    Uninfluenced td F backup_count r found₁ found₂ d₁ d₂ ↔
      (Triggered F d₁ (r.event backup_count found₁) →
        NoneTouched td F backup_count d₁ r ∧ NoneTouched td F backup_count d₂ r ∧
          SameKept td F backup_count d₁ d₂ r) := by
  rw [uninfluenced_iff_after hfound₁ hfound₂]
  by_cases ht : Triggered F d₁ (r.event backup_count found₁)
  · have ht₂ : Triggered F d₂ (r.event backup_count found₂) := (triggered_congr h).mp ht
    rw [alike_after_iff h hw₁ hw₂ h1 hfound₁ hfound₂ ht, spares_iff hw₁ h1 hfound₁ ht,
      spares_iff hw₂ h1 hfound₂ ht₂]
    simp only [ht, true_imp_iff]
    tauto
  · have ht₂ : ¬ Triggered F d₂ (r.event backup_count found₂) := fun hno =>
      ht ((triggered_congr h).mpr hno)
    simp only [ht, false_imp_iff, iff_true]
    refine ⟨?_, spares_of_not_triggered ht, spares_of_not_triggered ht₂⟩
    rw [after, after, operations_of_not_triggered ht, operations_of_not_triggered ht₂]
    exact h

/-! ### A file more -/

variable {new : Name}

theorem WellFormed.create (hw : WellFormed F d) (hslash : '/' ∉ new) :
    WellFormed F (d.create new) where
  slash name hname := by
    rcases (AList.mem_insert _).mp hname with rfl | hname
    · exact hslash
    · exact hw.slash name hname
  reg ext i hdot hi := by
    simp only [Directory.create] at hi
    by_cases heq : F.dated ext = new
    · rw [heq, AList.lookup_insert, Option.some.injEq] at hi
      simp only [← hi, Directory.create, Function.update_self]
    · rw [AList.lookup_insert_ne heq] at hi
      exact reg_create (hw.reg ext i hdot hi) new

/-- A new stranger makes no difference for the others. -/
theorem alike_create (hfresh : d.Fresh) (hs : Stranger F r new) : Alike F r d (d.create new) := by
  intro name hname
  have hne : name ≠ new := fun heq => hname (heq ▸ hs)
  rw [view, view, Directory.create, AList.lookup_insert_ne hne]
  cases hi : d.names.lookup name with
  | none => rfl
  | some i =>
    have hne : i ≠ d.next := (hfresh name i hi).ne
    simp only [Option.map_some, Function.update_of_ne hne]

/-- A name with one more dot in it is not that of a backup. -/
theorem stranger_of_dot (hdot : '.' ∈ ext) : Stranger F (.size max_size) (F.dated ext) := by
  refine ⟨dated_ne_file_name ext, ?_⟩
  rintro ⟨n, -, heq⟩
  rw [dated_injective heq] at hdot
  exact dot_formatD n hdot

/-- The log file and its first backup. -/
def clean : Directory Record := (start.dir.create (numbered logA 1)).create logA.file_name

/-- And the file `F.old.1`. -/
def copied : Directory Record := clean.create (logA.dated ['o', 'l', 'd', '.', '1'])

/-- And the file `F.1.bak`. -/
def saved : Directory Record := clean.create (logA.dated ['1', '.', 'b', 'a', 'k'])

theorem wellFormed_clean : WellFormed logA clean := by
  have hstart : WellFormed logA start.dir :=
    ⟨fun name h => absurd h (AList.notMem_empty name), fun ext i _ h => absurd h (by simp [start])⟩
  exact (hstart.create (by decide)).create (by decide)

theorem fresh_clean : clean.Fresh := by
  have hstart : start.dir.Fresh := fun name i h => absurd h (by simp [start])
  exact (hstart.create _).create _

theorem triggered_clean (found : List Name) :
    Triggered logA clean ((Kind.size 0).event 2 found) :=
  ⟨1, by rw [find_file_path]; exact AList.lookup_insert _, Nat.zero_le _⟩

theorem mem_clean : numbered logA n ∈ clean.names ↔ n = 1 := by
  simp only [clean, start, Directory.create, AList.mem_insert, numbered_ne_file_name, false_or,
    AList.notMem_empty, or_false]
  exact ⟨numbered_injective, fun h => by rw [h]⟩

theorem alike_copied : Alike logA (.size 0) clean copied :=
  alike_create fresh_clean (stranger_of_dot (by decide))

theorem alike_saved : Alike logA (.size 0) clean saved :=
  alike_create fresh_clean (stranger_of_dot (by decide))

/-- The file `F.1.bak` has no influence. -/
theorem uninfluenced_saved :
    Uninfluenced Tinydir.strrchr logA 2 (.size 0) clean.names.keys saved.names.keys clean
      saved := by
  rw [uninfluenced_iff alike_saved wellFormed_clean (wellFormed_clean.create (by decide))
    (by decide) (List.Perm.refl _) (List.Perm.refl _)]
  intro _
  refine ⟨?_, ?_, ?_⟩
  · intro n _ hn hmem
    have := mem_clean.mp hmem
    omega
  · intro n _ hn hmem
    rcases (AList.mem_insert _).mp hmem with heq | hmem
    · have hdot : '.' ∈ formatD n := by
        rw [dated_injective heq]
        decide
      exact dot_formatD n hdot
    · have := mem_clean.mp hmem
      omega
  · intro n _ _ hmem
    rw [mem_clean.mp hmem]
    decide

/-- **The file `F.old.1` has influence**: with it the backup is deleted, and without it renamed. -/
theorem not_uninfluenced_copied : Alike logA (.size 0) clean copied ∧
    ¬ Uninfluenced Tinydir.strrchr logA 2 (.size 0) clean.names.keys copied.names.keys clean
      copied := by
  refine ⟨alike_copied, fun h => ?_⟩
  rw [uninfluenced_iff_after (List.Perm.refl _) (List.Perm.refl _)] at h
  have hsame := (alike_after_iff alike_copied wellFormed_clean (wellFormed_clean.create (by decide))
    (by decide) (List.Perm.refl _) (List.Perm.refl _) (triggered_clean _)).mp h.1
  have hkept := hsame 1 (le_refl 1) (by decide) (mem_clean.mpr rfl)
  exact absurd (hkept.mp (by decide)) (by decide)

end SampLogCore.Rotation.Strangers
