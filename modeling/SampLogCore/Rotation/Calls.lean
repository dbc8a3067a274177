import SampLogCore.Rotation.DateRotation
import SampLogCore.Rotation.Listing

/-!
# Runs of whole calls

The rotation thread calls `CheckSizeRotation` or `CheckDateRotation` on a log again and again, with
the settings of the moment, and between two calls the logger appends to the log file. Here a call is
one step, and so is a record written by `Logger::WriteLogString`; other programs may create and
delete files at any time.
-/

namespace SampLogCore.Rotation.Calls

open SampLogCore.Lib.Transition SampLogCore.Lib.Number SampLogCore.Config.Settings
  SampLogCore.Rotation.LogDirectory SampLogCore.Rotation.LocalTime
  SampLogCore.Rotation.SizeRotation SampLogCore.Rotation.DateRotation

/-- An event of a run. -/
inductive Event
  /-- `Logger::WriteLogString` -/
  | log (r : Record)
  /-- `CheckSizeRotation`, with the names of the directory in the order `found` -/
  | checkSize (max_size : UInt32) (backup_count : Int32) (found : List Name)
  /-- `CheckDateRotation` at the local time `tm` -/
  | checkDate (time_type : LogRotationTimeType) (backup_count : Int32) (tm : Tm)
      (found : List Name)
  /-- another program creates a file -/
  | create (name : Name)
  /-- another program deletes a file -/
  | delete (name : Name)

variable (td : Tinydir) (F : LogFile)

/-- `CheckSizeRotation`. -/
def CheckSizeRotation (d : Directory Record) (file_path : Path) (max_size : UInt32)
    (backup_count : Int32) (found : List Name) : Directory Record :=
  match d.find file_path with
  | none => d
  | some i =>
    if fileSize (d.inodes i).records < (max_size * 1000).toNat then d
    else
      let moved_nums := if backup_count.toInt > 0
        then movedNums td d (SplitFilePath file_path).2 found else []
      (fileOps file_path backup_count.toInt moved_nums).foldl FileOp.run d

/-- The file operations of `CheckSizeRotation`. -/
def sizeOperations (d : Directory Record) (file_path : Path) (max_size : UInt32)
    (backup_count : Int32) (found : List Name) : List FileOp :=
  match d.find file_path with
  | none => []
  | some i =>
    if fileSize (d.inodes i).records < (max_size * 1000).toNat then []
    else fileOps file_path backup_count.toInt (if backup_count.toInt > 0
      then movedNums td d (SplitFilePath file_path).2 found else [])

/-- The file operations of `CheckDateRotation`. -/
def dateOperations (d : Directory Record) (file_path : Path) (time_type : LogRotationTimeType)
    (backup_count : Int32) (tm : Tm) (found : List Name) : List FileOp :=
  if Fires d file_path time_type tm then
    dateOps file_path backup_count.toInt tm (if backup_count.toInt > 0
      then logfile_dates td d (SplitFilePath file_path).2 found else [])
  else []

/-- One step of a run: `none` when the event is not possible. -/
def step (d : Directory Record) : Event → Option (Directory Record)
  | .log r =>
    let (d', i) := d.openAppend F.file_path
    some (d'.append i r)
  | .checkSize max_size backup_count found =>
    if found.Perm d.names.keys then
      some (CheckSizeRotation td d F.file_path max_size backup_count found)
    else none
  | .checkDate time_type backup_count tm found =>
    if found.Perm d.names.keys then
      some (CheckDateRotation td d F.file_path time_type backup_count tm found)
    else none
  | .create name =>
    match d.names.lookup name with
    | none => some (d.create name)
    | some _ => none
  | .delete name => some { d with names := d.names.erase name }

/-- The runs that start in `Init`. -/
def system (Init : Directory Record → Prop) : System (Directory Record) Event :=
  ofStep Init (step td F)

/-- The backups: the names that begin with that of the log, without the log file. -/
def backups (d : Directory Record) : Finset Name :=
  d.names.keys.toFinset.filter fun name => F.file_name <+: name ∧ name ≠ F.file_name

/-- The event is a rotation that gets beyond its checks. -/
def Triggered (d : Directory Record) : Event → Prop
  | .checkSize max_size _ _ =>
    ∃ i, d.find F.file_path = some i ∧ (max_size * 1000).toNat ≤ fileSize (d.inodes i).records
  | .checkDate time_type _ tm _ => Fires d F.file_path time_type tm
  | _ => False

/-- The `BackupCount` in force. -/
def Event.count : Event → Option ℤ
  | .checkSize _ backup_count _ => some backup_count.toInt
  | .checkDate _ backup_count _ _ => some backup_count.toInt
  | _ => none

/-- Other programs leave the names of the log alone. -/
def Undisturbed : Event → Prop
  | .create name => ¬ F.file_name <+: name
  | .delete name => ¬ F.file_name <+: name
  | _ => True

variable {td F} {d : Directory Record}

/-- `CheckSizeRotation` runs its operations. -/
theorem CheckSizeRotation_eq (file_path : Path) (max_size : UInt32) (backup_count : Int32)
    (found : List Name) :
    CheckSizeRotation td d file_path max_size backup_count found =
      (sizeOperations td d file_path max_size backup_count found).foldl FileOp.run d := by
  rw [CheckSizeRotation, sizeOperations]
  cases d.find file_path with
  | none => rfl
  | some i =>
    simp only
    split_ifs <;> rfl

/-- `CheckDateRotation` runs its operations. -/
theorem CheckDateRotation_eq (file_path : Path) (time_type : LogRotationTimeType)
    (backup_count : Int32) (tm : Tm) (found : List Name) :
    CheckDateRotation td d file_path time_type backup_count tm found =
      (dateOperations td d file_path time_type backup_count tm found).foldl FileOp.run d := by
  rw [CheckDateRotation, dateOperations]
  by_cases hdue : due time_type tm
  · cases hnew : d.find (new_filename file_path tm) with
    | none => simp [Fires, hdue, hnew]
    | some i => simp [Fires, hdue, hnew]
  · simp [Fires, hdue]

theorem mem_backups {name : Name} :
    name ∈ backups F d ↔ name ∈ d.names ∧ F.file_name <+: name ∧ name ≠ F.file_name := by
  simp [backups, AList.mem_keys]

/-! ### What a step does -/

theorem step_checkSize {max_size : UInt32} {backup_count : Int32} {found : List Name}
    {d' : Directory Record} (h : step td F d (.checkSize max_size backup_count found) = some d') :
    found.Perm d.names.keys ∧
      d' = CheckSizeRotation td d F.file_path max_size backup_count found := by
  simp only [step] at h
  split_ifs at h with hfound
  exact ⟨hfound, (Option.some.inj h).symm⟩

theorem step_checkDate {time_type : LogRotationTimeType} {backup_count : Int32} {tm : Tm}
    {found : List Name} {d' : Directory Record}
    (h : step td F d (.checkDate time_type backup_count tm found) = some d') :
    found.Perm d.names.keys ∧
      d' = CheckDateRotation td d F.file_path time_type backup_count tm found := by
  simp only [step] at h
  split_ifs at h with hfound
  exact ⟨hfound, (Option.some.inj h).symm⟩

theorem step_create {name : Name} {d' : Directory Record}
    (h : step td F d (.create name) = some d') :
    d.names.lookup name = none ∧ d' = d.create name := by
  simp only [step] at h
  split at h
  · rename_i hnone
    exact ⟨hnone, (Option.some.inj h).symm⟩
  · exact absurd h (by simp)

/-! ### A call and its file operations -/

section Check

variable {max_size : UInt32} {backup_count : Int32} {found : List Name}

/-- A call that is not triggered does nothing. -/
theorem CheckSizeRotation_of_not_triggered
    (hno : ¬ Triggered F d (.checkSize max_size backup_count found)) :
    CheckSizeRotation td d F.file_path max_size backup_count found = d := by
  unfold CheckSizeRotation
  split
  · rfl
  · rename_i i hi
    rw [if_pos]
    by_contra hlarge
    exact hno ⟨i, hi, not_lt.mp hlarge⟩

/-- A call that is triggered runs its file operations. -/
theorem CheckSizeRotation_of_triggered
    (ht : Triggered F d (.checkSize max_size backup_count found)) :
    CheckSizeRotation td d F.file_path max_size backup_count found =
      (fileOps F.file_path backup_count.toInt (if backup_count.toInt > 0
        then movedNums td d F.file_name found else [])).foldl FileOp.run d := by
  obtain ⟨i, hi, hlarge⟩ := ht
  unfold CheckSizeRotation
  simp only [hi, if_neg (not_lt.mpr hlarge), F.split_file_path]

end Check

end SampLogCore.Rotation.Calls
