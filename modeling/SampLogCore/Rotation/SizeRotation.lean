import SampLogCore.Lib.Transition
import SampLogCore.Rotation.LogDirectory
import Mathlib.Algebra.BigOperators.Group.List.Basic

/-!
# Size rotation

`LogRotationManager::Process` calls `CheckSizeRotation` on a log file again and again, while the
worker of `LogManager` appends records to it with `Logger::WriteLogString`. Neither takes a lock
that the other one takes, so their file operations interleave freely:

* the writer opens the file in append mode and then appends one record to the inode it got;
* the rotator checks the size, lists the directory, and then runs the file operations of its loop
  one by one (`renameLoop`), the last of them on the log file itself.

Other programs may create and delete files in the directory at any time. The state records the
history: what the writer has appended, and what was in the files that `std::remove` deleted.
-/

namespace SampLogCore.Rotation.SizeRotation

open SampLogCore.Lib.Fields SampLogCore.Lib.Transition SampLogCore.Lib.Number
  SampLogCore.Rotation.LogDirectory

/-- The bytes of one line of the log. -/
abbrev Record := List UInt8

/-- What the code relies on in the directory library: the extension of a file is what follows the
last dot of its name. -/
structure Tinydir where
  extension : Name → List Char
  extension_append : ∀ stem ext, '.' ∉ ext → extension (stem ++ '.' :: ext) = ext

/-- The text after the last dot, if there is one. -/
def Tinydir.strrchr : Tinydir where
  extension name := if '.' ∈ name then name.rtakeWhile (· ≠ '.') else []
  extension_append stem ext h := by
    rw [rtakeWhile_append h]
    simp

/-- A file operation of the rotator. -/
inductive FileOp
  | remove (path : Path)
  | rename (old new : Path)
  | truncate (path : Path)

/-- Where the rotator is. -/
inductive RotatorPc
  /-- between two rotations -/
  | idle
  /-- at the loop over the directory -/
  | listing (backup_count : ℤ)
  /-- at the first of these operations, the ones its loops have still to do -/
  | moving (ops : List FileOp)

/-- The directory, the writer, the rotator, and the history. -/
structure State where
  dir : Directory Record
  /-- the inode the writer holds open -/
  opened : Option ℕ
  rotator : RotatorPc
  /-- history: the records the writer has appended, in order -/
  written : List Record
  /-- history: the records in the files deleted by `std::remove`, in order -/
  removed : List Record

/-- A choice of the scheduler. -/
inductive Event
  /-- `std::ofstream logfile(_logFilePath, out | app)` -/
  | openLog
  /-- `logfile << … << std::flush`, and the end of `WriteLogString` -/
  | write (r : Record)
  /-- `CheckSizeRotation` up to the size check -/
  | checkSize (max_size : UInt32) (backup_count : Int32)
  /-- the loop over the directory, which finds the names in this order -/
  | list (found : List Name)
  /-- the next file operation of the rotator -/
  | fileOp
  /-- another program creates a file -/
  | create (name : Name)
  /-- another program deletes a file -/
  | delete (name : Name)

/-- `file.tellg()` at the end of a file. -/
def fileSize (records : List Record) : ℕ := (records.map List.length).sum

variable (td : Tinydir) (F : LogFile)

/-- One round of the loop over the directory: the number it pushes to `moved_nums`, if any. -/
def movedNum (d : Directory Record) (file_name fn : Name) : Option ℤ :=
  match d.names.lookup fn with
  | none => none
  | some i =>
    if (d.inodes i).is_reg = false then none
    else if ¬ file_name <+: fn then none
    else
      match strtol (td.extension fn) with
      | (num, []) => some num
      | (_, _ :: _) => none

/-- `moved_nums`, sorted with `std::greater`. -/
def movedNums (d : Directory Record) (file_name : Name) (found : List Name) : List ℤ :=
  (found.filterMap (movedNum td d file_name)).mergeSort (· ≥ ·)

/-- The loop over `moved_nums`, from `count` on. -/
def renameLoop (file_path : Path) (backup_count : ℤ) : ℤ → List ℤ → List FileOp
  | _, [] => []
  | count, n :: ns =>
    (if count ≥ backup_count then .remove (filename_count file_path n)
      else .rename (filename_count file_path n) (filename_count file_path (cint (n + 1)))) ::
        renameLoop file_path backup_count (count - 1) ns

/-- What happens to the log file after the loop. -/
def lastOp (file_path : Path) (backup_count : ℤ) : FileOp :=
  if backup_count ≠ 0 then .rename file_path (filename_count file_path 1) else .truncate file_path

/-- All file operations of a rotation that found `moved_nums`. -/
def fileOps (file_path : Path) (backup_count : ℤ) (moved_nums : List ℤ) : List FileOp :=
  renameLoop file_path backup_count (cint moved_nums.length) moved_nums ++
    [lastOp file_path backup_count]

/-- A file operation on the directory. -/
def FileOp.run (d : Directory Record) : FileOp → Directory Record
  | remove path => d.remove path
  | rename old new => d.rename old new
  | truncate path => d.truncate path

/-- The records that a file operation deletes with their file. -/
def FileOp.deleted (d : Directory Record) : FileOp → List Record
  | remove path => d.contents (SplitFilePath path).2
  | rename _ _ => []
  | truncate _ => []

/-- The transition function: `none` when the choice is not possible. -/
def step (s : State) : Event → Option State
  | .openLog =>
    match s.opened with
    | none =>
      let (dir, i) := s.dir.openAppend F.file_path
      some { s with dir := dir, opened := some i }
    | some _ => none
  | .write r =>
    match s.opened with
    | some i =>
      some { s with dir := s.dir.append i r, opened := none, written := s.written ++ [r] }
    | none => none
  | .checkSize max_size backup_count =>
    match s.rotator with
    | .idle =>
      match s.dir.find F.file_path with
      | none => some s
      | some i =>
        if fileSize (s.dir.inodes i).records < (max_size * 1000).toNat then some s
        else if backup_count.toInt > 0 then
          some { s with rotator := .listing backup_count.toInt }
        else some { s with rotator := .moving (fileOps F.file_path backup_count.toInt []) }
    | _ => none
  | .list found =>
    match s.rotator with
    | .listing backup_count =>
      if found.Perm s.dir.names.keys then
        some { s with rotator := .moving (fileOps F.file_path backup_count
          (movedNums td s.dir (SplitFilePath F.file_path).2 found)) }
      else none
    | _ => none
  | .fileOp =>
    match s.rotator with
    | .moving (op :: ops) =>
      some { s with
        dir := op.run s.dir
        rotator := if ops = [] then .idle else .moving ops
        removed := s.removed ++ op.deleted s.dir }
    | _ => none
  | .create name =>
    match s.dir.names.lookup name with
    | none => some { s with dir := s.dir.create name }
    | some _ => none
  | .delete name => some { s with dir := { s.dir with names := s.dir.names.erase name } }

/-- Nothing is written or open, the rotator sleeps, and no name begins with that of the log. -/
def Init (s : State) : Prop :=
  s.opened = none ∧ s.rotator = .idle ∧ s.written = [] ∧ s.removed = [] ∧
    (∀ name i, s.dir.names.lookup name = some i → ¬ F.file_name <+: name ∧ i < s.dir.next)

/-- The writer, the rotator and the other programs. -/
def system : System State Event := ofStep (Init F) (step td F)

/-- At least one backup is kept, and other programs leave the names of the log alone. -/
def Allowed (_ : State) : Event → Prop
  | .checkSize _ backup_count => 1 ≤ backup_count.toInt
  | .create name => ¬ F.file_name <+: name
  | .delete name => ¬ F.file_name <+: name
  | _ => True

end SampLogCore.Rotation.SizeRotation
