import SampLogCore.Lib.Fields
import SampLogCore.Lib.Number
import Mathlib.Data.List.AList
import Mathlib.Data.List.DropRight
import Mathlib.Logic.Function.Basic

/-!
# The log directory

Names and paths are lists of characters. A log file is given by its directory and the stem of its
name; `Logger::Logger` appends `.log`, and the rotation appends a dot and a number to that.

The directory maps names to inodes, an inode has a kind and the records written to it. Opening,
removing, renaming and truncating act on the map as the POSIX calls do: a rename replaces what the
new name stood for, and an inode keeps its records when its name goes away.
-/

namespace SampLogCore.Rotation.LogDirectory

open SampLogCore.Lib.Fields SampLogCore.Lib.Number

abbrev Name := List Char
abbrev Path := List Char

/-- `SplitFilePath`: the path up to the last `/` and what follows it; without a `/` both are the
whole path. -/
def SplitFilePath (file_path : Path) : Path × Name :=
  (if '/' ∈ file_path then (file_path.rdropWhile (· ≠ '/')).dropLast else file_path,
    file_path.rtakeWhile (· ≠ '/'))

/-- A log file, in a directory. -/
structure LogFile where
  file_dir : Path
  stem : Name
  slash_stem : '/' ∉ stem

/-- The name of a log file in its directory. -/
def LogFile.file_name (F : LogFile) : Name := F.stem ++ ['.', 'l', 'o', 'g']

/-- `_logFilePath`. -/
def LogFile.file_path (F : LogFile) : Path := F.file_dir ++ '/' :: F.file_name

/-- The lambda `filename_count` of `CheckSizeRotation`. -/
def filename_count (file_path : Path) (count : ℤ) : Path := file_path ++ '.' :: formatD count

/-- The name of the `n`-th backup, and of the log file itself for `0`. -/
def LogFile.backup (F : LogFile) : ℕ → Name
  | 0 => F.file_name
  | n + 1 => F.file_name ++ '.' :: formatD (n + 1 : ℕ)

/-- The name of the backup with this date. -/
def LogFile.dated (F : LogFile) (date : List Char) : Name := F.file_name ++ '.' :: date

/-! ### Paths -/

theorem SplitFilePath_append {dir : Path} {name : Name} (h : '/' ∉ name) :
    SplitFilePath (dir ++ '/' :: name) = (dir, name) := by
  rw [SplitFilePath, rtakeWhile_append h, rdropWhile_append h]
  simp

theorem LogFile.slash_file_name (F : LogFile) : '/' ∉ F.file_name := by
  have h := F.slash_stem
  simp [LogFile.file_name, h]

theorem LogFile.split_file_path (F : LogFile) :
    SplitFilePath F.file_path = (F.file_dir, F.file_name) :=
  SplitFilePath_append F.slash_file_name

theorem LogFile.slash_backup (F : LogFile) (n : ℕ) : '/' ∉ F.backup n := by
  cases n with
  | zero => exact F.slash_file_name
  | succ n =>
    simp only [LogFile.backup, List.mem_append, List.mem_cons, not_or]
    exact ⟨F.slash_file_name, by decide, notMem_formatD (by decide)⟩

/-- The paths of the rotation are those of the backups. -/
theorem LogFile.split_filename_count (F : LogFile) (n : ℕ) :
    SplitFilePath (filename_count F.file_path (n + 1 : ℕ)) = (F.file_dir, F.backup (n + 1)) := by
  have h : filename_count F.file_path (n + 1 : ℕ) = F.file_dir ++ '/' :: F.backup (n + 1) := by
    simp [filename_count, LogFile.file_path, LogFile.backup]
  rw [h, SplitFilePath_append (F.slash_backup _)]

theorem LogFile.prefix_backup (F : LogFile) : ∀ n, F.file_name <+: F.backup n
  | 0 => List.prefix_refl _
  | _ + 1 => List.prefix_append _ _

theorem LogFile.backup_injective (F : LogFile) {m n : ℕ} (h : F.backup m = F.backup n) :
    m = n := by
  cases m with
  | zero =>
    cases n with
    | zero => rfl
    | succ n =>
      have := congrArg List.length h
      simp only [LogFile.backup, List.length_append, List.length_cons] at this
      omega
  | succ m =>
    cases n with
    | zero =>
      have := congrArg List.length h
      simp only [LogFile.backup, List.length_append, List.length_cons] at this
      omega
    | succ n =>
      have h := List.append_cancel_left h
      exact formatD_injective (List.cons.inj h).2

/-! ### Inodes and names -/

/-- What is behind a name. -/
structure Inode (Record : Type*) where
  /-- a regular file -/
  is_reg : Bool
  /-- the records appended to it, oldest first -/
  records : List Record

variable {Record : Type*}

/-- The log directory: the inodes, the next free inode number, and the names. -/
structure Directory (Record : Type*) where
  inodes : ℕ → Inode Record
  next : ℕ
  names : AList fun _ : Name => ℕ

namespace Directory

variable (d : Directory Record)

/-- The inode number a path leads to. -/
def find (path : Path) : Option ℕ := d.names.lookup (SplitFilePath path).2

/-- The records behind a name; none when the name does not exist. -/
def contents (name : Name) : List Record :=
  match d.names.lookup name with
  | some i => (d.inodes i).records
  | none => []

/-- A new regular file. -/
def create (name : Name) : Directory Record where
  inodes := Function.update d.inodes d.next ⟨true, []⟩
  next := d.next + 1
  names := d.names.insert name d.next

/-- `std::remove` of a path. -/
def remove (path : Path) : Directory Record :=
  { d with names := d.names.erase (SplitFilePath path).2 }

/-- `std::rename`. -/
def rename (old new : Path) : Directory Record :=
  match d.find old with
  | some i =>
    { d with names := (d.names.erase (SplitFilePath old).2).insert (SplitFilePath new).2 i }
  | none => d

/-- Opening a path with `std::ofstream::app`: the inode it leads to, created when missing. -/
def openAppend (path : Path) : Directory Record × ℕ :=
  match d.find path with
  | some i => (d, i)
  | none => (d.create (SplitFilePath path).2, d.next)

/-- Opening a path with `std::ofstream::trunc`. -/
def truncate (path : Path) : Directory Record :=
  match d.find path with
  | some i => { d with inodes := Function.update d.inodes i { d.inodes i with records := [] } }
  | none => d.create (SplitFilePath path).2

/-- One record appended to an inode. -/
def append (i : ℕ) (r : Record) : Directory Record :=
  { d with inodes :=
      Function.update d.inodes i { d.inodes i with records := (d.inodes i).records ++ [r] } }

end Directory

/-! ### What the operations leave -/

/-- The inodes that the names lead to have been given out. -/
def Directory.Fresh (d : Directory Record) : Prop :=
  ∀ name i, d.names.lookup name = some i → i < d.next

variable {F : LogFile} {d : Directory Record}

theorem find_file_path : d.find F.file_path = d.names.lookup F.file_name := by
  rw [Directory.find, F.split_file_path]

theorem rename_inodes (old new : Path) : (d.rename old new).inodes = d.inodes := by
  unfold Directory.rename
  split <;> rfl

theorem contents_congr {d' : Directory Record} {name : Name} (hinodes : d'.inodes = d.inodes)
    (hname : d'.names.lookup name = d.names.lookup name) : d'.contents name = d.contents name := by
  simp only [Directory.contents, hinodes, hname]

/-- A name is there when it leads to an inode. -/
theorem mem_iff_lookup {names : AList fun _ : Name => ℕ} {name : Name} :
    name ∈ names ↔ ∃ i, names.lookup name = some i := by
  rw [← AList.lookup_isSome, Option.isSome_iff_exists]

theorem mem_of_lookup {names : AList fun _ : Name => ℕ} {name : Name} {i : ℕ}
    (h : names.lookup name = some i) : name ∈ names := mem_iff_lookup.mpr ⟨i, h⟩

/-- A name that is there after an erase was there before. -/
theorem lookup_of_erase {names : AList fun _ : Name => ℕ} {name n : Name} {i : ℕ}
    (h : (names.erase name).lookup n = some i) : names.lookup n = some i := by
  by_cases hn : n = name
  · rw [hn, AList.lookup_erase] at h
    exact absurd h (by simp)
  · rwa [AList.lookup_erase_ne hn] at h

namespace Directory.Fresh

variable (h : d.Fresh)
include h

theorem insert {name : Name} {j next : ℕ} {inodes : ℕ → Inode Record} (hnext : d.next ≤ next)
    (hj : j < next) :
    Directory.Fresh { inodes := inodes, next := next, names := d.names.insert name j } := by
  intro n i hi
  by_cases hn : n = name
  · rw [hn, AList.lookup_insert, Option.some.injEq] at hi
    exact hi ▸ hj
  · rw [AList.lookup_insert_ne hn] at hi
    exact (h n i hi).trans_le hnext

theorem erase (name : Name) : Directory.Fresh { d with names := d.names.erase name } :=
  fun n i hi => h n i (lookup_of_erase hi)

theorem create (name : Name) : (d.create name).Fresh :=
  h.insert (Nat.le_succ _) (Nat.lt_succ_self _)

theorem rename (old new : Path) : (d.rename old new).Fresh := by
  unfold Directory.rename
  split
  · rename_i i hi
    exact (h.erase _).insert (le_refl _) (h _ _ hi)
  · exact h

end Directory.Fresh

section Regular

variable {k : ℕ} (h : (d.inodes k).is_reg = true)
include h

/-- What is in a file does not matter for its kind. -/
theorem reg_update (i : ℕ) (records : List Record) :
    (Function.update d.inodes i { d.inodes i with records := records } k).is_reg = true := by
  rw [Function.update_apply]
  split_ifs with hki
  · exact hki ▸ h
  · exact h

theorem reg_append (i : ℕ) (r : Record) : ((d.append i r).inodes k).is_reg = true :=
  reg_update h i _

theorem reg_create (name : Name) : ((d.create name).inodes k).is_reg = true := by
  simp only [Directory.create, Function.update_apply]
  split_ifs
  · rfl
  · exact h

end Regular

end SampLogCore.Rotation.LogDirectory
