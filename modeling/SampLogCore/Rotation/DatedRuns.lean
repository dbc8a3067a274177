import SampLogCore.Rotation.Calls
import SampLogCore.Rotation.NewestBackups

/-!
# The backups along a run by date

What every event of a run does with the dates of the backups, as long as other programs leave the
names of the log alone: a call that fires keeps the newest of them and adds the present minute when
there is a log file, and everything else leaves them as they are.
-/

namespace SampLogCore.Rotation.DatedRuns

open SampLogCore.Lib.Retention SampLogCore.Config.Settings SampLogCore.Rotation.LogDirectory
  SampLogCore.Rotation.LocalTime SampLogCore.Rotation.DateRotation SampLogCore.Rotation.Calls
open SampLogCore.Rotation.SizeRotation hiding Event step system

/-- The backups have the dates `D`, and the log file is a regular file like them. -/
structure Orderly (F : LogFile) (d : Directory Record) (D : Finset (List Char)) : Prop extends
    Dated F d D where
  log_reg : ∀ i, d.names.lookup F.file_name = some i → (d.inodes i).is_reg = true

variable {td : Tinydir} {F : LogFile} {d : Directory Record} {D : Finset (List Char)}
  {time_type : LogRotationTimeType} {backup_count : Int32} {tm : Tm} {found : List Name}

theorem Dated.backups_eq (h : Dated F d D) : backups F d = D.image F.dated := by
  ext name
  rw [mem_backups, Finset.mem_image]
  constructor
  · rintro ⟨hmem, hprefix, hne⟩
    obtain ⟨date, hdate, rfl⟩ := (h.names name hprefix hne).mp hmem
    exact ⟨date, hdate, rfl⟩
  · rintro ⟨date, hdate, rfl⟩
    exact ⟨h.mem_names.mpr hdate, prefix_dated date, dated_ne_file_name date⟩

theorem Dated.card_backups (h : Dated F d D) : (backups F d).card = D.card := by
  rw [Dated.backups_eq h, Finset.card_image_of_injective _ fun _ _ => dated_injective]

/-- Only the names of the backups and their inodes matter. -/
theorem Dated.frame {d' : Directory Record} (h : Dated F d D)
    (hnames : ∀ name, F.file_name <+: name → name ≠ F.file_name →
      d'.names.lookup name = d.names.lookup name)
    (hreg : ∀ i, (d.inodes i).is_reg = true → (d'.inodes i).is_reg = true) : Dated F d' D where
  names name hprefix hne := by
    rw [← AList.lookup_isSome, hnames name hprefix hne, AList.lookup_isSome,
      h.names name hprefix hne]
  dot := h.dot
  slash := h.slash
  reg date hdate i hi := by
    rw [hnames _ (prefix_dated date) (dated_ne_file_name date)] at hi
    exact hreg i (h.reg date hdate i hi)

namespace Orderly

variable (h : Orderly F d D)
include h

theorem frame {d' : Directory Record}
    (hnames : ∀ name, F.file_name <+: name → d'.names.lookup name = d.names.lookup name)
    (hreg : ∀ i, (d.inodes i).is_reg = true → (d'.inodes i).is_reg = true) : Orderly F d' D where
  toDated := Dated.frame h.toDated (fun name hprefix _ => hnames name hprefix) hreg
  log_reg i hi := by
    rw [hnames _ (List.prefix_refl _)] at hi
    exact hreg i (h.log_reg i hi)

theorem append (i : ℕ) (r : Record) : Orderly F (d.append i r) D :=
  h.frame (fun _ _ => rfl) fun _ hk => reg_append hk i r

/-- A new file with the name of the log, or with a name that has nothing to do with it. -/
theorem create {name : Name} (hname : F.file_name <+: name → name = F.file_name) :
    Orderly F (d.create name) D where
  toDated := by
    refine Dated.frame h.toDated (fun n hprefix hne => AList.lookup_insert_ne ?_)
      fun _ hk => reg_create hk _
    rintro rfl
    exact hne (hname hprefix)
  log_reg i hi := by
    simp only [Directory.create, Function.update_apply] at hi ⊢
    split_ifs with hin
    · rfl
    · by_cases hlog : name = F.file_name
      · rw [hlog, AList.lookup_insert, Option.some.injEq] at hi
        exact absurd hi.symm hin
      · rw [AList.lookup_insert_ne (Ne.symm hlog)] at hi
        exact h.log_reg i hi

theorem openAppend : Orderly F (d.openAppend F.file_path).1 D := by
  unfold Directory.openAppend
  split
  · exact h
  · rw [F.split_file_path]
    exact h.create fun _ => rfl

theorem truncate : Orderly F (d.truncate F.file_path) D := by
  unfold Directory.truncate
  split
  · exact h.frame (fun _ _ => rfl) fun _ hk => reg_update hk _ _
  · rw [F.split_file_path]
    exact h.create fun _ => rfl

theorem delete {name : Name} (hname : ¬ F.file_name <+: name) :
    Orderly F { d with names := d.names.erase name } D := by
  refine h.frame (fun n hprefix => AList.lookup_erase_ne ?_) fun _ hk => hk
  rintro rfl
  exact hname hprefix

section Fires

variable (hfires : Fires d F.file_path time_type tm) (hfound : found.Perm d.names.keys)

include hfires

/-- With no backup to keep the log file is cleared. -/
theorem check_zero (h0 : backup_count.toInt = 0) :
    Orderly F (CheckDateRotation td d F.file_path time_type backup_count tm found) D := by
  rw [CheckDateRotation_of_zero hfires h0]
  exact h.truncate

/-- The present minute is a new date. -/
theorem format_notMem : tm.format ∉ D := by
  intro hmem
  have hnew := hfires.2
  rw [find_new_filename, AList.lookup_eq_none] at hnew
  exact hnew (h.mem_names.mpr hmem)

variable (h1 : 1 ≤ backup_count.toInt)
include hfound h1

/-- Without a log file the newest `backup_count - 1` backups stay. -/
theorem check_missing (hlog : d.find F.file_path = none) :
    Orderly F (CheckDateRotation td d F.file_path time_type backup_count tm found)
      (newest (backup_count.toInt.toNat - 1) D) where
  names name hprefix hne := by
    rw [mem_iff_lookup]
    simp only [h.toDated.check_lookup_none hfires h1 hfound hlog]
    constructor
    · rintro ⟨i, hi, hstay⟩
      have hmem : name ∈ d.names := mem_of_lookup hi
      obtain ⟨date, hdate, rfl⟩ := (h.names name hprefix hne).mp hmem
      exact ⟨date, hstay date hdate rfl, rfl⟩
    · rintro ⟨date, hdate, rfl⟩
      have hmem := h.mem_names.mpr (mem_newest.mp hdate).1
      obtain ⟨i, hi⟩ := mem_iff_lookup.mp hmem
      exact ⟨i, hi, fun date' _ heq => dated_injective heq ▸ hdate⟩
  dot date hdate := h.dot date (mem_newest.mp hdate).1
  slash date hdate := h.slash date (mem_newest.mp hdate).1
  reg date hdate i hi := by
    rw [CheckDateRotation_inodes h1]
    exact h.reg date (mem_newest.mp hdate).1 i
      ((h.toDated.check_lookup_none hfires h1 hfound hlog).mp hi).1
  log_reg i hi := by
    rw [CheckDateRotation_inodes h1]
    exact h.log_reg i ((h.toDated.check_lookup_none hfires h1 hfound hlog).mp hi).1

/-- With a log file the present minute joins them. -/
theorem check_log {j : ℕ} (hlog : d.find F.file_path = some j) :
    Orderly F (CheckDateRotation td d F.file_path time_type backup_count tm found)
      (insert tm.format (newest (backup_count.toInt.toNat - 1) D)) where
  names name hprefix hne := by
    rw [mem_iff_lookup]
    simp only [h.toDated.check_lookup_some hfires h1 hfound hlog, Finset.mem_insert]
    constructor
    · rintro ⟨i, ⟨rfl, -⟩ | ⟨-, -, hi, hstay⟩⟩
      · exact ⟨tm.format, .inl rfl, rfl⟩
      · have hmem : name ∈ d.names := mem_of_lookup hi
        obtain ⟨date, hdate, rfl⟩ := (h.names name hprefix hne).mp hmem
        exact ⟨date, .inr (hstay date hdate rfl), rfl⟩
    · rintro ⟨date, rfl | hdate, rfl⟩
      · exact ⟨j, .inl ⟨rfl, rfl⟩⟩
      · have hmem := h.mem_names.mpr (mem_newest.mp hdate).1
        obtain ⟨i, hi⟩ := mem_iff_lookup.mp hmem
        refine ⟨i, .inr ⟨?_, hne, hi, fun date' _ heq => dated_injective heq ▸ hdate⟩⟩
        intro heq
        have hnew := hfires.2
        rw [find_new_filename, ← heq, hi] at hnew
        exact absurd hnew (by simp)
  dot date hdate := by
    rcases Finset.mem_insert.mp hdate with rfl | hdate
    · exact dot_format tm
    · exact h.dot date (mem_newest.mp hdate).1
  slash date hdate := by
    rcases Finset.mem_insert.mp hdate with rfl | hdate
    · exact slash_format tm
    · exact h.slash date (mem_newest.mp hdate).1
  reg date hdate i hi := by
    rw [CheckDateRotation_inodes h1]
    rcases (h.toDated.check_lookup_some hfires h1 hfound hlog).mp hi with ⟨-, rfl⟩ | ⟨hne, -, hi, -⟩
    · rw [find_file_path] at hlog
      exact h.log_reg i hlog
    · rcases Finset.mem_insert.mp hdate with rfl | hdate
      · exact absurd rfl hne
      · exact h.reg date (mem_newest.mp hdate).1 i hi
  log_reg i hi := by
    rcases (h.toDated.check_lookup_some hfires h1 hfound hlog).mp hi with ⟨heq, -⟩ | ⟨-, hne, -, -⟩
    · exact absurd heq.symm (dated_ne_file_name _)
    · exact absurd rfl hne

end Fires

end Orderly

/-! ### One step -/

/-- No event of the run is a rotation by size. -/
def ByDate : Event → Prop
  | .checkSize _ _ _ => False
  | _ => True

/-- No `BackupCount` is negative. -/
def Counts (e : Event) : Prop := ∀ n, e.count = some n → 0 ≤ n

/-- What a step does with the dates of the backups. -/
inductive DateStep (F : LogFile) (d : Directory Record) (D : Finset (List Char)) (e : Event) :
    Finset (List Char) → Prop
  /-- no rotation -/
  | same (h : ¬ Triggered F d e) : DateStep F d D e D
  /-- the log file is cleared -/
  | cleared (h : Triggered F d e) (h0 : e.count = some 0) : DateStep F d D e D
  /-- a rotation without a log file -/
  | quiet {n : ℤ} (h : Triggered F d e) (hn : e.count = some n) (h1 : 1 ≤ n)
      (hlog : d.find F.file_path = none) : DateStep F d D e (newest (n.toNat - 1) D)
  /-- the log file becomes a backup -/
  | moved {n : ℤ} {j : ℕ} {date : List Char} (h : Triggered F d e) (hn : e.count = some n)
      (h1 : 1 ≤ n) (hlog : d.find F.file_path = some j) (hnew : date ∉ D) :
      DateStep F d D e (insert date (newest (n.toNat - 1) D))

/-- **Every step of a run by date** is one of these. -/
theorem Orderly.step (h : Orderly F d D) {e : Event} {d' : Directory Record}
    (hstep : step td F d e = some d') (hund : Undisturbed F e) (hdate : ByDate e)
    (hcount : Counts e) : ∃ D', Orderly F d' D' ∧ DateStep F d D e D' := by
  cases e with
  | log r =>
    simp only [Calls.step, Option.some.injEq] at hstep
    exact ⟨D, hstep ▸ h.openAppend.append _ r, .same fun ht => ht⟩
  | checkSize => exact absurd hdate id
  | checkDate time_type backup_count tm found =>
    obtain ⟨hfound, rfl⟩ := step_checkDate hstep
    by_cases hfires : Fires d F.file_path time_type tm
    · by_cases h0 : backup_count.toInt = 0
      · exact ⟨D, h.check_zero hfires h0, .cleared hfires (congrArg some h0)⟩
      have h1 : 1 ≤ backup_count.toInt := by
        have := hcount _ rfl
        omega
      cases hlog : d.find F.file_path with
      | none => exact ⟨_, h.check_missing hfires hfound h1 hlog, .quiet hfires rfl h1 hlog⟩
      | some j =>
        exact ⟨_, h.check_log hfires hfound h1 hlog,
          .moved hfires rfl h1 hlog (h.format_notMem hfires)⟩
    · rw [CheckDateRotation_of_not_fires hfires]
      exact ⟨D, h, .same hfires⟩
  | create name =>
    obtain ⟨-, rfl⟩ := step_create hstep
    exact ⟨D, h.create fun hprefix => absurd hprefix hund, .same fun ht => ht⟩
  | delete name =>
    simp only [Calls.step, Option.some.injEq] at hstep
    exact ⟨D, hstep ▸ h.delete hund, .same fun ht => ht⟩

/-! ### Three nights

A record is logged each day, and the log file is rotated at midnight. -/

open SampLogCore.Rotation.History (logA start)
open SampLogCore.Rotation.NewestBackups (january first_day second_day third_day)

/-- The rotation at midnight. -/
def midnight (tm : Tm) (backup_count : Int32) (d : Directory Record) : Event :=
  .checkDate .DAILY backup_count tm d.names.keys.reverse

/-- What it does when it finds these dates. -/
def rotatedAt (tm : Tm) (backup_count : ℤ) (dates : List (List Char)) (d : Directory Record) :
    Directory Record :=
  (dateOps logA.file_path backup_count tm dates).foldl FileOp.run d

theorem step_midnight {dates : List (List Char)} (hfires : Fires d logA.file_path .DAILY tm)
    (h1 : 0 < backup_count.toInt) (hdates : d.names.keys.reverse.filterMap
      (dateOf Tinydir.strrchr d logA.file_name) = dates) (hsorted : dates.Pairwise (· ≤ ·)) :
    step Tinydir.strrchr logA d (midnight tm backup_count d) =
      some (rotatedAt tm backup_count.toInt dates d) := by
  have hfound : logfile_dates Tinydir.strrchr d (SplitFilePath logA.file_path).2
      d.names.keys.reverse = dates := by
    rw [logA.split_file_path, logfile_dates, hdates]
    exact List.mergeSort_of_pairwise (hsorted.imp fun h => by simpa using h)
  have hnew : ¬ (d.find (new_filename logA.file_path tm)).isSome = true := by simp [hfires.2]
  rw [midnight, step, if_pos (List.reverse_perm _), CheckDateRotation,
    if_neg (not_not.mpr hfires.1), if_neg hnew, if_pos h1, hfound]
  rfl

/-- The first record is logged. -/
def firstEvening : Directory Record := (start.dir.create logA.file_name).append 0 [65]

def firstNight : Directory Record := rotatedAt (january 1 first_day) 2 [] firstEvening

def secondEvening : Directory Record := (firstNight.create logA.file_name).append 1 [66]

def secondNight : Directory Record :=
  rotatedAt (january 2 second_day) 2 [(january 1 first_day).format] secondEvening

def thirdEvening : Directory Record := (secondNight.create logA.file_name).append 2 [67]

/-- With `n` backups to keep. -/
def thirdNight (n : ℤ) : Directory Record :=
  rotatedAt (january 3 third_day) n [(january 1 first_day).format, (january 2 second_day).format]
    thirdEvening

theorem step_firstNight : step Tinydir.strrchr logA firstEvening
    (midnight (january 1 first_day) 2 firstEvening) = some firstNight :=
  step_midnight (by decide) (by decide) (by decide) (by decide)

theorem step_secondNight : step Tinydir.strrchr logA secondEvening
    (midnight (january 2 second_day) 2 secondEvening) = some secondNight :=
  step_midnight (by decide) (by decide) (by decide) (by decide)

theorem step_thirdNight {n : Int32} (hn : 0 < n.toInt) : step Tinydir.strrchr logA thirdEvening
    (midnight (january 3 third_day) n thirdEvening) = some (thirdNight n.toInt) :=
  step_midnight (by decide) hn (by decide) (by decide)

end SampLogCore.Rotation.DatedRuns
