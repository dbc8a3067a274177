import SampLogCore.Rotation.DateRotation
import SampLogCore.Rotation.History

/-!
# A date rotation keeps the newest backups

In a directory where the names of the log are those of the log file and of backups with stamps, a
call that fires later than all of them leaves the newest backups and the one of this minute.
-/

namespace SampLogCore.Rotation.NewestBackups

open SampLogCore.Lib.Retention SampLogCore.Config.Settings SampLogCore.Rotation.LogDirectory
  SampLogCore.Rotation.LocalTime SampLogCore.Rotation.SizeRotation
  SampLogCore.Rotation.DateRotation SampLogCore.Rotation.History

/-- The names that begin with that of the log are the log file and its backups with the stamps `D`,
which are regular files. -/
structure Stamped (F : LogFile) (d : Directory Record) (D : Finset Stamp) : Prop where
  names : ∀ name, F.file_name <+: name →
    (name ∈ d.names ↔ name = F.file_name ∨ ∃ s ∈ D, name = F.dated s.text)
  reg : ∀ s ∈ D, ∀ i, d.names.lookup (F.dated s.text) = some i → (d.inodes i).is_reg = true

variable {td : Tinydir} {F : LogFile} {d : Directory Record} {D : Finset Stamp}

theorem Stamped.find_log (h : Stamped F d D) : ∃ j, d.find F.file_path = some j := by
  rw [find_file_path, ← mem_iff_lookup]
  exact (h.names _ (List.prefix_refl _)).mpr (.inl rfl)

theorem Stamped.mem_names (h : Stamped F d D) {s : Stamp} :
    F.dated s.text ∈ d.names ↔ s ∈ D := by
  rw [h.names _ (prefix_dated _)]
  constructor
  · rintro (heq | ⟨s', hs', heq⟩)
    · exact absurd heq (dated_ne_file_name _)
    · rw [Stamp.text_injective (dated_injective heq)]
      exact hs'
  · exact fun hs => .inr ⟨s, hs, rfl⟩

/-- Stamps are dates. -/
theorem Stamped.dated (h : Stamped F d D) : Dated F d (D.map Stamp.textEmbedding.toEmbedding) where
  names name hprefix hne := by
    rw [h.names name hprefix]
    simp [hne]
  dot date hdate := by
    obtain ⟨s, -, rfl⟩ := Finset.mem_map.mp hdate
    exact notMem_stamp (by decide) (by decide)
  slash date hdate := by
    obtain ⟨s, -, rfl⟩ := Finset.mem_map.mp hdate
    exact notMem_stamp (by decide) (by decide)
  reg date hdate := by
    obtain ⟨s, hs, rfl⟩ := Finset.mem_map.mp hdate
    exact h.reg s hs

variable {time_type : LogRotationTimeType} {backup_count : Int32} {tm : Tm} {found : List Name}

section Later

variable (h : Stamped F d D) (h1 : 1 ≤ backup_count.toInt) (hfound : found.Perm d.names.keys)
  (hdue : due time_type tm)
  (hyear : 1000 ≤ tm.tm_year + 1900 ∧ tm.tm_year + 1900 < 10000)
  (hlater : ∀ s ∈ D, s < tm.stamp hyear)

include h hdue hlater

/-- There is no backup of this minute yet. -/
theorem Stamped.fires : Fires d F.file_path time_type tm := by
  refine ⟨hdue, ?_⟩
  rw [find_new_filename, AList.lookup_eq_none, tm.format_eq_text hyear, h.mem_names]
  exact fun ht => lt_irrefl _ (hlater _ ht)

include h1 hfound

/-- Where the names lead after the call. -/
theorem Stamped.lookup_check {j : ℕ} (hj : d.find F.file_path = some j) {name : Name} {i : ℕ} :
    (CheckDateRotation td d F.file_path time_type backup_count tm found).names.lookup name =
        some i ↔
      (name = F.dated (tm.stamp hyear).text ∧ i = j) ∨
        (name ≠ F.dated (tm.stamp hyear).text ∧ name ≠ F.file_name ∧
          d.names.lookup name = some i ∧ ∀ s ∈ D, name = F.dated s.text →
            s ∈ newest (backup_count.toInt.toNat - 1) D) := by
  have hkept : (∀ date ∈ D.map Stamp.textEmbedding.toEmbedding, name = F.dated date →
      date ∈ newest (backup_count.toInt.toNat - 1) (D.map Stamp.textEmbedding.toEmbedding)) ↔
      ∀ s ∈ D, name = F.dated s.text → s ∈ newest (backup_count.toInt.toNat - 1) D := by
    rw [newest_map]
    constructor
    · intro hall s hs hname
      obtain ⟨s', hs', heq⟩ := Finset.mem_map.mp (hall _ (Finset.mem_map.mpr ⟨s, hs, rfl⟩) hname)
      exact Stamp.text_injective heq ▸ hs'
    · intro hall date hdate hname
      obtain ⟨s, hs, rfl⟩ := Finset.mem_map.mp hdate
      exact Finset.mem_map.mpr ⟨s, hall s hs hname, rfl⟩
  rw [← hkept, ← tm.format_eq_text hyear]
  exact h.dated.check_lookup_some (h.fires hdue hyear hlater) h1 hfound hj

/-- A name that is not the log file's, the new backup's or a deleted one leads where it led. -/
theorem Stamped.lookup_same {name : Name} (hnew : name ≠ F.dated (tm.stamp hyear).text)
    (hold : name ≠ F.file_name)
    (hkept : ∀ s ∈ D, name = F.dated s.text → s ∈ newest (backup_count.toInt.toNat - 1) D) :
    (CheckDateRotation td d F.file_path time_type backup_count tm found).names.lookup name =
      d.names.lookup name := by
  obtain ⟨j, hj⟩ := h.find_log
  ext i
  rw [h.lookup_check h1 hfound hdue hyear hlater hj]
  constructor
  · rintro (⟨heq, -⟩ | ⟨-, -, hi, -⟩)
    · exact absurd heq hnew
    · exact hi
  · intro hi
    exact .inr ⟨hnew, hold, hi, hkept⟩

/-- The newest backups are among those names. -/
theorem Stamped.lookup_kept {s : Stamp} (hs : s ∈ newest (backup_count.toInt.toNat - 1) D) :
    (CheckDateRotation td d F.file_path time_type backup_count tm found).names.lookup
      (F.dated s.text) = d.names.lookup (F.dated s.text) := by
  refine h.lookup_same h1 hfound hdue hyear hlater ?_ (dated_ne_file_name _) ?_
  · intro heq
    rw [Stamp.text_injective (dated_injective heq)] at hs
    exact lt_irrefl _ (hlater _ (mem_newest.mp hs).1)
  · intro s' _ heq
    exact Stamp.text_injective (dated_injective heq) ▸ hs

/-- The names of the log after the call. -/
theorem Stamped.mem_names_check {name : Name} (hname : F.file_name <+: name) :
    name ∈ (CheckDateRotation td d F.file_path time_type backup_count tm found).names ↔
      ∃ s ∈ insert (tm.stamp hyear) (newest (backup_count.toInt.toNat - 1) D),
        name = F.dated s.text := by
  obtain ⟨j, hj⟩ := h.find_log
  rw [mem_iff_lookup]
  constructor
  · rintro ⟨i, hi⟩
    rcases (h.lookup_check h1 hfound hdue hyear hlater hj).mp hi with
      ⟨rfl, -⟩ | ⟨-, hne, hi, hkept⟩
    · exact ⟨_, Finset.mem_insert_self _ _, rfl⟩
    · have hmem : name ∈ d.names := mem_of_lookup hi
      obtain ⟨s, hs, rfl⟩ := ((h.names name hname).mp hmem).resolve_left hne
      exact ⟨s, Finset.mem_insert_of_mem (hkept s hs rfl), rfl⟩
  · rintro ⟨s, hs, rfl⟩
    rcases Finset.mem_insert.mp hs with rfl | hs
    · exact ⟨j, (h.lookup_check h1 hfound hdue hyear hlater hj).mpr (.inl ⟨rfl, rfl⟩)⟩
    · rw [h.lookup_kept h1 hfound hdue hyear hlater hs, ← mem_iff_lookup, h.mem_names]
      exact (mem_newest.mp hs).1

/-- The log file is gone. -/
theorem Stamped.file_name_notMem :
    F.file_name ∉ (CheckDateRotation td d F.file_path time_type backup_count tm found).names := by
  rw [h.mem_names_check h1 hfound hdue hyear hlater (List.prefix_refl _)]
  rintro ⟨s, -, heq⟩
  exact dated_ne_file_name _ heq.symm

end Later

/-- **The backups after a date rotation** are that of this minute and the newest others. -/
theorem date_rotation_keeps_newest (h : Stamped F d D) (h1 : 1 ≤ backup_count.toInt)
    (hfound : found.Perm d.names.keys) (hdue : due time_type tm)
    (hyear : 1000 ≤ tm.tm_year + 1900 ∧ tm.tm_year + 1900 < 10000)
    (hlater : ∀ s ∈ D, s < tm.stamp hyear) :
    let d' := CheckDateRotation td d F.file_path time_type backup_count tm found
    let t := tm.stamp hyear
    let kept := newest (backup_count.toInt.toNat - 1) D
    (∀ name, F.file_name <+: name →
      (name ∈ d'.names ↔ ∃ s ∈ insert t kept, name = F.dated s.text)) ∧
    kept.card = min (backup_count.toInt.toNat - 1) D.card ∧
    d'.contents (F.dated t.text) = d.contents F.file_name ∧
    (∀ s ∈ kept, d'.contents (F.dated s.text) = d.contents (F.dated s.text)) ∧
    F.file_name ∉ d'.names ∧
    ∀ name, ¬ F.file_name <+: name →
      d'.names.lookup name = d.names.lookup name ∧ d'.contents name = d.contents name := by
  intro d' t kept
  obtain ⟨j, hj⟩ := h.find_log
  have hlookup : ∀ name i, d'.names.lookup name = some i ↔ _ := fun name i =>
    h.lookup_check h1 hfound hdue hyear hlater hj
  have hcontents : ∀ {name}, d'.names.lookup name = d.names.lookup name →
      d'.contents name = d.contents name :=
    contents_congr (CheckDateRotation_inodes h1)
  refine ⟨?_, card_newest _ _, ?_, ?_, ?_, ?_⟩
  · exact fun name hprefix => h.mem_names_check h1 hfound hdue hyear hlater hprefix
  · have hnew : d'.names.lookup (F.dated t.text) = some j := (hlookup _ _).mpr (.inl ⟨rfl, rfl⟩)
    have hinodes : d'.inodes = d.inodes := CheckDateRotation_inodes h1
    rw [find_file_path] at hj
    simp only [Directory.contents, hnew, hj, hinodes]
  · intro s hs
    exact hcontents (h.lookup_kept h1 hfound hdue hyear hlater hs)
  · exact h.file_name_notMem h1 hfound hdue hyear hlater
  · intro name hprefix
    have hname : d'.names.lookup name = d.names.lookup name := by
      refine h.lookup_same h1 hfound hdue hyear hlater ?_ ?_ ?_
      · rintro rfl
        exact hprefix (prefix_dated _)
      · rintro rfl
        exact hprefix (List.prefix_refl _)
      · rintro s - rfl
        exact absurd (prefix_dated _) hprefix
    exact ⟨hname, hcontents hname⟩

/-! ### A night in January -/

/-- Midnight on the `n`-th of January 2024. -/
def january (n : ℕ) (h : 1 ≤ n ∧ n ≤ 31) : Tm :=
  ⟨0, 0, n, 0, 124, n % 7, by omega, by omega, h.1, h.2, by omega, by omega⟩

theorem first_day : 1 ≤ 1 ∧ 1 ≤ 31 := by omega

theorem second_day : 1 ≤ 2 ∧ 2 ≤ 31 := by omega

theorem third_day : 1 ≤ 3 ∧ 3 ≤ 31 := by omega

/-- Its stamp. -/
def januaryStamp (n : ℕ) (h : 1 ≤ n ∧ n ≤ 31) : Stamp :=
  ⟨2024, 1, n, 0, 0, by omega, by omega, by omega, h.1, h.2, by omega, by omega⟩

/-- The log file, with one record, and the backups of the first and the second of January. -/
def night : Directory Record :=
  (((start.dir.create
    (logA.dated (januaryStamp 1 (by omega)).text)).create
    (logA.dated (januaryStamp 2 (by omega)).text)).create logA.file_name).append 2 [65]

theorem stamped_night :
    Stamped logA night {januaryStamp 1 (by omega), januaryStamp 2 (by omega)} where
  names name _ := by
    simp only [night, start, Directory.create, Directory.append, AList.mem_insert,
      AList.notMem_empty, or_false, Finset.mem_insert, Finset.mem_singleton, exists_eq_or_imp,
      exists_eq_left]
    exact or_congr_right or_comm
  reg s _ i _ := by
    simp only [night, start, Directory.create, Directory.append, Function.update_apply]
    split_ifs <;> rfl

/-- The backup of the first of January is deleted, and the one of the third has the record. -/
theorem date_rotation_keeps_newest_night :
    logA.dated (januaryStamp 1 (by omega)).text ∉
      (CheckDateRotation Tinydir.strrchr night logA.file_path .DAILY 2 (january 3 (by omega))
        night.names.keys).names := by
  have h := @date_rotation_keeps_newest Tinydir.strrchr logA night _ .DAILY 2
    (january 3 (by omega)) night.names.keys stamped_night (by decide) (List.Perm.refl _) (by decide)
    (by decide) (by decide)
  intro hmem
  obtain ⟨s, hs, heq⟩ := (h.1 _ (prefix_dated _)).mp hmem
  rw [← Stamp.text_injective (dated_injective heq)] at hs
  revert hs
  decide

end SampLogCore.Rotation.NewestBackups
