import SampLogCore.Rotation.DatedRuns
import SampLogCore.Rotation.NewestBackups

/-!
# Date rotations without a log file

`CheckDateRotation` deletes old backups before it renames the log file, and it does not look whether
there is one. A call that fires without a log file therefore deletes a backup exactly when
`backup_count` of them are there (`missing_log_keeps_iff`), and so a run keeps its backups exactly
when no such call happens with so many of them.
-/

namespace SampLogCore.Rotation.QuietPeriods

open SampLogCore.Lib.Transition SampLogCore.Lib.Retention SampLogCore.Config.Settings
  SampLogCore.Rotation.LogDirectory SampLogCore.Rotation.LocalTime
  SampLogCore.Rotation.DateRotation SampLogCore.Rotation.Calls SampLogCore.Rotation.DatedRuns
  SampLogCore.Rotation.History SampLogCore.Rotation.NewestBackups
open SampLogCore.Rotation.SizeRotation hiding Event step system

/-- A backup: a regular file named after the log and a minute. -/
def IsBackup (F : LogFile) (d : Directory Record) (name : Name) : Prop :=
  (∃ tm : Tm, name = F.dated tm.format) ∧
    ∃ i, d.names.lookup name = some i ∧ (d.inodes i).is_reg = true

/-- How many of the names that the loop over the directory takes have an extension from `date`
on. -/
def datesFrom (td : Tinydir) (F : LogFile) (d : Directory Record) (date : List Char) : ℕ :=
  (d.names.keys.filterMap (dateOf td d F.file_name)).countP (date ≤ ·)

variable {td : Tinydir} {F : LogFile} {d : Directory Record} {time_type : LogRotationTimeType}
  {backup_count : Int32} {tm : Tm} {found : List Name}

/-- A backup is among the dates the loop finds. -/
theorem IsBackup.mem_logfile_dates (h : IsBackup F d (F.dated tm.format))
    (hfound : found.Perm d.names.keys) :
    tm.format ∈ logfile_dates td d F.file_name found := by
  obtain ⟨-, i, hi, hreg⟩ := h
  exact mem_logfile_dates_of_dated hfound (dot_format tm) hi hreg

/-- Without a log file the rename fails. -/
theorem rename_missing (hmissing : d.find F.file_path = none) {dates : List (List Char)}
    {new : Path} :
    (deletes F.file_path d dates).rename F.file_path new = deletes F.file_path d dates := by
  have hnone : (deletes F.file_path d dates).find F.file_path = none := by
    rw [find_file_path, Option.eq_none_iff_forall_not_mem]
    intro j hj
    rw [find_file_path] at hmissing
    rw [Option.mem_def, deletes_lookup, hmissing] at hj
    exact absurd hj.2 (by simp)
  rw [Directory.rename, hnone]

/-- A call leads no name elsewhere when there is no log file. -/
theorem lookup_of_missing (hmissing : d.find F.file_path = none)
    (hfires : Fires d F.file_path time_type tm) (h1 : 1 ≤ backup_count.toInt) {name : Name} {i : ℕ}
    (hi : (CheckDateRotation td d F.file_path time_type backup_count tm found).names.lookup name =
      some i) : d.names.lookup name = some i := by
  rw [CheckDateRotation_of_fires hfires h1, rename_missing hmissing] at hi
  exact (deletes_lookup.mp hi).2

/-- **What a call deletes without a log file**: the backups with `backup_count` names from them
on. -/
theorem lookup_missing (hmissing : d.find F.file_path = none)
    (hfires : Fires d F.file_path time_type tm) (h1 : 1 ≤ backup_count.toInt)
    (hfound : found.Perm d.names.keys) {tm' : Tm} (hbackup : IsBackup F d (F.dated tm'.format)) :
    F.dated tm'.format ∈
        (CheckDateRotation td d F.file_path time_type backup_count tm found).names ↔
      (datesFrom td F d tm'.format : ℤ) < backup_count.toInt := by
  have hmem : tm'.format ∈ logfile_dates td d F.file_name found :=
    hbackup.mem_logfile_dates hfound
  obtain ⟨-, i, hi, -⟩ := hbackup
  rw [CheckDateRotation_of_fires hfires h1, datesFrom,
    ← (@perm_logfile_dates td F d _ hfound).countP_eq]
  set dates := logfile_dates td d F.file_name found with hdates
  have hsorted : dates.Pairwise (· ≤ ·) := sorted_logfile_dates d F.file_name found
  set r := dates.length - (backup_count.toInt.toNat - 1) with hr
  have hdot : ∀ date ∈ dates.take r, '.' ∉ date := fun date hdate =>
    dot_of_mem_logfile_dates (List.mem_of_mem_take hdate)
  have hkept : F.dated tm'.format ∈ (deletes F.file_path d (dates.take r)).names ↔
      tm'.format ∉ dates.take r := by
    simp only [mem_iff_lookup, deletes_lookup_dated hdot (slash_format tm'), hi,
      Option.some.injEq, exists_and_left, exists_eq', and_true]
  rw [rename_missing hmissing, hkept, notMem_take_iff (fun _ => decide_eq_true_iff) hsorted hmem]
  omega

/-- **When a call without a log file keeps all backups.** -/
theorem missing_log_keeps_iff (hmissing : d.find F.file_path = none)
    (h1 : 1 ≤ backup_count.toInt) (hfound : found.Perm d.names.keys) :
    (∀ name, IsBackup F d name →
      name ∈ (CheckDateRotation td d F.file_path time_type backup_count tm found).names ∧
        (CheckDateRotation td d F.file_path time_type backup_count tm found).contents name =
          d.contents name) ↔
      (Fires d F.file_path time_type tm → ∀ tm' : Tm, IsBackup F d (F.dated tm'.format) →
        (datesFrom td F d tm'.format : ℤ) < backup_count.toInt) := by
  by_cases hfires : Fires d F.file_path time_type tm
  · simp only [hfires, true_imp_iff]
    constructor
    · intro hkeeps tm' hbackup
      exact (lookup_missing hmissing hfires h1 hfound hbackup).mp (hkeeps _ hbackup).1
    · intro hfew name hbackup
      obtain ⟨tm', rfl⟩ := hbackup.1
      have hmem := (lookup_missing hmissing hfires h1 hfound hbackup).mpr (hfew tm' hbackup)
      refine ⟨hmem, ?_⟩
      obtain ⟨-, i, hi, -⟩ := hbackup
      obtain ⟨j, hj⟩ := mem_iff_lookup.mp hmem
      have hsame : d.names.lookup (F.dated tm'.format) = some j :=
        lookup_of_missing hmissing hfires h1 hj
      exact contents_congr (CheckDateRotation_inodes h1) (hj.trans hsame.symm)
  · rw [CheckDateRotation_of_not_fires hfires]
    simp only [hfires, false_imp_iff, iff_true]
    intro name hbackup
    obtain ⟨-, i, hi, -⟩ := hbackup
    exact ⟨mem_of_lookup hi, trivial⟩

/-! ### Runs -/

/-- The names of the log are those of the log file and of backups, and the log file is regular. -/
structure Start (F : LogFile) (d : Directory Record) : Prop where
  names : ∀ name ∈ d.names, F.file_name <+: name → name = F.file_name ∨ IsBackup F d name
  log_reg : ∀ i, d.names.lookup F.file_name = some i → (d.inodes i).is_reg = true

/-- A run of date rotations with the backup count `N`. -/
def Regular (F : LogFile) (N : Int32) (_ : Directory Record) (e : Event) : Prop :=
  Undisturbed F e ∧ ByDate e ∧ ∀ n, e.count = some n → n = N.toInt

/-- A backup is only deleted in a step that creates a new one. -/
def Renews (td : Tinydir) (F : LogFile) (d : Directory Record) (e : Event) : Prop :=
  ∀ d', step td F d e = some d' → (∃ name ∈ backups F d, name ∉ backups F d') →
    ∃ name ∈ backups F d', name ∉ backups F d

/-- A rotation that finds no log file finds fewer than `N` backups. -/
def Spared (F : LogFile) (N : Int32) (d : Directory Record) (e : Event) : Prop :=
  Triggered F d e → d.find F.file_path = none → ((backups F d).card : ℤ) < N.toInt

theorem Start.exists_orderly (h : Start F d) : ∃ D, Orderly F d D := by
  have hdates : ∀ name, name ∈ backups F d → ∃ tm : Tm, name = F.dated tm.format ∧
      IsBackup F d name := by
    intro name hname
    obtain ⟨hmem, hprefix, hne⟩ := mem_backups.mp hname
    have hbackup := (h.names name hmem hprefix).resolve_left hne
    obtain ⟨tm, htm⟩ := hbackup.1
    exact ⟨tm, htm, hbackup⟩
  have hdrop : ∀ tm : Tm, (F.dated tm.format).drop (F.file_name.length + 1) = tm.format := by
    intro tm
    rw [LogFile.dated, ← List.drop_drop, List.drop_left]
    rfl
  have hmem : ∀ date ∈ (backups F d).image fun name => name.drop (F.file_name.length + 1),
      ∃ tm : Tm, date = tm.format ∧ IsBackup F d (F.dated date) := by
    intro date hdate
    obtain ⟨name, hname, rfl⟩ := Finset.mem_image.mp hdate
    obtain ⟨tm, rfl, hbackup⟩ := hdates name hname
    exact ⟨tm, hdrop tm, by rw [hdrop]; exact hbackup⟩
  refine ⟨(backups F d).image fun name => name.drop (F.file_name.length + 1), ⟨?_, ?_, ?_, ?_⟩,
    h.log_reg⟩
  · intro name hprefix hne
    constructor
    · intro hname
      have hbackup := mem_backups.mpr ⟨hname, hprefix, hne⟩
      obtain ⟨tm, rfl, -⟩ := hdates name hbackup
      exact ⟨tm.format, Finset.mem_image.mpr ⟨_, hbackup, hdrop tm⟩, rfl⟩
    · rintro ⟨date, hdate, rfl⟩
      obtain ⟨_, _, _, i, hi, _⟩ := hmem date hdate
      exact mem_of_lookup hi
  · intro date hdate
    obtain ⟨tm, rfl, -⟩ := hmem date hdate
    exact dot_format tm
  · intro date hdate
    obtain ⟨tm, rfl, -⟩ := hmem date hdate
    exact slash_format tm
  · intro date hdate i hi
    obtain ⟨-, -, -, j, hj, hreg⟩ := hmem date hdate
    rw [hj, Option.some.injEq] at hi
    exact hi ▸ hreg

section Step

variable {D : Finset (List Char)} {N : Int32} {e : Event} {d' : Directory Record}
  (h : Orderly F d D) (h1 : 1 ≤ N.toInt) (hreg : Regular F N d e)
  (hstep : step td F d e = some d')

include h h1 hreg hstep

theorem step_orderly : ∃ D', Orderly F d' D' ∧ DateStep F d D e D' := by
  refine h.step hstep hreg.1 hreg.2.1 fun n hn => ?_
  rw [hreg.2.2 n hn]
  omega

/-- A step renews what it deletes exactly when it spares the backups. -/
theorem renews_iff : Renews td F d e ↔ Spared F N d e := by
  obtain ⟨D', h', hD⟩ := step_orderly h h1 hreg hstep
  have hrenews : Renews td F d e ↔ (¬ D ⊆ D' → ¬ D' ⊆ D) := by
    have hinj : Function.Injective F.dated := fun _ _ => dated_injective
    simp only [Renews, hstep, Option.some.injEq, forall_eq', ← Finset.not_subset,
      Dated.backups_eq h.toDated, Dated.backups_eq h'.toDated,
      Finset.image_subset_image_iff hinj]
  rw [hrenews]
  cases hD with
  | same hno => exact ⟨fun _ ht => absurd ht hno, fun _ hsub => absurd (Finset.Subset.refl _) hsub⟩
  | cleared ht h0 =>
    have := hreg.2.2 0 h0
    omega
  | quiet ht hn _ hlog =>
    have hN := hreg.2.2 _ hn
    simp only [newest_subset, not_true, imp_false, not_not, subset_newest_iff, Spared, ht, hlog,
      true_imp_iff, Dated.card_backups h.toDated]
    omega
  | moved _ _ _ hlog hnew =>
    have hadds : ∀ {k : ℕ} {date : List Char}, date ∉ D → ¬ insert date (newest k D) ⊆ D :=
      fun hdate hsub => hdate (hsub (Finset.mem_insert_self _ _))
    constructor
    · intro _ _ hmissing
      rw [hlog] at hmissing
      exact absurd hmissing (by simp)
    · exact fun _ _ => hadds hnew

/-- A step keeps `N` backups exactly when it spares them. -/
theorem keeps_iff : ((N.toInt ≤ (backups F d).card → N.toInt ≤ (backups F d').card) ↔
    Spared F N d e) := by
  obtain ⟨D', h', hD⟩ := step_orderly h h1 hreg hstep
  rw [Dated.card_backups h.toDated, Dated.card_backups h'.toDated, Spared,
    Dated.card_backups h.toDated]
  cases hD with
  | same hno => exact ⟨fun _ ht => absurd ht hno, fun _ hN => hN⟩
  | cleared ht h0 =>
    have := hreg.2.2 0 h0
    omega
  | quiet ht hn _ hlog =>
    have hN := hreg.2.2 _ hn
    simp only [card_newest, ht, hlog, true_imp_iff]
    omega
  | @moved n _ _ _ hn _ hlog hnew =>
    have hN := hreg.2.2 _ hn
    have hcard := Finset.card_insert_of_notMem (s := newest (n.toNat - 1) D)
      fun hmem => hnew (newest_subset _ _ hmem)
    rw [card_newest] at hcard
    constructor
    · intro _ _ hmissing
      rw [hlog] at hmissing
      exact absurd hmissing (by simp)
    · intro _ hle
      omega

end Step

/-- **What quiet periods cost.** A call without a log file keeps all backups exactly when it does
not fire, or from each of them on fewer than `backup_count` dates are there. In a run with one
backup count, a backup is only deleted in a step that creates one, and so many backups once reached
are kept, exactly when no rotation finds that many without a log file. -/
theorem quiet_periods {N : Int32} (h1 : 1 ≤ N.toInt) :
    (∀ (d : Directory Record) (time_type : LogRotationTimeType) (tm : Tm) (found : List Name),
      found.Perm d.names.keys → d.find F.file_path = none →
      ((∀ name, IsBackup F d name →
        name ∈ (CheckDateRotation td d F.file_path time_type N tm found).names ∧
          (CheckDateRotation td d F.file_path time_type N tm found).contents name =
            d.contents name) ↔
        (Fires d F.file_path time_type tm → ∀ tm' : Tm, IsBackup F d (F.dated tm'.format) →
          (datesFrom td F d tm'.format : ℤ) < N.toInt))) ∧
    ∀ (d : Directory Record) (r : List (Event × Directory Record)), Start F d →
      ((system td F (Start F)).restrict (Regular F N)).IsRun d r →
      (Along (Renews td F) d r ↔ Along (Spared F N) d r) ∧
        ((d :: r.map Prod.snd).Pairwise (fun a b =>
          N.toInt ≤ (backups F a).card → N.toInt ≤ (backups F b).card) ↔
            Along (Spared F N) d r) := by
  refine ⟨fun d time_type tm found hfound hmissing => missing_log_keeps_iff hmissing h1 hfound,
    fun d r hstart hrun => ?_⟩
  have hI : ∀ s e t, (∃ D, Orderly F s D) →
      ((system td F (Start F)).restrict (Regular F N)).Step s e t → ∃ D, Orderly F t D := by
    rintro s e t ⟨D, hs⟩ ⟨hreg, hstep⟩
    obtain ⟨D', ht, -⟩ := step_orderly hs h1 hreg hstep
    exact ⟨D', ht⟩
  constructor
  · refine System.along_congr hI ?_ hstart.exists_orderly hrun
    rintro s e t ⟨D, hs⟩ ⟨hreg, hstep⟩
    exact renews_iff hs h1 hreg hstep
  · refine System.pairwise_iff_along hI ?_ hstart.exists_orderly hrun
    rintro s e t ⟨D, hs⟩ ⟨hreg, hstep⟩
    exact keeps_iff hs h1 hreg hstep

/-! ### A quiet day -/

/-- The log file was renamed at midnight, and nothing has been logged since. -/
def quietNight : Directory Record :=
  (start.dir.create (logA.dated (january 1 first_day).format)).append 0 [65]

theorem isBackup_quietNight : IsBackup logA quietNight (logA.dated (january 1 first_day).format) :=
  ⟨⟨_, rfl⟩, 0, by decide, by decide⟩

/-- The next midnight deletes the only backup. -/
theorem quiet_night_deletes :
    quietNight.find logA.file_path = none ∧
      IsBackup logA quietNight (logA.dated (january 1 first_day).format) ∧
      logA.dated (january 1 first_day).format ∉
        (CheckDateRotation Tinydir.strrchr quietNight logA.file_path .DAILY 1
          (january 2 second_day) quietNight.names.keys).names := by
  refine ⟨by decide, isBackup_quietNight, fun hmem => ?_⟩
  have hfew := (lookup_missing (by decide) (by decide) (by decide) (List.Perm.refl _)
    isBackup_quietNight).mp hmem
  revert hfew
  decide

/-- Two days later, with a record on each of them. -/
def days : List (Event × Directory Record) :=
  [(.log [66], secondEvening), (midnight (january 2 second_day) 2 secondEvening, secondNight),
    (.log [67], thirdEvening), (midnight (january 3 third_day) 2 thirdEvening, thirdNight 2)]

theorem start_firstNight : Start logA firstNight where
  names name hmem _ := by
    have hname : name = logA.dated (january 1 first_day).format := by
      have hkeys : firstNight.names.keys = [logA.dated (january 1 first_day).format] := by decide
      rw [AList.mem_keys, hkeys] at hmem
      exact List.mem_singleton.mp hmem
    exact .inr ⟨⟨_, hname⟩, 0, by rw [hname]; decide, by decide⟩
  log_reg i hi := by
    rw [show firstNight.names.lookup logA.file_name = none by decide] at hi
    exact absurd hi (by simp)

/-- With two backups to keep, the quiet night deletes nothing, and on days with a record the oldest
goes when a new one comes. -/
theorem quiet_periods_two :
    logA.dated (january 1 first_day).format ∈
        (CheckDateRotation Tinydir.strrchr quietNight logA.file_path .DAILY 2
          (january 2 second_day) quietNight.names.keys).names ∧
      Along (Renews Tinydir.strrchr logA) firstNight days ∧
      logA.dated (january 1 first_day).format ∉ backups logA (thirdNight 2) ∧
      2 ≤ (backups logA (thirdNight 2)).card := by
  have h := @quiet_periods Tinydir.strrchr logA 2 (by decide)
  have hcount : ∀ {tm d s}, Regular logA 2 s (midnight tm 2 d) := by
    intro tm d s
    refine ⟨trivial, trivial, fun k hk => ?_⟩
    simp only [midnight, Event.count, Option.some.injEq] at hk
    exact hk.symm
  have hlog : ∀ {r s}, Regular logA 2 s (.log r) :=
    fun {r s} => ⟨trivial, trivial, fun n hn => absurd hn (by simp [Event.count])⟩
  have hrun : ((system Tinydir.strrchr logA (Start logA)).restrict (Regular logA 2)).IsRun
      firstNight days :=
    ⟨⟨hlog, rfl⟩, ⟨hcount, step_secondNight⟩, ⟨hlog, rfl⟩, ⟨hcount, step_thirdNight (by decide)⟩,
      trivial⟩
  have hspared : Along (Spared logA 2) firstNight days :=
    ⟨fun ht => absurd ht id, fun _ hmissing => absurd hmissing (by decide),
      fun ht => absurd ht id, fun _ hmissing => absurd hmissing (by decide), trivial⟩
  obtain ⟨hrenews, hkeeps⟩ := h.2 firstNight days start_firstNight hrun
  refine ⟨?_, hrenews.mpr hspared, by decide, ?_⟩
  · refine ((h.1 quietNight .DAILY (january 2 second_day) quietNight.names.keys (List.Perm.refl _)
      (by decide)).mpr (fun _ tm' hbackup => ?_) _ isBackup_quietNight).1
    have hle : datesFrom Tinydir.strrchr logA quietNight tm'.format ≤
        (quietNight.names.keys.filterMap
          (dateOf Tinydir.strrchr quietNight logA.file_name)).length := List.countP_le_length
    have hone : (quietNight.names.keys.filterMap
        (dateOf Tinydir.strrchr quietNight logA.file_name)).length = 1 := by decide
    have htwo : (2 : Int32).toInt = 2 := by decide
    omega
  · -- two backups once reached are kept
    have hpairs := hkeeps.mpr hspared
    simp only [days, List.map_cons, List.map_nil, List.pairwise_cons] at hpairs
    have hkept := hpairs.2.2.1 (thirdNight 2) (by simp) (by decide)
    rw [show (2 : Int32).toInt = 2 by decide] at hkept
    exact_mod_cast hkept

end SampLogCore.Rotation.QuietPeriods
