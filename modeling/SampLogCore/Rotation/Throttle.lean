import SampLogCore.Rotation.DateRotation

/-!
# The rotation loop and midnight

`LogRotationManager::Process` goes through the registered log files about every five seconds. The
date checks are skipped unless a minute has passed since the last loop that did not skip them, and
`CheckDateRotation`, which reads the clock again, only accepts the minute from 00:00 on. Two checks
that are not skipped are at least a minute apart, so they may leave out the minute of midnight
(`midnight_checked_iff` says when).

Clock readings are nanoseconds since the epoch, a `time_t` counts seconds.
-/

namespace SampLogCore.Rotation.Throttle

open SampLogCore.Config.Settings SampLogCore.Rotation.LogDirectory
  SampLogCore.Rotation.LocalTime SampLogCore.Rotation.DateRotation

def second : ℤ := 1000000000

def minute : ℤ := 60 * second

/-- `std::chrono::duration_cast<std::chrono::minutes>`. -/
def minutes (dur : ℤ) : ℤ := dur.tdiv minute

/-- `Logger::Clock::to_time_t`. -/
def to_time_t (tp : ℤ) : ℤ := tp.tdiv second

/-- Local time with a fixed offset from the clock, in seconds. -/
structure Zone where
  localtime : ℤ → Tm
  offset : ℤ
  hour_eq : ∀ tt, ((localtime tt).tm_hour : ℤ) = (tt + offset) / 3600 % 24
  min_eq : ∀ tt, ((localtime tt).tm_min : ℤ) = (tt + offset) / 60 % 60

/-- The variables of the loop. -/
structure Loop where
  date_tp : ℤ
  skip_date_check : Bool

/-- A call made by the loop body. -/
inductive Call
  | CheckDateRotation (file_path : Path) (type : LogRotationTimeType) (backup_count : ℤ)
  | CheckSizeRotation (file_path : Path) (max_size : UInt32) (backup_count : ℤ)
  deriving DecidableEq

/-- One round of the loop. -/
structure Iteration where
  /-- `date_tp_now` -/
  date_tp_now : ℤ
  /-- the clock as the date check reads it -/
  read : ℤ
  /-- `_rotationEntries`, in the order in which they are visited -/
  entries : List (Path × LogRotationConfig)

/-- The first block of the loop body. -/
def Loop.next (s : Loop) (date_tp_now : ℤ) : Loop :=
  if minutes (date_tp_now - s.date_tp) > 0 then ⟨date_tp_now, false⟩ else ⟨s.date_tp, true⟩

/-- The switch over the type of an entry. The member of the union is the one that the type names. -/
def callOf (skip_date_check : Bool) (e : Path × LogRotationConfig) : Option Call :=
  match e.2.type, e.2.Value with
  | .DATE, .Date type =>
    if skip_date_check then none else some (.CheckDateRotation e.1 type e.2.BackupCount)
  | .SIZE, .FileSize max_size => some (.CheckSizeRotation e.1 max_size e.2.BackupCount)
  | _, _ => none

/-- The rounds with the calls that each of them makes. -/
def Process (s : Loop) : List Iteration → List (Iteration × List Call)
  | [] => []
  | it :: its =>
    let s' := s.next it.date_tp_now
    (it, it.entries.filterMap (callOf s'.skip_date_check)) :: Process s' its

/-- The clock shows one of the sixty seconds from `m` on. -/
def InMinute (m tp : ℤ) : Prop := m ≤ to_time_t tp ∧ to_time_t tp < m + 60

instance (m tp : ℤ) : Decidable (InMinute m tp) := by
  unfold InMinute; infer_instance

/-- The variables when the first date check at `m` or later is about to be reached. -/
def stateAt (m : ℤ) (s : Loop) : List Iteration → Loop
  | [] => s
  | it :: its =>
    if to_time_t it.read < m then stateAt m (s.next it.date_tp_now) its else s

/-- The last of some times when only those are kept that are a minute or more past the last one
kept, or past `start`. -/
def lastKept (start : ℤ) : List ℤ → ℤ
  | [] => start
  | tp :: tps => lastKept (if start + minute ≤ tp then tp else start) tps

/-- When the rounds start whose date checks come before `m`. -/
def startsBefore (m : ℤ) (its : List Iteration) : List ℤ :=
  (its.takeWhile fun it => to_time_t it.read < m).map Iteration.date_tp_now

theorem minutes_pos_iff {dur : ℤ} : minutes dur > 0 ↔ minute ≤ dur := by
  unfold minutes minute second
  constructor
  · intro h
    by_contra hlt
    have : dur.tdiv (60 * 1000000000) ≤ 0 := by
      rcases le_or_gt 0 dur with h0 | h0
      · rw [Int.tdiv_eq_zero_of_lt h0 (by omega)]
      · have hle := Int.tdiv_le_tdiv (c := 60 * 1000000000) (by decide) h0.le
        rwa [Int.zero_tdiv] at hle
    omega
  · intro h
    rw [Int.tdiv_eq_ediv_of_nonneg (by omega)]
    omega

theorem to_time_t_mono {a b : ℤ} (h : a ≤ b) : to_time_t a ≤ to_time_t b :=
  Int.tdiv_le_tdiv (by decide) h

/-- A round skips the date checks when less than a minute has passed. -/
theorem next_of_lt {s : Loop} {now : ℤ} (h : now < s.date_tp + minute) :
    s.next now = ⟨s.date_tp, true⟩ := by
  have hno : ¬ minutes (now - s.date_tp) > 0 := by
    rw [minutes_pos_iff]
    omega
  rw [Loop.next, if_neg hno]

theorem next_of_le {s : Loop} {now : ℤ} (h : s.date_tp + minute ≤ now) :
    s.next now = ⟨now, false⟩ := by
  have hyes : minutes (now - s.date_tp) > 0 := by
    rw [minutes_pos_iff]
    omega
  rw [Loop.next, if_pos hyes]

/-- A round keeps its start, or leaves what was kept. -/
theorem next_date_tp (s : Loop) (now : ℤ) :
    (s.next now).date_tp = if s.date_tp + minute ≤ now then now else s.date_tp := by
  split_ifs with hle
  · rw [next_of_le hle]
  · rw [next_of_lt (not_le.mp hle)]

/-- **`date_tp` is the last start that is kept.** -/
theorem stateAt_date_tp (m : ℤ) : ∀ (its : List Iteration) (s : Loop),
    (stateAt m s its).date_tp = lastKept s.date_tp (startsBefore m its)
  | [], _ => rfl
  | it :: its, s => by
    by_cases hbefore : to_time_t it.read < m
    · have hstarts : startsBefore m (it :: its) = it.date_tp_now :: startsBefore m its := by
        simp [startsBefore, hbefore]
      rw [stateAt, if_pos hbefore, stateAt_date_tp m its, next_date_tp, hstarts, lastKept]
    · have hstarts : startsBefore m (it :: its) = [] := by simp [startsBefore, hbefore]
      rw [stateAt, if_neg hbefore, hstarts, lastKept]

/-- Throughout the minute of midnight the date check of a daily rotation goes on. -/
theorem due_of_inMinute {zone : Zone} {m tp : ℤ} (hm : (m + zone.offset) % 86400 = 0)
    (h : InMinute m tp) : due .DAILY (zone.localtime (to_time_t tp)) := by
  obtain ⟨hle, hlt⟩ := h
  have hhour := zone.hour_eq (to_time_t tp)
  have hmin := zone.min_eq (to_time_t tp)
  constructor
  · omega
  · omega

/-- The call for an entry of type `DATE`. -/
theorem mem_calls_iff {skip : Bool} {entries : List (Path × LogRotationConfig)} {file_path : Path}
    {type : LogRotationTimeType} {n : ℤ} (h : (file_path, ⟨.DATE, .Date type, n⟩) ∈ entries) :
    .CheckDateRotation file_path type n ∈ entries.filterMap (callOf skip) ↔ skip = false := by
  rw [List.mem_filterMap]
  constructor
  · rintro ⟨e, -, he⟩
    unfold callOf at he
    split at he
    · split_ifs at he with hskip
      simpa using hskip
    · simp at he
    · simp at he
  · rintro rfl
    exact ⟨_, h, rfl⟩

section Minute

variable {file_path : Path} {n m : ℤ}

/-- The date check of the entry reads the clock within the minute, and is not skipped. -/
def Checked (file_path : Path) (n m : ℤ) (s : Loop) (its : List Iteration) : Prop :=
  ∃ p ∈ Process s its, .CheckDateRotation file_path .DAILY n ∈ p.2 ∧ InMinute m p.1.read

/-- In the rounds from the minute on the variables stay as they are until a minute has passed. -/
theorem checked_from_iff : ∀ {its : List Iteration} {s : Loop},
    (∀ it ∈ its, (file_path, ⟨.DATE, .Date .DAILY, n⟩) ∈ it.entries) →
    its.Pairwise (fun a b => a.read ≤ b.read) → (∀ it ∈ its, m ≤ to_time_t it.read) →
    (Checked file_path n m s its ↔
      ∃ it ∈ its, InMinute m it.read ∧ s.date_tp + minute ≤ it.date_tp_now)
  | [], s, _, _, _ => by simp [Checked, Process]
  | it :: its, s, hreg, hmono, hfrom => by
    obtain ⟨hhead, htail⟩ := List.pairwise_cons.mp hmono
    obtain ⟨hregHead, hregTail⟩ := List.forall_mem_cons.mp hreg
    obtain ⟨hfromHead, hfromTail⟩ := List.forall_mem_cons.mp hfrom
    have hcons : Checked file_path n m s (it :: its) ↔
        ((s.next it.date_tp_now).skip_date_check = false ∧ InMinute m it.read) ∨
          Checked file_path n m (s.next it.date_tp_now) its := by
      simp only [Checked, Process, List.exists_mem_cons_iff, mem_calls_iff hregHead]
    rw [hcons, List.exists_mem_cons_iff]
    by_cases hle : s.date_tp + minute ≤ it.date_tp_now
    · by_cases hin : InMinute m it.read
      · simp [next_of_le hle, hin, hle]
      · -- the minute is over
        have hover : ∀ it' ∈ its, ¬ InMinute m it'.read := by
          intro it' hit' hin'
          have := to_time_t_mono (hhead it' hit')
          exact hin ⟨hfromHead, lt_of_le_of_lt this hin'.2⟩
        have hnone : ¬ Checked file_path n m (s.next it.date_tp_now) its := by
          rw [checked_from_iff hregTail htail hfromTail]
          rintro ⟨it', hit', hin', -⟩
          exact hover it' hit' hin'
        constructor
        · rintro (⟨-, h⟩ | h)
          · exact absurd h hin
          · exact absurd h hnone
        · rintro (⟨h, -⟩ | ⟨it', hit', h, -⟩)
          · exact absurd h hin
          · exact absurd h (hover it' hit')
    · rw [next_of_lt (not_le.mp hle), checked_from_iff hregTail htail hfromTail]
      simp [hle]

/-- Rounds before the minute only move the variables on. -/
theorem checked_iff : ∀ {its : List Iteration} {s : Loop},
    (∀ it ∈ its, (file_path, ⟨.DATE, .Date .DAILY, n⟩) ∈ it.entries) →
    its.Pairwise (fun a b => a.read ≤ b.read) →
    (Checked file_path n m s its ↔ ∃ it ∈ its, InMinute m it.read ∧
      (stateAt m s its).date_tp + minute ≤ it.date_tp_now)
  | [], s, _, _ => by simp [Checked, Process]
  | it :: its, s, hreg, hmono => by
    obtain ⟨hhead, htail⟩ := List.pairwise_cons.mp hmono
    obtain ⟨hregHead, hregTail⟩ := List.forall_mem_cons.mp hreg
    by_cases hbefore : to_time_t it.read < m
    · have hout : ¬ InMinute m it.read := fun h => not_le.mpr hbefore h.1
      have hcons : Checked file_path n m s (it :: its) ↔
          Checked file_path n m (s.next it.date_tp_now) its := by
        simp only [Checked, Process, List.exists_mem_cons_iff, hout, and_false, false_or]
      rw [hcons, checked_iff hregTail htail, stateAt, if_pos hbefore]
      simp [hout]
    · rw [stateAt, if_neg hbefore]
      refine checked_from_iff hreg hmono fun it' hit' => ?_
      rcases List.mem_cons.mp hit' with rfl | hit'
      · exact not_lt.mp hbefore
      · exact (not_lt.mp hbefore).trans (to_time_t_mono (hhead it' hit'))

/-- **When midnight is not missed**: when some date check of its minute comes in a round that starts
a minute or more after the last start that is kept before it. -/
theorem midnight_checked_iff {zone : Zone} (hm : (m + zone.offset) % 86400 = 0)
    {its : List Iteration} {s : Loop}
    (hreg : ∀ it ∈ its, (file_path, ⟨.DATE, .Date .DAILY, n⟩) ∈ it.entries)
    (hmono : its.Pairwise fun a b => a.read ≤ b.read) :
    (∃ p ∈ Process s its, .CheckDateRotation file_path .DAILY n ∈ p.2 ∧ InMinute m p.1.read ∧
      due .DAILY (zone.localtime (to_time_t p.1.read))) ↔
        ∃ it ∈ its, InMinute m it.read ∧
          lastKept s.date_tp (startsBefore m its) + minute ≤ it.date_tp_now := by
  rw [← stateAt_date_tp, ← checked_iff hreg hmono]
  constructor
  · rintro ⟨p, hp, hcall, hin, -⟩
    exact ⟨p, hp, hcall, hin⟩
  · rintro ⟨p, hp, hcall, hin⟩
    exact ⟨p, hp, hcall, hin, due_of_inMinute hm hin⟩

end Minute

/-! ### A missed midnight -/

/-- UTC, around the second of January 1970. -/
def utc : Zone where
  localtime tt := ⟨(tt / 60 % 60).toNat, (tt / 3600 % 24).toNat, 2, 0, 70, 5, by omega, by omega,
    by decide, by decide, by decide, by decide⟩
  offset := 0
  hour_eq tt := by dsimp only; omega
  min_eq tt := by dsimp only; omega

/-- The daily rotation of `logs/a.log`. -/
def daily : Path × LogRotationConfig :=
  (['l', 'o', 'g', 's', '/', 'a', '.', 'l', 'o', 'g'], ⟨.DATE, .Date .DAILY, 10⟩)

/-- Twelve rounds, 5.9 seconds apart, from two seconds before midnight on. -/
def rounds : List Iteration :=
  (List.range 12).map fun k =>
    ⟨86398 * second + k * 5900000000, 86398 * second + k * 5900000000 + 1000000, [daily]⟩

/-- Consecutive rounds are five to six seconds apart. -/
def Spaced (its : List Iteration) : Prop :=
  its.IsChain fun a b =>
    a.date_tp_now + 5 * second ≤ b.date_tp_now ∧ b.date_tp_now ≤ a.date_tp_now + 6 * second

instance (its : List Iteration) : Decidable (Spaced its) := by
  unfold Spaced; infer_instance

/-- The rounds reach from before midnight to after 00:01, and no date check falls in between. -/
theorem midnight_missed :
    Spaced rounds ∧ (∀ it ∈ rounds, daily ∈ it.entries) ∧ (86400 + utc.offset) % 86400 = 0 ∧
      (∃ it ∈ rounds, to_time_t it.read < 86400) ∧
      (∃ it ∈ rounds, 86400 + 60 ≤ to_time_t it.date_tp_now) ∧
      ¬ Checked daily.1 10 86400 ⟨86398 * second, false⟩ rounds := by
  refine ⟨by decide, by decide, by decide, by decide, by decide, ?_⟩
  unfold Checked
  decide

/-- With the last check 48 seconds earlier the same rounds do not miss it. -/
theorem midnight_checked_earlier :
    ∃ p ∈ Process ⟨86350 * second, false⟩ rounds, .CheckDateRotation daily.1 .DAILY 10 ∈ p.2 ∧
      InMinute 86400 p.1.read ∧ due .DAILY (utc.localtime (to_time_t p.1.read)) :=
  (@midnight_checked_iff daily.1 10 86400 utc (by decide) rounds ⟨86350 * second, false⟩ (by decide)
    (by decide)).mpr (by decide)

end SampLogCore.Rotation.Throttle
