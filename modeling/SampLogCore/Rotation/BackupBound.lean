import SampLogCore.Rotation.ChainRuns
import SampLogCore.Rotation.DatedRuns
import SampLogCore.Rotation.History

/-!
# The number of backups along a run

`BackupCount` may change between two rotations. A rotation with a count of at least one leaves at
most so many backups and deletes the oldest ones first, whatever the counts were before. One with
the count zero only clears the log file: the backups that are there stay.
-/

namespace SampLogCore.Rotation.BackupBound

open SampLogCore.Lib.Transition SampLogCore.Lib.Number SampLogCore.Lib.Retention
  SampLogCore.Config.Settings SampLogCore.Rotation.LogDirectory SampLogCore.Rotation.LocalTime
  SampLogCore.Rotation.Backups SampLogCore.Rotation.DateRotation SampLogCore.Rotation.Calls
  SampLogCore.Rotation.ChainRuns SampLogCore.Rotation.DatedRuns SampLogCore.Rotation.History
open SampLogCore.Rotation.SizeRotation hiding Event step system
open SampLogCore.Rotation.NewestBackups (january first_day second_day third_day)

/-- No backups yet: of the names that begin with that of the log there is only the log file itself,
if any. -/
structure Start (F : LogFile) (d : Directory Record) : Prop where
  names : ∀ name ∈ d.names, F.file_name <+: name → name = F.file_name
  fresh : ∀ name i, d.names.lookup name = some i → i < d.next
  log_reg : ∀ i, d.names.lookup F.file_name = some i → (d.inodes i).is_reg = true

/-- A run of rotations of one kind, with counts that are not negative. -/
def Rotating (F : LogFile) (kind : Event → Prop) (_ : Directory Record) (e : Event) : Prop :=
  Undisturbed F e ∧ kind e ∧ Counts e

/-- After a rotation there are at most `BackupCount` backups. -/
def Bounded (td : Tinydir) (F : LogFile) (d : Directory Record) (e : Event) : Prop :=
  ∀ d' n, step td F d e = some d' → Triggered F d e → e.count = some n →
    ((backups F d').card : ℤ) ≤ n

/-- A rotation with the count zero finds no backups. -/
def NothingToClear (F : LogFile) (d : Directory Record) (e : Event) : Prop :=
  Triggered F d e → e.count = some 0 → backups F d = ∅

/-- The backup `a` is older than the backup `b`. -/
def Older (F : LogFile) (e : Event) (a b : Name) : Prop :=
  match e with
  | .checkSize _ _ _ => ∃ m n, m < n ∧ a = F.backup n ∧ b = F.backup m
  | .checkDate _ _ _ _ => ∃ x y, x < y ∧ a = F.dated x ∧ b = F.dated y
  | _ => False

/-- The file behind a name is no longer behind any name of the log. -/
def Lost (F : LogFile) (d d' : Directory Record) (name : Name) : Prop :=
  ∀ i, d.names.lookup name = some i → ∀ n, F.file_name <+: n → d'.names.lookup n ≠ some i

/-- A backup only goes together with all that are older. -/
def OldestFirst (td : Tinydir) (F : LogFile) (d : Directory Record) (e : Event) : Prop :=
  ∀ d', step td F d e = some d' → ∀ a ∈ backups F d, ∀ b ∈ backups F d, Older F e a b →
    Lost F d d' b → Lost F d d' a

variable {td : Tinydir} {F : LogFile} {d d' : Directory Record} {e : Event}

/-- A backup that keeps its name is not lost. -/
theorem not_lost {name : Name} (hname : name ∈ backups F d)
    (hsame : d'.names.lookup name = d.names.lookup name) : ¬ Lost F d d' name := by
  intro hlost
  obtain ⟨hmem, hprefix, -⟩ := mem_backups.mp hname
  obtain ⟨i, hi⟩ := mem_iff_lookup.mp hmem
  exact hlost i hi name hprefix (hsame.trans hi)

/-! ### By size -/

section Size

variable {c : Chain} (h : Chained F d c) (hs : Settled c) (hrot : Rotating F BySize d e)
  (hstep : step td F d e = some d')

include h hs hrot hstep

theorem bounded_iff_size : Bounded td F d e ↔ NothingToClear F d e := by
  obtain ⟨c', h', hs', hc⟩ := Chained.step h hs hstep hrot.1 hrot.2.1 hrot.2.2
  have hbounded : Bounded td F d e ↔ ∀ n, Triggered F d e → e.count = some n →
      ((backups F d').card : ℤ) ≤ n := by
    simp only [Bounded, hstep, Option.some.injEq]
    exact ⟨fun hall n => hall d' n rfl, fun hall _ n hd => hd ▸ hall n⟩
  rw [hbounded]
  cases hc with
  | same hno => exact ⟨fun _ ht => absurd ht hno, fun _ _ ht => absurd ht hno⟩
  | cleared ht h0 =>
    have hsame : (backups F d').card = (backups F d).card := by
      rw [Chained.card_backups h hs, Chained.card_backups h' hs']
    simp only [NothingToClear, ht, h0, true_imp_iff, Option.some.injEq, forall_eq', hsame,
      ← Finset.card_eq_zero]
    omega
  | moved ht hn h1 _ hgap hids =>
    have hcard := Chained.card_backups h' hs'
    rw [if_pos hgap, hids, List.length_take] at hcard
    constructor
    · intro _ _ h0
      rw [hn, Option.some.injEq] at h0
      omega
    · intro _ n _ hn'
      rw [hn, Option.some.injEq] at hn'
      omega

theorem oldestFirst_size : OldestFirst td F d e := by
  intro d'' hd'' a ha b hb holder hlost i hi
  obtain rfl : d' = d'' := by simpa [hstep] using hd''
  obtain ⟨c', h', -, hc⟩ := Chained.step h hs hstep hrot.1 hrot.2.1 hrot.2.2
  -- the file of `b` is not in the new chain
  obtain ⟨hmem, hprefix, -⟩ := mem_backups.mp hb
  obtain ⟨k, hk⟩ := mem_iff_lookup.mp hmem
  have hkc : k ∈ c.ids := h.mem_ids.mpr ⟨b, hprefix, hk⟩
  have hkc' : k ∉ c'.ids := by
    intro hmem'
    obtain ⟨n, hn, hkn⟩ := h'.mem_ids.mp hmem'
    exact hlost k hk n hn hkn
  cases hc with
  | same _ hids => exact absurd (hids hkc) hkc'
  | cleared => exact absurd hkc hkc'
  | @moved n _ ht hn h1 hlog _ hids =>
    obtain ⟨p, q, hpq, rfl, rfl⟩ : ∃ p q, p < q ∧ a = F.backup q ∧ b = F.backup p := by
      cases e with
      | checkSize => exact holder
      | checkDate => exact absurd hrot.2.1 id
      | _ => exact absurd ht id
    have hidx : ∀ {m j}, d.names.lookup (F.backup m) = some j → c.ids[m]? = some j := by
      intro m j hj
      obtain ⟨x, hx, hnum⟩ := h.names.lookup_backup.mp hj
      have hlt := (List.getElem?_eq_some_iff.mp hx).1
      have hend : c.gap = c.ids.length := by
        rcases hs with ⟨hzero, -⟩ | ⟨-, hend, -⟩
        · omega
        · exact hend
      rw [c.number_of_lt (by omega)] at hnum
      rw [hnum]
      exact hx
    have htake : ∀ {m j}, c.ids[m]? = some j → (j ∈ c'.ids ↔ m < n.toNat) := by
      intro m j hj
      obtain ⟨hlt, rfl⟩ := List.getElem?_eq_some_iff.mp hj
      rw [hids, List.mem_take_iff_getElem]
      constructor
      · rintro ⟨x, hx, heq⟩
        rw [← (List.Nodup.getElem_inj_iff c.nodup).mp heq]
        exact lt_of_lt_of_le hx (min_le_left _ _)
      · exact fun hm => ⟨m, lt_min hm hlt, rfl⟩
    intro name hprefix' hname
    have hq := (htake (hidx hi)).mp (h'.mem_ids.mpr ⟨name, hprefix', hname⟩)
    exact hkc' ((htake (hidx hk)).mpr (hpq.trans hq))

end Size

/-! ### By date -/

/-- Different names of the log lead to different files. -/
structure Proper (F : LogFile) (d : Directory Record) : Prop where
  fresh : ∀ name i, d.names.lookup name = some i → i < d.next
  distinct : ∀ m n i, F.file_name <+: m → F.file_name <+: n → d.names.lookup m = some i →
    d.names.lookup n = some i → m = n

namespace Proper

variable (h : Proper F d)
include h

/-- What is in the files does not matter. -/
theorem frame (hnames : d'.names = d.names) (hnext : d'.next = d.next) : Proper F d' where
  fresh := by
    rw [hnames, hnext]
    exact h.fresh
  distinct := by
    rw [hnames]
    exact h.distinct

theorem erase (name : Name) : Proper F { d with names := d.names.erase name } where
  fresh := Directory.Fresh.erase h.fresh name
  distinct m n i hm hn him hin :=
    h.distinct m n i hm hn (lookup_of_erase him) (lookup_of_erase hin)

/-- A new name for a file that no other name of the log leads to. -/
theorem insert {name : Name} {j next : ℕ} {inodes : ℕ → Inode Record} (hnext : d.next ≤ next)
    (hj : j < next) (hfree : ∀ n, F.file_name <+: n → d.names.lookup n ≠ some j) :
    Proper F { inodes := inodes, next := next, names := d.names.insert name j } where
  fresh := Directory.Fresh.insert h.fresh hnext hj
  distinct m n i hm hn him hin := by
    by_cases hmn : m = name
    · by_cases hnn : n = name
      · rw [hmn, hnn]
      · rw [hmn, AList.lookup_insert, Option.some.injEq] at him
        rw [AList.lookup_insert_ne hnn, ← him] at hin
        exact absurd hin (hfree n hn)
    · rw [AList.lookup_insert_ne hmn] at him
      by_cases hnn : n = name
      · rw [hnn, AList.lookup_insert, Option.some.injEq] at hin
        rw [← hin] at him
        exact absurd him (hfree m hm)
      · rw [AList.lookup_insert_ne hnn] at hin
        exact h.distinct m n i hm hn him hin

theorem create (name : Name) : Proper F (d.create name) :=
  h.insert (Nat.le_succ _) (Nat.lt_succ_self _) fun n _ hn => absurd (h.fresh n _ hn) (lt_irrefl _)

theorem rename {old new : Path} (hold : F.file_name <+: (SplitFilePath old).2) :
    Proper F (d.rename old new) := by
  unfold Directory.rename
  split
  · rename_i i hi
    refine (h.erase (SplitFilePath old).2).insert (le_refl _) (h.fresh _ _ hi) fun n hn hni => ?_
    by_cases hno : n = (SplitFilePath old).2
    · rw [hno, AList.lookup_erase] at hni
      exact absurd hni (by simp)
    · rw [AList.lookup_erase_ne hno] at hni
      exact hno (h.distinct n _ i hn hold hni hi)
  · exact h

theorem openAppend : Proper F (d.openAppend F.file_path).1 := by
  unfold Directory.openAppend
  split
  · exact h
  · exact h.create _

theorem truncate : Proper F (d.truncate F.file_path) := by
  unfold Directory.truncate
  split
  · exact h.frame rfl rfl
  · exact h.create _

end Proper

theorem Proper.deletes {dates : List (List Char)} (h : Proper F d) :
    Proper F (deletes F.file_path d dates) := by
  induction dates generalizing d with
  | nil => exact h
  | cons date dates ih =>
    have herased : Proper F (d.remove (DateRotation.dated F.file_path date)) := h.erase _
    exact ih herased

theorem Proper.step (h : Proper F d) (hrot : Rotating F ByDate d e)
    (hstep : step td F d e = some d') : Proper F d' := by
  cases e with
  | log r =>
    simp only [Calls.step, Option.some.injEq] at hstep
    exact hstep ▸ h.openAppend.frame rfl rfl
  | checkSize => exact absurd hrot.2.1 id
  | checkDate time_type backup_count tm found =>
    obtain ⟨-, rfl⟩ := step_checkDate hstep
    by_cases hfires : Fires d F.file_path time_type tm
    · by_cases h0 : backup_count.toInt = 0
      · rw [CheckDateRotation_of_zero hfires h0]
        exact h.truncate
      · have hcount := hrot.2.2 _ rfl
        rw [CheckDateRotation_of_fires hfires (by omega)]
        refine h.deletes.rename ?_
        rw [F.split_file_path]
    · rw [CheckDateRotation_of_not_fires hfires]
      exact h
  | create name =>
    obtain ⟨-, rfl⟩ := step_create hstep
    exact h.create name
  | delete name =>
    simp only [Calls.step, Option.some.injEq] at hstep
    exact hstep ▸ h.erase name

section Date

variable {D : Finset (List Char)}

theorem bounded_iff_date (hrot : Rotating F ByDate d e) (hstep : step td F d e = some d')
    (h : Orderly F d D) : Bounded td F d e ↔ NothingToClear F d e := by
  obtain ⟨D', h', hD⟩ := h.step hstep hrot.1 hrot.2.1 hrot.2.2
  have hbounded : Bounded td F d e ↔ ∀ n, Triggered F d e → e.count = some n →
      (D'.card : ℤ) ≤ n := by
    simp only [Bounded, hstep, Option.some.injEq, ← Dated.card_backups h'.toDated]
    exact ⟨fun hall n => hall d' n rfl, fun hall _ n hd => hd ▸ hall n⟩
  rw [hbounded]
  cases hD with
  | same hno => exact ⟨fun _ ht => absurd ht hno, fun _ _ ht => absurd ht hno⟩
  | cleared ht h0 =>
    simp only [NothingToClear, ht, h0, true_imp_iff, Option.some.injEq, forall_eq',
      ← Finset.card_eq_zero, Dated.card_backups h.toDated]
    omega
  | @quiet n _ hn h1 =>
    have hcard := card_newest (n.toNat - 1) D
    constructor
    · intro _ _ h0
      rw [hn, Option.some.injEq] at h0
      omega
    · intro _ m _ hm
      rw [hn, Option.some.injEq] at hm
      omega
  | @moved n _ date _ hn h1 =>
    have hcard := Finset.card_insert_le date (newest (n.toNat - 1) D)
    rw [card_newest] at hcard
    constructor
    · intro _ _ h0
      rw [hn, Option.some.injEq] at h0
      omega
    · intro _ m _ hm
      rw [hn, Option.some.injEq] at hm
      omega

/-- The files of the old backups are lost, and no others. -/
theorem lost_iff {time_type : LogRotationTimeType} {backup_count : Int32} {tm : Tm}
    {found : List Name} (h : Orderly F d D) (hproper : Proper F d)
    (hfires : Fires d F.file_path time_type tm) (h1 : 1 ≤ backup_count.toInt)
    (hfound : found.Perm d.names.keys) {date : List Char} (hdate : date ∈ D) :
    Lost F d (CheckDateRotation td d F.file_path time_type backup_count tm found) (F.dated date) ↔
      date ∉ newest (backup_count.toInt.toNat - 1) D := by
  obtain ⟨i, hi⟩ := mem_iff_lookup.mp (h.mem_names.mpr hdate)
  have hnew : date ≠ tm.format := fun heq => h.format_notMem hfires (heq ▸ hdate)
  have hsame : ∀ n, F.file_name <+: n → d.names.lookup n = some i → n = F.dated date :=
    fun n hn hni => hproper.distinct n _ i hn (prefix_dated _) hni hi
  constructor
  · intro hlost hkept
    refine hlost i hi (F.dated date) (prefix_dated _) ?_
    cases hlog : d.find F.file_path with
    | none =>
      exact (h.toDated.check_lookup_none hfires h1 hfound hlog).mpr
        ⟨hi, fun x _ heq => dated_injective heq ▸ hkept⟩
    | some j =>
      exact (h.toDated.check_lookup_some hfires h1 hfound hlog).mpr
        (.inr ⟨fun heq => hnew (dated_injective heq), dated_ne_file_name _, hi,
          fun x _ heq => dated_injective heq ▸ hkept⟩)
  · intro hold k hk n hn hni
    obtain rfl : i = k := by rw [hi, Option.some.injEq] at hk; exact hk
    cases hlog : d.find F.file_path with
    | none =>
      obtain ⟨hni, hkept⟩ := (h.toDated.check_lookup_none hfires h1 hfound hlog).mp hni
      exact hold (hkept date hdate (hsame n hn hni))
    | some j =>
      rcases (h.toDated.check_lookup_some hfires h1 hfound hlog).mp hni with
        ⟨-, rfl⟩ | ⟨-, -, hni, hkept⟩
      · rw [find_file_path] at hlog
        exact dated_ne_file_name date (hsame _ (List.prefix_refl _) hlog).symm
      · exact hold (hkept date hdate (hsame n hn hni))

theorem oldestFirst_date (h : Orderly F d D) (hproper : Proper F d)
    (hrot : Rotating F ByDate d e) : OldestFirst td F d e := by
  intro d' hstep a ha b hb holder hlost
  cases e with
  | checkDate time_type backup_count tm found =>
    obtain ⟨x, y, hxy, rfl, rfl⟩ := holder
    have hx := h.mem_names.mp (mem_backups.mp ha).1
    have hy := h.mem_names.mp (mem_backups.mp hb).1
    obtain ⟨hfound, rfl⟩ := step_checkDate hstep
    by_cases hfires : Fires d F.file_path time_type tm
    · by_cases h0 : backup_count.toInt = 0
      · -- only the log file is touched
        refine absurd hlost (not_lost hb ?_)
        rw [CheckDateRotation_of_zero hfires h0, Directory.truncate]
        split
        · rfl
        · rw [F.split_file_path]
          exact AList.lookup_insert_ne (dated_ne_file_name _)
      · have h1 : 1 ≤ backup_count.toInt := by
          have := hrot.2.2 _ rfl
          omega
        rw [lost_iff h hproper hfires h1 hfound hy] at hlost
        rw [lost_iff h hproper hfires h1 hfound hx]
        exact fun hkept => hlost (mem_newest_of_lt hkept hy hxy)
    · rw [CheckDateRotation_of_not_fires hfires] at hlost
      exact absurd hlost (not_lost hb rfl)
  | checkSize => exact absurd hrot.2.1 id
  | _ => exact absurd holder id

end Date

/-! ### Whole runs -/

theorem Start.dated (h : Start F d) : Orderly F d ∅ where
  names name hprefix hne := by
    constructor
    · exact fun hmem => absurd (h.names name hmem hprefix) hne
    · rintro ⟨date, hdate, -⟩
      exact absurd hdate (Finset.notMem_empty date)
  dot date hdate := absurd hdate (Finset.notMem_empty date)
  slash date hdate := absurd hdate (Finset.notMem_empty date)
  reg date hdate := absurd hdate (Finset.notMem_empty date)
  log_reg := h.log_reg

theorem Start.proper (h : Start F d) : Proper F d where
  fresh := h.fresh
  distinct m n i hm hn him hin := by
    have hmem : ∀ {name}, d.names.lookup name = some i → name ∈ d.names :=
      fun hname => mem_of_lookup hname
    rw [h.names m (hmem him) hm, h.names n (hmem hin) hn]

/-- The chain holds the log file, or nothing. -/
theorem Start.chained (h : Start F d) : ∃ c, Chained F d c ∧ Settled c := by
  have hname : ∀ {name i}, F.file_name <+: name → d.names.lookup name = some i →
      name = F.file_name := fun hprefix hi =>
    h.names _ (mem_of_lookup hi) hprefix
  cases hlog : d.names.lookup F.file_name with
  | none =>
    refine ⟨⟨[], 0, le_refl _, List.nodup_nil⟩, ⟨?_, h.fresh, by simp⟩, .inl ⟨rfl, by decide⟩⟩
    intro name hprefix i
    constructor
    · intro hi
      rw [hname hprefix hi, hlog] at hi
      exact absurd hi (by simp)
    · rintro ⟨j, hj, -⟩
      exact absurd hj (by simp)
  | some k =>
    refine ⟨⟨[k], 1, le_refl _, List.nodup_singleton k⟩, ⟨?_, h.fresh, ?_⟩,
      .inr ⟨Nat.one_pos, rfl, by simp [INT_MAX]⟩⟩
    · intro name hprefix i
      constructor
      · intro hi
        have heq := hname hprefix hi
        rw [heq, hlog, Option.some.injEq] at hi
        exact ⟨0, by rw [hi]; rfl, heq⟩
      · rintro ⟨j, hj, rfl⟩
        cases j with
        | zero =>
          obtain rfl : k = i := by simpa using hj
          exact hlog
        | succ j => exact absurd hj (by simp)
    · intro i hi
      obtain rfl := List.mem_singleton.mp hi
      exact h.log_reg i hlog

/-- **`BackupCount` along a run.** Every rotation leaves at most `BackupCount` backups exactly when
the rotations with the count zero find none. What is deleted is the oldest in any case. -/
theorem backup_bound_iff {kind : Event → Prop} (hkind : kind = BySize ∨ kind = ByDate)
    (hstart : Start F d) {r : List (Event × Directory Record)}
    (hrun : ((system td F (Start F)).restrict (Rotating F kind)).IsRun d r) :
    (Along (Bounded td F) d r ↔ Along (NothingToClear F) d r) ∧
      Along (OldestFirst td F) d r := by
  rcases hkind with rfl | rfl
  · have hI : ∀ s e t, (∃ c, Chained F s c ∧ Settled c) →
        ((system td F (Start F)).restrict (Rotating F BySize)).Step s e t →
        ∃ c, Chained F t c ∧ Settled c := by
      rintro s e t ⟨c, hc, hs⟩ ⟨hrot, hstep⟩
      obtain ⟨c', hc', hs', -⟩ := Chained.step hc hs hstep hrot.1 hrot.2.1 hrot.2.2
      exact ⟨c', hc', hs'⟩
    constructor
    · refine System.along_congr hI ?_ hstart.chained hrun
      rintro s e t ⟨c, hc, hs⟩ ⟨hrot, hstep⟩
      exact bounded_iff_size hc hs hrot hstep
    · refine System.along_of_step hI ?_ hstart.chained hrun
      rintro s e t ⟨c, hc, hs⟩ ⟨hrot, hstep⟩
      exact oldestFirst_size hc hs hrot hstep
  · have hI : ∀ s e t, ((∃ D, Orderly F s D) ∧ Proper F s) →
        ((system td F (Start F)).restrict (Rotating F ByDate)).Step s e t →
        (∃ D, Orderly F t D) ∧ Proper F t := by
      rintro s e t ⟨⟨D, hD⟩, hp⟩ ⟨hrot, hstep⟩
      obtain ⟨D', hD', -⟩ := hD.step hstep hrot.1 hrot.2.1 hrot.2.2
      exact ⟨⟨D', hD'⟩, hp.step hrot hstep⟩
    have h0 : (∃ D, Orderly F d D) ∧ Proper F d := ⟨⟨∅, hstart.dated⟩, hstart.proper⟩
    constructor
    · refine System.along_congr hI ?_ h0 hrun
      rintro s e t ⟨⟨D, hD⟩, -⟩ ⟨hrot, hstep⟩
      exact bounded_iff_date hrot hstep hD
    · refine System.along_of_step hI ?_ h0 hrun
      rintro s e t ⟨⟨D, hD⟩, hp⟩ ⟨hrot, -⟩
      exact oldestFirst_date hD hp hrot

/-! ### A count that is lowered to zero -/

/-- A record is logged after the first rotation. -/
def relogged : Directory Record := (rotated.dir.create logA.file_name).append 1 [66]

/-- One rotation with a backup to keep, and one without. -/
def lowered : List (Event × Directory Record) :=
  [(.log [65], found.dir), (.checkSize 0 1 [logA.file_name], rotated.dir), (.log [66], relogged),
    (.checkSize 0 0 relogged.names.keys, relogged.truncate logA.file_path)]

theorem start_lowered : Start logA start.dir where
  names name hmem _ := absurd hmem (by simp [start])
  fresh name i hi := absurd hi (by simp [start])
  log_reg i hi := absurd hi (by simp [start])

theorem isRun_lowered :
    ((system Tinydir.strrchr logA (Start logA)).restrict (Rotating logA BySize)).IsRun start.dir
      lowered := by
  have hcount : ∀ {n : Int32}, 0 ≤ n.toInt → ∀ {m f}, Counts (.checkSize m n f) := by
    intro n hn m f k hk
    simp only [Event.count, Option.some.injEq] at hk
    exact hk ▸ hn
  have hlog : ∀ {r}, Rotating logA BySize start.dir (.log r) :=
    fun {r} => ⟨trivial, trivial, fun n hn => absurd hn (by simp [Event.count])⟩
  have hfirst : step Tinydir.strrchr logA found.dir (.checkSize 0 1 [logA.file_name]) =
      some rotated.dir := by
    have hperm : [logA.file_name].Perm found.dir.names.keys := by decide
    have ht : Triggered logA found.dir (.checkSize 0 1 [logA.file_name]) :=
      ⟨0, by decide, Nat.zero_le _⟩
    rw [Calls.step, if_pos hperm, CheckSizeRotation_of_triggered ht, movedNums_found]
    rfl
  have hsecond : step Tinydir.strrchr logA relogged (.checkSize 0 0 relogged.names.keys) =
      some (relogged.truncate logA.file_path) := by
    have ht : Triggered logA relogged (.checkSize 0 0 relogged.names.keys) :=
      ⟨1, by decide, Nat.zero_le _⟩
    rw [Calls.step, if_pos (List.Perm.refl _), CheckSizeRotation_of_triggered ht]
    rfl
  exact ⟨⟨hlog, rfl⟩, ⟨⟨trivial, trivial, hcount (by decide)⟩, hfirst⟩, ⟨hlog, rfl⟩,
    ⟨⟨trivial, trivial, hcount (by decide)⟩, hsecond⟩, trivial⟩

/-- The backup outlives the rotation with the count zero. -/
theorem lowered_not_bounded :
    Start logA start.dir ∧
      ((system Tinydir.strrchr logA (Start logA)).restrict (Rotating logA BySize)).IsRun start.dir
        lowered ∧ ¬ Along (Bounded Tinydir.strrchr logA) start.dir lowered := by
  refine ⟨start_lowered, isRun_lowered, ?_⟩
  rintro ⟨-, -, -, hlast, -⟩
  have hle := hlast _ 0 isRun_lowered.2.2.2.1.2 ⟨1, by decide, Nat.zero_le _⟩ rfl
  revert hle
  decide

/-- Two nights with two backups to keep, and one with a single one. -/
def nights : List (Event × Directory Record) :=
  [(.log [65], firstEvening), (midnight (january 1 first_day) 2 firstEvening, firstNight),
    (.log [66], secondEvening), (midnight (january 2 second_day) 2 secondEvening, secondNight),
    (.log [67], thirdEvening), (midnight (january 3 third_day) 1 thirdEvening, thirdNight 1)]

/-- A count that is lowered to one is met by the next rotation. -/
theorem backup_bound_nights : (backups logA secondNight).card = 2 ∧
    ((backups logA (thirdNight 1)).card : ℤ) ≤ 1 := by
  have hcount : ∀ {n : Int32}, 0 ≤ n.toInt → ∀ {tm d s}, Rotating logA ByDate s
      (midnight tm n d) := by
    intro n hn tm d s
    refine ⟨trivial, trivial, fun k hk => ?_⟩
    simp only [midnight, Event.count, Option.some.injEq] at hk
    exact hk ▸ hn
  have hlog : ∀ {r s}, Rotating logA ByDate s (.log r) :=
    fun {r s} => ⟨trivial, trivial, fun n hn => absurd hn (by simp [Event.count])⟩
  have hrun : ((system Tinydir.strrchr logA (Start logA)).restrict (Rotating logA ByDate)).IsRun
      start.dir nights :=
    ⟨⟨hlog, rfl⟩, ⟨hcount (by decide), step_firstNight⟩, ⟨hlog, rfl⟩,
      ⟨hcount (by decide), step_secondNight⟩, ⟨hlog, rfl⟩,
      ⟨hcount (by decide), step_thirdNight (by decide)⟩, trivial⟩
  have hclear : Along (NothingToClear logA) start.dir nights :=
    ⟨fun ht => absurd ht id, fun _ h0 => absurd h0 (by decide), fun ht => absurd ht id,
      fun _ h0 => absurd h0 (by decide), fun ht => absurd ht id,
      fun _ h0 => absurd h0 (by decide), trivial⟩
  obtain ⟨-, -, -, -, -, hlast, -⟩ :=
    (backup_bound_iff (.inr rfl) start_lowered hrun).1.mpr hclear
  exact ⟨by decide, hlast (thirdNight 1) 1 (step_thirdNight (by decide))
    (show Fires thirdEvening logA.file_path .DAILY (january 3 third_day) by decide) rfl⟩

end SampLogCore.Rotation.BackupBound
