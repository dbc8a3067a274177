import SampLogCore.Lib.Transition
import SampLogCore.Rotation.NewestBackups
import SampLogCore.Rotation.QuietPeriods

/-!
# Date rotation keeps the history

`CheckDateRotation` runs while the worker of `LogManager` appends records to the log, and like the
size rotation it takes no lock that the writer takes. Here it is cut into the same steps as the size
rotation: its checks, the loop over the directory, and its file operations one by one.

In contrast to the size rotation it does not need a log file. So two of them can come while the
writer has the log open, and when only one backup is kept the second deletes the file that the
writer still writes to. `date_rotation_keeps_records` says that nothing else is ever lost: with two
backups or more the backups and the log file hold what the writer has written, in order.
-/

namespace SampLogCore.Rotation.DateHistory

open SampLogCore.Lib.Transition SampLogCore.Lib.Retention SampLogCore.Config.Settings
  SampLogCore.Rotation.LogDirectory SampLogCore.Rotation.LocalTime SampLogCore.Rotation.DateRotation
open SampLogCore.Rotation.SizeRotation (Record Tinydir FileOp)
open SampLogCore.Rotation.History (logA)
open SampLogCore.Rotation.NewestBackups (january first_day second_day)
open SampLogCore.Rotation.DatedRuns (midnight firstEvening firstNight secondEvening secondNight
  step_firstNight step_secondNight)

/-- Where the rotator is. -/
inductive RotatorPc
  /-- between two rotations -/
  | idle
  /-- at the loop over the directory -/
  | listing (backup_count : Int32) (tm : Tm)
  /-- at the first of these operations, the ones it has still to do -/
  | moving (ops : List FileOp)

/-- The directory, the writer, the rotator, and the history. -/
structure State where
  dir : Directory Record
  /-- the inode the writer holds open -/
  opened : Option ℕ
  rotator : RotatorPc
  /-- history: the records the writer has appended to a file with a name of the log, in order -/
  written : List Record
  /-- history: those it has appended to a file that was deleted -/
  lost : List Record
  /-- history: the records in the files deleted by `std::remove`, in order -/
  removed : List Record

/-- A choice of the scheduler. -/
inductive Event
  /-- `std::ofstream logfile(_logFilePath, out | app)` -/
  | openLog
  /-- `logfile << … << std::flush`, and the end of `WriteLogString` -/
  | write (r : Record)
  /-- `CheckDateRotation` up to the loop over the directory -/
  | checkDate (time_type : LogRotationTimeType) (backup_count : Int32) (tm : Tm)
  /-- the loop over the directory, which finds the names in this order -/
  | list (found : List Name)
  /-- the next file operation of the rotator -/
  | fileOp
  /-- another program creates a file -/
  | create (name : Name)
  /-- another program deletes a file -/
  | delete (name : Name)

variable (td : Tinydir) (F : LogFile)

/-- A name of the log leads to the inode. -/
def Named (d : Directory Record) (i : ℕ) : Prop :=
  ∃ name ∈ d.names.keys, F.file_name <+: name ∧ d.names.lookup name = some i

instance (d : Directory Record) (i : ℕ) : Decidable (Named F d i) := by
  unfold Named
  infer_instance

/-- The transition function: `none` when the choice is not possible. -/
def step (s : State) : Event → Option State
  | .openLog =>
    match s.opened with
    | none =>
      let (dir, i) := s.dir.openAppend F.file_path
      some { s with dir := dir, opened := some i }
    | some _ => none
  | .write r =>
    match s.opened with
    | some i =>
      let s := { s with dir := s.dir.append i r, opened := none }
      if Named F s.dir i then some { s with written := s.written ++ [r] }
      else some { s with lost := s.lost ++ [r] }
    | none => none
  | .checkDate time_type backup_count tm =>
    match s.rotator with
    | .idle =>
      if ¬ due time_type tm then some s
      else if (s.dir.find (new_filename F.file_path tm)).isSome then some s
      else if backup_count.toInt > 0 then some { s with rotator := .listing backup_count tm }
      else some { s with rotator := .moving (dateOps F.file_path backup_count.toInt tm []) }
    | _ => none
  | .list found =>
    match s.rotator with
    | .listing backup_count tm =>
      if found.Perm s.dir.names.keys then
        some { s with rotator := .moving (dateOps F.file_path backup_count.toInt tm
          (logfile_dates td s.dir (SplitFilePath F.file_path).2 found)) }
      else none
    | _ => none
  | .fileOp =>
    match s.rotator with
    | .moving (op :: ops) =>
      some { s with
        dir := op.run s.dir
        rotator := if ops = [] then .idle else .moving ops
        removed := s.removed ++ op.deleted s.dir }
    | _ => none
  | .create name =>
    match s.dir.names.lookup name with
    | none => some { s with dir := s.dir.create name }
    | some _ => none
  | .delete name => some { s with dir := { s.dir with names := s.dir.names.erase name } }

/-- Nothing is written or open, the rotator sleeps, and no name begins with that of the log. -/
def Init (s : State) : Prop :=
  s.opened = none ∧ s.rotator = .idle ∧ s.written = [] ∧ s.lost = [] ∧ s.removed = [] ∧
    (∀ name i, s.dir.names.lookup name = some i → ¬ F.file_name <+: name ∧ i < s.dir.next)

/-- The writer, the rotator and the other programs. -/
def system : System State Event := ofStep (Init F) (step td F)

/-- At least `n` backups are kept, the clock is not behind the date of a backup, and other programs
leave the names of the log alone. -/
def Allowed (n : ℤ) (s : State) : Event → Prop
  | .checkDate _ backup_count tm =>
    n ≤ backup_count.toInt ∧ ∀ date, F.dated date ∈ s.dir.names → date ≤ tm.format
  | .create name => ¬ F.file_name <+: name
  | .delete name => ¬ F.file_name <+: name
  | _ => True

/-! ### The files of the log -/

/-- The files of the log, oldest first: the backups by date, and the log file. -/
@[ext] structure Files where
  backups : List (List Char × ℕ)
  log : Option ℕ
  sorted : (backups.map Prod.fst).Pairwise (· < ·)
  dot : ∀ date ∈ backups.map Prod.fst, '.' ∉ date
  slash : ∀ date ∈ backups.map Prod.fst, '/' ∉ date
  nodup : (backups.map Prod.snd ++ log.toList).Nodup

namespace Files

variable (c : Files)

def dates : List (List Char) := c.backups.map Prod.fst

/-- The inodes, oldest first. -/
def ids : List ℕ := c.backups.map Prod.snd ++ c.log.toList

/-- The records, oldest first. -/
def records (inodes : ℕ → Inode Record) : List Record := c.ids.flatMap fun i => (inodes i).records

/-- A new log file. -/
def push (hlog : c.log = none) (i : ℕ) (hi : i ∉ c.ids) : Files where
  backups := c.backups
  log := some i
  sorted := c.sorted
  dot := c.dot
  slash := c.slash
  nodup := by
    have hnodup := c.nodup
    rw [ids] at hi
    rw [hlog, Option.toList_none, List.append_nil] at hnodup hi
    rw [Option.toList_some, List.nodup_append_comm]
    exact List.nodup_cons.mpr ⟨hi, hnodup⟩

/-- The log file becomes the newest backup. -/
def archive (i : ℕ) (hlog : c.log = some i) (date : List Char) (hdate : ∀ x ∈ c.dates, x < date)
    (hdot : '.' ∉ date) (hslash : '/' ∉ date) : Files where
  backups := c.backups ++ [(date, i)]
  log := none
  sorted := by
    rw [List.map_append, List.pairwise_append]
    exact ⟨c.sorted, List.pairwise_singleton _ _, fun a ha b hb => by
      rw [List.map_cons, List.map_nil, List.mem_singleton] at hb
      exact hb ▸ hdate a ha⟩
  dot := by
    rw [List.map_append, List.forall_mem_append]
    exact ⟨c.dot, by simpa using hdot⟩
  slash := by
    rw [List.map_append, List.forall_mem_append]
    exact ⟨c.slash, by simpa using hslash⟩
  nodup := by
    have hnodup := c.nodup
    rw [hlog] at hnodup
    simpa using hnodup

/-- The oldest backup goes. -/
def dropOldest : Files where
  backups := c.backups.tail
  log := c.log
  sorted := c.sorted.sublist ((List.tail_sublist _).map _)
  dot date hdate := c.dot date (((List.tail_sublist _).map _).subset hdate)
  slash date hdate := c.slash date (((List.tail_sublist _).map _).subset hdate)
  nodup := c.nodup.sublist (((List.tail_sublist _).map _).append_right _)

variable {c}

theorem ids_push {hlog : c.log = none} {i : ℕ} {hi : i ∉ c.ids} :
    (c.push hlog i hi).ids = c.ids ++ [i] := by
  simp [ids, push, hlog]

theorem ids_archive {i : ℕ} {hlog : c.log = some i} {date : List Char}
    {hdate : ∀ x ∈ c.dates, x < date} {hdot : '.' ∉ date} {hslash : '/' ∉ date} :
    (c.archive i hlog date hdate hdot hslash).ids = c.ids := by
  simp [ids, archive, hlog]

theorem ids_eq_cons {date : List Char} {i : ℕ} {rest : List (List Char × ℕ)}
    (h : c.backups = (date, i) :: rest) : c.ids = i :: c.dropOldest.ids := by
  simp [ids, dropOldest, h]

theorem records_congr {f g : ℕ → Inode Record} (h : ∀ i ∈ c.ids, f i = g i) :
    c.records f = c.records g :=
  List.flatMap_congr fun i hi => by rw [h i hi]

/-- Appending to the newest file appends to the log. -/
theorem records_append {f : ℕ → Inode Record} {i : ℕ} {r : Record} (h : c.ids.getLast? = some i) :
    c.records (Function.update f i { f i with records := (f i).records ++ [r] }) =
      c.records f ++ [r] := by
  obtain ⟨js, hjs⟩ := List.getLast?_eq_some_iff.mp h
  have hnodup : (js ++ [i]).Nodup := hjs ▸ c.nodup
  have hi : i ∉ js := fun hmem =>
    List.disjoint_of_nodup_append hnodup hmem (List.mem_singleton_self i)
  have hrest : js.flatMap (fun j => (Function.update f i
      { f i with records := (f i).records ++ [r] } j).records) =
      js.flatMap fun j => (f j).records := by
    refine List.flatMap_congr fun j hj => ?_
    rw [Function.update_of_ne]
    rintro rfl
    exact hi hj
  simp [records, hjs, hrest]

end Files

variable {td F}

/-! ### What the directory holds -/

/-- The names of the log are those of its files. -/
structure Held (F : LogFile) (d : Directory Record) (c : Files) : Prop where
  log : d.names.lookup F.file_name = c.log
  backups : ∀ name, F.file_name <+: name → name ≠ F.file_name → ∀ i,
    d.names.lookup name = some i ↔ ∃ date, (date, i) ∈ c.backups ∧ name = F.dated date
  fresh : d.Fresh
  reg : ∀ i ∈ c.ids, (d.inodes i).is_reg = true

namespace Held

variable {d : Directory Record} {c : Files} (h : Held F d c)
include h

theorem lookup_dated {date : List Char} {i : ℕ} :
    d.names.lookup (F.dated date) = some i ↔ (date, i) ∈ c.backups := by
  rw [h.backups _ (prefix_dated date) (dated_ne_file_name date)]
  constructor
  · rintro ⟨date', hmem, heq⟩
    rw [dated_injective heq]
    exact hmem
  · intro hmem
    exact ⟨date, hmem, rfl⟩

/-- A name of the log leads to exactly the files of the log. -/
theorem named_iff {i : ℕ} : Named F d i ↔ i ∈ c.ids := by
  simp only [Named, Files.ids, List.mem_append, List.mem_map, Option.mem_toList]
  constructor
  · rintro ⟨name, -, hprefix, hi⟩
    by_cases hname : name = F.file_name
    · subst hname
      exact .inr (by rw [← h.log, hi])
    · obtain ⟨date, hmem, -⟩ := (h.backups name hprefix hname i).mp hi
      exact .inl ⟨_, hmem, rfl⟩
  · rintro (⟨⟨date, i⟩, hmem, rfl⟩ | hi)
    · have hlookup := h.lookup_dated.mpr hmem
      exact ⟨_, AList.mem_keys.mp (mem_of_lookup hlookup), prefix_dated date, hlookup⟩
    · have hlookup : d.names.lookup F.file_name = some i := by rw [h.log]; exact hi
      exact ⟨_, AList.mem_keys.mp (mem_of_lookup hlookup), List.prefix_refl _, hlookup⟩

theorem lt_next {i : ℕ} (hi : i ∈ c.ids) : i < d.next := by
  obtain ⟨name, -, -, hlookup⟩ := h.named_iff.mpr hi
  exact h.fresh name i hlookup

/-- The backups are those with these dates. -/
theorem dated : Dated F d c.dates.toFinset where
  names name hprefix hne := by
    rw [mem_iff_lookup]
    simp only [h.backups name hprefix hne, List.mem_toFinset, Files.dates, List.mem_map]
    constructor
    · rintro ⟨i, date, hmem, rfl⟩
      exact ⟨date, ⟨_, hmem, rfl⟩, rfl⟩
    · rintro ⟨date, ⟨⟨date, i⟩, hmem, rfl⟩, rfl⟩
      exact ⟨i, date, hmem, rfl⟩
  dot date hdate := c.dot date (List.mem_toFinset.mp hdate)
  slash date hdate := c.slash date (List.mem_toFinset.mp hdate)
  reg date _ i hi := h.reg i (List.mem_append_left _
    (List.mem_map.mpr ⟨_, h.lookup_dated.mp hi, rfl⟩))

/-- **Whatever the order of the directory, the loop finds the dates in their order.** -/
theorem logfile_dates_eq {found : List Name} (hfound : found.Perm d.names.keys) :
    logfile_dates td d F.file_name found = c.dates := by
  have hmem : ∀ date, date ∈ logfile_dates td d F.file_name found ↔ date ∈ c.dates := fun date => by
    rw [h.dated.mem_logfile_dates hfound, List.mem_toFinset]
  have hnodup : (logfile_dates td d F.file_name found).Nodup := h.dated.nodup_logfile_dates hfound
  have hperm : (logfile_dates td d F.file_name found).Perm c.dates :=
    (List.perm_ext_iff_of_nodup hnodup (c.sorted.imp ne_of_lt)).mpr hmem
  exact List.Perm.eq_of_pairwise (fun a b _ _ hab hba => le_antisymm hab hba)
    (sorted_logfile_dates d F.file_name found) (c.sorted.imp le_of_lt) hperm

/-- Other names, and what is in the files, do not matter. -/
theorem frame {d' : Directory Record}
    (hnames : ∀ name, F.file_name <+: name → d'.names.lookup name = d.names.lookup name)
    (hfresh : d'.Fresh)
    (hreg : ∀ i, (d.inodes i).is_reg = true → (d'.inodes i).is_reg = true) : Held F d' c where
  log := by rw [hnames _ (List.prefix_refl _), h.log]
  backups name hprefix hne i := by rw [hnames name hprefix, h.backups name hprefix hne]
  fresh := hfresh
  reg i hi := hreg i (h.reg i hi)

theorem append (i : ℕ) (r : Record) : Held F (d.append i r) c :=
  h.frame (fun _ _ => rfl) h.fresh fun _ hk => reg_append hk i r

theorem create_other {name : Name} (hname : ¬ F.file_name <+: name) :
    Held F (d.create name) c := by
  refine h.frame (fun n hn => AList.lookup_insert_ne ?_) (Directory.Fresh.create h.fresh _)
    fun _ hk => reg_create hk _
  rintro rfl
  exact hname hn

theorem delete_other {name : Name} (hname : ¬ F.file_name <+: name) :
    Held F { d with names := d.names.erase name } c := by
  refine h.frame (fun n hn => AList.lookup_erase_ne ?_) (Directory.Fresh.erase h.fresh _)
    fun _ hk => hk
  rintro rfl
  exact hname hn

/-- A new log file. -/
theorem push (hlog : c.log = none) (hi : d.next ∉ c.ids) :
    Held F (d.create F.file_name) (c.push hlog d.next hi) where
  log := AList.lookup_insert _
  backups name hprefix hne i := by
    rw [show (d.create F.file_name).names.lookup name = d.names.lookup name from
      AList.lookup_insert_ne hne, h.backups name hprefix hne]
    rfl
  fresh := Directory.Fresh.create h.fresh _
  reg i hmem := by
    rw [Files.ids_push, List.mem_append, List.mem_singleton] at hmem
    rcases hmem with hmem | rfl
    · exact reg_create (h.reg i hmem) _
    · simp [Directory.create]

/-- The log file becomes the backup of the present minute. -/
theorem archive {i : ℕ} (hlog : c.log = some i) {tm : Tm} (hdate : ∀ x ∈ c.dates, x < tm.format) :
    Held F (d.rename F.file_path (new_filename F.file_path tm))
      (c.archive i hlog tm.format hdate (dot_format tm) (slash_format tm)) where
  log := by
    rw [Directory.rename, find_file_path, h.log, hlog]
    simp only [new_filename, split_dated (slash_format tm), F.split_file_path]
    rw [AList.lookup_insert_ne (dated_ne_file_name _).symm, AList.lookup_erase]
    rfl
  backups name hprefix hne j := by
    rw [Directory.rename, find_file_path, h.log, hlog]
    simp only [new_filename, split_dated (slash_format tm), F.split_file_path, Files.archive,
      List.mem_append, List.mem_singleton, Prod.mk.injEq]
    by_cases hnew : name = F.dated tm.format
    · subst hnew
      rw [AList.lookup_insert]
      constructor
      · rintro ⟨rfl⟩
        exact ⟨tm.format, .inr ⟨rfl, rfl⟩, rfl⟩
      · rintro ⟨date, hmem, heq⟩
        obtain rfl := dated_injective heq
        rcases hmem with hmem | ⟨-, rfl⟩
        · exact absurd (hdate _ (List.mem_map.mpr ⟨_, hmem, rfl⟩)) (lt_irrefl _)
        · rfl
    · rw [AList.lookup_insert_ne hnew, AList.lookup_erase_ne hne, h.backups name hprefix hne]
      constructor
      · rintro ⟨date, hmem, rfl⟩
        exact ⟨date, .inl hmem, rfl⟩
      · rintro ⟨date, hmem | ⟨rfl, -⟩, rfl⟩
        · exact ⟨date, hmem, rfl⟩
        · exact absurd rfl hnew
  fresh := Directory.Fresh.rename h.fresh _ _
  reg j hj := by
    rw [rename_inodes]
    rw [Files.ids_archive] at hj
    exact h.reg j hj

/-- Without a log file there is nothing to rename. -/
theorem rename_none (hlog : c.log = none) (tm : Tm) :
    d.rename F.file_path (new_filename F.file_path tm) = d := by
  rw [Directory.rename, find_file_path, h.log, hlog]

/-- A remove takes the oldest backup away. -/
theorem dropOldest {date : List Char} {i : ℕ} {rest : List (List Char × ℕ)}
    (hbackups : c.backups = (date, i) :: rest) :
    Held F (d.remove (DateRotation.dated F.file_path date)) c.dropOldest := by
  have hmem : date ∈ c.dates := by simp [Files.dates, hbackups]
  have hsplit : (SplitFilePath (DateRotation.dated F.file_path date)).2 = F.dated date := by
    rw [split_dated (c.slash date hmem)]
  have hrest : ∀ x j, (x, j) ∈ rest → x ≠ date := by
    intro x j hx
    have hsorted := c.sorted
    rw [hbackups, List.map_cons, List.pairwise_cons] at hsorted
    exact ne_of_gt (hsorted.1 x (List.mem_map.mpr ⟨_, hx, rfl⟩))
  refine ⟨?_, fun name hprefix hne j => ?_, Directory.Fresh.erase h.fresh _, fun j hj => ?_⟩
  · rw [Directory.remove, hsplit, AList.lookup_erase_ne (dated_ne_file_name date).symm]
    exact h.log
  · rw [Directory.remove, hsplit]
    simp only [Files.dropOldest, hbackups, List.tail_cons]
    by_cases hname : name = F.dated date
    · subst hname
      rw [AList.lookup_erase]
      refine ⟨fun hj => by simp at hj, ?_⟩
      rintro ⟨x, hx, heq⟩
      exact absurd (dated_injective heq).symm (hrest x j hx)
    · rw [AList.lookup_erase_ne hname, h.backups name hprefix hne, hbackups]
      constructor
      · rintro ⟨x, hx, rfl⟩
        rcases List.mem_cons.mp hx with heq | hx
        · obtain ⟨rfl, -⟩ := Prod.mk.inj heq
          exact absurd rfl hname
        · exact ⟨x, hx, rfl⟩
      · rintro ⟨x, hx, rfl⟩
        exact ⟨x, List.mem_cons_of_mem _ hx, rfl⟩
  · refine h.reg j ?_
    rw [Files.ids_eq_cons hbackups]
    exact List.mem_cons_of_mem _ hj

end Held

/-! ### The invariant -/

/-- The directory, the writer and the history, as the files have them. The writer has the newest
file open, or one that is gone. -/
structure Data (F : LogFile) (n : ℤ) (s : State) (c : Files) : Prop where
  held : Held F s.dir c
  opened : ∀ i, s.opened = some i →
    c.ids.getLast? = some i ∨ n < 2 ∧ i ∉ c.ids ∧ i < s.dir.next
  history : s.written = s.removed ++ c.records s.dir.inodes
  lost : 2 ≤ n → s.lost = []

/-- The operations that delete the first `k` backups and rename the log file. -/
def opsFor (F : LogFile) (c : Files) (k : ℕ) (tm : Tm) : List FileOp :=
  (c.dates.take k).map (fun date => .remove (DateRotation.dated F.file_path date)) ++
    [.rename F.file_path (new_filename F.file_path tm)]

/-- Where the rotator is. When two backups are kept, it does not delete the newest. -/
def Phase (F : LogFile) (n : ℤ) (c : Files) : RotatorPc → Prop
  | .idle => True
  | .listing backup_count tm => n ≤ backup_count.toInt ∧ ∀ date ∈ c.dates, date < tm.format
  | .moving ops => ∃ k tm, ops = opsFor F c k tm ∧ (∀ date ∈ c.dates, date < tm.format) ∧
      (2 ≤ n → 0 < k → k < c.dates.length)

/-- The invariant. -/
def Inv (F : LogFile) (n : ℤ) (s : State) : Prop := ∃ c, Data F n s c ∧ Phase F n c s.rotator

/-! ### The operations on the data -/

variable {n : ℤ} {s t : State} {c : Files}

namespace Data

variable (h : Data F n s c)
include h

/-- What is in the directory otherwise does not matter. -/
theorem frame {dir : Directory Record} (hdir : Held F dir c) (hnext : s.dir.next ≤ dir.next)
    (hinodes : ∀ i, i < s.dir.next → dir.inodes i = s.dir.inodes i) :
    Data F n { s with dir := dir } c where
  held := hdir
  opened i hi := by
    rcases h.opened i hi with hlast | ⟨hn, hout, hlt⟩
    · exact .inl hlast
    · exact .inr ⟨hn, hout, hlt.trans_le hnext⟩
  history := by
    have hsame : c.records dir.inodes = c.records s.dir.inodes :=
      c.records_congr fun i hi => hinodes i (h.held.lt_next hi)
    simp only [hsame]
    exact h.history
  lost := h.lost

theorem create_other {name : Name} (hname : ¬ F.file_name <+: name) :
    Data F n { s with dir := s.dir.create name } c :=
  h.frame (h.held.create_other hname) (Nat.le_succ _) fun _ hi =>
    Function.update_of_ne (ne_of_lt hi) _ _

theorem delete_other {name : Name} (hname : ¬ F.file_name <+: name) :
    Data F n { s with dir := { s.dir with names := s.dir.names.erase name } } c :=
  h.frame (h.held.delete_other hname) le_rfl fun _ _ => rfl

/-- The writer opens the log file, a new one when there is none. -/
theorem openLog : ∃ c', Data F n
    { s with dir := (s.dir.openAppend F.file_path).1
             opened := some (s.dir.openAppend F.file_path).2 } c' ∧
      c'.backups = c.backups := by
  unfold Directory.openAppend
  cases hlog : c.log with
  | some i =>
    rw [find_file_path, h.held.log, hlog]
    refine ⟨c, ⟨h.held, fun j hj => .inl ?_, h.history, h.lost⟩, rfl⟩
    obtain rfl := Option.some.inj hj
    simp [Files.ids, hlog]
  | none =>
    rw [find_file_path, h.held.log, hlog, F.split_file_path]
    have hi : s.dir.next ∉ c.ids := fun hmem => absurd (h.held.lt_next hmem) (lt_irrefl _)
    refine ⟨c.push hlog _ hi, ⟨h.held.push hlog hi, fun j hj => .inl ?_, ?_, h.lost⟩, rfl⟩
    · obtain rfl := Option.some.inj hj
      rw [Files.ids_push, List.getLast?_append, List.getLast?_singleton]
      rfl
    · have hold : c.records (Function.update s.dir.inodes s.dir.next ⟨true, []⟩) =
          c.records s.dir.inodes := c.records_congr fun i hmem =>
        Function.update_of_ne (ne_of_lt (h.held.lt_next hmem)) _ _
      simp only [Files.records] at hold
      simp only [Directory.create, Files.records, Files.ids_push, List.flatMap_append, hold]
      simpa [Files.records] using h.history

/-- What the writer appends goes to the newest file, whatever its name is by now. -/
theorem write_newest {i : ℕ} (hlast : c.ids.getLast? = some i) (r : Record) :
    Data F n { s with dir := s.dir.append i r, opened := none, written := s.written ++ [r] } c where
  held := h.held.append i r
  opened j hj := by simp at hj
  history := by
    simp only [Directory.append, c.records_append hlast, h.history, List.append_assoc]
  lost := h.lost

/-- A file that is gone takes what the writer appends to it. -/
theorem write_gone {i : ℕ} (hn : n < 2) (hout : i ∉ c.ids) (r : Record) :
    Data F n { s with dir := s.dir.append i r, opened := none, lost := s.lost ++ [r] } c where
  held := h.held.append i r
  opened j hj := by simp at hj
  history := by
    have hsame : c.records (s.dir.append i r).inodes = c.records s.dir.inodes :=
      c.records_congr fun j hj => Function.update_of_ne (by rintro rfl; exact hout hj) _ _
    simp only [hsame]
    exact h.history
  lost h2 := by omega

/-- The rename leaves the files as they are. -/
theorem rename {tm : Tm} (hdate : ∀ x ∈ c.dates, x < tm.format) :
    ∃ c', Data F n { s with dir := s.dir.rename F.file_path (new_filename F.file_path tm) } c' := by
  cases hlog : c.log with
  | none =>
    rw [h.held.rename_none hlog]
    exact ⟨c, h⟩
  | some i =>
    refine ⟨_, h.held.archive hlog hdate, ?_, ?_, h.lost⟩
    · rw [Files.ids_archive]
      intro j hj
      rcases h.opened j hj with hlast | ⟨hn, hout, hlt⟩
      · exact .inl hlast
      · refine .inr ⟨hn, hout, ?_⟩
        rw [Directory.rename]
        split <;> exact hlt
    · rw [Files.records, Files.ids_archive, rename_inodes]
      exact h.history

/-- A remove takes the oldest backup away, with its records. -/
theorem remove {date : List Char} {i : ℕ} {rest : List (List Char × ℕ)}
    (hbackups : c.backups = (date, i) :: rest) (hkeep : 2 ≤ n → rest ≠ []) :
    Data F n { s with
      dir := s.dir.remove (DateRotation.dated F.file_path date)
      removed := s.removed ++
        s.dir.contents (SplitFilePath (DateRotation.dated F.file_path date)).2 }
      c.dropOldest := by
  have hmem : date ∈ c.dates := by simp [Files.dates, hbackups]
  have hlookup : s.dir.names.lookup (F.dated date) = some i :=
    h.held.lookup_dated.mpr (by simp [hbackups])
  have hcontents : s.dir.contents (SplitFilePath (DateRotation.dated F.file_path date)).2 =
      (s.dir.inodes i).records := by
    rw [split_dated (c.slash date hmem)]
    simp [Directory.contents, hlookup]
  have hids := Files.ids_eq_cons hbackups
  refine ⟨h.held.dropOldest hbackups, fun j hj => ?_, ?_, h.lost⟩
  · rcases h.opened j hj with hlast | ⟨hn, hout, hlt⟩
    · cases hrest : c.dropOldest.ids with
      | nil =>
        -- the only file goes: two backups are not kept
        rw [hids, hrest, List.getLast?_singleton] at hlast
        obtain rfl := Option.some.inj hlast
        refine .inr ⟨not_le.mp fun h2 => hkeep h2 ?_, by simp, h.held.lt_next (by rw [hids]; simp)⟩
        rw [Files.ids, List.append_eq_nil_iff, List.map_eq_nil_iff] at hrest
        simpa [Files.dropOldest, hbackups] using hrest.1
      | cons k ks =>
        refine .inl ?_
        rw [hids, hrest, List.getLast?_cons_cons] at hlast
        exact hlast
    · exact .inr ⟨hn, fun hin => hout (by rw [hids]; exact List.mem_cons_of_mem _ hin), hlt⟩
  · rw [hcontents, List.append_assoc, h.history, Files.records, hids, List.flatMap_cons]
    rfl

/-- The data do not speak of the rotator. -/
theorem rotator (pc : RotatorPc) : Data F n { s with rotator := pc } c := { h with }

end Data

/-- Only the dates matter for where the rotator is. -/
theorem Phase.congr {c' : Files} (h : c'.dates = c.dates) {pc : RotatorPc} (hp : Phase F n c pc) :
    Phase F n c' pc := by
  unfold Phase opsFor at *
  rw [h]
  exact hp

/-! ### The steps -/

theorem inv_openLog (h : Inv F n s) (hs : step td F s .openLog = some t) : Inv F n t := by
  obtain ⟨c, hdata, hphase⟩ := h
  simp only [step] at hs
  split at hs
  · obtain rfl := Option.some.inj hs
    obtain ⟨c', hdata', hbackups⟩ := hdata.openLog
    exact ⟨c', hdata', hphase.congr (by simp only [Files.dates, hbackups])⟩
  · simp at hs

theorem step_write_named {i : ℕ} {r : Record} (hopen : s.opened = some i)
    (h : Named F (s.dir.append i r) i) : step td F s (.write r) =
      some { s with dir := s.dir.append i r, opened := none, written := s.written ++ [r] } := by
  simp only [step, hopen, if_pos h]

theorem step_write_gone {i : ℕ} {r : Record} (hopen : s.opened = some i)
    (h : ¬ Named F (s.dir.append i r) i) : step td F s (.write r) =
      some { s with dir := s.dir.append i r, opened := none, lost := s.lost ++ [r] } := by
  simp only [step, hopen, if_neg h]

theorem inv_write {r : Record} (h : Inv F n s) (hs : step td F s (.write r) = some t) :
    Inv F n t := by
  obtain ⟨c, hdata, hphase⟩ := h
  cases hopen : s.opened with
  | none => simp [step, hopen] at hs
  | some i =>
    have hnamed : Named F (s.dir.append i r) i ↔ i ∈ c.ids := (hdata.held.append i r).named_iff
    rcases hdata.opened i hopen with hlast | ⟨hn, hout, -⟩
    · rw [step_write_named hopen (hnamed.mpr (List.mem_of_getLast? hlast))] at hs
      obtain rfl := Option.some.inj hs
      exact ⟨c, hdata.write_newest hlast r, hphase⟩
    · rw [step_write_gone hopen fun hin => hout (hnamed.mp hin)] at hs
      obtain rfl := Option.some.inj hs
      exact ⟨c, hdata.write_gone hn hout r, hphase⟩

theorem inv_checkDate (hn : 1 ≤ n) {time_type : LogRotationTimeType} {backup_count : Int32}
    {tm : Tm} (h : Inv F n s) (hallowed : Allowed F n s (.checkDate time_type backup_count tm))
    (hs : step td F s (.checkDate time_type backup_count tm) = some t) : Inv F n t := by
  obtain ⟨c, hdata, hphase⟩ := h
  obtain ⟨hcount, hclock⟩ := hallowed
  simp only [step] at hs
  split at hs
  · by_cases hdue : due time_type tm
    swap
    · rw [if_pos hdue] at hs
      obtain rfl := Option.some.inj hs
      exact ⟨c, hdata, hphase⟩
    rw [if_neg (not_not.mpr hdue)] at hs
    split_ifs at hs with hnew hpos
    · obtain rfl := Option.some.inj hs
      exact ⟨c, hdata, hphase⟩
    · obtain rfl := Option.some.inj hs
      refine ⟨c, hdata.rotator _, hcount, fun date hdate => ?_⟩
      have hmem : F.dated date ∈ s.dir.names :=
        hdata.held.dated.mem_names.mpr (List.mem_toFinset.mpr hdate)
      refine lt_of_le_of_ne (hclock date hmem) ?_
      rintro rfl
      rw [find_new_filename, AList.lookup_isSome] at hnew
      exact hnew hmem
    · omega
  · simp at hs

theorem inv_list (hn : 1 ≤ n) {found : List Name} (h : Inv F n s)
    (hs : step td F s (.list found) = some t) : Inv F n t := by
  obtain ⟨c, hdata, hphase⟩ := h
  simp only [step] at hs
  split at hs
  · next backup_count tm hpc =>
    split_ifs at hs with hfound
    obtain rfl := Option.some.inj hs
    rw [hpc] at hphase
    obtain ⟨hcount, hdate⟩ := hphase
    refine ⟨c, hdata.rotator _, c.dates.length - (backup_count.toInt.toNat - 1), tm, ?_, hdate, ?_⟩
    · rw [F.split_file_path, hdata.held.logfile_dates_eq hfound, dateOps_eq (by omega), opsFor]
    · intro h2 hpos
      omega
  · simp at hs

theorem inv_fileOp (h : Inv F n s) (hs : step td F s .fileOp = some t) : Inv F n t := by
  obtain ⟨c, hdata, hphase⟩ := h
  simp only [step] at hs
  split at hs
  · next op ops hpc =>
    obtain rfl := Option.some.inj hs
    rw [hpc] at hphase
    obtain ⟨k, tm, hops, hdate, hkeep⟩ := hphase
    rcases hk : c.dates.take k with _ | ⟨date, dates⟩
    · -- the last operation
      rw [opsFor, hk, List.map_nil, List.nil_append] at hops
      obtain ⟨rfl, rfl⟩ := List.cons.inj hops
      obtain ⟨c', hdata'⟩ := hdata.rename hdate
      exact ⟨c', by simpa [FileOp.run, FileOp.deleted] using hdata'.rotator .idle, trivial⟩
    · rw [opsFor, hk, List.map_cons, List.cons_append] at hops
      obtain ⟨rfl, hrest⟩ := List.cons.inj hops
      rcases hbackups : c.backups with _ | ⟨⟨date', i⟩, rest⟩
      · simp [Files.dates, hbackups] at hk
      rcases k with _ | k
      · simp at hk
      have hdates : c.dates = date' :: rest.map Prod.fst := by simp [Files.dates, hbackups]
      rw [hdates, List.take_succ_cons] at hk
      obtain ⟨rfl, rfl⟩ := List.cons.inj hk
      have hlength : c.dates.length = rest.length + 1 := by simp [hdates]
      have hdrop : c.dropOldest.dates = rest.map Prod.fst := by
        simp [Files.dates, Files.dropOldest, hbackups]
      refine ⟨c.dropOldest, ?_, ?_⟩
      · refine (hdata.remove hbackups fun h2 hnil => ?_).rotator _
        have := hkeep h2 (Nat.succ_pos k)
        rw [hlength, hnil, List.length_nil] at this
        omega
      · have hne : ops ≠ [] := by rw [hrest]; simp
        rw [if_neg hne]
        refine ⟨k, tm, ?_, fun x hx => hdate x ?_, fun h2 hpos => ?_⟩
        · rw [hrest, opsFor, hdrop]
        · rw [hdates]
          exact List.mem_cons_of_mem _ (hdrop ▸ hx)
        · have := hkeep h2 (Nat.succ_pos k)
          rw [hdrop, List.length_map]
          omega
  · simp at hs

/-- **Every step keeps the invariant.** -/
theorem inv_step (hn : 1 ≤ n) (h : Inv F n s) {e : Event} (hallowed : Allowed F n s e)
    (hs : step td F s e = some t) : Inv F n t := by
  cases e with
  | openLog => exact inv_openLog h hs
  | write r => exact inv_write h hs
  | checkDate time_type backup_count tm => exact inv_checkDate hn h hallowed hs
  | list found => exact inv_list hn h hs
  | fileOp => exact inv_fileOp h hs
  | create name =>
    obtain ⟨c, hdata, hphase⟩ := h
    simp only [step] at hs
    split at hs
    · obtain rfl := Option.some.inj hs
      exact ⟨c, hdata.create_other hallowed, hphase⟩
    · simp at hs
  | delete name =>
    obtain ⟨c, hdata, hphase⟩ := h
    simp only [step, Option.some.injEq] at hs
    subst hs
    exact ⟨c, hdata.delete_other hallowed, hphase⟩

/-- The log has no file at first. -/
theorem inv_init (h : Init F s) : Inv F n s := by
  obtain ⟨hopened, hidle, hwritten, hlost, hremoved, hnames⟩ := h
  have hnone : ∀ name i, F.file_name <+: name → s.dir.names.lookup name ≠ some i :=
    fun name i hprefix hi => (hnames name i hi).1 hprefix
  refine ⟨⟨[], none, by simp, by simp, by simp, by simp⟩, ⟨⟨?_, ?_, ?_, ?_⟩, ?_, ?_, ?_⟩, ?_⟩
  · exact Option.eq_none_iff_forall_ne_some.mpr fun i => hnone _ i (List.prefix_refl _)
  · intro name hprefix _ i
    simpa using hnone name i hprefix
  · exact fun name i hi => (hnames name i hi).2
  · simp [Files.ids]
  · simp [hopened]
  · simp [hwritten, hremoved, Files.records, Files.ids]
  · exact fun _ => hlost
  · rw [hidle]
    trivial

theorem reachable_inv (hn : 1 ≤ n) (h : ((system td F).restrict (Allowed F n)).Reachable s) :
    Inv F n s := by
  refine h.invariant (I := Inv F n) (fun _ hinit => inv_init hinit) ?_
  intro s e t hi hst
  exact inv_step hn hi hst.1 hst.2

/-! ### The history -/

/-- The files of the log by their dates. -/
theorem Inv.exists_dates (h : Inv F n s) : ∃ dates : List (List Char), dates.Pairwise (· < ·) ∧
    (∀ name, F.file_name <+: name → name ≠ F.file_name →
      (name ∈ s.dir.names ↔ ∃ date ∈ dates, name = F.dated date)) ∧
    s.written = s.removed ++ (dates.flatMap fun date => s.dir.contents (F.dated date)) ++
      s.dir.contents F.file_name ∧
    (2 ≤ n → s.lost = []) := by
  obtain ⟨c, hdata, -⟩ := h
  refine ⟨c.dates, c.sorted, fun name hprefix hne => ?_, ?_, hdata.lost⟩
  · rw [hdata.held.dated.names name hprefix hne]
    simp only [List.mem_toFinset]
  · have hbackups : c.dates.flatMap (fun date => s.dir.contents (F.dated date)) =
        (c.backups.map Prod.snd).flatMap fun i => (s.dir.inodes i).records := by
      rw [Files.dates, List.flatMap_map, List.flatMap_map]
      refine List.flatMap_congr fun b hb => ?_
      have hlookup : s.dir.names.lookup (F.dated b.1) = some b.2 := hdata.held.lookup_dated.mpr hb
      simp [Directory.contents, hlookup]
    have hlog : s.dir.contents F.file_name =
        c.log.toList.flatMap fun i => (s.dir.inodes i).records := by
      rw [Directory.contents, hdata.held.log]
      cases c.log <;> simp
    rw [hdata.history, Files.records, Files.ids, List.flatMap_append, hbackups, hlog,
      List.append_assoc]

/-- **Date rotation loses nothing but what is written to a file it has deleted.** In every run in
which at least `n ≥ 1` backups are kept, the clock does not go back behind a backup and other
programs leave the names of the log alone, also in the middle of a rotation the names of the log are
the log file and backups with dates, and what the writer has written to files of the log is what was
in the deleted files, followed by the backups in the order of their dates and the log file. With
`n ≥ 2` it has written nothing else. -/
theorem date_rotation_keeps_records (td : Tinydir) (F : LogFile) {n : ℤ} (hn : 1 ≤ n) {s : State}
    (h : ((system td F).restrict (Allowed F n)).Reachable s) :
    ∃ dates : List (List Char), dates.Pairwise (· < ·) ∧
      (∀ name, F.file_name <+: name → name ≠ F.file_name →
        (name ∈ s.dir.names ↔ ∃ date ∈ dates, name = F.dated date)) ∧
      s.written = s.removed ++ (dates.flatMap fun date => s.dir.contents (F.dated date)) ++
        s.dir.contents F.file_name ∧
      (2 ≤ n → s.lost = []) :=
  (reachable_inv hn h).exists_dates

/-! Two nights in January, between which nothing is logged. -/

/-- An empty directory. -/
def start : State := ⟨⟨fun _ => ⟨true, []⟩, 0, ∅⟩, none, .idle, [], [], []⟩

/-- The first and the second of January. -/
def first : Tm := january 1 first_day
def second : Tm := january 2 second_day

/-- The writer has the log file open. -/
def opened : State := { start with dir := start.dir.create logA.file_name, opened := some 0 }

/-- The log file is the backup of the first of January now. -/
def moved : State :=
  { opened with dir := opened.dir.rename logA.file_path (new_filename logA.file_path first) }

/-- That backup is deleted. -/
def deleted : State :=
  { moved with dir := moved.dir.remove (DateRotation.dated logA.file_path first.format) }

theorem not_dated_opened (date : List Char) : logA.dated date ∉ opened.dir.names := by
  intro hdate
  have hmem : logA.dated date ∈ start.dir.names.insert logA.file_name 0 := hdate
  rcases (AList.mem_insert _).mp hmem with hname | hmem
  · exact dated_ne_file_name date hname
  · exact AList.notMem_empty _ hmem

/-- The log file itself is no backup. -/
theorem logfile_dates_opened :
    logfile_dates Tinydir.strrchr opened.dir logA.file_name [logA.file_name] = [] := by
  have hnone :
      [logA.file_name].filterMap (dateOf Tinydir.strrchr opened.dir logA.file_name) = [] := by
    decide
  rw [logfile_dates, hnone, List.mergeSort_nil]

theorem logfile_dates_moved : logfile_dates Tinydir.strrchr moved.dir logA.file_name
    [logA.dated first.format] = [first.format] := by
  have hsome : [logA.dated first.format].filterMap
      (dateOf Tinydir.strrchr moved.dir logA.file_name) = [first.format] := by
    decide
  rw [logfile_dates, hsome, List.mergeSort_singleton]

theorem reachable_moved {n : ℤ} (backup_count : Int32) (h1 : 1 ≤ backup_count.toInt)
    (hn : n ≤ backup_count.toInt) :
    ((system Tinydir.strrchr logA).restrict (Allowed logA n)).Reachable moved := by
  have hopened : ((system Tinydir.strrchr logA).restrict (Allowed logA n)).Reachable opened :=
    .next (e := .openLog) (.init (s := start) ⟨rfl, rfl, rfl, rfl, rfl, fun name i h => by
      simp [start] at h⟩) ⟨trivial, rfl⟩
  have hlisting : ((system Tinydir.strrchr logA).restrict (Allowed logA n)).Reachable
      { opened with rotator := .listing backup_count first } := by
    refine .next (e := .checkDate .DAILY backup_count first) hopened
      ⟨⟨hn, fun date hdate => ?_⟩, ?_⟩
    · exact absurd hdate (not_dated_opened date)
    · have hpos : backup_count.toInt > 0 := h1
      show (if ¬ due .DAILY first then some opened
        else if (opened.dir.find (new_filename logA.file_path first)).isSome = true then some opened
        else if backup_count.toInt > 0 then
          some { opened with rotator := .listing backup_count first }
        else _) = _
      rw [if_neg (by decide), if_neg (by decide), if_pos hpos]
  have hmoving : ((system Tinydir.strrchr logA).restrict (Allowed logA n)).Reachable
      { opened with rotator := .moving (dateOps logA.file_path backup_count.toInt first []) } := by
    refine .next (e := .list [logA.file_name]) hlisting ⟨trivial, ?_⟩
    have hperm : [logA.file_name].Perm opened.dir.names.keys := by decide
    show (if [logA.file_name].Perm opened.dir.names.keys then some { opened with
      rotator := .moving (dateOps logA.file_path backup_count.toInt first
        (logfile_dates Tinydir.strrchr opened.dir logA.file_name [logA.file_name])) } else none) = _
    rw [if_pos hperm, logfile_dates_opened]
  rw [dateOps_eq h1, List.take_nil, List.map_nil, List.nil_append] at hmoving
  exact .next (e := .fileOp) hmoving ⟨trivial, rfl⟩

/-- **With one backup a record can be lost**: the second night deletes the file that the writer has
had open since before the first. -/
theorem one_backup_loses : ∃ s : State,
    ((system Tinydir.strrchr logA).restrict (Allowed logA 1)).Reachable s ∧ s.lost = [[65]] := by
  have hmoved := reachable_moved (n := 1) 1 (by decide) (by decide)
  have hlisting : ((system Tinydir.strrchr logA).restrict (Allowed logA 1)).Reachable
      { moved with rotator := .listing 1 second } := by
    refine .next (e := .checkDate .DAILY 1 second) hmoved ⟨⟨by decide, fun date hdate => ?_⟩, ?_⟩
    · have hmem : logA.dated date ∈ (opened.dir.names.erase logA.file_name).insert
        (logA.dated first.format) 0 := hdate
      rcases (AList.mem_insert _).mp hmem with hname | hmem
      · rw [dated_injective hname]
        decide
      · exact absurd (AList.mem_erase.mp hmem).2 (not_dated_opened date)
    · show (if ¬ due .DAILY second then some moved
        else if (moved.dir.find (new_filename logA.file_path second)).isSome = true then some moved
        else if (1 : Int32).toInt > 0 then some { moved with rotator := .listing 1 second }
        else some { moved with rotator := .moving (dateOps logA.file_path 1 second []) }) = _
      rw [if_neg (by decide), if_neg (by decide), if_pos (by decide)]
  have hmoving : ((system Tinydir.strrchr logA).restrict (Allowed logA 1)).Reachable
      { moved with rotator := .moving (dateOps logA.file_path 1 second [first.format]) } := by
    refine .next (e := .list [logA.dated first.format]) hlisting ⟨trivial, ?_⟩
    have hperm : [logA.dated first.format].Perm moved.dir.names.keys := by decide
    show (if [logA.dated first.format].Perm moved.dir.names.keys then some { moved with
      rotator := .moving (dateOps logA.file_path 1 second (logfile_dates Tinydir.strrchr moved.dir
        logA.file_name [logA.dated first.format])) } else none) = _
    rw [if_pos hperm, logfile_dates_moved]
  have hdeleted : ((system Tinydir.strrchr logA).restrict (Allowed logA 1)).Reachable deleted :=
    .next (e := .fileOp) (.next (e := .fileOp) hmoving ⟨trivial, rfl⟩) ⟨trivial, rfl⟩
  have hwritten : ((system Tinydir.strrchr logA).restrict (Allowed logA 1)).Reachable
      { deleted with dir := deleted.dir.append 0 [65], opened := none, lost := [[65]] } :=
    .next (e := .write [65]) hdeleted ⟨trivial, step_write_gone rfl (by decide)⟩
  exact ⟨_, hwritten, rfl⟩

/-- The writer, delayed over a night, finds its file as a backup; delayed over two, with one backup
to keep, it finds it deleted. -/
theorem date_rotation_keeps_records_moved :
    (∃ s : State,
      s.dir.contents (logA.dated first.format) = [[65]] ∧ s.written = [[65]] ∧ s.lost = [] ∧
        ∃ dates : List (List Char), s.written = s.removed ++
          (dates.flatMap fun date => s.dir.contents (logA.dated date)) ++
            s.dir.contents logA.file_name) ∧
    ∃ s : State, s.lost = [[65]] ∧
      ∃ dates : List (List Char), s.written = s.removed ++
        (dates.flatMap fun date => s.dir.contents (logA.dated date)) ++
          s.dir.contents logA.file_name := by
  constructor
  · have hmoved := reachable_moved (n := 2) 2 (by decide) (by decide)
    have hwritten : ((system Tinydir.strrchr logA).restrict (Allowed logA 2)).Reachable
        { moved with dir := moved.dir.append 0 [65], opened := none, written := [[65]] } :=
      .next (e := .write [65]) hmoved ⟨trivial, step_write_named rfl (by decide)⟩
    obtain ⟨dates, -, -, hall, hlost⟩ :=
      date_rotation_keeps_records Tinydir.strrchr logA (by decide) hwritten
    exact ⟨_, by decide, rfl, hlost le_rfl, dates, hall⟩
  · obtain ⟨s, hs, hlost⟩ := one_backup_loses
    obtain ⟨dates, -, -, hall, -⟩ :=
      date_rotation_keeps_records Tinydir.strrchr logA le_rfl hs
    exact ⟨s, hlost, dates, hall⟩

/-! ### A call and its steps -/

variable {d : Directory Record}

/-- The directory is `d`, and nobody is in the middle of something. -/
structure Between (d : Directory Record) (s : State) : Prop where
  dir : s.dir = d
  opened : s.opened = none
  rotator : s.rotator = .idle

/-- The operations that are left lead to the directory `d`. -/
structure Moving (d : Directory Record) (ops : List FileOp) (s : State) : Prop where
  dir : ops.foldl FileOp.run s.dir = d
  opened : s.opened = none
  rotator : s.rotator = if ops = [] then .idle else .moving ops

theorem Moving.step {op : FileOp} {ops : List FileOp} {s : State} (h : Moving d (op :: ops) s) :
    ∃ t, DateHistory.step td F s .fileOp = some t ∧ Moving d ops t := by
  have hst : DateHistory.step td F s .fileOp = some { s with
      dir := op.run s.dir
      rotator := if ops = [] then .idle else .moving ops
      removed := s.removed ++ op.deleted s.dir } := by
    simp [DateHistory.step, h.rotator]
  exact ⟨_, hst, h.dir, h.opened, rfl⟩

/-- The file operations of a rotation, one after the other. -/
theorem exec_dateOps (td : Tinydir) (F : LogFile) {ops : List FileOp} {s : State} (hops : ops ≠ [])
    (hs : s.rotator = .moving ops) (hopened : s.opened = none) :
    ∃ t, exec (step td F) s (List.replicate ops.length .fileOp) = some t ∧
      Between (ops.foldl FileOp.run s.dir) t := by
  have hstart : Moving (ops.foldl FileOp.run s.dir) ops s := ⟨rfl, hopened, by rw [hs, if_neg hops]⟩
  obtain ⟨t, ht, hend⟩ := exec_replicate (step td F) (fun _ _ _ h => h.step) ops hstart
  exact ⟨t, ht, hend.dir, hend.opened, hend.rotator⟩

/-- **A call is a run of the steps it is made of.** -/
theorem exec_CheckDateRotation {s : State} (hs : Between d s)
    {time_type : LogRotationTimeType} {backup_count : Int32} {tm : Tm} {found : List Name}
    (hfound : found.Perm d.names.keys) :
    ∃ es t, exec (step td F) s (.checkDate time_type backup_count tm :: es) = some t ∧
      Between (CheckDateRotation td d F.file_path time_type backup_count tm found) t := by
  obtain ⟨rfl, hopened, hidle⟩ := hs
  have hops : ∀ dates, dateOps F.file_path backup_count.toInt tm dates ≠ [] := by
    intro dates
    simp [dateOps]
  unfold CheckDateRotation
  by_cases hdue : due time_type tm
  swap
  · exact ⟨[], s, by simp [exec, step, hidle, hdue], by simp [hdue], hopened, hidle⟩
  by_cases hnew : (s.dir.find (new_filename F.file_path tm)).isSome = true
  · exact ⟨[], s, by simp [exec, step, hidle, hdue, hnew], by simp [hdue, hnew], hopened, hidle⟩
  by_cases hpos : backup_count.toInt > 0
  · set dates := logfile_dates td s.dir (SplitFilePath F.file_path).2 found with hdates
    obtain ⟨t, ht, hend⟩ := exec_dateOps td F
      (s := { s with rotator := .moving (dateOps F.file_path backup_count.toInt tm dates) })
      (hops dates) rfl hopened
    refine ⟨.list found :: List.replicate (dateOps F.file_path backup_count.toInt tm dates).length
      .fileOp, t, ?_, ?_⟩
    · rw [← ht]
      simp only [exec, step, hidle, if_neg (not_not.mpr hdue), if_neg hnew, if_pos hpos,
        if_pos hfound, ← hdates, Option.bind_some]
    · simpa only [if_neg (not_not.mpr hdue), if_neg hnew, if_pos hpos] using hend
  · obtain ⟨t, ht, hend⟩ := exec_dateOps td F
      (s := { s with rotator := .moving (dateOps F.file_path backup_count.toInt tm []) })
      (hops []) rfl hopened
    refine ⟨List.replicate (dateOps F.file_path backup_count.toInt tm []).length .fileOp, t, ?_, ?_⟩
    · rw [← ht]
      simp only [exec, step, hidle, if_neg (not_not.mpr hdue), if_neg hnew, if_neg hpos,
        Option.bind_some]
    · simpa only [if_neg (not_not.mpr hdue), if_neg hnew, if_neg hpos] using hend

/-- Everything but a call of `CheckSizeRotation`. -/
def DateOnly : Calls.Event → Prop
  | .checkSize _ _ _ => False
  | _ => True

theorem exec_dateOnly {e : Calls.Event} {d' : Directory Record} {s : State} (he : DateOnly e)
    (hs : Between d s) (h : Calls.step td F d e = some d') :
    ∃ es t, exec (step td F) s es = some t ∧ Between d' t := by
  cases e with
  | log r =>
    obtain ⟨rfl, hopened, hidle⟩ := hs
    obtain rfl := Option.some.inj h
    obtain ⟨t, ht, hbetween⟩ : ∃ t, exec (step td F) s [.openLog, .write r] = some t ∧ Between
        ((s.dir.openAppend F.file_path).1.append (s.dir.openAppend F.file_path).2 r) t := by
      simp only [exec, step, hopened, Option.bind_some]
      split_ifs
      · exact ⟨_, rfl, rfl, rfl, hidle⟩
      · exact ⟨_, rfl, rfl, rfl, hidle⟩
    exact ⟨_, t, ht, hbetween⟩
  | checkSize => exact absurd he id
  | checkDate time_type backup_count tm found =>
    obtain ⟨hfound, rfl⟩ := Calls.step_checkDate h
    obtain ⟨es, t, ht, hbetween⟩ := exec_CheckDateRotation hs hfound
    exact ⟨_, t, ht, hbetween⟩
  | create name =>
    obtain ⟨hnone, rfl⟩ := Calls.step_create h
    obtain ⟨rfl, hopened, hidle⟩ := hs
    refine ⟨[.create name], { s with dir := s.dir.create name }, ?_, rfl, hopened, hidle⟩
    simp only [exec, step, hnone, Option.bind_some]
  | delete name =>
    obtain ⟨rfl, hopened, hidle⟩ := hs
    obtain rfl := Option.some.inj h
    exact ⟨[.delete name], _, rfl, rfl, hopened, hidle⟩

theorem exec_nights : exec (Calls.step Tinydir.strrchr logA) firstEvening
    [midnight (january 1 first_day) 2 firstEvening, .log [66],
      midnight (january 2 second_day) 2 secondEvening] = some secondNight := by
  have hlog : Calls.step Tinydir.strrchr logA firstNight (.log [66]) = some secondEvening := rfl
  simp only [exec, step_firstNight, hlog, step_secondNight, Option.bind_some]

end SampLogCore.Rotation.DateHistory
