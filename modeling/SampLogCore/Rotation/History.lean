import SampLogCore.Rotation.Calls
import SampLogCore.Rotation.Invariant

/-!
# Size rotation keeps the history

Between two rotations the gap of the backup chain is at one of its ends, so the numbers of its files
have no hole. The main result, `rotation_keeps_records`, reads off what the invariant says there:
the backups are the files `1` to `k`, and together with what was deleted they hold the history of
the writer, in order.

In `Calls` a whole call of `CheckSizeRotation` is one step. A run of such steps is one of the steps
here (`size_calls_are_runs`).
-/

namespace SampLogCore.Rotation.History

open SampLogCore.Lib.Transition SampLogCore.Rotation.LogDirectory SampLogCore.Rotation.SizeRotation
  SampLogCore.Rotation.Backups SampLogCore.Rotation.Invariant
open SampLogCore.Rotation.Calls (CheckSizeRotation)

variable {F : LogFile} {s : State} {c : Chain}

/-- The records of a chain are those behind its names, oldest first. -/
theorem records_eq (h : Data F s c) {g : ℕ}
    (hg : ∀ j, j < c.ids.length → c.number j = j + g) :
    c.records s.dir.inodes =
      (List.range c.ids.length).reverse.flatMap fun j => s.dir.contents (F.backup (j + g)) := by
  have hmap : c.ids.map (fun i => (s.dir.inodes i).records) =
      (List.range c.ids.length).map fun j => s.dir.contents (F.backup (j + g)) := by
    refine List.ext_getElem (by simp) fun j hj _ => ?_
    have hj : j < c.ids.length := by simpa using hj
    rw [List.getElem_map, List.getElem_map, List.getElem_range, ← h.names.contents_backup hj,
      hg j hj]
  rw [Chain.records, List.flatMap_def, List.flatMap_def, List.map_reverse, List.map_reverse, hmap]

/-- **Size rotation loses, doubles and reorders nothing.** In every run in which at least one backup
is kept at each rotation and other programs leave the names of the log alone, between two rotations
the backups are the files `1` to `k`, and what the writer has written is what was in the deleted
files, followed by the backups from the oldest to the newest and the log file. -/
theorem rotation_keeps_records (td : Tinydir) (F : LogFile) {s : State}
    (h : ((system td F).restrict (Allowed F)).Reachable s) (hidle : s.rotator = .idle) :
    ∃ k : ℕ,
      (∀ name, F.file_name <+: name → name ≠ F.file_name →
        (name ∈ s.dir.names ↔ ∃ n, 1 ≤ n ∧ n ≤ k ∧ name = F.backup n)) ∧
      s.written = s.removed ++
        (List.range (k + 1)).reverse.flatMap fun n => s.dir.contents (F.backup n) := by
  obtain ⟨c, hdata, hphase⟩ := reachable_inv h
  rw [hidle] at hphase
  by_cases hgap : c.gap = 0
  · -- no log file: the numbers are `1, …, k`
    have hnumber : ∀ j, j < c.ids.length → c.number j = j + 1 :=
      fun j _ => c.number_of_le (by omega)
    refine ⟨c.ids.length, fun name hname hne => ?_, ?_⟩
    · refine hdata.chained.mem_names_iff (fun n hn => ?_) hname hne
      rw [c.exists_number_of_front hgap]
      exact and_iff_right hn
    · have hlog : s.dir.contents (F.backup 0) = [] := by
        have : s.dir.names.lookup (F.backup 0) = none := by
          rw [← hdata.chained.find_log_none hgap, Directory.find, F.split_file_path, LogFile.backup]
        simp [Directory.contents, this]
      rw [hdata.history, records_eq hdata hnumber, List.range_succ_eq_map]
      simp [hlog, List.flatMap_map, ← List.map_reverse]
  · -- the log file is there: the numbers are `0, …, k`
    have hend : c.gap = c.ids.length := by
      rcases hphase with ⟨hg, _⟩ | ⟨hg, _⟩
      · exact absurd hg hgap
      · exact hg
    have hnumber : ∀ j, j < c.ids.length → c.number j = j + 0 :=
      fun j hj => c.number_of_lt (by omega)
    obtain ⟨k, hk⟩ : ∃ k, c.ids.length = k + 1 := ⟨c.ids.length - 1, by omega⟩
    refine ⟨k, fun name hname hne => ?_, ?_⟩
    · refine hdata.chained.mem_names_iff (fun n hn => ?_) hname hne
      rw [c.exists_number_of_end hend]
      omega
    · rw [hdata.history, records_eq hdata hnumber, hk]
      simp only [Nat.add_zero]

/-! ### A run -/

/-- The log file `logs/a.log`. -/
def logA : LogFile := ⟨['l', 'o', 'g', 's'], ['a'], by decide⟩

/-- An empty directory. -/
def start : State := ⟨⟨fun _ => ⟨true, []⟩, 0, ∅⟩, none, .idle, [], []⟩

/-- One record is written, and the rotator is at the loop over the directory. -/
def found : State where
  dir := (start.dir.create logA.file_name).append 0 [65]
  opened := none
  rotator := .listing 1
  written := [[65]]
  removed := []

/-- The log file is the first backup now. -/
def rotated : State where
  dir := found.dir.rename logA.file_path (filename_count logA.file_path 1)
  opened := none
  rotator := .idle
  written := [[65]]
  removed := []

/-- The log file itself is no backup. -/
theorem movedNums_found :
    movedNums Tinydir.strrchr found.dir logA.file_name [logA.file_name] = [] := by
  have : [logA.file_name].filterMap (movedNum Tinydir.strrchr found.dir logA.file_name) = [] := by
    decide
  rw [movedNums, this, List.mergeSort_nil]

theorem reachable_rotated :
    ((system Tinydir.strrchr logA).restrict (Allowed logA)).Reachable rotated := by
  have hfound : ((system Tinydir.strrchr logA).restrict (Allowed logA)).Reachable found := by
    refine .next (e := .checkSize 0 1) (.next (e := .write [65]) (.next (e := .openLog)
      (.init (s := start) ⟨rfl, rfl, rfl, rfl, ?_⟩) ⟨trivial, rfl⟩) ⟨trivial, rfl⟩)
      ⟨show 1 ≤ (1 : Int32).toInt by decide, rfl⟩
    intro name i h
    exact absurd h (by simp [start])
  have hmoving : ((system Tinydir.strrchr logA).restrict (Allowed logA)).Reachable
      { found with rotator := .moving (fileOps logA.file_path 1 []) } := by
    refine .next (e := .list [logA.file_name]) hfound ⟨trivial, ?_⟩
    have hperm : [logA.file_name].Perm found.dir.names.keys := by decide
    change (if [logA.file_name].Perm found.dir.names.keys then some { found with
      rotator := .moving (fileOps logA.file_path 1
        (movedNums Tinydir.strrchr found.dir logA.file_name [logA.file_name])) } else none) = _
    rw [if_pos hperm, movedNums_found]
  exact .next (e := .fileOp) hmoving ⟨trivial, rfl⟩

/-- The record is in the first backup. -/
theorem rotation_keeps_records_rotated : ∃ k : ℕ,
    (∀ name, logA.file_name <+: name → name ≠ logA.file_name →
      (name ∈ rotated.dir.names ↔ ∃ n, 1 ≤ n ∧ n ≤ k ∧ name = logA.backup n)) ∧
    [[65]] = (List.range (k + 1)).reverse.flatMap fun n => rotated.dir.contents (logA.backup n) :=
  rotation_keeps_records Tinydir.strrchr logA reachable_rotated rfl

/-! ### A call and its steps -/

variable {td : Tinydir} {d : Directory Record}

/-- The directory is `d`, and nobody is in the middle of something. -/
structure Between (d : Directory Record) (s : State) : Prop where
  dir : s.dir = d
  opened : s.opened = none
  rotator : s.rotator = .idle

/-- The operations that are left lead to the directory `d`. -/
structure Moving (d : Directory Record) (ops : List FileOp) (s : State) : Prop where
  dir : ops.foldl FileOp.run s.dir = d
  opened : s.opened = none
  rotator : s.rotator = if ops = [] then .idle else .moving ops

theorem Moving.step {op : FileOp} {ops : List FileOp} {s : State} (h : Moving d (op :: ops) s) :
    ∃ t, SizeRotation.step td F s .fileOp = some t ∧ Moving d ops t := by
  have hst : SizeRotation.step td F s .fileOp = some { s with
      dir := op.run s.dir
      rotator := if ops = [] then .idle else .moving ops
      removed := s.removed ++ op.deleted s.dir } := by
    simp [SizeRotation.step, h.rotator]
  exact ⟨_, hst, h.dir, h.opened, rfl⟩

/-- The file operations of a rotation, one after the other. -/
theorem exec_fileOps (td : Tinydir) (F : LogFile) {ops : List FileOp} {s : State} (hops : ops ≠ [])
    (hs : s.rotator = .moving ops) (hopened : s.opened = none) :
    ∃ t, exec (SizeRotation.step td F) s (List.replicate ops.length .fileOp) = some t ∧
      Between (ops.foldl FileOp.run s.dir) t := by
  have hstart : Moving (ops.foldl FileOp.run s.dir) ops s := ⟨rfl, hopened, by rw [hs, if_neg hops]⟩
  obtain ⟨t, ht, hend⟩ :=
    exec_replicate (SizeRotation.step td F) (fun _ _ _ h => h.step) ops hstart
  exact ⟨t, ht, hend.dir, hend.opened, hend.rotator⟩

/-- **A call is a run of the steps it is made of.** -/
theorem exec_CheckSizeRotation {s : State} (hs : Between d s) {max_size : UInt32}
    {backup_count : Int32} {found : List Name} (hfound : found.Perm d.names.keys) :
    ∃ es t, exec (SizeRotation.step td F) s (.checkSize max_size backup_count :: es) = some t ∧
      Between (CheckSizeRotation td d F.file_path max_size backup_count found) t := by
  obtain ⟨rfl, hopened, hidle⟩ := hs
  have hops : ∀ nums, fileOps F.file_path backup_count.toInt nums ≠ [] := by
    intro nums
    simp [fileOps]
  unfold CheckSizeRotation
  cases hlog : s.dir.find F.file_path with
  | none =>
    refine ⟨[], s, ?_, rfl, hopened, hidle⟩
    simp only [exec, SizeRotation.step, hidle, hlog, Option.bind_some]
  | some i =>
    by_cases hsmall : fileSize (s.dir.inodes i).records < (max_size * 1000).toNat
    · refine ⟨[], s, ?_, by simp only [if_pos hsmall], hopened, hidle⟩
      simp only [exec, SizeRotation.step, hidle, hlog, if_pos hsmall, Option.bind_some]
    by_cases hpos : backup_count.toInt > 0
    · set nums := movedNums td s.dir (SplitFilePath F.file_path).2 found with hnums
      obtain ⟨t, ht, hend⟩ := exec_fileOps td F
        (s := { s with rotator := .moving (fileOps F.file_path backup_count.toInt nums) })
        (hops nums) rfl hopened
      refine ⟨.list found :: List.replicate (fileOps F.file_path backup_count.toInt nums).length
        .fileOp, t, ?_, ?_⟩
      · rw [← ht]
        simp only [exec, SizeRotation.step, hidle, hlog, if_neg hsmall, if_pos hpos, if_pos hfound,
          ← hnums, Option.bind_some]
      · simpa only [if_neg hsmall, if_pos hpos] using hend
    · obtain ⟨t, ht, hend⟩ := exec_fileOps td F
        (s := { s with rotator := .moving (fileOps F.file_path backup_count.toInt []) })
        (hops []) rfl hopened
      refine ⟨List.replicate (fileOps F.file_path backup_count.toInt []).length .fileOp, t, ?_, ?_⟩
      · rw [← ht]
        simp only [exec, SizeRotation.step, hidle, hlog, if_neg hsmall, if_neg hpos,
          Option.bind_some]
      · simpa only [if_neg hsmall, if_neg hpos] using hend

/-- Everything but a call of `CheckDateRotation`. -/
def SizeOnly : Calls.Event → Prop
  | .checkDate _ _ _ _ => False
  | _ => True

theorem exec_sizeOnly {e : Calls.Event} {d' : Directory Record} {s : State} (he : SizeOnly e)
    (hs : Between d s) (h : Calls.step td F d e = some d') :
    ∃ es t, exec (SizeRotation.step td F) s es = some t ∧ Between d' t := by
  cases e with
  | log r =>
    obtain ⟨rfl, hopened, hidle⟩ := hs
    obtain rfl := Option.some.inj h
    refine ⟨[.openLog, .write r], { s with
      dir := (s.dir.openAppend F.file_path).1.append (s.dir.openAppend F.file_path).2 r
      opened := none
      written := s.written ++ [r] }, ?_, rfl, rfl, hidle⟩
    simp only [exec, SizeRotation.step, hopened, Option.bind_some]
  | checkSize max_size backup_count found =>
    obtain ⟨hfound, rfl⟩ := Calls.step_checkSize h
    obtain ⟨es, t, ht, hbetween⟩ := exec_CheckSizeRotation hs hfound
    exact ⟨_, t, ht, hbetween⟩
  | checkDate => exact absurd he id
  | create name =>
    obtain ⟨hnone, rfl⟩ := Calls.step_create h
    obtain ⟨rfl, hopened, hidle⟩ := hs
    refine ⟨[.create name], { s with dir := s.dir.create name }, ?_, rfl, hopened, hidle⟩
    simp only [exec, SizeRotation.step, hnone, Option.bind_some]
  | delete name =>
    obtain ⟨rfl, hopened, hidle⟩ := hs
    obtain rfl := Option.some.inj h
    exact ⟨[.delete name], _, rfl, rfl, hopened, hidle⟩

theorem exec_rotated : exec (Calls.step Tinydir.strrchr logA) start.dir
    [.log [65], .checkSize 0 1 [logA.file_name]] = some rotated.dir := by
  have hperm : [logA.file_name].Perm found.dir.names.keys := by decide
  have hcheck : CheckSizeRotation Tinydir.strrchr found.dir logA.file_path 0 1
      [logA.file_name] = rotated.dir := by
    unfold CheckSizeRotation
    rw [logA.split_file_path, movedNums_found]
    rfl
  have hstep : Calls.step Tinydir.strrchr logA found.dir (.checkSize 0 1 [logA.file_name]) =
      some rotated.dir := by
    rw [Calls.step, if_pos hperm, hcheck]
  show (Calls.step Tinydir.strrchr logA found.dir (.checkSize 0 1 [logA.file_name])).bind some = _
  rw [hstep, Option.bind_some]

end SampLogCore.Rotation.History
