import SampLogCore.Lib.Folders
import SampLogCore.Lib.Loop

/-!
# The folders of a log file

`EnsureFolders` calls `CreateFolder` for the text in front of each slash of the path of the log
file, before the file is opened. It should make the missing folders above the file, from the top
downwards, and no others (`Prepared`). But `CreateFolder` takes a backslash for a slash, and the
open that follows does not: a folder with a backslash in its name is never made, and others may be
made instead. So the file is prepared when the folders with a backslash are there already and
nothing is made instead of them (`ensures_iff`).
-/

namespace SampLogCore.Logger.LogFolders

open SampLogCore.Lib.Fields SampLogCore.Lib.Folders SampLogCore.Lib.Loop

/-! ### The code -/

/-- `std::replace(foldername.begin(), foldername.end(), '\\', '/')`. -/
def slashes (foldername : List Char) : List Char :=
  foldername.map fun c => if c = '\\' then '/' else c

/-- `utils::CreateFolder`, where it is not built for Windows. -/
def CreateFolder (foldername : List Char) (disk : Disk) : Disk := mkdir (slashes foldername) disk

/-- The variables of the loop in `EnsureFolders`, and the disk. -/
structure Search where
  pos : ℕ
  disk : Disk

/-- One round of the loop in `EnsureFolders`. -/
def ensureRound (path : List Char) (s : Search) : Round Search Disk :=
  match findFrom '/' path s.pos with
  | none => .leave s.disk
  | some pos => .again ⟨pos + 1, CreateFolder (path.take pos) s.disk⟩

/-- `utils::EnsureFolders`: the disk behind the loop, if it ends within these rounds. -/
def EnsureFolders (path : List Char) (disk : Disk) (rounds : ℕ) : Option Disk :=
  iter (ensureRound path) rounds ⟨0, disk⟩

/-- `_logFilePath`. -/
def logFilePath (LogsRootFolder moduleName : List Char) : List Char :=
  LogsRootFolder ++ moduleName ++ ['.', 'l', 'o', 'g']

/-! ### The specification -/

/-- What the path names can be opened: the folder that contains it is there. The missing folders
above it have been made, each after its parent, and no others. -/
structure Prepared (folders : Folder → Bool) (path : List Char) (disk : Disk) : Prop
    extends Grown folders disk where
  container : (Folder.container path).Exists disk.folders
  made : ∀ f : Folder, f.Above (Folder.container path) → ¬ f.Exists folders → f ∈ disk.made
  above : ∀ f ∈ disk.made, f.Above (Folder.container path)

/-- `EnsureFolders` returns, and prepares the path, when there are these folders. -/
def Ensures (folders : Folder → Bool) (path : List Char) : Prop :=
  ∃ rounds disk, EnsureFolders path ⟨folders, []⟩ rounds = some disk ∧ Prepared folders path disk

/-- The folder is one of these, or one above what the path names in front of the first backslash. -/
def Present (folders : Folder → Bool) (path : List Char) (f : Folder) : Prop :=
  f.Exists folders ∨ ∃ q ∈ prefixes path, '\\' ∉ q ∧ f = Folder.of q

/-- The folders above that have a backslash are there, and nothing can be made instead of them. -/
def Harmless (folders : Folder → Bool) (path : List Char) : Prop :=
  ∀ q ∈ prefixes path, '\\' ∈ q → (Folder.of q).Exists folders ∧
    (Present folders path (Folder.of (slashes q)).parent →
      Present folders path (Folder.of (slashes q)))

instance (folders : Folder → Bool) (path : List Char) (f : Folder) :
    Decidable (Present folders path f) :=
  inferInstanceAs (Decidable (_ ∨ ∃ q ∈ prefixes path, _))

instance (folders : Folder → Bool) (path : List Char) : Decidable (Harmless folders path) :=
  inferInstanceAs (Decidable (∀ q ∈ prefixes path, _))

variable {folders : Folder → Bool} {path q rest : List Char} {disk : Disk} {f : Folder}

/-! ### The loop -/

theorem slashes_eq_self (h : '\\' ∉ q) : slashes q = q := by
  have hsame : ∀ c ∈ q, (if c = '\\' then '/' else c) = id c := by
    intro c hc
    have hne : c ≠ '\\' := fun heq => h (heq ▸ hc)
    rw [if_neg hne, id]
  rw [slashes, List.map_congr_left hsame, List.map_id]

theorem notMem_slashes (q : List Char) : '\\' ∉ slashes q := by
  unfold slashes
  intro h
  obtain ⟨c, -, hc⟩ := List.mem_map.mp h
  split_ifs at hc with hback
  · exact absurd hc (by decide)
  · exact hback hc

/-- **The loop** makes the folders of the texts in front of the slashes, one after the other. -/
theorem ends_ensure (pre rest : List Char) (disk : Disk) :
    Ends (ensureRound (pre ++ rest)) ⟨pre.length, disk⟩
      (mkdirs ((prefixes rest).map fun q => slashes (pre ++ q)) disk) := by
  induction hn : rest.length using Nat.strongRecOn generalizing pre rest disk with
  | ind n ih =>
    have hdrop : (pre ++ rest).drop pre.length = rest := List.drop_left
    by_cases hmem : '/' ∈ rest
    · obtain ⟨part, rest, rfl, hpart⟩ := List.eq_append_cons_of_mem hmem
      have hround : ensureRound (pre ++ (part ++ '/' :: rest)) ⟨pre.length, disk⟩ =
          .again ⟨(pre ++ part ++ ['/']).length, CreateFolder (pre ++ part) disk⟩ := by
        simp only [ensureRound, findFrom_of_drop hdrop hpart]
        simp [← List.append_assoc]
      have hnext := ih rest.length (by simp at hn; omega) (pre ++ part ++ ['/']) rest
        (CreateFolder (pre ++ part) disk) rfl
      rw [ends_of_again hround, prefixes_slash hpart]
      simpa [CreateFolder, mkdirs_cons, Function.comp_def] using hnext
    · rw [prefixes_of_notMem hmem]
      refine ends_of_leave ?_
      simp only [ensureRound, findFrom_of_notMem (hdrop.symm ▸ hmem)]
      rfl

theorem ends_ensureFolders (path : List Char) (disk : Disk) :
    Ends (ensureRound path) ⟨0, disk⟩ (mkdirs ((prefixes path).map slashes) disk) :=
  ends_ensure [] path disk

/-! ### The backslashes -/

/-- The text in front of the first backslash of a path. -/
def plain (path : List Char) : List Char := path.takeWhile (· ≠ '\\')

/-- The texts in front of the slashes behind the first backslash of a path. -/
def mixed (path : List Char) : List (List Char) :=
  (prefixes (path.dropWhile (· ≠ '\\'))).map (plain path ++ ·)

theorem prefixes_eq (path : List Char) : prefixes path = prefixes (plain path) ++ mixed path := by
  conv_lhs => rw [← List.takeWhile_append_dropWhile (p := (· ≠ '\\')) (l := path)]
  exact prefixes_append

theorem notMem_of_mem_plain (hq : q ∈ prefixes (plain path)) : '\\' ∉ q := by
  obtain ⟨zs, hplain⟩ := mem_prefixes.mp hq
  intro hmem
  have hback : '\\' ∈ plain path := by simp [hplain, hmem]
  simpa using List.mem_takeWhile_imp hback

theorem mem_of_mem_mixed (hq : q ∈ mixed path) : '\\' ∈ q := by
  obtain ⟨r, hr, rfl⟩ := List.mem_map.mp hq
  obtain ⟨zs, hrest⟩ := mem_prefixes.mp hr
  by_cases hmem : '\\' ∈ path
  · obtain ⟨xs, ys, rfl, hxs⟩ := List.eq_append_cons_of_mem hmem
    rw [dropWhile_ne_append hxs] at hrest
    cases r with
    | nil => exact absurd (List.cons.inj hrest).1 (by decide)
    | cons c r =>
      obtain rfl := (List.cons.inj hrest).1
      simp
  · rw [dropWhile_ne_eq_nil hmem] at hrest
    exact absurd hrest (by simp)

theorem mem_plain (hq : q ∈ prefixes path) (h : '\\' ∉ q) : q ∈ prefixes (plain path) := by
  rw [prefixes_eq, List.mem_append] at hq
  exact hq.resolve_right fun hmixed => h (mem_of_mem_mixed hmixed)

theorem mem_mixed (hq : q ∈ prefixes path) (h : '\\' ∈ q) : q ∈ mixed path := by
  rw [prefixes_eq, List.mem_append] at hq
  exact hq.resolve_left fun hplain => notMem_of_mem_plain hplain h

/-- The disk once the folders in front of the first backslash have been made. -/
def start (folders : Folder → Bool) (path : List Char) : Disk :=
  mkdirs (prefixes (plain path)) ⟨folders, []⟩

/-- What is made from there on is what a backslash was taken for. -/
theorem mkdirs_slashes (folders : Folder → Bool) (path : List Char) :
    mkdirs ((prefixes path).map slashes) ⟨folders, []⟩ =
      mkdirs ((mixed path).map slashes) (start folders path) := by
  have hplain : (prefixes (plain path)).map slashes = prefixes (plain path) := by
    rw [List.map_congr_left fun q hq => slashes_eq_self (notMem_of_mem_plain hq), List.map_id']
  rw [prefixes_eq, List.map_append, mkdirs_append, hplain, start]

theorem exists_start : f.Exists (start folders path).folders ↔ Present folders path f := by
  constructor
  · intro h
    rcases of_exists_mkdirs h with hf | ⟨q, hq, rfl⟩
    · exact .inl hf
    · refine .inr ⟨q, ?_, notMem_of_mem_plain hq, rfl⟩
      rw [prefixes_eq]
      exact List.mem_append_left _ hq
  · rintro (hf | ⟨q, hq, hback, rfl⟩)
    · exact exists_mkdirs_of_exists hf
    · exact exists_mkdirs_prefixes (mem_plain hq hback)

/-- A folder whose name has a backslash is not one whose name has none. -/
theorem of_ne_of {r : List Char} (hq : '\\' ∈ q) (hr : '\\' ∉ r) : Folder.of q ≠ Folder.of r := by
  intro heq
  obtain ⟨name, hname, hmem⟩ := (exists_mem_names (by decide)).mpr hq
  rw [heq] at hname
  exact hr ((exists_mem_names (by decide)).mp ⟨name, hname, hmem⟩)

/-! ### The result -/

theorem start_grown (folders : Folder → Bool) (path : List Char) :
    Grown folders (start folders path) :=
  (grown_start folders).mkdirs

/-- When nothing is made in place of the folders with a backslash, the loop makes those in front. -/
theorem prepared_start (h : Harmless folders path) :
    Prepared folders path (start folders path) := by
  have hgrown := start_grown folders path
  have hthere : ∀ f : Folder, f.Above (Folder.container path) →
      f.Exists (start folders path).folders := by
    intro f hf
    by_cases hbase : f.names = []
    · exact .inl hbase
    obtain ⟨q, hq, rfl⟩ := (above_container_iff hbase).mp hf
    by_cases hback : '\\' ∈ q
    · exact exists_start.mpr (.inl (h q hq hback).1)
    · exact exists_start.mpr (.inr ⟨q, hq, hback, rfl⟩)
  refine ⟨hgrown, hthere _ ⟨rfl, List.prefix_rfl⟩, fun f hf hmissing => ?_, fun f hf => ?_⟩
  · exact ((hgrown.exists_iff f).mp (hthere f hf)).resolve_left hmissing
  · have hmissing := hgrown.missing f hf
    have hf : Present folders path f := exists_start.mp ((hgrown.exists_iff f).mpr (.inr hf))
    obtain ⟨q, hq, -, rfl⟩ := hf.resolve_left hmissing
    exact (above_container_iff fun hbase => hmissing (.inl hbase)).mpr ⟨q, hq, rfl⟩

theorem mkdirs_of_harmless (h : Harmless folders path) :
    mkdirs ((prefixes path).map slashes) ⟨folders, []⟩ = start folders path := by
  rw [mkdirs_slashes]
  refine mkdirs_eq_self fun r hr => ?_
  obtain ⟨q, hq, rfl⟩ := List.mem_map.mp hr
  have hmem : q ∈ prefixes path := by
    rw [prefixes_eq]
    exact List.mem_append_right _ hq
  rw [exists_start, exists_start]
  exact (h q hmem (mem_of_mem_mixed hq)).2

theorem ensures_of_harmless (h : Harmless folders path) : Ensures folders path := by
  obtain ⟨rounds, hrounds⟩ := ends_ensureFolders path ⟨folders, []⟩
  refine ⟨rounds, _, hrounds, ?_⟩
  rw [mkdirs_of_harmless h]
  exact prepared_start h

/-- The call in `WriteLogString` finds the folders that the one in the constructor has made. -/
theorem ends_ensureFolders_again (h : Harmless folders path)
    (hdisk : Ends (ensureRound path) ⟨0, ⟨folders, []⟩⟩ disk) :
    Ends (ensureRound path) ⟨0, disk⟩ disk := by
  obtain rfl : disk = start folders path := by
    rw [← mkdirs_of_harmless h]
    exact hdisk.unique (ends_ensureFolders path _)
  have hself : mkdirs ((prefixes path).map slashes) (start folders path) = start folders path := by
    refine mkdirs_eq_self fun r hr => ?_
    obtain ⟨q, hq, rfl⟩ := List.mem_map.mp hr
    rw [exists_start, exists_start]
    by_cases hback : '\\' ∈ q
    · exact (h q hq hback).2
    · rw [slashes_eq_self hback]
      exact fun _ => .inr ⟨q, hq, hback, rfl⟩
  have hends := ends_ensureFolders path (start folders path)
  rwa [hself] at hends

theorem harmless_of_ensures (h : Ensures folders path) : Harmless folders path := by
  obtain ⟨rounds, disk, hrounds, hprepared⟩ := h
  obtain rfl : disk = mkdirs ((mixed path).map slashes) (start folders path) := by
    rw [← mkdirs_slashes]
    exact Ends.unique ⟨rounds, hrounds⟩ (ends_ensureFolders path ⟨folders, []⟩)
  intro q hq hback
  have hmixed : slashes q ∈ (mixed path).map slashes := List.mem_map_of_mem (mem_mixed hq hback)
  constructor
  · by_contra hmissing
    have habove : (Folder.of q).Above (Folder.container path) :=
      (above_container_iff fun hbase => hmissing (.inl hbase)).mpr ⟨q, hq, rfl⟩
    have hmade := hprepared.made _ habove hmissing
    -- a folder that has been made has no backslash in its name
    rcases of_exists_mkdirs ((hprepared.exists_iff _).mpr (.inr hmade)) with hf | ⟨r, hr, heq⟩
    · rcases exists_start.mp hf with hf | ⟨r, -, hr, heq⟩
      · exact hmissing hf
      · exact of_ne_of hback hr heq
    · obtain ⟨q', -, rfl⟩ := List.mem_map.mp hr
      exact of_ne_of hback (notMem_slashes q') heq
  · intro hparent
    by_contra hmissing
    have hthere := exists_mkdirs_of_mem hmixed (exists_start.mpr hparent)
    have hmade := ((hprepared.exists_iff _).mp hthere).resolve_left fun hf => hmissing (.inl hf)
    -- what has been made is above, and without a backslash it is there before
    obtain ⟨r, hr, heq⟩ := (above_container_iff fun hbase => hmissing (.inl (.inl hbase))).mp
      (hprepared.above _ hmade)
    by_cases hr' : '\\' ∈ r
    · exact of_ne_of hr' (notMem_slashes q) heq.symm
    · exact hmissing (.inr ⟨r, hr, hr', heq⟩)

/-- **When the folders of a log file are prepared**: when those with a backslash are there, and
nothing can be made instead of them. -/
theorem ensures_iff (folders : Folder → Bool) (LogsRootFolder moduleName : List Char) :
    Ensures folders (logFilePath LogsRootFolder moduleName) ↔
      Harmless folders (logFilePath LogsRootFolder moduleName) :=
  ⟨harmless_of_ensures, ensures_of_harmless⟩

/-- The folder `a\b` is missing, and `a/b` cannot be made either. -/
theorem not_ensures_backslash : ¬ Ensures (fun _ => false)
    (logFilePath ['l', 'o', 'g', 's', '/'] ['a', '\\', 'b', '/', 'c']) := by
  intro h
  exact absurd (harmless_of_ensures h) (by decide)

/-- **Whatever is on the disk** the folders are prepared when no folder has a backslash. -/
theorem forall_ensures_iff (path : List Char) :
    (∀ folders, Ensures folders path) ↔ ∀ q ∈ prefixes path, '\\' ∉ q := by
  constructor
  · intro h q hq hback
    have hempty := (harmless_of_ensures (h fun _ => false) q hq hback).1
    obtain ⟨name, hname, -⟩ := (exists_mem_names (by decide)).mpr hback
    rcases hempty with hbase | hfalse
    · rw [hbase] at hname
      exact absurd hname (by simp)
    · exact absurd hfalse (by simp)
  · exact fun h folders => ensures_of_harmless fun q hq hback => absurd hback (h q hq)

end SampLogCore.Logger.LogFolders
