import Mathlib.Data.List.Induction
import Mathlib.Logic.Function.Basic
import SampLogCore.Lib.Fields

/-!
# Folders and the paths to them

A path names a folder by the fields between its slashes, of which the empty ones do not count. The
root and the current folder are always there, and any set of other folders may be; `mkdir` adds one
to it exactly when its parent is there. In whichever order folders are made, each is made after its
parent (`Grown`).

The folder that contains what a path names is given by all fields but the last. The folders from
there upwards are those of the texts in front of the slashes of the path (`above_container_iff`),
and to make these from left to right makes them all (`exists_mkdirs_prefixes`).

The names `.` and `..` are like any other.
-/

namespace SampLogCore.Lib.Folders

open SampLogCore.Lib.Fields

/-- A folder: whether its path begins at the root, and the names on the path. -/
@[ext]
structure Folder where
  absolute : Bool
  names : List (List Char)
  deriving DecidableEq

namespace Folder

/-- The folder with this path. -/
def of (path : List Char) : Folder :=
  ⟨path.head? = some '/', (path.splitOn '/').filter (· ≠ [])⟩

def parent (f : Folder) : Folder := ⟨f.absolute, f.names.dropLast⟩

/-- The folder that contains what the path names. -/
def container (path : List Char) : Folder :=
  ⟨path.head? = some '/', (path.splitOn '/').dropLast.filter (· ≠ [])⟩

/-- The folder is `g` or one that `g` is in. -/
def Above (f g : Folder) : Prop := f.absolute = g.absolute ∧ f.names <+: g.names

/-- The folder is always there, or one of these. -/
def Exists (folders : Folder → Bool) (f : Folder) : Prop := f.names = [] ∨ folders f

instance (folders : Folder → Bool) (f : Folder) : Decidable (f.Exists folders) :=
  inferInstanceAs (Decidable (_ ∨ _))

end Folder

/-- The folders on a disk, and those among them that have been made, in this order. -/
structure Disk where
  folders : Folder → Bool
  made : List Folder

/-- `mkdir`. -/
def mkdir (path : List Char) (disk : Disk) : Disk :=
  if ¬ (Folder.of path).Exists disk.folders ∧ (Folder.of path).parent.Exists disk.folders then
    ⟨Function.update disk.folders (Folder.of path) true, disk.made ++ [Folder.of path]⟩
  else disk

/-- The texts in front of the slashes of a path. -/
def prefixes : List Char → List (List Char)
  | [] => []
  | c :: path => (if c = '/' then [[]] else []) ++ (prefixes path).map (c :: ·)

variable {folders : Folder → Bool} {f : Folder} {path q xs ys : List Char} {disk : Disk}
  {paths : List (List Char)}

/-! ### The folders of a path -/

theorem prefixes_append : prefixes (xs ++ ys) = prefixes xs ++ (prefixes ys).map (xs ++ ·) := by
  induction xs with
  | nil => simp [prefixes]
  | cons c xs ih =>
    rw [List.cons_append, prefixes, prefixes, ih]
    simp

theorem prefixes_concat (c : Char) :
    prefixes (path ++ [c]) = prefixes path ++ if c = '/' then [path] else [] := by
  rw [prefixes_append]
  split_ifs with hc
  · simp [prefixes, hc]
  · simp [prefixes, hc]

theorem mem_prefixes : q ∈ prefixes path ↔ ∃ zs, path = q ++ '/' :: zs := by
  induction path generalizing q with
  | nil => simp [prefixes]
  | cons c path ih =>
    unfold prefixes
    rw [List.mem_append, List.mem_map]
    cases q with
    | nil =>
      split_ifs with hc
      · simp [hc]
      · simp [hc]
    | cons c' q =>
      split_ifs with hc
      · simp [ih, eq_comm, and_comm]
      · simp [ih, eq_comm, and_comm]

theorem prefixes_of_notMem (h : '/' ∉ path) : prefixes path = [] := by
  refine List.eq_nil_iff_forall_not_mem.mpr fun q hq => h ?_
  obtain ⟨zs, rfl⟩ := mem_prefixes.mp hq
  simp

theorem prefixes_slash (h : '/' ∉ xs) :
    prefixes (xs ++ '/' :: ys) = xs :: (prefixes ys).map (xs ++ '/' :: ·) := by
  rw [prefixes_append, prefixes_of_notMem h, prefixes]
  simp

/-- The names are made of the characters of the path but its slashes. -/
theorem exists_mem_names {c : Char} (hc : c ≠ '/') :
    (∃ name ∈ (Folder.of path).names, c ∈ name) ↔ c ∈ path := by
  rw [← exists_mem_splitOn hc]
  constructor
  · rintro ⟨name, hname, hmem⟩
    exact ⟨name, (List.mem_filter.mp hname).1, hmem⟩
  · rintro ⟨name, hname, hmem⟩
    refine ⟨name, List.mem_filter.mpr ⟨hname, ?_⟩, hmem⟩
    simpa using List.ne_nil_of_mem hmem

/-- A path begins like what is in front of a slash, unless that is nothing. -/
theorem head?_of_mem_prefixes (h : q ∈ prefixes path) (hq : q ≠ []) : path.head? = q.head? := by
  obtain ⟨zs, rfl⟩ := mem_prefixes.mp h
  obtain ⟨c, q, rfl⟩ := List.exists_cons_of_ne_nil hq
  rfl

theorem names_of_mem_prefixes (h : q ∈ prefixes path) :
    (Folder.of q).names <+: (Folder.container path).names := by
  obtain ⟨zs, rfl⟩ := mem_prefixes.mp h
  simp only [Folder.of, Folder.container, List.splitOn_append_cons_self]
  rw [List.dropLast_append_of_ne_nil (List.splitOn_ne_nil '/' zs), List.filter_append]
  exact List.prefix_append _ _

theorem exists_last (path : List Char) :
    ∃ last, path.splitOn '/' = (path.splitOn '/').dropLast ++ [last] :=
  ⟨_, (List.dropLast_concat_getLast (List.splitOn_ne_nil '/' path)).symm⟩

/-- **The folders above what a path names** are those of the texts in front of its slashes. -/
theorem above_container_iff (hf : f.names ≠ []) :
    f.Above (Folder.container path) ↔ ∃ q ∈ prefixes path, f = Folder.of q := by
  constructor
  · rintro ⟨habs, hnames⟩
    obtain ⟨ls, hls, hfilter⟩ := List.prefix_filter_iff.mp hnames
    have hne : ls ≠ [] := by
      rintro rfl
      exact hf hfilter
    obtain ⟨ms, hms⟩ := hls
    obtain ⟨last, hlast⟩ := exists_last path
    have hsplit : path.splitOn '/' = ls ++ (ms ++ [last]) := by
      rw [← List.append_assoc, hms, ← hlast]
    obtain ⟨q, zs, hpath, hq⟩ := exists_of_splitOn_eq_append hsplit hne (by simp)
    have hmem : q ∈ prefixes path := mem_prefixes.mpr ⟨zs, hpath⟩
    have hqne : q ≠ [] := by
      rintro rfl
      rw [hfilter, ← hq] at hf
      exact hf (by simp)
    refine ⟨q, hmem, Folder.ext ?_ ?_⟩
    · rw [habs, Folder.container, Folder.of, head?_of_mem_prefixes hmem hqne]
    · rw [hfilter, ← hq, Folder.of]
  · rintro ⟨q, hq, rfl⟩
    have hqne : q ≠ [] := by
      rintro rfl
      exact hf (by simp [Folder.of])
    refine ⟨?_, names_of_mem_prefixes hq⟩
    rw [Folder.container, Folder.of, head?_of_mem_prefixes hq hqne]

/-- The parent of a folder is the one of a text in front of a slash, or always there. -/
theorem parent_above : (Folder.of q).parent.Above (Folder.container q) := by
  refine ⟨rfl, ?_⟩
  obtain ⟨last, hlast⟩ := exists_last q
  have hnames : (Folder.of q).names =
      (Folder.container q).names ++ [last].filter (· ≠ []) := by
    simp only [Folder.of, Folder.container]
    rw [← List.filter_append, ← hlast]
  simp only [Folder.parent, hnames]
  by_cases hempty : last = []
  · simp [hempty, List.dropLast_prefix]
  · simp [hempty]

/-! ### Making folders -/

theorem exists_mkdir : f.Exists (mkdir path disk).folders ↔
    f.Exists disk.folders ∨ f = Folder.of path ∧ (Folder.of path).parent.Exists disk.folders := by
  unfold mkdir
  split_ifs with h
  · by_cases hf : f = Folder.of path
    · subst hf
      exact ⟨fun _ => .inr ⟨rfl, h.2⟩, fun _ => .inr (by simp)⟩
    · simp [Folder.Exists, hf]
  · constructor
    · exact Or.inl
    · rintro (hf | ⟨rfl, hparent⟩)
      · exact hf
      · by_contra hmissing
        exact h ⟨hmissing, hparent⟩

theorem mkdir_eq_self
    (h : (Folder.of path).parent.Exists disk.folders → (Folder.of path).Exists disk.folders) :
    mkdir path disk = disk :=
  if_neg fun hboth => hboth.1 (h hboth.2)

/-- Makes the folders with these paths, one after the other. -/
def mkdirs (paths : List (List Char)) (disk : Disk) : Disk :=
  paths.foldl (fun disk path => mkdir path disk) disk

theorem mkdirs_append {paths' : List (List Char)} :
    mkdirs (paths ++ paths') disk = mkdirs paths' (mkdirs paths disk) := List.foldl_append

theorem mkdirs_cons : mkdirs (path :: paths) disk = mkdirs paths (mkdir path disk) := rfl

theorem exists_mkdirs_of_exists (h : f.Exists disk.folders) :
    f.Exists (mkdirs paths disk).folders := by
  induction paths generalizing disk with
  | nil => exact h
  | cons path paths ih => exact ih (exists_mkdir.mpr (.inl h))

/-- A folder whose parent is there is made. -/
theorem exists_mkdirs_of_mem (hq : q ∈ paths) (h : (Folder.of q).parent.Exists disk.folders) :
    (Folder.of q).Exists (mkdirs paths disk).folders := by
  induction paths generalizing disk with
  | nil => exact absurd hq (by simp)
  | cons path paths ih =>
    rw [mkdirs_cons]
    rcases List.mem_cons.mp hq with rfl | hq
    · exact exists_mkdirs_of_exists (exists_mkdir.mpr (.inr ⟨rfl, h⟩))
    · exact ih hq (exists_mkdir.mpr (.inl h))

/-- Nothing else is made. -/
theorem of_exists_mkdirs (h : f.Exists (mkdirs paths disk).folders) :
    f.Exists disk.folders ∨ ∃ q ∈ paths, f = Folder.of q := by
  induction paths generalizing disk with
  | nil => exact .inl h
  | cons path paths ih =>
    rcases ih h with hf | ⟨q, hq, rfl⟩
    · rcases exists_mkdir.mp hf with hf | ⟨rfl, -⟩
      · exact .inl hf
      · exact .inr ⟨path, List.mem_cons_self, rfl⟩
    · exact .inr ⟨q, List.mem_cons_of_mem _ hq, rfl⟩

theorem mkdirs_eq_self (h : ∀ q ∈ paths, (Folder.of q).parent.Exists disk.folders →
    (Folder.of q).Exists disk.folders) : mkdirs paths disk = disk := by
  induction paths with
  | nil => rfl
  | cons path paths ih =>
    rw [mkdirs_cons, mkdir_eq_self (h path List.mem_cons_self)]
    exact ih fun q hq => h q (List.mem_cons_of_mem _ hq)

/-- The folders that have been made since there were only these: they were missing, and each was
made after its parent. -/
structure Grown (folders : Folder → Bool) (disk : Disk) : Prop where
  exists_iff : ∀ f : Folder, f.Exists disk.folders ↔ f.Exists folders ∨ f ∈ disk.made
  missing : ∀ f ∈ disk.made, ¬ f.Exists folders
  order : ∀ before f after, disk.made = before ++ f :: after →
    f.parent.Exists folders ∨ f.parent ∈ before

theorem grown_start (folders : Folder → Bool) : Grown folders ⟨folders, []⟩ :=
  ⟨by simp, by simp, by simp⟩

theorem Grown.mkdir (h : Grown folders disk) : Grown folders (mkdir path disk) := by
  by_cases hmk : ¬ (Folder.of path).Exists disk.folders ∧
      (Folder.of path).parent.Exists disk.folders
  · have hmade : (Folders.mkdir path disk).made = disk.made ++ [Folder.of path] := by
      simp [Folders.mkdir, hmk]
    refine ⟨fun f => ?_, fun f hf => ?_, fun before f after hsplit => ?_⟩
    · rw [exists_mkdir, h.exists_iff, hmade, List.mem_append, List.mem_singleton]
      simp only [hmk.2, and_true, or_assoc]
    · rw [hmade, List.mem_append, List.mem_singleton] at hf
      rcases hf with hf | rfl
      · exact h.missing f hf
      · exact fun hf => hmk.1 ((h.exists_iff _).mpr (.inl hf))
    · rw [hmade] at hsplit
      rcases List.eq_nil_or_concat after with rfl | ⟨after, last, rfl⟩
      · obtain ⟨rfl, hlast⟩ := List.append_inj' hsplit rfl
        obtain rfl := List.singleton_inj.mp hlast
        exact (h.exists_iff _).mp hmk.2
      · rw [List.concat_eq_append, ← List.cons_append, ← List.append_assoc] at hsplit
        exact h.order before f after (List.append_inj' hsplit rfl).1
  · rw [Folders.mkdir, if_neg hmk]
    exact h

theorem Grown.mkdirs (h : Grown folders disk) : Grown folders (mkdirs paths disk) := by
  induction paths generalizing disk with
  | nil => exact h
  | cons path paths ih => exact ih h.mkdir

/-- **From left to right all folders above are made.** -/
theorem exists_mkdirs_prefixes (hq : q ∈ prefixes path) :
    (Folder.of q).Exists (mkdirs (prefixes path) disk).folders := by
  induction path using List.reverseRecOn generalizing q with
  | nil => exact absurd hq (by simp [prefixes])
  | append_singleton path c ih =>
    rw [prefixes_concat] at hq ⊢
    rw [mkdirs_append]
    rcases List.mem_append.mp hq with hq | hq
    · exact exists_mkdirs_of_exists (ih hq)
    · refine exists_mkdirs_of_mem hq ?_
      have hpath : q = path := by
        split_ifs at hq
        · exact List.mem_singleton.mp hq
        · exact absurd hq (by simp)
      by_cases hbase : (Folder.of q).parent.names = []
      · exact .inl hbase
      · obtain ⟨r, hr, hparent⟩ := (above_container_iff hbase).mp parent_above
        rw [hparent]
        exact ih (hpath ▸ hr)

end SampLogCore.Lib.Folders
