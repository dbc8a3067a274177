import SampLogCore.Lib.Footprints
import SampLogCore.Rotation.QuietPeriods
import SampLogCore.Rotation.Strangers
import SampLogCore.Rotation.Throttle

/-!
# A round over all logs

In each round `LogRotationManager::Process` goes through `_rotationEntries`, an `unordered_map`, and
makes the calls one after the other. The checks of logs in the same directory list each other's
files, but only look at names that begin with their own. So when no log has a name that begins with
that of another, every log is treated as if it were the only one, and the order of the map does not
matter (`round_acts_alone`, `round_order`).

What a file operation does to a directory is seen through its views: what each name leads to.
`runView` is the operation on the views.
-/

namespace SampLogCore.Rotation.Round

open SampLogCore.Lib.Number SampLogCore.Lib.Footprints SampLogCore.Config.Settings
  SampLogCore.Rotation.LogDirectory SampLogCore.Rotation.LocalTime SampLogCore.Rotation.SizeRotation
  SampLogCore.Rotation.DateRotation SampLogCore.Rotation.Listing SampLogCore.Rotation.Numbering
open SampLogCore.Rotation.Throttle (Call)
open SampLogCore.Rotation.Calls (CheckSizeRotation CheckSizeRotation_eq CheckDateRotation_eq
  sizeOperations dateOperations)
open SampLogCore.Rotation.History (logA start)
open SampLogCore.Rotation.NewestBackups (january first_day)
open SampLogCore.Rotation.Strangers (view view_of_lookup view_eq_none isSome_view)

/-- The log directories, by their paths. -/
abbrev World := Path → Directory Record

/-- A name in a directory. -/
abbrev Place := Path × Name

/-- The log that a call is about. -/
def file_path : Call → Path
  | .CheckDateRotation file_path _ _ => file_path
  | .CheckSizeRotation file_path _ _ => file_path

/-- Its directory. -/
def file_dir (k : Call) : Path := (SplitFilePath (file_path k)).1

section Calls

variable (td : Tinydir) (tm : Tm) (found : List Name) (d : Directory Record)

/-- The call in its directory, at the local time `tm`, with the names in the order `found`. -/
def perform : Call → Directory Record
  | .CheckDateRotation file_path type backup_count =>
    CheckDateRotation td d file_path type (Int32.ofInt backup_count) tm found
  | .CheckSizeRotation file_path max_size backup_count =>
    CheckSizeRotation td d file_path max_size (Int32.ofInt backup_count) found

/-- Its file operations. -/
def operations : Call → List FileOp
  | .CheckDateRotation file_path type backup_count =>
    dateOperations td d file_path type (Int32.ofInt backup_count) tm found
  | .CheckSizeRotation file_path max_size backup_count =>
    sizeOperations td d file_path max_size (Int32.ofInt backup_count) found

end Calls

/-- One call of a round. Every check reads the clock again. -/
def Performed (td : Tinydir) (clock : Call → Tm) (k : Call) (w w' : World) : Prop :=
  ∃ found : List Name, found.Perm (w (file_dir k)).names.keys ∧
    w' = Function.update w (file_dir k) (perform td (clock k) found (w (file_dir k)) k)

/-- The place belongs to the log of the call: the name begins with its name. -/
def own (k : Call) : Set Place :=
  {x | x.1 = file_dir k ∧ (SplitFilePath (file_path k)).2 <+: x.2}

/-- The call is about a log file. -/
def OfLog (k : Call) : Prop := ∃ F : LogFile, file_path k = F.file_path

/-- No log has a name that begins with that of another in the same directory. -/
def Apart (k l : Call) : Prop :=
  file_dir k = file_dir l → ¬ (SplitFilePath (file_path k)).2 <+: (SplitFilePath (file_path l)).2 ∧
    ¬ (SplitFilePath (file_path l)).2 <+: (SplitFilePath (file_path k)).2

/-- What a place leads to. -/
def viewAt (w : World) (x : Place) : Option (Inode Record) := view (w x.1) x.2

/-- No name has a slash, and no two names lead to the same file. -/
structure Sane (d : Directory Record) : Prop where
  slash : ∀ name ∈ d.names, '/' ∉ name
  fresh : d.Fresh
  single : ∀ {name name' i}, d.names.lookup name = some i → d.names.lookup name' = some i →
    name = name'

/-! ### The operations on the views -/

/-- A file operation on what the names lead to. -/
def runView (v : Name → Option (Inode Record)) : FileOp → Name → Option (Inode Record)
  | .remove path => Function.update v (SplitFilePath path).2 none
  | .rename old new =>
    match v (SplitFilePath old).2 with
    | some i => Function.update (Function.update v (SplitFilePath old).2 none)
        (SplitFilePath new).2 (some i)
    | none => v
  | .truncate path =>
    match v (SplitFilePath path).2 with
    | some i => Function.update v (SplitFilePath path).2 (some { i with records := [] })
    | none => Function.update v (SplitFilePath path).2 (some ⟨true, []⟩)

variable {td : Tinydir} {F : LogFile} {d d₁ d₂ : Directory Record} {op : FileOp} {ops : List FileOp}
  {k : Call} {tm : Tm} {found found₁ found₂ : List Name}

section RunView

variable {v : Name → Option (Inode Record)} {old new path : Path} {i : Inode Record}

theorem runView_rename_some (h : v (SplitFilePath old).2 = some i) :
    runView v (.rename old new) = Function.update (Function.update v (SplitFilePath old).2 none)
      (SplitFilePath new).2 (some i) := by
  simp only [runView, h]

theorem runView_rename_none (h : v (SplitFilePath old).2 = none) :
    runView v (.rename old new) = v := by
  simp only [runView, h]

theorem runView_truncate_some (h : v (SplitFilePath path).2 = some i) :
    runView v (.truncate path) =
      Function.update v (SplitFilePath path).2 (some { i with records := [] }) := by
  simp only [runView, h]

theorem runView_truncate_none (h : v (SplitFilePath path).2 = none) :
    runView v (.truncate path) = Function.update v (SplitFilePath path).2 (some ⟨true, []⟩) := by
  simp only [runView, h]

/-- Other names are left alone. -/
theorem runView_of_notMem {name : Name} (h : name ∉ names op) :
    runView v op name = v name := by
  cases op with
  | remove path =>
    rw [names, List.mem_singleton] at h
    exact Function.update_of_ne h _ _
  | rename old new =>
    simp only [names, List.mem_cons, List.not_mem_nil, or_false, not_or] at h
    cases hold : v (SplitFilePath old).2 with
    | none => rw [runView_rename_none hold]
    | some i =>
      rw [runView_rename_some hold, Function.update_of_ne h.2, Function.update_of_ne h.1]
  | truncate path =>
    rw [names, List.mem_singleton] at h
    cases hpath : v (SplitFilePath path).2 with
    | none => rw [runView_truncate_none hpath, Function.update_of_ne h]
    | some i => rw [runView_truncate_some hpath, Function.update_of_ne h]

end RunView

/-- What an operation does to some names depends on these names only, when they are all it is
about. -/
theorem runView_congr {v₁ v₂ : Name → Option (Inode Record)} {P : Name → Prop}
    (hv : ∀ name, P name → v₁ name = v₂ name) (hop : ∀ name ∈ names op, P name) {name : Name}
    (hname : P name) : runView v₁ op name = runView v₂ op name := by
  have hupdate : ∀ {u₁ u₂ : Name → Option (Inode Record)} (n : Name) (x : Option (Inode Record)),
      (∀ name, P name → u₁ name = u₂ name) →
        ∀ name, P name → Function.update u₁ n x name = Function.update u₂ n x name := by
    intro u₁ u₂ n x hu name hname
    by_cases hn : name = n
    · rw [hn, Function.update_self, Function.update_self]
    · rw [Function.update_of_ne hn, Function.update_of_ne hn, hu name hname]
  cases op with
  | remove path => exact hupdate _ _ hv name hname
  | rename old new =>
    have hold := hv _ (hop (SplitFilePath old).2 (by simp [names]))
    cases hi : v₂ (SplitFilePath old).2 with
    | none =>
      rw [runView_rename_none (hold.trans hi), runView_rename_none hi]
      exact hv name hname
    | some i =>
      rw [runView_rename_some (hold.trans hi), runView_rename_some hi]
      exact hupdate _ _ (hupdate _ _ hv) name hname
  | truncate path =>
    have hpath := hv _ (hop (SplitFilePath path).2 (by simp [names]))
    cases hi : v₂ (SplitFilePath path).2 with
    | none =>
      rw [runView_truncate_none (hpath.trans hi), runView_truncate_none hi]
      exact hupdate _ _ hv name hname
    | some i =>
      rw [runView_truncate_some (hpath.trans hi), runView_truncate_some hi]
      exact hupdate _ _ hv name hname

theorem slash_split (path : Path) : '/' ∉ (SplitFilePath path).2 := by
  intro h
  have hne := List.mem_rtakeWhile_imp h
  simp at hne

/-! ### The operations keep a directory sane -/

namespace Sane

variable (h : Sane d)
include h

theorem erase (name : Name) : Sane { d with names := d.names.erase name } where
  slash n hn := h.slash n (AList.mem_erase.mp hn).2
  fresh := h.fresh.erase name
  single hi hj := h.single (lookup_of_erase hi) (lookup_of_erase hj)

/-- A name for a file that has none. -/
theorem insert {name : Name} {i next : ℕ} {inodes : ℕ → Inode Record} (hname : '/' ∉ name)
    (hnext : d.next ≤ next) (hi : i < next) (hnew : ∀ n, d.names.lookup n ≠ some i) :
    Sane { inodes := inodes, next := next, names := d.names.insert name i } where
  slash n hn := by
    rcases (AList.mem_insert _).mp hn with rfl | hn
    · exact hname
    · exact h.slash n hn
  fresh := h.fresh.insert hnext hi
  single {n n' j} hj hj' := by
    by_cases hn : n = name
    · by_cases hn' : n' = name
      · rw [hn, hn']
      · rw [hn, AList.lookup_insert, Option.some.injEq] at hj
        rw [AList.lookup_insert_ne hn', ← hj] at hj'
        exact absurd hj' (hnew n')
    · rw [AList.lookup_insert_ne hn] at hj
      by_cases hn' : n' = name
      · rw [hn', AList.lookup_insert, Option.some.injEq] at hj'
        rw [← hj'] at hj
        exact absurd hj (hnew n)
      · rw [AList.lookup_insert_ne hn'] at hj'
        exact h.single hj hj'

theorem lookup_ne_next (name : Name) : d.names.lookup name ≠ some d.next :=
  fun hi => absurd (h.fresh name _ hi) (lt_irrefl _)

theorem run (op : FileOp) : Sane (op.run d) := by
  cases op with
  | remove path => exact h.erase _
  | rename old new =>
    simp only [FileOp.run, Directory.rename]
    split
    · next i hi =>
      refine (h.erase (SplitFilePath old).2).insert (slash_split new) le_rfl (h.fresh _ i hi)
        fun n hn => ?_
      have hold : d.names.lookup (SplitFilePath old).2 = some i := hi
      obtain rfl := h.single (lookup_of_erase hn) hold
      rw [AList.lookup_erase] at hn
      simp at hn
    · exact h
  | truncate path =>
    simp only [FileOp.run, Directory.truncate]
    split
    · exact ⟨h.slash, h.fresh, h.single⟩
    · exact h.insert (slash_split path) (Nat.le_succ _) (Nat.lt_succ_self _) h.lookup_ne_next

/-- **A file operation does to the views what `runView` says.** -/
theorem view_run (op : FileOp) : view (op.run d) = runView (view d) op := by
  funext name
  cases op with
  | remove path =>
    by_cases hname : name = (SplitFilePath path).2
    · rw [runView, hname, Function.update_self, view_eq_none]
      exact AList.lookup_erase _ _
    · rw [runView, Function.update_of_ne hname, view, FileOp.run, Directory.remove,
        AList.lookup_erase_ne hname, view]
  | rename old new =>
    have hfind : d.find old = d.names.lookup (SplitFilePath old).2 := rfl
    cases hi : d.names.lookup (SplitFilePath old).2 with
    | none =>
      rw [runView_rename_none (view_eq_none.mpr hi)]
      simp only [FileOp.run, Directory.rename, hfind, hi]
    | some i =>
      rw [runView_rename_some (view_of_lookup hi)]
      simp only [FileOp.run, Directory.rename, hfind, hi]
      by_cases hnew : name = (SplitFilePath new).2
      · rw [hnew, Function.update_self, view_of_lookup (AList.lookup_insert _)]
      · rw [Function.update_of_ne hnew, view, AList.lookup_insert_ne hnew]
        by_cases hold : name = (SplitFilePath old).2
        · rw [hold, Function.update_self, AList.lookup_erase, Option.map_none]
        · rw [Function.update_of_ne hold, AList.lookup_erase_ne hold, view]
  | truncate path =>
    have hfind : d.find path = d.names.lookup (SplitFilePath path).2 := rfl
    cases hi : d.names.lookup (SplitFilePath path).2 with
    | none =>
      rw [runView_truncate_none (view_eq_none.mpr hi)]
      simp only [FileOp.run, Directory.truncate, hfind, hi]
      by_cases hname : name = (SplitFilePath path).2
      · rw [hname, Function.update_self, view_of_lookup (AList.lookup_insert _)]
        simp [Directory.create]
      · rw [Function.update_of_ne hname, view, Directory.create, AList.lookup_insert_ne hname, view]
        cases hj : d.names.lookup name with
        | none => rfl
        | some j =>
          have hne : j ≠ d.next := ne_of_lt (h.fresh name j hj)
          simp [Function.update_of_ne hne]
    | some i =>
      rw [runView_truncate_some (view_of_lookup hi)]
      simp only [FileOp.run, Directory.truncate, hfind, hi]
      by_cases hname : name = (SplitFilePath path).2
      · rw [hname, Function.update_self, view, hi]
        simp
      · rw [Function.update_of_ne hname, view, view]
        cases hj : d.names.lookup name with
        | none => rfl
        | some j =>
          have hne : j ≠ i := by
            rintro rfl
            exact hname (h.single hj hi)
          simp [Function.update_of_ne hne]

/-- A list of operations. -/
theorem foldl (ops : List FileOp) : Sane (ops.foldl FileOp.run d) ∧
    view (ops.foldl FileOp.run d) = ops.foldl runView (view d) := by
  induction ops generalizing d with
  | nil => exact ⟨h, rfl⟩
  | cons op ops ih =>
    obtain ⟨hsane, hview⟩ := ih (h.run op)
    exact ⟨hsane, by rw [List.foldl_cons, List.foldl_cons, hview, h.view_run]⟩

end Sane

/-! ### What a call does -/

/-- A call runs its operations. -/
theorem perform_eq (k : Call) :
    perform td tm found d k = (operations td tm found d k).foldl FileOp.run d := by
  cases k with
  | CheckDateRotation path type backup_count => exact CheckDateRotation_eq ..
  | CheckSizeRotation path max_size backup_count => exact CheckSizeRotation_eq ..

theorem mem_deleteLoop {path : Path} {N : ℤ} : ∀ {dates : List (List Char)} {count : ℤ},
    op ∈ deleteLoop path N count dates → ∃ date ∈ dates, op = .remove (dated path date)
  | [], _, h => by simp [deleteLoop] at h
  | date :: dates, count, h => by
    rw [deleteLoop] at h
    split_ifs at h
    · simp at h
    · rcases List.mem_cons.mp h with rfl | h
      · exact ⟨date, List.mem_cons_self, rfl⟩
      · obtain ⟨date', hmem, rfl⟩ := mem_deleteLoop h
        exact ⟨date', List.mem_cons_of_mem _ hmem, rfl⟩

/-- A date rotation is about names of the log. -/
theorem prefix_dateOps {N : ℤ} {dates : List (List Char)} (hslash : ∀ date ∈ dates, '/' ∉ date)
    (hop : op ∈ dateOps F.file_path N tm dates) {name : Name} (hname : name ∈ names op) :
    F.file_name <+: name := by
  rw [dateOps, List.mem_append, List.mem_singleton] at hop
  rcases hop with hop | rfl
  · obtain ⟨date, hdate, rfl⟩ := mem_deleteLoop hop
    rw [names, List.mem_singleton, split_dated (hslash date hdate)] at hname
    exact hname ▸ prefix_dated _
  · split_ifs at hname
    · simp only [names, new_filename, split_dated (slash_format tm), F.split_file_path,
        List.mem_cons, List.not_mem_nil, or_false] at hname
      rcases hname with rfl | rfl
      · exact List.prefix_refl _
      · exact prefix_dated _
    · rw [names, List.mem_singleton, F.split_file_path] at hname
      exact hname ▸ List.prefix_refl _

/-- So is a size rotation. -/
theorem prefix_fileOps {N : ℤ} {nums : List ℤ} (hop : op ∈ fileOps F.file_path N nums) {name : Name}
    (hname : name ∈ names op) : F.file_name <+: name := by
  rw [fileOps, List.mem_append, List.mem_singleton] at hop
  rcases hop with hop | rfl
  · obtain ⟨n, -, count, rfl⟩ := mem_renameLoop hop
    rcases names_opOf hname with rfl | rfl <;> exact prefix_numbered _
  · rw [lastOp] at hname
    split_ifs at hname
    · simp only [names, split_filename_count, F.split_file_path, List.mem_cons, List.not_mem_nil,
        or_false] at hname
      rcases hname with rfl | rfl
      · exact List.prefix_refl _
      · exact prefix_numbered _
    · rw [names, List.mem_singleton, F.split_file_path] at hname
      exact hname ▸ List.prefix_refl _

/-- **A call is about names of its log.** -/
theorem prefix_operations (hk : file_path k = F.file_path) (hd : Sane d)
    (hop : op ∈ operations td tm found d k) : ∀ name ∈ names op, F.file_name <+: name := by
  intro name hname
  cases k with
  | CheckDateRotation path type backup_count =>
    obtain rfl : path = F.file_path := hk
    rw [operations, dateOperations] at hop
    split_ifs at hop with _ hpos
    · refine prefix_dateOps (fun date hdate => ?_) hop hname
      rw [F.split_file_path] at hdate
      obtain ⟨fn, hfn, hprefix, rfl⟩ := exists_extension_of_mem hdate
      exact extension_notMem hprefix (hd.slash fn hfn)
    · exact prefix_dateOps (by simp) hop hname
    · simp at hop
  | CheckSizeRotation path max_size backup_count =>
    obtain rfl : path = F.file_path := hk
    rw [operations, sizeOperations] at hop
    split at hop
    · simp at hop
    · split_ifs at hop
      · simp at hop
      · exact prefix_fileOps hop hname
      · exact prefix_fileOps hop hname

/-! ### What a call depends on -/

/-- The directories agree on the names that begin with that of the log. -/
def Same (F : LogFile) (d₁ d₂ : Directory Record) : Prop :=
  ∀ name, F.file_name <+: name → view d₁ name = view d₂ name

/-- Names that do not count are not found, and the others are found in both lists. -/
theorem perm_filterMap {α : Type*} {f g : Name → Option α} {P : Name → Prop} [DecidablePred P]
    {l₁ l₂ : List Name} (h₁ : l₁.Nodup) (h₂ : l₂.Nodup) (hf : ∀ x, ¬ P x → f x = none)
    (hg : ∀ x, ¬ P x → g x = none) (hfg : ∀ x, P x → f x = g x)
    (hmem : ∀ x, P x → (x ∈ l₁ ↔ x ∈ l₂)) : (l₁.filterMap f).Perm (l₂.filterMap g) := by
  have hsame : f = g := by
    funext x
    by_cases hx : P x
    · exact hfg x hx
    · rw [hf x hx, hg x hx]
  subst hsame
  have hdrop : ∀ l : List Name, l.filterMap f = (l.filter (P ·)).filterMap f := by
    intro l
    rw [List.filterMap_filter]
    refine List.filterMap_congr fun x _ => ?_
    by_cases hx : P x
    · simp [hx]
    · simp [hx, hf x hx]
  rw [hdrop l₁, hdrop l₂]
  refine List.Perm.filterMap _ ((List.perm_ext_iff_of_nodup (h₁.filter _) (h₂.filter _)).mpr ?_)
  intro x
  rw [List.mem_filter, List.mem_filter]
  by_cases hx : P x
  · simp [hx, hmem x hx]
  · simp [hx]

section Same

variable (h : Same F d₁ d₂) (hfound₁ : found₁.Perm d₁.names.keys)
  (hfound₂ : found₂.Perm d₂.names.keys)
include h

theorem Same.mem {name : Name} (hname : F.file_name <+: name) :
    name ∈ d₁.names ↔ name ∈ d₂.names := by
  rw [← isSome_view, ← isSome_view, h name hname]

theorem Same.reg {name : Name} (hname : F.file_name <+: name) :
    (∃ i, d₁.names.lookup name = some i ∧ (d₁.inodes i).is_reg = true) ↔
      ∃ i, d₂.names.lookup name = some i ∧ (d₂.inodes i).is_reg = true := by
  have hview := h name hname
  have hreg : ∀ d : Directory Record,
      (∃ i, d.names.lookup name = some i ∧ (d.inodes i).is_reg = true) ↔
        ∃ inode, view d name = some inode ∧ inode.is_reg = true := by
    intro d
    rw [view]
    cases d.names.lookup name <;> simp
  rw [hreg, hreg, hview]

include hfound₁ hfound₂

theorem Same.nodup_found : found₁.Nodup ∧ found₂.Nodup ∧
    ∀ name, F.file_name <+: name → (name ∈ found₁ ↔ name ∈ found₂) := by
  refine ⟨hfound₁.nodup_iff.mpr d₁.names.keys_nodup, hfound₂.nodup_iff.mpr d₂.names.keys_nodup, ?_⟩
  intro name hname
  rw [hfound₁.mem_iff, hfound₂.mem_iff, ← AList.mem_keys, ← AList.mem_keys]
  exact h.mem hname

theorem Same.movedNums_eq :
    movedNums td d₁ F.file_name found₁ = movedNums td d₂ F.file_name found₂ := by
  obtain ⟨hnodup₁, hnodup₂, hmem⟩ := h.nodup_found hfound₁ hfound₂
  have hnone : ∀ (d : Directory Record) fn, ¬ F.file_name <+: fn →
      movedNum td d F.file_name fn = none := by
    intro d fn hfn
    rw [Option.eq_none_iff_forall_ne_some]
    intro x hx
    obtain ⟨i, -, -, hprefix, -⟩ := movedNum_eq_some_iff.mp hx
    exact hfn hprefix
  have hsame : ∀ fn, F.file_name <+: fn →
      movedNum td d₁ F.file_name fn = movedNum td d₂ F.file_name fn := by
    intro fn hfn
    refine Option.ext fun x => ?_
    rw [movedNum_eq_some_iff, movedNum_eq_some_iff]
    have hreg := h.reg hfn
    constructor
    · rintro ⟨i, hi, hr, hrest⟩
      obtain ⟨j, hj, hr'⟩ := hreg.mp ⟨i, hi, hr⟩
      exact ⟨j, hj, hr', hrest⟩
    · rintro ⟨i, hi, hr, hrest⟩
      obtain ⟨j, hj, hr'⟩ := hreg.mpr ⟨i, hi, hr⟩
      exact ⟨j, hj, hr', hrest⟩
  have hperm := perm_filterMap hnodup₁ hnodup₂ (hnone d₁) (hnone d₂) hsame hmem
  exact List.Perm.eq_of_pairwise (fun a b _ _ hab hba => le_antisymm hba hab)
    (sorted_movedNums td d₁ F.file_name found₁) (sorted_movedNums td d₂ F.file_name found₂)
    ((List.mergeSort_perm _ _).trans (hperm.trans (List.mergeSort_perm _ _).symm))

theorem Same.logfile_dates_eq :
    logfile_dates td d₁ F.file_name found₁ = logfile_dates td d₂ F.file_name found₂ := by
  obtain ⟨hnodup₁, hnodup₂, hmem⟩ := h.nodup_found hfound₁ hfound₂
  have hnone : ∀ (d : Directory Record) fn, ¬ F.file_name <+: fn →
      dateOf td d F.file_name fn = none := by
    intro d fn hfn
    rw [Option.eq_none_iff_forall_ne_some]
    intro x hx
    obtain ⟨i, -, -, hprefix, -, -⟩ := dateOf_eq_some_iff.mp hx
    exact hfn hprefix
  have hsame : ∀ fn, F.file_name <+: fn →
      dateOf td d₁ F.file_name fn = dateOf td d₂ F.file_name fn := by
    intro fn hfn
    refine Option.ext fun x => ?_
    rw [dateOf_eq_some_iff, dateOf_eq_some_iff]
    have hreg := h.reg hfn
    constructor
    · rintro ⟨i, hi, hr, hrest⟩
      obtain ⟨j, hj, hr'⟩ := hreg.mp ⟨i, hi, hr⟩
      exact ⟨j, hj, hr', hrest⟩
    · rintro ⟨i, hi, hr, hrest⟩
      obtain ⟨j, hj, hr'⟩ := hreg.mpr ⟨i, hi, hr⟩
      exact ⟨j, hj, hr', hrest⟩
  have hperm := perm_filterMap hnodup₁ hnodup₂ (hnone d₁) (hnone d₂) hsame hmem
  exact List.Perm.eq_of_pairwise (fun a b _ _ hab hba => le_antisymm hab hba)
    (sorted_logfile_dates d₁ F.file_name found₁) (sorted_logfile_dates d₂ F.file_name found₂)
    ((List.mergeSort_perm _ _).trans (hperm.trans (List.mergeSort_perm _ _).symm))

/-- **The operations of a call depend on the names of its log only.** -/
theorem Same.operations_eq (hk : file_path k = F.file_path) :
    operations td tm found₁ d₁ k = operations td tm found₂ d₂ k := by
  cases k with
  | CheckDateRotation path type backup_count =>
    obtain rfl : path = F.file_path := hk
    have hfires : Fires d₁ F.file_path type tm ↔ Fires d₂ F.file_path type tm := by
      refine and_congr_right fun _ => ?_
      rw [find_new_filename, find_new_filename, ← view_eq_none, ← view_eq_none,
        h _ (prefix_dated _)]
    simp only [operations, dateOperations, hfires, F.split_file_path,
      h.logfile_dates_eq hfound₁ hfound₂]
  | CheckSizeRotation path max_size backup_count =>
    obtain rfl : path = F.file_path := hk
    have hview := h _ (List.prefix_refl _)
    rw [operations, operations, sizeOperations, sizeOperations, find_file_path, find_file_path]
    cases hi : d₁.names.lookup F.file_name with
    | none =>
      rw [view_eq_none.mpr hi] at hview
      rw [view_eq_none.mp hview.symm]
    | some i =>
      rw [view_of_lookup hi] at hview
      cases hj : d₂.names.lookup F.file_name with
      | none =>
        rw [view_eq_none.mpr hj] at hview
        simp at hview
      | some j =>
        rw [view_of_lookup hj] at hview
        have hinode : d₁.inodes i = d₂.inodes j := Option.some.inj hview
        simp only [hinode, F.split_file_path, h.movedNums_eq hfound₁ hfound₂]

end Same

/-- Names that no operation is about stay. -/
theorem foldl_runView_of_notMem {v : Name → Option (Inode Record)} {name : Name}
    (h : ∀ op ∈ ops, name ∉ names op) : ops.foldl runView v name = v name := by
  induction ops generalizing v with
  | nil => rfl
  | cons op ops ih =>
    obtain ⟨hop, hops⟩ := List.forall_mem_cons.mp h
    rw [List.foldl_cons, ih hops, runView_of_notMem hop]

theorem foldl_runView_congr {v₁ v₂ : Name → Option (Inode Record)} {P : Name → Prop}
    (hv : ∀ name, P name → v₁ name = v₂ name) (hops : ∀ op ∈ ops, ∀ name ∈ names op, P name) :
    ∀ name, P name → ops.foldl runView v₁ name = ops.foldl runView v₂ name := by
  induction ops generalizing v₁ v₂ with
  | nil => exact hv
  | cons op ops ih =>
    obtain ⟨hop, hops⟩ := List.forall_mem_cons.mp hops
    exact ih (fun name hname => runView_congr hv hop hname) hops

/-! ### A round -/

/-- All directories are sane. -/
def SaneWorld (w : World) : Prop := ∀ dir, Sane (w dir)

/-- **A call is confined to the places of its log.** -/
theorem confined_performed (clock : Call → Tm) (hk : OfLog k) :
    Confined viewAt SaneWorld (own k) (Performed td clock k) where
  keeps := by
    rintro w w' hw ⟨found, -, rfl⟩ dir
    by_cases hdir : dir = file_dir k
    · rw [hdir, Function.update_self, perform_eq]
      exact ((hw _).foldl _).1
    · rw [Function.update_of_ne hdir]
      exact hw dir
  frame := by
    rintro w w' hw ⟨found, -, rfl⟩ ⟨dir, name⟩ hout
    obtain ⟨F, hF⟩ := hk
    show view _ name = view _ name
    by_cases hdir : dir = file_dir k
    · subst hdir
      have hname : ¬ F.file_name <+: name := fun hprefix => hout ⟨rfl, by
        rw [hF, F.split_file_path]
        exact hprefix⟩
      rw [Function.update_self, perform_eq, ((hw _).foldl _).2]
      refine foldl_runView_of_notMem fun op hop hmem => hname ?_
      exact prefix_operations hF (hw _) hop name hmem
    · rw [Function.update_of_ne hdir]
  alike := by
    rintro w₁ w₂ w₁' w₂' hw₁ hw₂ ⟨found₁, hfound₁, rfl⟩ ⟨found₂, hfound₂, rfl⟩ hsame ⟨dir, name⟩
      ⟨hdir, hname⟩
    obtain ⟨F, hF⟩ := hk
    have hsplit : (SplitFilePath (file_path k)).2 = F.file_name := by rw [hF, F.split_file_path]
    have hagree : Same F (w₁ (file_dir k)) (w₂ (file_dir k)) := fun n hn =>
      hsame (file_dir k, n) ⟨rfl, hsplit ▸ hn⟩
    obtain rfl : dir = file_dir k := hdir
    show view _ name = view _ name
    rw [Function.update_self, Function.update_self, perform_eq, perform_eq, ((hw₁ _).foldl _).2,
      ((hw₂ _).foldl _).2, hagree.operations_eq hfound₁ hfound₂ hF]
    exact foldl_runView_congr hagree (fun op hop => prefix_operations hF (hw₂ _) hop) name
      (hsplit ▸ hname)

/-- Logs that are apart have no place in common. -/
theorem disjoint_own {l : Call} (h : Apart k l) : ∀ place ∈ own k, place ∉ own l := by
  rintro ⟨dir, name⟩ ⟨hdir, hname⟩ ⟨hdir', hname'⟩
  obtain ⟨hkl, hlk⟩ := h (hdir.symm.trans hdir')
  rcases List.prefix_or_prefix_of_prefix hname hname' with hprefix | hprefix
  · exact hkl hprefix
  · exact hlk hprefix

section Round

variable {clock : Call → Tm} {ks ls : List Call} {w w' w'' : World} (hlogs : ∀ k ∈ ks, OfLog k)
  (hapart : ks.Pairwise Apart) (hw : SaneWorld w) (hrun : Runs (Performed td clock) ks w w')
include hlogs hapart hw hrun

/-- **A round does to every log what its call does alone**, and to everything else nothing. -/
theorem round_acts_alone :
    (∀ k ∈ ks, ∀ found : List Name, found.Perm (w (file_dir k)).names.keys → ∀ name,
      (SplitFilePath (file_path k)).2 <+: name → view (w' (file_dir k)) name =
        view (perform td (clock k) found (w (file_dir k)) k) name) ∧
    ∀ dir name, (∀ k ∈ ks, (dir, name) ∉ own k) → view (w' dir) name = view (w dir) name := by
  have hconfined : ∀ k ∈ ks, Confined viewAt SaneWorld (own k) (Performed td clock k) :=
    fun k hk => confined_performed clock (hlogs k hk)
  have hdisj : ks.Pairwise fun k l => ∀ place ∈ own k, place ∉ own l :=
    hapart.imp disjoint_own
  refine ⟨fun k hk found hfound name hname => ?_, fun dir name hout => ?_⟩
  · have halone := hrun.inside hconfined hdisj hw hk ⟨found, hfound, rfl⟩ (file_dir k, name)
      ⟨rfl, hname⟩
    simpa only [viewAt, Function.update_self] using halone
  · exact hrun.outside hconfined hw hout

/-- **The order of the map does not matter**, nor the order in which the directories are listed. -/
theorem round_order (hperm : ks.Perm ls) (hrun' : Runs (Performed td clock) ls w w'') (dir : Path)
    (name : Name) : view (w' dir) name = view (w'' dir) name :=
  hrun.perm hrun' hperm (fun k hk => confined_performed clock (hlogs k hk))
    (hapart.imp disjoint_own) hw (dir, name)

end Round

/-- There is a round in every order. -/
theorem exists_runs (td : Tinydir) (clock : Call → Tm) : ∀ (ks : List Call) (w : World),
    ∃ w', Runs (Performed td clock) ks w w'
  | [], w => ⟨w, .nil⟩
  | k :: ks, w => by
    obtain ⟨w', hw'⟩ := exists_runs td clock ks (Function.update w (file_dir k)
      (perform td (clock k) (w (file_dir k)).names.keys (w (file_dir k)) k))
    exact ⟨w', .cons ⟨_, List.Perm.refl _, rfl⟩ hw'⟩

/-! Two logs in one directory, of which no backups are kept. -/

def logB : LogFile := ⟨['l', 'o', 'g', 's'], ['b'], by decide⟩

def callA : Call := .CheckSizeRotation logA.file_path 0 0

def callB : Call := .CheckDateRotation logB.file_path .DAILY 0

/-- Both log files, with a record each. -/
def full : Directory Record :=
  (((start.dir.create logA.file_name).create logB.file_name).append 0 [65]).append 1 [66]

theorem sane_full : Sane full := by
  have hstart : Sane start.dir :=
    ⟨fun name h => absurd h (AList.notMem_empty _), fun name i h => by simp [start] at h,
      fun h => by simp [start] at h⟩
  have hA : Sane (start.dir.create logA.file_name) :=
    hstart.insert logA.slash_file_name (Nat.le_succ _) (Nat.lt_succ_self _) hstart.lookup_ne_next
  have hB : Sane ((start.dir.create logA.file_name).create logB.file_name) :=
    hA.insert logB.slash_file_name (Nat.le_succ _) (Nat.lt_succ_self _) hA.lookup_ne_next
  exact ⟨hB.slash, hB.fresh, hB.single⟩

theorem ofLog_both : ∀ k ∈ [callA, callB], OfLog k := by
  intro k hk
  rcases List.mem_pair.mp hk with rfl | rfl
  · exact ⟨logA, rfl⟩
  · exact ⟨logB, rfl⟩

theorem apart_both : [callA, callB].Pairwise Apart := by
  rw [List.pairwise_pair]
  exact fun _ => by decide

theorem round_acts_alone_full : ∃ w, Runs (Performed Tinydir.strrchr fun _ => january 1 first_day)
    [callA, callB] (fun _ => full) w ∧ view (w logA.file_dir) logA.file_name = some ⟨true, []⟩ := by
  obtain ⟨w, hw⟩ := exists_runs Tinydir.strrchr (fun _ => january 1 first_day) [callA, callB]
    fun _ => full
  refine ⟨w, hw, ?_⟩
  have halone := (round_acts_alone ofLog_both apart_both (fun _ => sane_full) hw).1 callA (by simp)
    full.names.keys (List.Perm.refl _) logA.file_name (List.prefix_refl _)
  exact halone.trans rfl

theorem round_order_full : ∃ w w', Runs (Performed Tinydir.strrchr fun _ => january 1 first_day)
    [callA, callB] (fun _ => full) w ∧
    Runs (Performed Tinydir.strrchr fun _ => january 1 first_day) [callB, callA] (fun _ => full)
      w' ∧
    ∀ dir name, view (w dir) name = view (w' dir) name := by
  obtain ⟨w, hw⟩ := exists_runs Tinydir.strrchr (fun _ => january 1 first_day) [callA, callB]
    fun _ => full
  obtain ⟨w', hw'⟩ := exists_runs Tinydir.strrchr (fun _ => january 1 first_day) [callB, callA]
    fun _ => full
  exact ⟨w, w', hw, hw', round_order ofLog_both apart_both (fun _ => sane_full) hw
    (List.Perm.swap _ _ _) hw'⟩

end SampLogCore.Rotation.Round
