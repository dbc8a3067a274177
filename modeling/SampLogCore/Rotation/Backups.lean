import SampLogCore.Rotation.SizeRotation
import Mathlib.Data.List.Sort
import Mathlib.Data.List.Nodup

/-!
# The backup chain

What the rotation keeps is a chain of files, newest first. In the abstract a chain is a list of
inodes and a gap: the inode in position `j` has the number `j`, and one more from the gap on. With
the gap at the end the numbers are `0, 1, …`, and the log file has the number `0`; with the gap at
the front they are `1, 2, …`, and there is no log file. The operations of the code act on a chain in
four ways only:

* `push` puts a new file in front when the gap is there, and moves the gap to the end;
* `bump` moves the gap one position to the front: one file gets the next number;
* `dropOldest` takes the last file away when the gap is at the end;
* an append adds a record to the first file.

`Represents F d c` connects a chain with the names of the directory, `Chained F d c` with its inodes
too. The operations of the directory refine those of the chain, and a chain read oldest first
(`Chain.records`) is what is left of the history.
-/

namespace SampLogCore.Rotation.Backups

open SampLogCore.Lib.Number SampLogCore.Rotation.LogDirectory SampLogCore.Rotation.SizeRotation

/-- The files of a log, newest first, with the position from which on the numbers are one more
than the positions. -/
structure Chain where
  ids : List ℕ
  gap : ℕ
  gap_le : gap ≤ ids.length
  nodup : ids.Nodup

namespace Chain

variable (c : Chain)

/-- The number of the file in position `j`. -/
def number (j : ℕ) : ℕ := if j < c.gap then j else j + 1

/-- A new file. -/
def push (i : ℕ) (h : i ∉ c.ids) : Chain where
  ids := i :: c.ids
  gap := c.ids.length + 1
  gap_le := by simp
  nodup := List.nodup_cons.mpr ⟨h, c.nodup⟩

/-- One file gets the next number. -/
def bump : Chain where
  ids := c.ids
  gap := c.gap - 1
  gap_le := by have := c.gap_le; omega
  nodup := c.nodup

/-- The oldest file goes. -/
def dropOldest : Chain where
  ids := c.ids.dropLast
  gap := c.gap - 1
  gap_le := by have := c.gap_le; rw [List.length_dropLast]; omega
  nodup := c.nodup.sublist (List.dropLast_sublist _)

/-- The records of a chain, oldest first. -/
def records (inodes : ℕ → Inode Record) : List Record :=
  c.ids.reverse.flatMap fun i => (inodes i).records

theorem number_of_lt {j : ℕ} (h : j < c.gap) : c.number j = j := if_pos h

theorem number_of_le {j : ℕ} (h : c.gap ≤ j) : c.number j = j + 1 := if_neg (by omega)

theorem number_injective {j k : ℕ} (h : c.number j = c.number k) : j = k := by
  unfold number at h
  split_ifs at h <;> omega

/-- With the gap in front the numbers are `1, 2, …`. -/
theorem exists_number_of_front (h : c.gap = 0) {n : ℕ} :
    (∃ j, j < c.ids.length ∧ n = c.number j) ↔ 1 ≤ n ∧ n ≤ c.ids.length := by
  constructor
  · rintro ⟨j, hj, rfl⟩
    rw [c.number_of_le (by omega)]
    omega
  · rintro ⟨hn, hle⟩
    refine ⟨n - 1, by omega, ?_⟩
    rw [c.number_of_le (by omega)]
    omega

/-- With the gap at the end they are `0, 1, …`. -/
theorem exists_number_of_end (h : c.gap = c.ids.length) {n : ℕ} :
    (∃ j, j < c.ids.length ∧ n = c.number j) ↔ n < c.ids.length := by
  constructor
  · rintro ⟨j, hj, rfl⟩
    rwa [c.number_of_lt (by omega)]
  · intro hn
    exact ⟨n, hn, (c.number_of_lt (by omega)).symm⟩

theorem records_congr {f g : ℕ → Inode Record} (h : ∀ i ∈ c.ids, f i = g i) :
    c.records f = c.records g :=
  List.flatMap_congr fun i hi => by rw [h i (List.mem_reverse.mp hi)]

theorem records_push {f : ℕ → Inode Record} {i : ℕ} (h : i ∉ c.ids) :
    (c.push i h).records f = c.records f ++ (f i).records := by
  simp [records, push]

/-- Appending to the newest file appends to the chain. -/
theorem records_append {f : ℕ → Inode Record} {i : ℕ} {r : Record} (h : c.ids.head? = some i) :
    c.records (Function.update f i { f i with records := (f i).records ++ [r] }) =
      c.records f ++ [r] := by
  obtain ⟨js, hjs⟩ := List.head?_eq_some_iff.mp h
  have hi : i ∉ js := (List.nodup_cons.mp (hjs ▸ c.nodup)).1
  have hrest : js.reverse.flatMap (fun j => (Function.update f i
      { f i with records := (f i).records ++ [r] } j).records) =
      js.reverse.flatMap fun j => (f j).records := by
    refine List.flatMap_congr fun j hj => ?_
    rw [Function.update_of_ne]
    rintro rfl
    exact hi (List.mem_reverse.mp hj)
  simp [records, hjs, hrest]

/-- What the oldest file held is what the chain loses. -/
theorem records_dropOldest {f : ℕ → Inode Record} {i : ℕ} (h : c.ids.getLast? = some i) :
    (f i).records ++ c.dropOldest.records f = c.records f := by
  obtain ⟨js, hjs⟩ := List.getLast?_eq_some_iff.mp h
  simp [records, dropOldest, hjs]

end Chain

/-! ### The names of a chain -/

variable {F : LogFile} {d : Directory Record} {c : Chain}

/-- The names of the log are those of the files of the chain. -/
def Represents (F : LogFile) (d : Directory Record) (c : Chain) : Prop :=
  ∀ name, F.file_name <+: name →
    ∀ i, d.names.lookup name = some i ↔ ∃ j, c.ids[j]? = some i ∧ name = F.backup (c.number j)

/-- The path of the `n`-th backup, and of the log file itself for `0`. -/
def backupPath (F : LogFile) : ℕ → Path
  | 0 => F.file_path
  | n + 1 => filename_count F.file_path (n + 1 : ℕ)

theorem split_backupPath : ∀ n, (SplitFilePath (backupPath F n)).2 = F.backup n
  | 0 => congrArg Prod.snd F.split_file_path
  | n + 1 => congrArg Prod.snd (F.split_filename_count n)

theorem Represents.lookup_backup (h : Represents F d c) {n i : ℕ} :
    d.names.lookup (F.backup n) = some i ↔ ∃ j, c.ids[j]? = some i ∧ n = c.number j := by
  rw [h _ (F.prefix_backup n)]
  constructor
  · rintro ⟨j, hj, hn⟩
    exact ⟨j, hj, F.backup_injective hn⟩
  · rintro ⟨j, hj, rfl⟩
    exact ⟨j, hj, rfl⟩

/-- Files with other names do not matter. -/
theorem Represents.frame {d' : Directory Record} (h : Represents F d c)
    (hd : ∀ name, F.file_name <+: name → d'.names.lookup name = d.names.lookup name) :
    Represents F d' c := by
  intro name hname i
  rw [hd name hname, h name hname]

/-- A new log file, when there is none. -/
theorem Represents.push (h : Represents F d c) (hgap : c.gap = 0) {i : ℕ} (hi : i ∉ c.ids)
    {d' : Directory Record} (hd : d'.names = d.names.insert F.file_name i) :
    Represents F d' (c.push i hi) := by
  have hlen := c.gap_le
  have hnumber : ∀ j, j < c.ids.length → (c.push i hi).number (j + 1) = c.number j := by
    intro j hj
    rw [(c.push i hi).number_of_lt (by simp only [Chain.push]; omega), c.number_of_le (by omega)]
  have hzero : (c.push i hi).number 0 = 0 := by simp [Chain.number, Chain.push]
  intro name hname k
  rw [hd]
  by_cases heq : name = F.file_name
  · subst heq
    rw [AList.lookup_insert]
    constructor
    · intro hk
      exact ⟨0, by simpa [Chain.push] using hk, by rw [hzero]; rfl⟩
    · rintro ⟨j, hj, hn⟩
      have hj0 : (c.push i hi).number j = 0 := (F.backup_injective (m := 0) hn).symm
      rw [← hzero] at hj0
      rw [(c.push i hi).number_injective hj0] at hj
      simpa [Chain.push] using hj
  · rw [AList.lookup_insert_ne heq, h name hname]
    constructor
    · rintro ⟨j, hj, rfl⟩
      have hlt := (List.getElem?_eq_some_iff.mp hj).1
      exact ⟨j + 1, by simpa [Chain.push] using hj, by rw [hnumber j hlt]⟩
    · rintro ⟨j, hj, rfl⟩
      cases j with
      | zero =>
        rw [hzero] at heq
        exact absurd rfl heq
      | succ j =>
        have hj : c.ids[j]? = some k := by simpa [Chain.push] using hj
        have hlt := (List.getElem?_eq_some_iff.mp hj).1
        exact ⟨j, hj, by rw [hnumber j hlt]⟩

/-- **A rename bumps the chain**: the file before the gap gets the next number. -/
theorem Represents.bump (h : Represents F d c) {n : ℕ} (hgap : c.gap = n + 1) :
    Represents F (d.rename (backupPath F n) (backupPath F (n + 1))) c.bump := by
  have hlt : n < c.ids.length := by have := c.gap_le; omega
  have hfind : d.find (backupPath F n) = some c.ids[n] := by
    rw [Directory.find, split_backupPath, h.lookup_backup]
    exact ⟨n, List.getElem?_eq_getElem hlt, by simp [Chain.number, hgap]⟩
  have hne : F.backup (n + 1) ≠ F.backup n := fun he => absurd (F.backup_injective he) (by omega)
  have hn : c.bump.number n = n + 1 := by simp [Chain.number, Chain.bump, hgap]
  have hother : ∀ j, j ≠ n → c.bump.number j = c.number j := by
    intro j hj
    simp only [Chain.number, Chain.bump, hgap]
    split_ifs <;> omega
  intro name hname k
  simp only [Directory.rename, hfind, split_backupPath]
  by_cases hnew : name = F.backup (n + 1)
  · subst hnew
    rw [AList.lookup_insert]
    constructor
    · rintro ⟨rfl⟩
      exact ⟨n, List.getElem?_eq_getElem hlt, by rw [hn]⟩
    · rintro ⟨j, hj, hb⟩
      have hjn : j = n := c.bump.number_injective (by rw [hn, ← F.backup_injective hb])
      subst hjn
      rw [← List.getElem?_eq_getElem hlt]
      exact hj
  rw [AList.lookup_insert_ne hnew]
  by_cases hold : name = F.backup n
  · subst hold
    rw [AList.lookup_erase]
    constructor
    · intro hk
      exact absurd hk (by simp)
    · rintro ⟨j, _, hb⟩
      have hb := F.backup_injective hb
      simp only [Chain.number, Chain.bump, hgap] at hb
      split_ifs at hb <;> omega
  · rw [AList.lookup_erase_ne hold, h name hname]
    constructor
    · rintro ⟨j, hj, rfl⟩
      have hjn : j ≠ n := by
        rintro rfl
        exact hold (by simp [Chain.number, hgap])
      exact ⟨j, hj, by rw [hother j hjn]⟩
    · rintro ⟨j, hj, rfl⟩
      have hjn : j ≠ n := by
        rintro rfl
        exact hnew (by rw [hn])
      exact ⟨j, hj, by rw [hother j hjn]⟩

/-- **A remove of the last number drops the oldest file.** -/
theorem Represents.dropOldest (h : Represents F d c) {n : ℕ} (hgap : c.gap = n + 1)
    (hlen : c.ids.length = n + 1) : Represents F (d.remove (backupPath F n)) c.dropOldest := by
  have hnumber : ∀ j, j < n + 1 → c.number j = j := by
    intro j hj
    simp [Chain.number, hgap, hj]
  have hdrop : ∀ j k, c.dropOldest.ids[j]? = some k ↔ j < n ∧ c.ids[j]? = some k := by
    intro j k
    simp only [Chain.dropOldest, List.getElem?_dropLast, hlen]
    split_ifs with hj <;> simp <;> omega
  have hnumber' : ∀ j, j < n → c.dropOldest.number j = j := by
    intro j hj
    simp [Chain.number, Chain.dropOldest, hgap, hj]
  intro name hname k
  simp only [Directory.remove, split_backupPath]
  by_cases hold : name = F.backup n
  · subst hold
    rw [AList.lookup_erase]
    constructor
    · intro hk
      exact absurd hk (by simp)
    · rintro ⟨j, hj, hb⟩
      have hjn := ((hdrop j k).mp hj).1
      rw [hnumber' j hjn] at hb
      have := F.backup_injective hb
      omega
  · rw [AList.lookup_erase_ne hold, h name hname]
    constructor
    · rintro ⟨j, hj, rfl⟩
      have hjlt := (List.getElem?_eq_some_iff.mp hj).1
      have hjn : j ≠ n := by
        rintro rfl
        exact hold (by rw [hnumber _ (by omega)])
      exact ⟨j, (hdrop j k).mpr ⟨by omega, hj⟩, by
        rw [hnumber j (by omega), hnumber' j (by omega)]⟩
    · rintro ⟨j, hj, rfl⟩
      obtain ⟨hjn, hj⟩ := (hdrop j k).mp hj
      exact ⟨j, hj, by rw [hnumber j (by omega), hnumber' j hjn]⟩

/-- The records behind the name of a backup. -/
theorem Represents.contents_backup (h : Represents F d c) {j : ℕ} (hj : j < c.ids.length) :
    d.contents (F.backup (c.number j)) = (d.inodes c.ids[j]).records := by
  have : d.names.lookup (F.backup (c.number j)) = some c.ids[j] :=
    h.lookup_backup.mpr ⟨j, List.getElem?_eq_getElem hj, rfl⟩
  simp [Directory.contents, this]

/-! ### The operations of the directory -/

/-- The names of the log are those of the files of the chain, which are regular. -/
structure Chained (F : LogFile) (d : Directory Record) (c : Chain) : Prop where
  names : Represents F d c
  fresh : ∀ name i, d.names.lookup name = some i → i < d.next
  reg : ∀ i ∈ c.ids, (d.inodes i).is_reg = true

namespace Chained

variable (h : Chained F d c)
include h

theorem lt_next {i : ℕ} (hi : i ∈ c.ids) : i < d.next := by
  obtain ⟨j, hj, rfl⟩ := List.getElem_of_mem hi
  exact h.fresh _ _ (h.names.lookup_backup.mpr ⟨j, List.getElem?_eq_getElem hj, rfl⟩)

theorem find_log (hgap : 0 < c.gap) : d.find F.file_path = c.ids.head? := by
  have hlt : 0 < c.ids.length := by have := c.gap_le; omega
  rw [find_file_path, List.head?_eq_getElem?, List.getElem?_eq_getElem hlt]
  exact h.names.lookup_backup.mpr
    ⟨0, List.getElem?_eq_getElem hlt, (c.number_of_lt hgap).symm⟩

theorem find_log_none (hgap : c.gap = 0) : d.find F.file_path = none := by
  rw [find_file_path, Option.eq_none_iff_forall_not_mem]
  intro i hi
  obtain ⟨j, _, hj⟩ := (h.names.lookup_backup (n := 0)).mp hi
  rw [c.number_of_le (by omega)] at hj
  omega

/-- A file is in the chain when a name of the log leads to it. -/
theorem mem_ids {i : ℕ} :
    i ∈ c.ids ↔ ∃ name, F.file_name <+: name ∧ d.names.lookup name = some i := by
  constructor
  · intro hi
    obtain ⟨j, hj, rfl⟩ := List.getElem_of_mem hi
    exact ⟨_, F.prefix_backup (c.number j),
      h.names.lookup_backup.mpr ⟨j, List.getElem?_eq_getElem hj, rfl⟩⟩
  · rintro ⟨name, hname, hi⟩
    obtain ⟨j, hj, -⟩ := (h.names name hname i).mp hi
    exact List.mem_of_getElem? hj

/-- The names of the log are those with the numbers of the chain. -/
theorem mem_names {name : Name} (hname : F.file_name <+: name) :
    name ∈ d.names ↔ ∃ j, j < c.ids.length ∧ name = F.backup (c.number j) := by
  rw [mem_iff_lookup]
  constructor
  · rintro ⟨i, hi⟩
    obtain ⟨j, hj, heq⟩ := (h.names name hname i).mp hi
    exact ⟨j, (List.getElem?_eq_some_iff.mp hj).1, heq⟩
  · rintro ⟨j, hj, rfl⟩
    exact ⟨c.ids[j], h.names.lookup_backup.mpr ⟨j, List.getElem?_eq_getElem hj, rfl⟩⟩

/-- When the numbers but `0` are those up to `k`, the backups are the files `1` to `k`. -/
theorem mem_names_iff {k : ℕ}
    (hk : ∀ n, 1 ≤ n → ((∃ j, j < c.ids.length ∧ n = c.number j) ↔ n ≤ k)) {name : Name}
    (hname : F.file_name <+: name) (hne : name ≠ F.file_name) :
    name ∈ d.names ↔ ∃ n, 1 ≤ n ∧ n ≤ k ∧ name = F.backup n := by
  rw [h.mem_names hname]
  constructor
  · rintro ⟨j, hj, rfl⟩
    have hn : 1 ≤ c.number j := by
      rw [Nat.one_le_iff_ne_zero]
      intro h0
      exact hne (by rw [h0]; rfl)
    exact ⟨c.number j, hn, (hk _ hn).mp ⟨j, hj, rfl⟩, rfl⟩
  · rintro ⟨n, hn, hle, rfl⟩
    obtain ⟨j, hj, hnum⟩ := (hk n hn).mpr hle
    exact ⟨j, hj, by rw [hnum]⟩

/-- Files with other names, and what is in the files, do not matter. -/
theorem frame {d' : Directory Record}
    (hnames : ∀ name, F.file_name <+: name → d'.names.lookup name = d.names.lookup name)
    (hfresh : d'.Fresh)
    (hreg : ∀ i, (d.inodes i).is_reg = true → (d'.inodes i).is_reg = true) : Chained F d' c where
  names := h.names.frame hnames
  fresh := hfresh
  reg i hi := hreg i (h.reg i hi)

theorem append (i : ℕ) (r : Record) : Chained F (d.append i r) c :=
  h.frame (fun _ _ => rfl) h.fresh fun _ hk => reg_append hk i r

/-- A new log file is the newest of the chain. -/
theorem create_log (hgap : c.gap = 0) (hi : d.next ∉ c.ids) :
    Chained F (d.create F.file_name) (c.push d.next hi) where
  names := h.names.push hgap hi rfl
  fresh := Directory.Fresh.create h.fresh _
  reg i hmem := by
    rcases List.mem_cons.mp hmem with rfl | hmem
    · simp [Directory.create]
    · exact reg_create (h.reg i hmem) _

theorem create_other {name : Name} (hname : ¬ F.file_name <+: name) :
    Chained F (d.create name) c := by
  refine h.frame (fun n hn => AList.lookup_insert_ne ?_) (Directory.Fresh.create h.fresh _)
    fun _ hk => reg_create hk _
  rintro rfl
  exact hname hn

theorem delete_other {name : Name} (hname : ¬ F.file_name <+: name) :
    Chained F { d with names := d.names.erase name } c := by
  refine h.frame (fun n hn => AList.lookup_erase_ne ?_) (Directory.Fresh.erase h.fresh _)
    fun _ hk => hk
  rintro rfl
  exact hname hn

/-- The log file is cleared. -/
theorem truncate (hgap : 0 < c.gap) : Chained F (d.truncate F.file_path) c := by
  have hlt : 0 < c.ids.length := by have := c.gap_le; omega
  have hfind := h.find_log hgap
  rw [List.head?_eq_getElem?, List.getElem?_eq_getElem hlt] at hfind
  simp only [Directory.truncate, hfind]
  exact h.frame (fun _ _ => rfl) h.fresh fun _ hk => reg_update hk _ _

/-- A rename bumps the chain. -/
theorem rename {n : ℕ} (hgap : c.gap = n + 1) :
    Chained F (d.rename (backupPath F n) (backupPath F (n + 1))) c.bump where
  names := h.names.bump hgap
  fresh := Directory.Fresh.rename h.fresh _ _
  reg i hi := by
    rw [rename_inodes]
    exact h.reg i hi

/-- A remove takes the oldest file away. -/
theorem remove {n : ℕ} (hgap : c.gap = n + 1) (hlen : c.ids.length = n + 1) :
    Chained F (d.remove (backupPath F n)) c.dropOldest where
  names := h.names.dropOldest hgap hlen
  fresh := Directory.Fresh.erase h.fresh _
  reg i hi := h.reg i ((List.dropLast_sublist _).subset hi)

end Chained

end SampLogCore.Rotation.Backups
