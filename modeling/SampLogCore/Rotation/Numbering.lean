import SampLogCore.Lib.Slots
import SampLogCore.Rotation.Calls

/-!
# The numbered files of a directory

The size rotation knows a file by the number behind its name, whatever sign it has: the names `F.n`
are numbered slots (`slots`), and the loop over `moved_nums` is the loop of `Lib.Slots` on them
(`slots_renameLoop`), in which the number behind `INT_MAX` is `INT_MIN`. Other names are left alone.
-/

namespace SampLogCore.Rotation.Numbering

open SampLogCore.Lib.Number SampLogCore.Lib.Slots SampLogCore.Rotation.LogDirectory
  SampLogCore.Rotation.SizeRotation SampLogCore.Rotation.DateRotation
  SampLogCore.Rotation.Listing SampLogCore.Rotation.Calls

variable (F : LogFile)

/-- The name with this number. -/
def numbered (n : ℤ) : Name := F.dated (formatD n)

/-- The inodes behind the numbered names. -/
def slots (d : Directory Record) : ℤ → Option ℕ := fun n => d.names.lookup (numbered F n)

/-- `n + 1`, as an `int`. -/
def next (n : ℤ) : ℤ := cint (n + 1)

/-- The numbers that the loop over the directory finds, in some order. -/
def recognised (td : Tinydir) (d : Directory Record) : List ℤ :=
  d.names.keys.filterMap (movedNum td d F.file_name)

variable {F} {td : Tinydir} {d : Directory Record} {n m : ℤ} {name : Name} {found : List Name}

/-! ### Names -/

theorem dot_formatD (n : ℤ) : '.' ∉ formatD n := notMem_formatD_int (by decide) (by decide)

theorem slash_formatD (n : ℤ) : '/' ∉ formatD n := notMem_formatD_int (by decide) (by decide)

theorem numbered_injective (h : numbered F m = numbered F n) : m = n :=
  formatD_int_injective (dated_injective h)

theorem prefix_numbered (n : ℤ) : F.file_name <+: numbered F n := prefix_dated _

theorem numbered_ne_file_name (n : ℤ) : numbered F n ≠ F.file_name := dated_ne_file_name _

theorem split_filename_count (n : ℤ) :
    (SplitFilePath (filename_count F.file_path n)).2 = numbered F n :=
  congrArg Prod.snd (split_dated (slash_formatD n))

theorem find_filename_count (n : ℤ) :
    d.find (filename_count F.file_path n) = slots F d n := by
  rw [Directory.find, split_filename_count, slots]

theorem lookup_numbered (n : ℤ) : d.names.lookup (numbered F n) = slots F d n := rfl

theorem next_eq (h0 : INT_MIN ≤ n) (h1 : n < INT_MAX) : next n = n + 1 :=
  cint_eq (by omega) (by omega)

theorem next_max : next INT_MAX = INT_MIN := by decide

theorem next_cases (h0 : INT_MIN ≤ n) (h1 : n ≤ INT_MAX) : next n = n + 1 ∨ next n = INT_MIN := by
  rcases h1.lt_or_eq with hlt | rfl
  · exact .inl (next_eq h0 hlt)
  · exact .inr next_max

theorem next_range (n : ℤ) : INT_MIN ≤ next n ∧ next n ≤ INT_MAX := by
  have hle := @Int.le_bmod (n + 1) (2 ^ 32) (by decide)
  have hlt := @Int.bmod_lt (n + 1) (2 ^ 32) (by decide)
  simp only [next, cint, INT_MIN, INT_MAX]
  omega

/-! ### What is recognised -/

/-- A regular file with a number in the range of `int` is recognised by it. -/
theorem movedNum_numbered (h0 : INT_MIN ≤ n) (h1 : n ≤ INT_MAX) {i : ℕ}
    (hi : d.names.lookup (numbered F n) = some i) (hreg : (d.inodes i).is_reg = true) :
    movedNum td d F.file_name (numbered F n) = some n := by
  have hext : td.extension (numbered F n) = formatD n := extension_dated (dot_formatD n)
  exact movedNum_eq_some_iff.mpr
    ⟨i, hi, hreg, prefix_numbered n, by rw [hext, strtol_formatD_int h0 h1]⟩

theorem mem_recognised_of_numbered (h0 : INT_MIN ≤ n) (h1 : n ≤ INT_MAX) {i : ℕ}
    (hi : d.names.lookup (numbered F n) = some i) (hreg : (d.inodes i).is_reg = true) :
    n ∈ recognised F td d :=
  List.mem_filterMap.mpr
    ⟨_, AList.mem_keys.mp (mem_of_lookup hi), movedNum_numbered h0 h1 hi hreg⟩

theorem recognised_range (h : n ∈ recognised F td d) : INT_MIN ≤ n ∧ n ≤ INT_MAX := by
  obtain ⟨fn, -, hfn⟩ := List.mem_filterMap.mp h
  obtain ⟨i, -, -, -, hnum⟩ := movedNum_eq_some_iff.mp hfn
  have hrange := strtol_range (td.extension fn)
  rwa [hnum] at hrange

/-- The order in which the directory is listed does not matter for what is found. -/
theorem perm_movedNums (hfound : found.Perm d.names.keys) :
    (movedNums td d F.file_name found).Perm (recognised F td d) :=
  (List.mergeSort_perm _ _).trans (hfound.filterMap _)

theorem movedNums_range (hfound : found.Perm d.names.keys)
    (hn : n ∈ movedNums td d F.file_name found) : INT_MIN ≤ n ∧ n ≤ INT_MAX :=
  recognised_range ((perm_movedNums hfound).mem_iff.mp hn)

/-! ### The operations -/

theorem slots_remove : slots F (d.remove (filename_count F.file_path n)) = clear (slots F d) n := by
  funext k
  rw [slots, Directory.remove, split_filename_count]
  by_cases hk : k = n
  · rw [hk, AList.lookup_erase, clear_self]
  · rw [AList.lookup_erase_ne fun h => hk (numbered_injective h), clear_of_ne hk, slots]

theorem slots_rename :
    slots F (d.rename (filename_count F.file_path n) (filename_count F.file_path m)) =
      move (slots F d) n m := by
  rw [Directory.rename, find_filename_count]
  cases hn : slots F d n with
  | none => rw [move_of_none hn]
  | some i =>
    funext k
    simp only [slots, split_filename_count]
    by_cases hm : k = m
    · rw [hm, AList.lookup_insert, move_target (by rw [hn]; rfl), hn]
    · rw [AList.lookup_insert_ne fun h => hm (numbered_injective h)]
      by_cases hk : k = n
      · rw [hk, AList.lookup_erase, move_source (hk ▸ Ne.symm hm)]
      · rw [AList.lookup_erase_ne fun h => hk (numbered_injective h), move_of_ne hk hm, slots]

/-- The names that an operation is about. -/
def names : FileOp → List Name
  | .remove path => [(SplitFilePath path).2]
  | .rename old new => [(SplitFilePath old).2, (SplitFilePath new).2]
  | .truncate path => [(SplitFilePath path).2]

/-- Other names are left alone. -/
theorem lookup_run {op : FileOp} (h : name ∉ names op) :
    (op.run d).names.lookup name = d.names.lookup name := by
  cases op with
  | remove path =>
    simp only [names, List.mem_singleton] at h
    exact AList.lookup_erase_ne h
  | rename old new =>
    simp only [names, List.mem_cons, List.not_mem_nil, or_false, not_or] at h
    simp only [FileOp.run, Directory.rename]
    split
    · rw [AList.lookup_insert_ne h.2, AList.lookup_erase_ne h.1]
    · rfl
  | truncate path =>
    simp only [names, List.mem_singleton] at h
    simp only [FileOp.run, Directory.truncate]
    split
    · rfl
    · exact AList.lookup_insert_ne h

theorem lookup_foldl {ops : List FileOp} (h : ∀ op ∈ ops, name ∉ names op) :
    (ops.foldl FileOp.run d).names.lookup name = d.names.lookup name := by
  induction ops generalizing d with
  | nil => rfl
  | cons op ops ih =>
    obtain ⟨hop, hops⟩ := List.forall_mem_cons.mp h
    rw [List.foldl_cons, ih hops, lookup_run hop]

/-! ### The loop -/

variable {N count : ℤ} {ns : List ℤ} {op : FileOp}

/-- The operation for a number, at a count. -/
def opOf (F : LogFile) (N count n : ℤ) : FileOp :=
  if count ≥ N then .remove (filename_count F.file_path n)
  else .rename (filename_count F.file_path n) (filename_count F.file_path (next n))

theorem renameLoop_cons (F : LogFile) (N count n : ℤ) (ns : List ℤ) :
    renameLoop F.file_path N count (n :: ns) =
      opOf F N count n :: renameLoop F.file_path N (count - 1) ns := rfl

theorem slots_opOf :
    slots F ((opOf F N count n).run d) = visit next N (slots F d) count n := by
  unfold opOf visit
  split_ifs
  · exact slots_remove
  · exact slots_rename

/-- **The loop of the code is that on the slots.** -/
theorem slots_renameLoop :
    slots F ((renameLoop F.file_path N count ns).foldl FileOp.run d) =
      loop next N count ns (slots F d) := by
  induction ns generalizing d count with
  | nil => rfl
  | cons n ns ih => rw [renameLoop_cons, List.foldl_cons, ih, slots_opOf, loop]

section Range

variable {f : ℤ → Option ℕ} (hrange : ∀ n ∈ ns, INT_MIN ≤ n ∧ n ≤ INT_MAX)
include hrange

/-- Above the two numbers at the bottom only the lower neighbour is moved to a number. -/
theorem loop_next (hsorted : ns.Pairwise (· ≥ ·)) (h0 : INT_MIN + 1 < m) (h1 : m ≤ INT_MAX) :
    loop next N count ns f m =
      if m - 1 ∈ ns ∧ Kept N count ns (m - 1) ∧ (f (m - 1)).isSome then f (m - 1)
      else if m ∈ ns then none else f m := by
  have hnext : ∀ n ∈ ns, next n = n + 1 ∨ next n = INT_MIN := fun n hn =>
    next_cases (hrange n hn).1 (hrange n hn).2
  refine loop_apply hsorted (fun h => ?_) (fun n hn h => ?_) fun n hn h => ?_
  · rw [next_eq (by omega) (by omega)]
    omega
  · rcases hnext n hn with heq | heq <;> omega
  · rcases hnext n hn with heq | heq <;> omega

/-- Numbers that are no `int` are left alone. -/
theorem loop_beyond (h : INT_MAX < m) : loop next N count ns f m = f m := by
  refine loop_of_notMem (fun hm => ?_) fun n _ hn => ?_
  · have := (hrange m hm).2
    omega
  · have := (next_range n).2
    omega

end Range

/-- A loop over two lists, one after the other. -/
theorem renameLoop_append {ms : List ℤ} :
    renameLoop F.file_path N count (ms ++ ns) =
      renameLoop F.file_path N count ms ++ renameLoop F.file_path N (count - ms.length) ns := by
  induction ms generalizing count with
  | nil => simp [renameLoop]
  | cons m ms ih =>
    rw [List.cons_append, renameLoop_cons, ih, count_cons, renameLoop_cons, List.cons_append]

theorem opOf_inodes (N count n : ℤ) : ((opOf F N count n).run d).inodes = d.inodes := by
  unfold opOf
  split_ifs
  · rfl
  · exact rename_inodes _ _

theorem renameLoop_inodes :
    ((renameLoop F.file_path N count ns).foldl FileOp.run d).inodes = d.inodes := by
  induction ns generalizing d count with
  | nil => rfl
  | cons n ns ih => rw [renameLoop_cons, List.foldl_cons, ih, opOf_inodes]

theorem names_opOf (h : name ∈ names (opOf F N count n)) :
    name = numbered F n ∨ name = numbered F (next n) := by
  unfold opOf at h
  split_ifs at h
  · simp only [names, List.mem_singleton, split_filename_count] at h
    exact .inl h
  · simpa only [names, List.mem_cons, List.not_mem_nil, or_false, split_filename_count] using h

/-- Where in the loop an operation comes from. -/
theorem prefix_renameLoop {pre : List FileOp}
    (h : pre ++ [op] <+: renameLoop F.file_path N count ns) :
    ∃ ns₁ n ns₂, ns = ns₁ ++ n :: ns₂ ∧ pre = renameLoop F.file_path N count ns₁ ∧
      op = opOf F N (count - ns₁.length) n := by
  induction ns generalizing count pre with
  | nil => exact absurd (List.prefix_nil.mp h) (by simp)
  | cons n ns ih =>
    rw [renameLoop_cons] at h
    cases pre with
    | nil =>
      obtain ⟨rfl, -⟩ := List.cons_prefix_cons.mp h
      exact ⟨[], n, ns, rfl, rfl, by simp⟩
    | cons op' pre =>
      obtain ⟨rfl, hrest⟩ := List.cons_prefix_cons.mp h
      obtain ⟨ns₁, k, ns₂, rfl, rfl, rfl⟩ := ih hrest
      exact ⟨n :: ns₁, k, ns₂, rfl, rfl, by rw [count_cons]⟩

theorem mem_renameLoop (h : op ∈ renameLoop F.file_path N count ns) :
    ∃ n ∈ ns, ∃ count', op = opOf F N count' n := by
  obtain ⟨pre, post, heq⟩ := List.append_of_mem h
  have hprefix : pre ++ [op] <+: renameLoop F.file_path N count ns := ⟨post, by rw [heq]; simp⟩
  obtain ⟨ns₁, n, ns₂, rfl, -, rfl⟩ := prefix_renameLoop hprefix
  exact ⟨n, by simp, _, rfl⟩

/-! ### A rotation -/

theorem lastOp_eq (h : N ≠ 0) :
    lastOp F.file_path N = .rename F.file_path (filename_count F.file_path 1) := if_pos h

/-- The log file is not touched by the loop. -/
theorem find_renameLoop :
    ((renameLoop F.file_path N count ns).foldl FileOp.run d).find F.file_path =
      d.find F.file_path := by
  rw [find_file_path, find_file_path]
  refine lookup_foldl fun op hop hname => ?_
  obtain ⟨n, -, count', rfl⟩ := mem_renameLoop hop
  rcases names_opOf hname with h | h
  · exact numbered_ne_file_name n h.symm
  · exact numbered_ne_file_name _ h.symm

theorem fileOps_inodes (h : N ≠ 0) :
    ((fileOps F.file_path N ns).foldl FileOp.run d).inodes = d.inodes := by
  rw [fileOps, List.foldl_append, List.foldl_cons, List.foldl_nil, lastOp_eq h, FileOp.run,
    rename_inodes, renameLoop_inodes]

/-- The log file is gone. -/
theorem lookup_file_name_fileOps {i : ℕ} (hN : N ≠ 0) (hlog : d.find F.file_path = some i) :
    ((fileOps F.file_path N ns).foldl FileOp.run d).names.lookup F.file_name = none := by
  have hsome := (@find_renameLoop F d N (cint ns.length) ns).trans hlog
  rw [fileOps, List.foldl_append, List.foldl_cons, List.foldl_nil, lastOp_eq hN, FileOp.run]
  simp only [Directory.rename, hsome, split_filename_count, F.split_file_path]
  rw [AList.lookup_insert_ne (numbered_ne_file_name 1).symm, AList.lookup_erase]

/-- **The numbered names after a rotation** are those after the loop, and the log file is number
1. -/
theorem slots_fileOps {i : ℕ} (hN : N ≠ 0) (hlog : d.find F.file_path = some i) :
    slots F ((fileOps F.file_path N ns).foldl FileOp.run d) m =
      if m = 1 then some i else loop next N (cint ns.length) ns (slots F d) m := by
  have hsome := (@find_renameLoop F d N (cint ns.length) ns).trans hlog
  rw [fileOps, List.foldl_append, List.foldl_cons, List.foldl_nil, lastOp_eq hN, FileOp.run,
    ← slots_renameLoop]
  simp only [Directory.rename, hsome, slots, split_filename_count, F.split_file_path]
  split_ifs with hm
  · rw [hm, AList.lookup_insert]
  · rw [AList.lookup_insert_ne fun h => hm (numbered_injective h),
      AList.lookup_erase_ne (numbered_ne_file_name m)]

end SampLogCore.Rotation.Numbering
