import SampLogCore.Rotation.Listing

/-!
# The invariant of size rotation

`Data` says what the directory, the writer and the history have to do with the backup chain: the
names of the log are those of the chain, the writer holds the newest file of the chain, whatever its
name is by now, and the history is what was deleted followed by the records of the chain. Every
operation keeps this for the chain it leads to. `Phase` says where in the chain the rotator is:
between two rotations the gap is at one of the ends, and while the operations on the numbers
`n, …, 0` are still to be done it is at `n + 1`.

Every step keeps the invariant (`inv_step`), so it holds in every reachable state.
-/

namespace SampLogCore.Rotation.Invariant

open SampLogCore.Lib.Transition SampLogCore.Lib.Number SampLogCore.Rotation.LogDirectory
  SampLogCore.Rotation.SizeRotation SampLogCore.Rotation.Backups SampLogCore.Rotation.Listing

variable {td : Tinydir} {F : LogFile}

/-- The directory, the writer and the history, as the chain has them. -/
structure Data (F : LogFile) (s : State) (c : Chain) : Prop where
  names : Represents F s.dir c
  fresh : ∀ name i, s.dir.names.lookup name = some i → i < s.dir.next
  reg : ∀ i ∈ c.ids, (s.dir.inodes i).is_reg = true
  opened : ∀ i, s.opened = some i → c.ids.head? = some i
  history : s.written = s.removed ++ c.records s.dir.inodes

/-- Where in the chain the rotator is. -/
def Phase (F : LogFile) (c : Chain) : RotatorPc → Prop
  | .idle => (c.gap = 0 ∧ c.ids.length ≤ INT_MAX) ∨
      (c.gap = c.ids.length ∧ c.ids.length ≤ INT_MAX + 1)
  | .listing backup_count => 1 ≤ backup_count ∧ backup_count ≤ INT_MAX ∧ 0 < c.gap ∧
      c.gap = c.ids.length ∧ c.ids.length ≤ INT_MAX + 1
  | .moving ops => ∃ (backup_count : ℤ) (n : ℕ), 1 ≤ backup_count ∧ backup_count ≤ INT_MAX ∧
      ops = opsFrom F backup_count n ∧ c.gap = n + 1 ∧
      if backup_count ≤ n then c.ids.length = n + 1 else c.ids.length ≤ backup_count

/-- The invariant. -/
def Inv (F : LogFile) (s : State) : Prop := ∃ c, Data F s c ∧ Phase F c s.rotator

/-! ### The operations on the data -/

variable {s : State} {c : Chain}

/-- The directory is that of the chain. -/
theorem Data.chained (h : Data F s c) : Chained F s.dir c := ⟨h.names, h.fresh, h.reg⟩

theorem Data.of_chained (h : Chained F s.dir c) (hopened : ∀ i, s.opened = some i →
    c.ids.head? = some i) (hhistory : s.written = s.removed ++ c.records s.dir.inodes) :
    Data F s c :=
  ⟨h.names, h.fresh, h.reg, hopened, hhistory⟩

/-- A new log file is the newest of the chain. -/
theorem Data.create_log (h : Data F s c) (hgap : c.gap = 0) (hi : s.dir.next ∉ c.ids) :
    Data F { s with dir := s.dir.create F.file_name, opened := some s.dir.next }
      (c.push s.dir.next hi) := by
  refine .of_chained (h.chained.create_log hgap hi) (fun i hopen => ?_) ?_
  · simpa [Chain.push] using hopen
  · have hold : c.records (Function.update s.dir.inodes s.dir.next ⟨true, []⟩) =
        c.records s.dir.inodes := c.records_congr fun i hmem =>
      Function.update_of_ne (ne_of_lt (h.chained.lt_next hmem)) _ _
    simp only [Directory.create, Chain.records_push, hold, Function.update_self, List.append_nil]
    exact h.history

/-- What the writer appends goes to the newest file, under whatever name. -/
theorem Data.write (h : Data F s c) {i : ℕ} (hopen : s.opened = some i) (r : Record) :
    Data F { s with dir := s.dir.append i r, opened := none, written := s.written ++ [r] } c := by
  refine .of_chained (h.chained.append i r) (fun i hi => absurd hi (by simp)) ?_
  simp only [Directory.append, c.records_append (h.opened i hopen), h.history, List.append_assoc]

/-- A rename leaves the files as they are. -/
theorem Data.rename (h : Data F s c) {n : ℕ} (hgap : c.gap = n + 1) :
    Data F { s with dir := s.dir.rename (backupPath F n) (backupPath F (n + 1)) } c.bump := by
  refine .of_chained (h.chained.rename hgap) h.opened ?_
  simp only [rename_inodes]
  exact h.history

/-- A remove takes the oldest file away, with its records. -/
theorem Data.remove (h : Data F s c) {n : ℕ} (hgap : c.gap = n + 2) (hlen : c.ids.length = n + 2) :
    Data F { s with
      dir := s.dir.remove (backupPath F (n + 1))
      removed := s.removed ++ s.dir.contents (SplitFilePath (backupPath F (n + 1))).2 }
      c.dropOldest := by
  have hcontents : s.dir.contents (F.backup (n + 1)) = (s.dir.inodes c.ids[n + 1]).records := by
    rw [← h.names.contents_backup (by omega), c.number_of_lt (by omega)]
  have hlast : c.ids.getLast? = some c.ids[n + 1] := by
    have hidx : c.ids.length - 1 = n + 1 := by omega
    rw [List.getLast?_eq_getElem?, hidx]
    exact List.getElem?_eq_getElem (by omega)
  refine .of_chained (h.chained.remove hgap hlen) (fun i hopen => ?_) ?_
  · have hhead := h.opened i hopen
    rw [List.head?_eq_getElem?] at hhead ⊢
    simp only [Chain.dropOldest, List.getElem?_dropLast, hlen]
    rw [if_pos (by omega), hhead]
  · simp only [split_backupPath, hcontents, List.append_assoc]
    rw [show (s.dir.remove (backupPath F (n + 1))).inodes = s.dir.inodes from rfl,
      c.records_dropOldest hlast]
    exact h.history

/-- The data do not speak of the rotator. -/
theorem Data.rotator (h : Data F s c) (pc : RotatorPc) : Data F { s with rotator := pc } c :=
  { h with }

/-- What other programs do to other names does not matter. -/
theorem Data.frame (h : Data F s c) {dir : Directory Record} (hdir : Chained F dir c)
    (hinodes : ∀ i, i < s.dir.next → dir.inodes i = s.dir.inodes i) :
    Data F { s with dir := dir } c := by
  refine .of_chained hdir h.opened ?_
  have hsame : c.records dir.inodes = c.records s.dir.inodes :=
    c.records_congr fun i hi => hinodes i (h.chained.lt_next hi)
  simp only [hsame]
  exact h.history

/-! ### The steps -/

variable {t : State}

/-- The log file is missing between two rotations only, when the gap is in front. -/
theorem Phase.idle_of_gap {pc : RotatorPc} (h : Phase F c pc) (hgap : c.gap = 0) :
    pc = .idle ∧ c.ids.length ≤ INT_MAX := by
  cases pc with
  | idle =>
    rcases h with ⟨_, hlen⟩ | ⟨hg, _⟩
    · exact ⟨rfl, hlen⟩
    · exact ⟨rfl, by simp only [INT_MAX]; omega⟩
  | listing bc =>
    obtain ⟨_, _, hpos, _⟩ := h
    omega
  | moving ops =>
    obtain ⟨bc, n, _, _, _, hg, _⟩ := h
    omega

theorem inv_openLog (h : Inv F s) (hs : step td F s .openLog = some t) : Inv F t := by
  obtain ⟨c, hdata, hphase⟩ := h
  simp only [step] at hs
  split at hs
  · obtain rfl := Option.some.inj hs
    by_cases hgap : c.gap = 0
    · obtain ⟨hidle, hlen⟩ := hphase.idle_of_gap hgap
      have hnew : s.dir.next ∉ c.ids := fun hi => absurd (hdata.chained.lt_next hi) (lt_irrefl _)
      refine ⟨c.push s.dir.next hnew, ?_, ?_⟩
      · simpa [Directory.openAppend, hdata.chained.find_log_none hgap, F.split_file_path] using
          hdata.create_log hgap hnew
      · simp only [hidle, Phase, Chain.push, List.length_cons]
        exact .inr ⟨trivial, by omega⟩
    · have hfind := hdata.chained.find_log (by omega)
      obtain ⟨i, hi⟩ : ∃ i, c.ids.head? = some i := by
        have := c.gap_le
        have hlt : 0 < c.ids.length := by omega
        exact ⟨c.ids[0], by rw [List.head?_eq_getElem?]; exact List.getElem?_eq_getElem hlt⟩
      refine ⟨c, ?_, by simpa [Directory.openAppend, hfind, hi] using hphase⟩
      simp only [Directory.openAppend, hfind, hi]
      exact { hdata with opened := fun j hj => by rw [hi]; exact hj }
  · exact absurd hs (by simp)

theorem inv_write {r : Record} (h : Inv F s) (hs : step td F s (.write r) = some t) : Inv F t := by
  obtain ⟨c, hdata, hphase⟩ := h
  simp only [step] at hs
  split at hs
  · rename_i i hopen
    obtain rfl := Option.some.inj hs
    exact ⟨c, hdata.write hopen r, hphase⟩
  · exact absurd hs (by simp)

theorem inv_checkSize {max_size : UInt32} {backup_count : Int32} (h : Inv F s)
    (h1 : 1 ≤ backup_count.toInt) (hs : step td F s (.checkSize max_size backup_count) = some t) :
    Inv F t := by
  obtain ⟨c, hdata, hphase⟩ := h
  have hmax : backup_count.toInt ≤ INT_MAX := by
    have := backup_count.toInt_lt
    simp only [INT_MAX]
    omega
  simp only [step] at hs
  split at hs
  · rename_i hidle
    split at hs
    · exact Option.some.inj hs ▸ ⟨c, hdata, hphase⟩
    · rename_i i hfind
      split_ifs at hs
      · exact Option.some.inj hs ▸ ⟨c, hdata, hphase⟩
      · obtain rfl := Option.some.inj hs
        have hgap : c.gap ≠ 0 := by
          intro hg
          rw [hdata.chained.find_log_none hg] at hfind
          exact absurd hfind (by simp)
        rw [hidle] at hphase
        obtain ⟨hg, _⟩ | ⟨hg, hlen⟩ := hphase
        · exact absurd hg hgap
        · exact ⟨c, hdata.rotator _, h1, hmax, by omega, hg, hlen⟩
      · omega
  · exact absurd hs (by simp)

theorem inv_list {found : List Name} (h : Inv F s) (hs : step td F s (.list found) = some t) :
    Inv F t := by
  obtain ⟨c, hdata, hphase⟩ := h
  simp only [step] at hs
  split at hs
  · rename_i backup_count hlisting
    split_ifs at hs with hperm
    obtain rfl := Option.some.inj hs
    rw [hlisting] at hphase
    obtain ⟨h1, hmax, hpos, hgap, hlen⟩ := hphase
    obtain ⟨k, hk⟩ : ∃ k, c.ids.length = k + 1 := ⟨c.ids.length - 1, by omega⟩
    have hkmax : (k : ℤ) ≤ INT_MAX := by omega
    refine ⟨c, hdata.rotator _, backup_count, k, h1, hmax, ?_, by omega, ?_⟩
    · rw [F.split_file_path, movedNums_eq hdata.names hgap hdata.reg hk hkmax hperm,
        fileOps_downFrom h1 hmax hkmax]
    · split_ifs <;> omega
  · exact absurd hs (by simp)

/-- **One file operation of a rotation.** -/
theorem inv_fileOp (h : Inv F s) (hs : step td F s .fileOp = some t) : Inv F t := by
  obtain ⟨c, hdata, hphase⟩ := h
  simp only [step] at hs
  split at hs
  · rename_i op ops hmoving
    obtain rfl := Option.some.inj hs
    rw [hmoving] at hphase
    obtain ⟨backup_count, n, h1, hmax, hops, hgap, hlen⟩ := hphase
    cases n with
    | zero =>
      obtain ⟨rfl, rfl⟩ := List.cons.inj hops
      rw [if_neg (by omega)] at hlen
      refine ⟨c.bump, ?_, .inl ⟨by simp [Chain.bump, hgap], by simp only [Chain.bump]; omega⟩⟩
      rw [opAt, if_neg (by omega)]
      simpa [FileOp.run, FileOp.deleted] using (hdata.rename hgap).rotator _
    | succ n =>
      obtain ⟨rfl, rfl⟩ := List.cons.inj hops
      have hmore : opsFrom F backup_count n ≠ [] := by cases n <;> simp [opsFrom]
      simp only [if_neg hmore]
      by_cases hn : backup_count ≤ ((n + 1 : ℕ) : ℤ)
      · rw [if_pos hn] at hlen
        refine ⟨c.dropOldest, ?_, backup_count, n, h1, hmax, rfl,
          by simp [Chain.dropOldest, hgap], ?_⟩
        · rw [opAt, if_pos hn]
          exact (hdata.remove hgap hlen).rotator _
        · simp only [Chain.dropOldest, List.length_dropLast, hlen]
          split_ifs <;> omega
      · rw [if_neg hn] at hlen
        refine ⟨c.bump, ?_, backup_count, n, h1, hmax, rfl, by simp [Chain.bump, hgap], ?_⟩
        · rw [opAt, if_neg hn]
          simpa [FileOp.run, FileOp.deleted] using (hdata.rename hgap).rotator _
        · rw [if_neg (by omega)]
          exact hlen
  · exact absurd hs (by simp)

theorem inv_create {name : Name} (h : Inv F s) (hname : ¬ F.file_name <+: name)
    (hs : step td F s (.create name) = some t) : Inv F t := by
  obtain ⟨c, hdata, hphase⟩ := h
  simp only [step] at hs
  split at hs
  · obtain rfl := Option.some.inj hs
    exact ⟨c, hdata.frame (hdata.chained.create_other hname) fun i hi =>
      Function.update_of_ne (ne_of_lt hi) _ _, hphase⟩
  · exact absurd hs (by simp)

theorem inv_delete {name : Name} (h : Inv F s) (hname : ¬ F.file_name <+: name)
    (hs : step td F s (.delete name) = some t) : Inv F t := by
  obtain ⟨c, hdata, hphase⟩ := h
  obtain rfl := Option.some.inj hs
  exact ⟨c, hdata.frame (hdata.chained.delete_other hname) fun _ _ => rfl, hphase⟩

theorem inv_step {e : Event} (h : Inv F s) (hc : Allowed F s e) (hs : step td F s e = some t) :
    Inv F t := by
  cases e with
  | openLog => exact inv_openLog h hs
  | write r => exact inv_write h hs
  | checkSize max_size backup_count => exact inv_checkSize h hc hs
  | list found => exact inv_list h hs
  | fileOp => exact inv_fileOp h hs
  | create name => exact inv_create h hc hs
  | delete name => exact inv_delete h hc hs

theorem inv_init (h : Init F s) : Inv F s := by
  obtain ⟨hopen, hidle, hwritten, hremoved, hdir⟩ := h
  refine ⟨⟨[], 0, le_refl _, List.nodup_nil⟩, ⟨?_, ?_, by simp, by simp [hopen], ?_⟩, ?_⟩
  · intro name hname i
    constructor
    · intro hlookup
      exact absurd hname (hdir name i hlookup).1
    · rintro ⟨j, hj, _⟩
      exact absurd hj (by simp)
  · exact fun name i hlookup => (hdir name i hlookup).2
  · simp [hwritten, hremoved, Chain.records]
  · rw [hidle]
    exact .inl ⟨rfl, by simp [INT_MAX]⟩

theorem reachable_inv (h : ((system td F).restrict (Allowed F)).Reachable s) : Inv F s := by
  refine h.invariant (I := Inv F) (fun _ h0 => inv_init h0) fun s e t hi hs => ?_
  exact inv_step hi hs.1 hs.2

end SampLogCore.Rotation.Invariant
