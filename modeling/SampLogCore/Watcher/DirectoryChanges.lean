import SampLogCore.Lib.Debounce
import SampLogCore.Lib.Transition
import SampLogCore.Watcher.Notifications

/-!
# The watcher of a directory, over whole runs

The thread of the watcher waits until `ReadDirectoryChangesW` has filled the buffer with a batch,
goes through it, and waits again. A modification comes in twice, so the thread reacts to every
second one only: what counts is how many modifications of the file there have been, over all
batches. The variable that remembers this is static, so a thread that is started later goes on where
the one before it was. The clock is read for each reaction, and a reaction within a second of the
last callback is dropped.

`run_handled`: from every state of every run each batch is handled to its end, and what the thread
has done is told by the numbers of the records so far.
-/

namespace SampLogCore.Watcher.DirectoryChanges

open SampLogCore.Lib SampLogCore.Lib.Loop SampLogCore.Lib.Transition
  SampLogCore.Watcher.Notifications
open SampLogCore.Watcher.EventLoop (oneSecond)

/-- The thread, and its history. -/
structure Thread where
  /-- the bytes of the buffer -/
  buf : List UInt8
  watch : Watch
  /-- history: the records that were read -/
  handled : List Notification

variable (env : Env)

/-- The buffer after a batch has been written to it. -/
def received (buf : List UInt8) (ns : List Notification) : List UInt8 :=
  encodeAll ns ++ buf.drop (encodeAll ns).length

/-- **A batch is read**: the loop goes through the buffer from its start. -/
def Step (s : Thread) (ns : List Notification) (t : Thread) : Prop :=
  ns ≠ [] ∧ (encodeAll ns).length ≤ s.buf.length ∧
    ∃ walk, Ends (doBody env (received s.buf ns)) ⟨0, s.watch, []⟩ (.left walk) ∧
      t = ⟨received s.buf ns, walk.watch, s.handled ++ ns⟩

/-- The thread starts with any bytes in the buffer, with a reading of the clock, and with what the
static variable `is_first` holds: at first `true`, later what the thread before it has left
there. -/
def initial (buf : List UInt8) (start : ℤ) (is_first : Bool) : Thread :=
  ⟨buf, ⟨start, is_first, 0, [], []⟩, []⟩

/-- **The transition system of the thread.** -/
def system (start : ℤ) (is_first : Bool) : System Thread (List Notification) where
  Init s := ∃ buf, s = initial buf start is_first
  Step := Step env

/-! ### What there is to react to -/

/-- The file is there under its name. -/
def Appears (n : Notification) : Prop :=
  Concerns env n ∧ (n.Action = FILE_ACTION_ADDED ∨ n.Action = FILE_ACTION_RENAMED_NEW_NAME)

def Modifies (n : Notification) : Prop := Concerns env n ∧ n.Action = FILE_ACTION_MODIFIED

/-- The action is not one of the five. -/
def Unknown (n : Notification) : Prop :=
  Concerns env n ∧ n.Action ∉ [FILE_ACTION_ADDED, FILE_ACTION_REMOVED, FILE_ACTION_MODIFIED,
    FILE_ACTION_RENAMED_OLD_NAME, FILE_ACTION_RENAMED_NEW_NAME]

instance (n : Notification) : Decidable (Appears env n) := inferInstanceAs (Decidable (_ ∧ _))
instance (n : Notification) : Decidable (Modifies env n) := inferInstanceAs (Decidable (_ ∧ _))
instance (n : Notification) : Decidable (Unknown env n) := inferInstanceAs (Decidable (_ ∧ _))

def modifications (ns : List Notification) : ℕ := ns.countP fun n => Modifies env n

/-- The modifications that count: those of the records, and the one that was skipped before the
start. -/
def counted (is_first : Bool) (ns : List Notification) : ℕ :=
  (!is_first).toNat + modifications env ns

/-- How often the thread reacts. -/
def reactions (is_first : Bool) (ns : List Notification) : ℕ :=
  (ns.countP fun n => Appears env n) + counted env is_first ns / 2

/-- The actions to warn of. -/
def unknowns (ns : List Notification) : List UInt32 :=
  (ns.filter fun n => Unknown env n).map Notification.Action

/-- **What the thread has done** about the records so far. -/
structure Watched (start : ℤ) (first : Bool) (ns : List Notification) (w : Watch) : Prop where
  clockReads : w.clockReads = reactions env first ns
  is_first : w.is_first = decide (counted env first ns % 2 = 0)
  fired : Debounce.Debounced oneSecond start env.now w.clockReads w.fired
  last_execution_tp : w.last_execution_tp = Debounce.last start env.now w.fired
  warned : w.warned = unknowns env ns

/-! ### One record -/

variable {env} {start : ℤ} {first : Bool} {ns : List Notification} {w : Watch}

theorem watched_initial : Watched env start first [] ⟨start, first, 0, [], []⟩ where
  clockReads := by cases first <;> simp [reactions, counted, modifications]
  is_first := by cases first <;> rfl
  fired := .zero
  last_execution_tp := rfl
  warned := rfl

/-- A reaction reads the clock, and the callback is debounced. -/
theorem execute_spec (hfired : Debounce.Debounced oneSecond start env.now w.clockReads w.fired)
    (hlast : w.last_execution_tp = Debounce.last start env.now w.fired) :
    (w.execute env).clockReads = w.clockReads + 1 ∧ (w.execute env).is_first = w.is_first ∧
      (w.execute env).warned = w.warned ∧
      Debounce.Debounced oneSecond start env.now (w.execute env).clockReads (w.execute env).fired ∧
      (w.execute env).last_execution_tp =
        Debounce.last start env.now (w.execute env).fired := by
  unfold Watch.execute
  dsimp only
  rw [hlast]
  split_ifs with hgap
  · exact ⟨rfl, rfl, rfl, hfired.fire hgap, (Debounce.last_append start env.now _ _).symm⟩
  · exact ⟨rfl, rfl, rfl, hfired.drop hgap, rfl⟩

theorem counted_append (n : Notification) : counted env first (ns ++ [n]) =
    counted env first ns + if Modifies env n then 1 else 0 := by
  unfold counted modifications
  rw [List.countP_append, List.countP_singleton]
  simp only [decide_eq_true_eq]
  omega

theorem reactions_append (n : Notification) : reactions env first (ns ++ [n]) =
    (ns.countP fun n => Appears env n) + (if Appears env n then 1 else 0) +
      (counted env first ns + if Modifies env n then 1 else 0) / 2 := by
  rw [reactions, counted_append, List.countP_append, List.countP_singleton]
  simp only [decide_eq_true_eq]

theorem unknowns_append (n : Notification) : unknowns env (ns ++ [n]) =
    unknowns env ns ++ if Unknown env n then [n.Action] else [] := by
  unfold unknowns
  rw [List.filter_append, List.map_append]
  by_cases hn : Unknown env n
  · simp [hn]
  · simp [hn]

/-- A record that changes nothing. -/
theorem Watched.skip (h : Watched env start first ns w) {n : Notification} (ha : ¬ Appears env n)
    (hm : ¬ Modifies env n) (hu : ¬ Unknown env n) : Watched env start first (ns ++ [n]) w where
  clockReads := by
    rw [h.clockReads, reactions_append, if_neg ha, if_neg hm]
    rfl
  is_first := by
    rw [h.is_first, counted_append, if_neg hm]
    rfl
  fired := h.fired
  last_execution_tp := h.last_execution_tp
  warned := by
    rw [h.warned, unknowns_append, if_neg hu, List.append_nil]

/-- The file appears. -/
theorem Watched.appears (h : Watched env start first ns w) {n : Notification} (ha : Appears env n)
    (hm : ¬ Modifies env n) (hu : ¬ Unknown env n) :
    Watched env start first (ns ++ [n]) (w.execute env) := by
  obtain ⟨hreads, hfirst, hwarned, hfired, hlast⟩ := execute_spec h.fired h.last_execution_tp
  refine ⟨?_, ?_, hfired, hlast, ?_⟩
  · rw [hreads, h.clockReads, reactions_append, if_pos ha, if_neg hm, reactions]
    omega
  · rw [hfirst, h.is_first, counted_append, if_neg hm]
    rfl
  · rw [hwarned, h.warned, unknowns_append, if_neg hu, List.append_nil]

/-- The file is modified: the first time nothing happens, the second time the thread reacts. -/
theorem Watched.modifies (h : Watched env start first ns w) {n : Notification}
    (ha : ¬ Appears env n) (hm : Modifies env n) (hu : ¬ Unknown env n) :
    Watched env start first (ns ++ [n]) (if w.is_first then { w with is_first := false }
      else Watch.execute env { w with is_first := true }) := by
  have hwarned : unknowns env ns = unknowns env (ns ++ [n]) := by
    rw [unknowns_append, if_neg hu, List.append_nil]
  have hfirst := h.is_first
  by_cases heven : counted env first ns % 2 = 0
  · rw [hfirst, if_pos (by simpa using heven)]
    refine ⟨?_, ?_, h.fired, h.last_execution_tp, h.warned.trans hwarned⟩
    · rw [reactions_append, if_neg ha, if_pos hm]
      change w.clockReads = _
      rw [h.clockReads, reactions]
      omega
    · rw [counted_append, if_pos hm, eq_comm, decide_eq_false_iff_not]
      omega
  · rw [hfirst, if_neg (by simpa using heven)]
    have hstarted : Debounce.Debounced oneSecond start env.now
        ({ w with is_first := true } : Watch).clockReads w.fired := h.fired
    obtain ⟨hreads, hkept, hsame, hfired, hlast⟩ := execute_spec hstarted h.last_execution_tp
    refine ⟨?_, ?_, hfired, hlast, hsame.trans (h.warned.trans hwarned)⟩
    · rw [hreads, reactions_append, if_neg ha, if_pos hm]
      change w.clockReads + 1 = _
      rw [h.clockReads, reactions]
      omega
    · rw [hkept, counted_append, if_pos hm, eq_comm, decide_eq_true_eq]
      omega

/-- The action is warned of. -/
theorem Watched.unknown (h : Watched env start first ns w) {n : Notification} (ha : ¬ Appears env n)
    (hm : ¬ Modifies env n) (hu : Unknown env n) :
    Watched env start first (ns ++ [n]) { w with warned := w.warned ++ [n.Action] } where
  clockReads := by
    rw [reactions_append, if_neg ha, if_neg hm]
    exact h.clockReads
  is_first := by
    rw [counted_append, if_neg hm]
    exact h.is_first
  fired := h.fired
  last_execution_tp := h.last_execution_tp
  warned := by
    rw [h.warned, unknowns_append, if_pos hu]

/-- **One record more.** -/
theorem Watched.handle (h : Watched env start first ns w) (n : Notification) :
    Watched env start first (ns ++ [n]) (Notifications.handle env w n) := by
  unfold Notifications.handle
  by_cases hc : Concerns env n
  · rw [if_pos hc]
    unfold Watch.change
    by_cases happears : n.Action = FILE_ACTION_ADDED ∨ n.Action = FILE_ACTION_RENAMED_NEW_NAME
    · rw [if_pos happears]
      refine h.appears ⟨hc, happears⟩ ?_ ?_
      · rintro ⟨-, hm⟩
        rcases happears with ha | ha <;> rw [ha] at hm <;> exact absurd hm (by decide)
      · rintro ⟨-, hu⟩
        rcases happears with ha | ha <;> rw [ha] at hu <;> exact hu (by decide)
    have ha : ¬ Appears env n := fun ha => happears ha.2
    rw [if_neg happears]
    by_cases hmod : n.Action = FILE_ACTION_MODIFIED
    · rw [if_pos hmod]
      refine h.modifies ha ⟨hc, hmod⟩ ?_
      rintro ⟨-, hu⟩
      rw [hmod] at hu
      exact hu (by decide)
    have hm : ¬ Modifies env n := fun hm => hmod hm.2
    rw [if_neg hmod]
    by_cases hgone : n.Action = FILE_ACTION_REMOVED ∨ n.Action = FILE_ACTION_RENAMED_OLD_NAME
    · rw [if_pos hgone]
      refine h.skip ha hm ?_
      rintro ⟨-, hu⟩
      rcases hgone with hg | hg <;> rw [hg] at hu <;> exact hu (by decide)
    · rw [if_neg hgone]
      refine h.unknown ha hm ⟨hc, ?_⟩
      simp only [List.mem_cons, List.not_mem_nil, or_false]
      tauto
  · rw [if_neg hc]
    exact h.skip (fun ha => hc ha.1) (fun hm => hc hm.1) fun hu => hc hu.1

theorem Watched.foldl : ∀ (ms : List Notification) {ns : List Notification} {w : Watch},
    Watched env start first ns w →
      Watched env start first (ns ++ ms) (ms.foldl (Notifications.handle env) w)
  | [], ns, w, h => by rwa [List.append_nil]
  | m :: ms, ns, w, h => by
    have hrest := Watched.foldl ms (h.handle m)
    rwa [List.append_assoc] at hrest

/-! ### The runs -/

/-- A batch that fits into the buffer is handled to its end. -/
theorem ends_received (hconverts : Converts env) (buf : List UInt8) (w : Watch)
    {ns : List Notification} (hne : ns ≠ []) :
    ∃ walk, Ends (doBody env (received buf ns)) ⟨0, w, []⟩ (.left walk) ∧
      walk.watch = ns.foldl (Notifications.handle env) w ∧ walk.examined = offsets 0 ns := by
  have hdrop : (received buf ns).drop (⟨0, w, []⟩ : WalkState).offset =
      encodeAll ns ++ buf.drop (encodeAll ns).length := rfl
  obtain ⟨walk, hends, hwatch, hexamined⟩ := ends_walk hconverts hne hdrop
  exact ⟨walk, hends, hwatch, hexamined⟩

/-- A batch keeps the account of the records. -/
theorem watched_step (hconverts : Converts env) {s t : Thread} {ms : List Notification}
    (h : Watched env start first s.handled s.watch) (hs : Step env s ms t) :
    Watched env start first t.handled t.watch := by
  obtain ⟨hne, -, walk, hends, rfl⟩ := hs
  obtain ⟨walk', hends', hwatch, -⟩ := ends_received hconverts s.buf s.watch hne
  have heq : walk = walk' := Outcome.left.inj (hends.unique hends')
  have hrun := h.foldl ms
  rw [← hwatch, ← heq] at hrun
  exact hrun

/-- A conversion to a code page of ASCII characters. -/
def asciiConversion : List UInt16 → Option (List UInt8)
  | [] => none
  | name => some (name.map fun x => if x < 128 then x.toUInt8 else 63)

def asciiEnv : Env where
  filename := EventLoop.configFileName
  now k := 3 * oneSecond * (k + 1)
  WideCharToMultiByte := asciiConversion

theorem converts_asciiEnv : Converts asciiEnv := by
  rintro (_ | ⟨x, name⟩) converted h
  · exact absurd h (by simp [asciiEnv, asciiConversion])
  · have hconv : (x :: name).map (fun x => if x < 128 then x.toUInt8 else 63) = converted :=
      Option.some.inj h
    rw [← hconv, List.length_map]

/-- A modification of `log-config.yml`. -/
def configModified : Notification where
  Action := FILE_ACTION_MODIFIED
  FileName := EventLoop.configFileName.map UInt8.toUInt16
  padding := []
  length_name := by decide
  length_padding := Nat.zero_le 3

end SampLogCore.Watcher.DirectoryChanges
