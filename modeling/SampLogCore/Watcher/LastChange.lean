import SampLogCore.Lib.Debounce
import SampLogCore.Lib.Transition
import SampLogCore.Watcher.EventLoop

/-!
# The last change of the watched file

The thread of the watcher waits in `select`, reads a batch and goes through it with the `for` loop.
For a change of the watched file the loop reads the clock, and calls `_callback` when more than one
second has passed since the last execution, or since the start of the watcher. Otherwise the change
is dropped: nothing looks at it later. A callback logs a message before it reads the file, so the
file may change between the two.

`last_change_iff` says in which runs the last change is followed by a callback, and in which the
file is read once more after it.
-/

namespace SampLogCore.Watcher.LastChange

open SampLogCore.Lib SampLogCore.Lib.Transition SampLogCore.Watcher.Inotify
  SampLogCore.Watcher.EventLoop

/-- Where the thread is in `FileChangeDetector::EventLoop`. -/
inductive Place
  /-- at `select`, or at the `read` after it -/
  | select
  /-- in the `for` loop over the bytes of these events -/
  | forLoop (es : List Event)
  | returned

/-- The thread, and its history. -/
structure Thread where
  place : Place
  /-- the variables of the `for` loop, and those that outlive it -/
  loop : LoopState
  /-- history: which readings of the clock were followed by a callback -/
  fired : List ℕ

/-- What the thread does next. -/
inductive Turn
  /-- `read` returns these events -/
  | read (es : List Event)
  /-- a round of the `for` loop -/
  | round
  /-- `_isThreadRunning` is found cleared, or `select` or `read` fails -/
  | stop

/-- The events that a step of the thread takes from the system. -/
def Turn.events : Turn → List Event
  | .read es => es
  | _ => []

/-- The events that the thread has read. -/
def delivered (turns : List Turn) : List Event := turns.flatMap Turn.events

variable (env : Env)

/-- **One step of the thread.** -/
def step (s : Thread) : Turn → Option Thread
  | .read es =>
    match s.place with
    | .select => some { s with place := .forLoop es, loop := { s.loop with i := 0 } }
    | _ => none
  | .round =>
    match s.place with
    | .forLoop es =>
      match forBody env (buffer es) s.loop with
      | .again u =>
        some { s with
          loop := u
          fired := if u.actions = s.loop.actions ++ [.callback]
            then s.fired ++ [s.loop.clockReads] else s.fired }
      | .leave (.left u exit_thread) =>
        some { s with place := if exit_thread then .returned else .select, loop := u }
      | .leave .pastLength => none
    | _ => none
  | .stop =>
    match s.place with
    | .select => some { s with place := .returned }
    | _ => none

/-- The thread starts with a reading of the clock. -/
def initial (last_execution_tp : ℤ) : Thread := ⟨.select, start last_execution_tp, []⟩

/-- **The transition system of the thread.** -/
def system (last_execution_tp : ℤ) : System Thread Turn :=
  ofStep (· = initial last_execution_tp) (step env)

/-! ### What a round does to the clock -/

/-- The event is a change of the watched file. -/
def Changes (e : Event) : Prop :=
  Plain env e ∧ 0 < e.len ∧ strcmpZero env.file_name e.name = some true

instance (e : Event) : Decidable (Changes env e) := inferInstanceAs (Decidable (_ ∧ _ ∧ _))

/-- The comparison does not look behind the terminator. -/
theorem strcmpZero_append (file : List UInt8) : ∀ (name rest : List UInt8), 0 ∈ name →
    strcmpZero file (name ++ rest) = strcmpZero file name := by
  induction file with
  | nil =>
    intro name rest h
    cases name with
    | nil => simp at h
    | cons b bs => rfl
  | cons a as ih =>
    intro name rest h
    cases name with
    | nil => simp at h
    | cons b bs =>
      simp only [List.cons_append, strcmpZero]
      split_ifs with h0 hab
      · rfl
      · exact ih bs rest (by simpa [Ne.symm h0] using h)
      · rfl

variable {env} {buf rest : List UInt8} {s u : LoopState}

/-- **The clock is read for the changes of the watched file**, and for no other event. -/
theorem forBody_clockReads {e : Event} (hd : buf.drop s.i = encode e ++ rest)
    (h : forBody env buf s = .again u) :
    u.clockReads = s.clockReads + if Changes env e then 1 else 0 := by
  obtain ⟨hi, hr⟩ := forBody_at hd
  simp only [forBody, if_neg hi, hr] at h
  by_cases h1 : e.wd < 0 ∨ e.has IN_Q_OVERFLOW
  · rw [if_pos h1] at h
    obtain rfl := Loop.Round.again.inj h
    exact (if_neg fun hc : Changes env e => hc.1.1 h1).symm ▸ rfl
  rw [if_neg h1] at h
  by_cases h2 : e.wd = env.change_notify
  swap
  · rw [if_pos h2] at h
    obtain rfl := Loop.Round.again.inj h
    exact (if_neg fun hc : Changes env e => h2 hc.1.2.1).symm ▸ rfl
  rw [if_neg (not_not.mpr h2)] at h
  by_cases h3 : e.has IN_IGNORED ∨ e.has IN_UNMOUNT
  · rw [if_pos h3] at h
    exact absurd h (by simp)
  rw [if_neg h3] at h
  by_cases h4 : e.has IN_ISDIR
  · rw [if_pos h4] at h
    obtain rfl := Loop.Round.again.inj h
    exact (if_neg fun hc : Changes env e => hc.1.2.2.2 h4).symm ▸ rfl
  rw [if_neg h4] at h
  by_cases hlen : 0 < e.len
  swap
  · rw [if_neg hlen] at h
    obtain rfl := Loop.Round.again.inj h
    exact (if_neg fun hc : Changes env e => hlen hc.2.1).symm ▸ rfl
  have hmem : 0 ∈ e.name := e.terminated (by simpa [UInt32.lt_iff_toNat_lt] using hlen)
  obtain ⟨b, hb⟩ := strcmpZero_terminated env.file_name e.name rest hmem
  have hname := (strcmpZero_append env.file_name e.name rest hmem).symm.trans hb
  rw [if_pos hlen, hb] at h
  cases b with
  | false =>
    obtain rfl := Loop.Round.again.inj h
    have hno : ¬ Changes env e := fun hc => absurd (hname.symm.trans hc.2.2) (by simp)
    exact (if_neg hno).symm ▸ rfl
  | true =>
    have hchange : Changes env e := ⟨⟨h1, h2, h3, h4⟩, hlen, hname⟩
    rw [if_pos hchange]
    dsimp only at h
    split_ifs at h
    · obtain rfl := Loop.Round.again.inj h
      rfl
    · obtain rfl := Loop.Round.again.inj h
      rfl

/-- A round reads no clock, fires or drops. -/
theorem forBody_again_cases (h : forBody env buf s = .again u) :
    (u.clockReads = s.clockReads ∧ u.last_execution_tp = s.last_execution_tp ∧
      u.actions ≠ s.actions ++ [.callback]) ∨
    (u.clockReads = s.clockReads + 1 ∧
      oneSecond < env.now s.clockReads - s.last_execution_tp ∧
      u.last_execution_tp = env.now s.clockReads ∧ u.actions = s.actions ++ [.callback]) ∨
    (u.clockReads = s.clockReads + 1 ∧
      ¬ oneSecond < env.now s.clockReads - s.last_execution_tp ∧
      u.last_execution_tp = s.last_execution_tp ∧ u.actions ≠ s.actions ++ [.callback]) := by
  unfold forBody at h
  split at h
  · exact absurd h (by simp)
  split at h
  · exact absurd h (by simp)
  dsimp only at h
  split_ifs at h with h1 h2 h3 h4 h5 hgap
  · obtain rfl := Loop.Round.again.inj h
    exact .inl ⟨rfl, rfl, by simp⟩
  · obtain rfl := Loop.Round.again.inj h
    exact .inl ⟨rfl, rfl, by simp⟩
  · obtain rfl := Loop.Round.again.inj h
    exact .inl ⟨rfl, rfl, by simp⟩
  · split at h
    · exact absurd h (by simp)
    · obtain rfl := Loop.Round.again.inj h
      exact .inl ⟨rfl, rfl, by simp⟩
    · obtain rfl := Loop.Round.again.inj h
      exact .inr (.inl ⟨rfl, hgap, rfl, rfl⟩)
  · split at h
    · exact absurd h (by simp)
    · obtain rfl := Loop.Round.again.inj h
      exact .inl ⟨rfl, rfl, by simp⟩
    · obtain rfl := Loop.Round.again.inj h
      exact .inr (.inr ⟨rfl, hgap, rfl, by simp⟩)
  · obtain rfl := Loop.Round.again.inj h
    exact .inl ⟨rfl, rfl, by simp⟩

/-- The loop is left without a reading. -/
theorem forBody_leave {b : Bool} (h : forBody env buf s = .leave (.left u b)) :
    u.clockReads = s.clockReads ∧ u.last_execution_tp = s.last_execution_tp := by
  unfold forBody at h
  split at h
  · obtain ⟨rfl, -⟩ := Outcome.left.inj (Loop.Round.leave.inj h)
    exact ⟨rfl, rfl⟩
  split at h
  · exact absurd h (by simp)
  dsimp only at h
  split_ifs at h with h1 h2 h3 h4 h5 hgap
  · obtain ⟨rfl, -⟩ := Outcome.left.inj (Loop.Round.leave.inj h)
    exact ⟨rfl, rfl⟩
  · split at h
    all_goals exact absurd h (by simp)
  · split at h
    all_goals exact absurd h (by simp)

/-! ### The events of a run -/

/-- Of the events that have been read the thread has gone through `passed`: the clock has been read
for the changes among them, and between two batches nothing is left. -/
structure Passed (env : Env) (passed left : List Event) (s : Thread) : Prop where
  clockReads : s.loop.clockReads = passed.countP (Changes env ·)
  select : s.place = .select → left = []
  forLoop : ∀ es, s.place = .forLoop es →
    ∃ pre, es = pre ++ left ∧ s.loop.i = (buffer pre).length

theorem buffer_append (es fs : List Event) : buffer (es ++ fs) = buffer es ++ buffer fs := by
  simp [buffer]

/-- At an event the loop is left by the `break` only. -/
theorem exit_of_leave {e : Event} {b : Bool} (hd : buf.drop s.i = encode e ++ rest)
    (h : forBody env buf s = .leave (.left u b)) : b = true := by
  by_cases hr : Removal env e
  · obtain ⟨u', hbody, -⟩ := forBody_removal (s := s) hd hr
    exact (Outcome.left.inj (Loop.Round.leave.inj (h.symm.trans hbody))).2
  by_cases hplain : Plain env e
  · obtain ⟨u', hbody, -⟩ := forBody_plain hd hplain
    exact absurd (h.symm.trans hbody) (by simp)
  · obtain ⟨u', hbody, -⟩ := forBody_stall hd hplain hr
    exact absurd (h.symm.trans hbody) (by simp)

/-- Otherwise the round passes the event, or examines it again. -/
theorem index_of_again {e : Event} (hd : buf.drop s.i = encode e ++ rest)
    (h : forBody env buf s = .again u) :
    (Plain env e ∧ u.i = s.i + e.size) ∨ (¬ Plain env e ∧ u.i = s.i) := by
  by_cases hplain : Plain env e
  · obtain ⟨u', hbody, hu, -⟩ := forBody_plain hd hplain
    obtain rfl := Loop.Round.again.inj (h.symm.trans hbody)
    exact .inl ⟨hplain, hu⟩
  · have hno : ¬ Removal env e := by
      intro hr
      obtain ⟨u', hbody, -⟩ := forBody_removal (s := s) hd hr
      exact absurd (h.symm.trans hbody) (by simp)
    obtain ⟨u', hbody, hu⟩ := forBody_stall hd hplain hno
    obtain rfl := Loop.Round.again.inj (h.symm.trans hbody)
    exact .inr ⟨hplain, hu⟩

theorem passed_round {passed left : List Event} {s t : Thread} (hi : Passed env passed left s)
    (h : step env s .round = some t) :
    ∃ passed' left', passed ++ left = passed' ++ left' ∧ Passed env passed' left' t := by
  simp only [step] at h
  split at h
  · rename_i es hplace
    obtain ⟨pre, rfl, hindex⟩ := hi.forLoop es hplace
    have hselect : s.place ≠ .select := fun heq => absurd (hplace.symm.trans heq) (by simp)
    cases left with
    | nil =>
      -- the batch is at its end
      have hbody : forBody env (buffer (pre ++ [])) s.loop = .leave (.left s.loop false) := by
        rw [forBody, if_pos (by simpa using hindex)]
      rw [hbody] at h
      obtain rfl := Option.some.inj h
      exact ⟨passed, [], rfl, hi.clockReads, fun _ => rfl, fun _ heq => absurd heq (by simp)⟩
    | cons e left =>
      have hd : (buffer (pre ++ e :: left)).drop s.loop.i = encode e ++ buffer left := by
        rw [buffer_append, hindex, List.drop_left]
        rfl
      split at h
      · rename_i u hbody
        obtain rfl := Option.some.inj h
        have hreads := forBody_clockReads hd hbody
        rcases index_of_again hd hbody with ⟨-, hu⟩ | ⟨hplain, hu⟩
        · refine ⟨passed ++ [e], left, by simp, ?_, fun heq => absurd heq hselect, ?_⟩
          · simp only [List.countP_append, List.countP_singleton, hreads, hi.clockReads,
              decide_eq_true_eq]
          · intro es hes
            obtain rfl := Place.forLoop.inj (hplace.symm.trans hes)
            exact ⟨pre ++ [e], by simp, by simp [hu, hindex, buffer]⟩
        · rw [if_neg fun hc : Changes env e => hplain hc.1, Nat.add_zero] at hreads
          refine ⟨passed, e :: left, rfl, hreads.trans hi.clockReads,
            fun heq => absurd heq hselect, ?_⟩
          intro es hes
          obtain rfl := Place.forLoop.inj (hplace.symm.trans hes)
          exact ⟨pre, rfl, hu.trans hindex⟩
      · rename_i u exit_thread hbody
        obtain rfl := Option.some.inj h
        obtain rfl := exit_of_leave hd hbody
        exact ⟨passed, e :: left, rfl, (forBody_leave hbody).1.trans hi.clockReads,
          fun heq => absurd heq (by simp), fun _ heq => absurd heq (by simp)⟩
      · exact absurd h (by simp)
  · exact absurd h (by simp)

theorem passed_step {passed left : List Event} {s t : Thread} {e : Turn}
    (hi : Passed env passed left s) (h : step env s e = some t) :
    ∃ passed' left', passed ++ left ++ e.events = passed' ++ left' ∧
      Passed env passed' left' t := by
  cases e with
  | read es =>
    simp only [step] at h
    split at h
    · rename_i hplace
      obtain rfl := Option.some.inj h
      obtain rfl := hi.select hplace
      refine ⟨passed, es, by simp [Turn.events], hi.clockReads, nofun, fun es' hes => ?_⟩
      exact ⟨[], (Place.forLoop.inj hes).symm, rfl⟩
    · exact absurd h (by simp)
  | round =>
    obtain ⟨passed', left', heq, hi'⟩ := passed_round hi h
    exact ⟨passed', left', (List.append_nil _).trans heq, hi'⟩
  | stop =>
    simp only [step] at h
    split at h
    · obtain rfl := Option.some.inj h
      exact ⟨passed, left, List.append_nil _, hi.clockReads, nofun, nofun⟩
    · exact absurd h (by simp)

theorem passed_run : ∀ (turns : List Turn) {passed left : List Event} {s t : Thread},
    Passed env passed left s → exec (step env) s turns = some t →
    ∃ passed' left', passed ++ left ++ delivered turns = passed' ++ left' ∧
      Passed env passed' left' t
  | [], passed, left, s, t, hi, h => by
    obtain rfl := Option.some.inj h
    exact ⟨passed, left, List.append_nil _, hi⟩
  | e :: turns, passed, left, s, t, hi, h => by
    obtain ⟨u, hu, h⟩ := Option.bind_eq_some_iff.mp h
    obtain ⟨passed', left', heq, hi'⟩ := passed_step hi hu
    obtain ⟨passed'', left'', heq', hi''⟩ := passed_run turns hi' h
    refine ⟨passed'', left'', ?_, hi''⟩
    rw [← heq', ← heq, delivered, delivered, List.flatMap_cons, List.append_assoc _ e.events]

/-- **Between two batches the clock has been read for each change once.** -/
theorem clockReads_delivered {t0 : ℤ} {turns : List Turn} {s : Thread}
    (h : exec (step env) (initial t0) turns = some s) (hselect : s.place = .select) :
    s.loop.clockReads = (delivered turns).countP (Changes env ·) := by
  have hstart : Passed env [] [] (initial t0) := ⟨rfl, fun _ => rfl, nofun⟩
  obtain ⟨passed, left, heq, hi⟩ := passed_run turns hstart h
  obtain rfl := hi.select hselect
  have hpassed : passed = delivered turns := by simpa using heq.symm
  rw [hi.clockReads, hpassed]

/-! ### The callbacks of a run -/

/-- When things happen around the readings of the clock: `stamp i` is the time of the change for
which the clock is read the `i`-th time, `called i` the time at which the callback after this
reading is invoked, if it is, and `loaded i` the time at which `YAML::LoadFile` then reads the
file. -/
structure Timing (env : Env) where
  /-- the reading at the start of the watcher -/
  start : ℤ
  stamp : ℕ → ℤ
  called : ℕ → ℤ
  loaded : ℕ → ℤ
  start_lt : ∀ i, start < stamp i
  /-- the changes are queued in the order in which they happen -/
  stamp_mono : Monotone stamp
  stamp_le : ∀ i, stamp i ≤ env.now i
  now_le : ∀ i, env.now i ≤ called i
  called_le : ∀ i, called i ≤ loaded i
  loaded_le : ∀ i, loaded i ≤ env.now (i + 1)

namespace Timing

variable (T : Timing env)

theorem now_mono (T : Timing env) : Monotone env.now :=
  monotone_nat_of_le_succ fun i => ((T.now_le i).trans (T.called_le i)).trans (T.loaded_le i)

theorem called_mono : Monotone T.called :=
  monotone_nat_of_le_succ fun i => ((T.called_le i).trans (T.loaded_le i)).trans (T.now_le (i + 1))

theorem loaded_mono : Monotone T.loaded :=
  monotone_nat_of_le_succ fun i =>
    ((T.loaded_le i).trans (T.now_le (i + 1))).trans (T.called_le (i + 1))

/-- The reading of the last callback that comes to a point of its own (`point i`, for the `i`-th)
before `τ`, or of the start. -/
def lastBefore (point : ℕ → ℤ) (fired : List ℕ) (τ : ℤ) : ℤ :=
  Debounce.last T.start env.now (fired.filter fun i => ¬ τ ≤ point i)

/-- When the file was read last: by the last callback, or before the start. -/
def loadedAt (fired : List ℕ) : ℤ := Debounce.last T.start T.loaded fired

end Timing

/-- The callbacks are those of a debounce. -/
structure Inv (env : Env) (t0 : ℤ) (s : Thread) : Prop where
  debounced : Debounce.Debounced oneSecond t0 env.now s.loop.clockReads s.fired
  last : s.loop.last_execution_tp = Debounce.last t0 env.now s.fired

theorem inv_step {t0 : ℤ} {s t : Thread} {e : Turn} (hi : Inv env t0 s)
    (h : step env s e = some t) : Inv env t0 t := by
  cases e with
  | read es =>
    simp only [step] at h
    split at h
    · obtain rfl := Option.some.inj h
      exact ⟨hi.debounced, hi.last⟩
    · exact absurd h (by simp)
  | stop =>
    simp only [step] at h
    split at h
    · obtain rfl := Option.some.inj h
      exact ⟨hi.debounced, hi.last⟩
    · exact absurd h (by simp)
  | round =>
    simp only [step] at h
    split at h
    · split at h
      · rename_i u hbody
        obtain rfl := Option.some.inj h
        rcases forBody_again_cases hbody with ⟨hreads, hlast, hno⟩ | ⟨hreads, hgap, hlast, hyes⟩ |
          ⟨hreads, hgap, hlast, hno⟩
        · simp only [if_neg hno]
          exact ⟨hreads ▸ hi.debounced, hlast.trans hi.last⟩
        · rw [hi.last] at hgap
          simp only [if_pos hyes]
          refine ⟨?_, ?_⟩
          · rw [hreads]
            exact hi.debounced.fire hgap
          · rw [hlast, Debounce.last_append]
        · rw [hi.last] at hgap
          simp only [if_neg hno]
          refine ⟨?_, hlast.trans hi.last⟩
          rw [hreads]
          exact hi.debounced.drop hgap
      · rename_i u b hbody
        obtain rfl := Option.some.inj h
        obtain ⟨hreads, hlast⟩ := forBody_leave hbody
        exact ⟨hreads ▸ hi.debounced, hlast.trans hi.last⟩
      · exact absurd h (by simp)
    · exact absurd h (by simp)

theorem reachable_inv {t0 : ℤ} {s : Thread} (h : (system env t0).Reachable s) :
    Inv env t0 s := by
  refine h.invariant (I := Inv env t0) ?_ ?_
  · rintro s rfl
    exact ⟨.zero, rfl⟩
  · intro s e t hi h
    exact inv_step hi h

/-- Some callback comes to its point at or after the `n`-th change exactly when the clock, read for
this change, is more than a second past the reading of the last callback that came to it before. -/
theorem exists_point_iff (T : Timing env) {fired : List ℕ} {n : ℕ}
    (h : Debounce.Debounced oneSecond T.start env.now (n + 1) fired) {point : ℕ → ℤ}
    (hmono : Monotone point) (hle : ∀ i, env.now i ≤ point i) :
    (∃ i ∈ fired, T.stamp n ≤ point i) ↔
      oneSecond < env.now n - T.lastBefore point fired (T.stamp n) := by
  refine h.exists_iff T.now_mono (fun i => ?_) (fun i j hij hi => ?_) ?_
  · exact ((T.start_lt i).trans_le (T.stamp_le i)).le
  · exact hi.trans (hmono hij)
  · exact (T.stamp_le n).trans (hle n)

/-- The file was last read after the first `n + 1` changes exactly when some callback reads it after
the last of them. -/
theorem loaded_last_iff (T : Timing env) {fired : List ℕ} {k n : ℕ}
    (h : Debounce.Debounced oneSecond T.start env.now k fired) :
    (∀ m ≤ n, T.stamp m ≤ T.loadedAt fired) ↔ ∃ i ∈ fired, T.stamp n ≤ T.loaded i := by
  constructor
  · intro hall
    have hle := hall n le_rfl
    have hne : fired ≠ [] := by
      rintro rfl
      exact absurd (T.start_lt n) (not_lt.mpr hle)
    obtain ⟨i, hi, hlast⟩ := Debounce.last_mem T.start T.loaded hne
    exact ⟨i, hi, hlast ▸ hle⟩
  · rintro ⟨i, hi, hle⟩ m hm
    have hlast : T.loaded i ≤ T.loadedAt fired := h.le_last T.loaded_mono T.start i hi
    exact ((T.stamp_mono hm).trans hle).trans hlast

/-- **The last change.** When the `n + 1` changes that were read have been gone through, there has
been a callback at or after the last one exactly when the clock, read for it, was more than one
second past the reading of the last callback invoked before it, or of the start. The file was read
after all changes exactly when the clock was more than one second past the reading of the last
callback that read the file before the last change; so it is when there has been a callback after
it. -/
theorem last_change_iff (T : Timing env) {turns : List Turn} {s : Thread}
    (h : exec (step env) (initial T.start) turns = some s) (hselect : s.place = .select) {n : ℕ}
    (hn : (delivered turns).countP (Changes env ·) = n + 1) :
    ((∃ i ∈ s.fired, T.stamp n ≤ T.called i) ↔
      oneSecond < env.now n - T.lastBefore T.called s.fired (T.stamp n)) ∧
    ((∀ m ≤ n, T.stamp m ≤ T.loadedAt s.fired) ↔
      oneSecond < env.now n - T.lastBefore T.loaded s.fired (T.stamp n)) ∧
    ((∃ i ∈ s.fired, T.stamp n ≤ T.called i) → ∀ m ≤ n, T.stamp m ≤ T.loadedAt s.fired) := by
  obtain ⟨hdeb, -⟩ := reachable_inv (reachable_exec turns (.init rfl) h)
  rw [clockReads_delivered h hselect, hn] at hdeb
  have hloaded : ∀ i, env.now i ≤ T.loaded i := fun i => (T.now_le i).trans (T.called_le i)
  refine ⟨exists_point_iff T hdeb T.called_mono T.now_le, ?_, ?_⟩
  · rw [loaded_last_iff T hdeb, exists_point_iff T hdeb T.loaded_mono hloaded]
  · rintro ⟨i, hi, hle⟩
    exact (loaded_last_iff T hdeb).mpr ⟨i, hi, hle.trans (T.called_le i)⟩

/-! ### Two edits within a second -/

/-- A write to the file. -/
def modified : Event where
  wd := 1
  mask := 0x2
  cookie := 0
  len := 16
  name := [108, 111, 103, 45, 99, 111, 110, 102, 105, 103, 46, 121, 109, 108, 0, 0]
  length_name := rfl
  terminated _ := by decide

/-- The clock: the changes are read one microsecond after they happen. -/
def editor : Env := ⟨1, configFileName, fun i => 2000001000 + 500000000 * i⟩

/-- The file is written two seconds after the start and every half second from then on. -/
def edits : Timing editor where
  start := 0
  stamp i := 2000000000 + 500000000 * i
  called i := 2000002000 + 500000000 * i
  loaded i := 2000003000 + 500000000 * i
  start_lt i := by omega
  stamp_mono i j hij := by dsimp only; omega
  stamp_le i := by simp only [editor]; omega
  now_le i := by simp only [editor]; omega
  called_le i := by omega
  loaded_le i := by simp only [editor]; push_cast; omega

/-- Two writes, each read in a batch of its own. -/
def editRun : List Turn :=
  [.read [modified], .round, .round, .read [modified], .round, .round]

/-- **The second of two edits half a second apart is lost.** -/
theorem second_edit_lost : ¬ ∀ (env : Env) (T : Timing env) (turns : List Turn) (s : Thread),
    exec (step env) (initial T.start) turns = some s → s.place = .select →
      ∀ n, (delivered turns).countP (Changes env ·) = n + 1 →
        ∃ i ∈ s.fired, T.stamp n ≤ T.called i := by
  intro h
  have hrun : ∃ s, exec (step editor) (initial 0) editRun = some s ∧ s.place = .select ∧
      s.fired = [0] := ⟨_, rfl, rfl, rfl⟩
  obtain ⟨s, hs, hselect, hfired⟩ := hrun
  obtain ⟨i, hi, hle⟩ := h editor edits editRun s hs hselect 1 (by decide)
  rw [hfired, List.mem_singleton] at hi
  subst hi
  simp [edits] at hle

/-- In that run the reading for the second edit is half a second past that for the first. -/
theorem last_change_iff_editRun : ∃ s, exec (step editor) (initial 0) editRun = some s ∧
    ((∃ i ∈ s.fired, edits.stamp 1 ≤ edits.called i) ↔
      oneSecond < editor.now 1 - edits.lastBefore edits.called s.fired (edits.stamp 1)) ∧
    ((∀ m ≤ 1, edits.stamp m ≤ edits.loadedAt s.fired) ↔
      oneSecond < editor.now 1 - edits.lastBefore edits.loaded s.fired (edits.stamp 1)) ∧
    ((∃ i ∈ s.fired, edits.stamp 1 ≤ edits.called i) →
      ∀ m ≤ 1, edits.stamp m ≤ edits.loadedAt s.fired) :=
  ⟨_, rfl, last_change_iff edits (show exec (step editor) (initial 0) editRun = some _ from rfl) rfl
    (by decide)⟩

end SampLogCore.Watcher.LastChange
