import SampLogCore.LogManager.Drain

/-!
# Lost wake-ups

The worker's wait has no predicate and comes before the first look at the queue. A `notify_one`
issued before the worker has entered its first wait is lost: the worker then sleeps with a
non-empty queue, or with `_threadRunning` cleared, until a later message or a spurious wake-up
(`lost_wakeup`).

That is the only way to lose one. In the runs in which no notification is issued before the first
wait (`Timely`), a worker that sleeps with no notification pending has nothing to do
(`no_lost_wakeup`): afterwards the worker looks at the queue and at the flag under the same
acquisition of the mutex with which it goes to sleep again.
-/

namespace SampLogCore.LogManager.Wakeup

open SampLogCore.Lib.Transition SampLogCore.LogManager.Process SampLogCore.LogManager.Drain

variable {Producer Msg : Type*}

/-- The worker is blocked in `_queueNotifier.wait`. -/
def Blocked (s : State Producer Msg) : Prop := ∃ b, s.worker = .waiting b

/-- A notification has reached the waiting worker, or a thread that has changed the queue or the
flag is about to issue one. -/
def Pending (s : State Producer Msg) : Prop :=
  s.worker = .waiting true ∨ (∃ p, (s.producers p).OwesNotify) ∨ s.destructor.OwesNotify

/-- **No wake-up is lost**: a blocked worker with no notification pending has nothing to do. -/
def NoLostWakeup (s : State Producer Msg) : Prop :=
  Blocked s → ¬ Pending s → s.queue = [] ∧ s.threadRunning = true

/-- The step belongs to code that is already running: no new call, no spurious wake-up. -/
def Inside : Event Producer Msg → Prop
  | .construct | .queue _ | .process | .destructor => True
  | .call _ _ | .spurious | .destroy => False

/-- **Nobody is left waiting**: while there is an action to run or the shutdown to see, and the
worker has not left, a thread can go on without a new call or a spurious wake-up. -/
def GoesOn [DecidableEq Producer] (s : State Producer Msg) : Prop :=
  (s.queue ≠ [] ∨ s.threadRunning = false) → s.worker ≠ .exited →
    ∃ e t, Inside e ∧ step s e = some t

/-- The step is a `notify_one`, of `Queue` or of the destructor. -/
def IsNotify (s : State Producer Msg) (e : Event Producer Msg) : Prop :=
  (∃ p, e = .queue p ∧ s.producers p = .notify) ∨ (e = .destructor ∧ s.destructor = .notify)

/-- No notification before the worker's first wait. -/
def Timely (s : State Producer Msg) (e : Event Producer Msg) : Prop :=
  IsNotify s e → s.waited = true

/-! ### The defect -/

/-- A message is queued, and its notification issued, before the new worker gets the mutex. -/
def earlyRun : List (Event ℕ ℕ) :=
  [.construct, .call 0 7, .queue 0, .queue 0, .queue 0, .queue 0, .process, .process]

/-- A shutdown right after the constructor: the destructor joins a sleeping worker. -/
def earlyShutdown : List (Event ℕ ℕ) :=
  [.construct, .destroy, .destructor, .destructor, .destructor, .destructor, .process, .process]

/-- **A wake-up can be lost**: after `earlyRun` the worker sleeps on a non-empty queue, after
`earlyShutdown` on a cleared flag with the destructor in its join. -/
theorem lost_wakeup :
    (∃ s : State ℕ ℕ, (system ℕ ℕ).Reachable s ∧ ¬ NoLostWakeup s ∧ s.queue = [⟨0, 7⟩]) ∧
      ∃ s : State ℕ ℕ, (system ℕ ℕ).Reachable s ∧ ¬ NoLostWakeup s ∧ s.destructor = .join := by
  constructor
  · refine ⟨_, reachable_exec earlyRun (.init rfl) rfl, fun h => ?_, rfl⟩
    have hp := h ⟨false, rfl⟩ ?_
    · cases hp.1
    · rintro (h | ⟨p, h⟩ | h)
      · cases h
      · by_cases hp : p = 0
        · subst hp; exact h
        · simp [initial, Function.update_of_ne hp, QueuePc.OwesNotify] at h
      · exact h
  · refine ⟨_, reachable_exec earlyShutdown (.init rfl) rfl, fun h => ?_, rfl⟩
    have hp := h ⟨false, rfl⟩ ?_
    · cases hp.2
    · rintro (h | ⟨p, h⟩ | h)
      · cases h
      · exact h
      · exact h

/-! ### The invariant of the timely runs -/

/-- Who changed the queue or the flag still owes the notification. -/
def Covered (s : State Producer Msg) : Prop :=
  (s.queue ≠ [] → ∃ p, (s.producers p).OwesNotify) ∧
    (s.threadRunning = false → s.destructor.OwesNotify)

/-- The worker sleeps without a notification, or has not slept yet. -/
def Idle {Action : Type*} : ProcessPc Action → Prop
  | .unborn | .start | .wait | .waiting false => True
  | _ => False

/-- Before the first wait and during every wait the missing notifications are still owed; before
every later wait there is nothing to do. -/
structure WakeInv (s : State Producer Msg) : Prop where
  covered : Idle s.worker → Covered s
  started : s.waited = true → s.worker ≠ .unborn ∧ s.worker ≠ .start
  nothing : s.waited = true → s.worker = .wait → s.queue = [] ∧ s.threadRunning = true
  testing : s.worker = .testRunning → s.queue = []

theorem covered_of_nothing {s : State Producer Msg} (hq : s.queue = [])
    (hr : s.threadRunning = true) : Covered s :=
  ⟨fun h => absurd hq h, fun h => by simp [hr] at h⟩

/-- A timely notification: the worker sleeps and is marked, or has nothing to do, or is at work. -/
theorem WakeInv.notify {s : State Producer Msg} (hi : WakeInv s) (hw : s.waited = true) :
    (Idle s.notifyOne.worker → s.queue = [] ∧ s.threadRunning = true) ∧
      (s.notifyOne.worker ≠ .unborn ∧ s.notifyOne.worker ≠ .start) ∧
      (s.notifyOne.worker = .wait → s.queue = [] ∧ s.threadRunning = true) ∧
      (s.notifyOne.worker = .testRunning → s.queue = []) := by
  rcases notifyOne_worker s with ⟨b, -, hn⟩ | ⟨hne, hn⟩
  · rw [hn]; simp [Idle]
  · rw [hn]
    obtain ⟨h1, h2⟩ := hi.started hw
    refine ⟨fun hidle => ?_, ⟨h1, h2⟩, hi.nothing hw, hi.testing⟩
    cases hpc : s.worker with
    | unborn => exact absurd hpc h1
    | start => exact absurd hpc h2
    | wait => exact hi.nothing hw hpc
    | waiting b => exact absurd hpc (hne b)
    | _ => rw [hpc] at hidle; exact hidle.elim

/-- After a timely notification there is none to owe. -/
theorem WakeInv.of_notify {s t : State Producer Msg} (hi : WakeInv s) (hw : s.waited = true)
    (hworker : t.worker = s.notifyOne.worker) (hq : t.queue = s.queue)
    (hr : t.threadRunning = s.threadRunning) : WakeInv t := by
  obtain ⟨n1, n2, n3, n4⟩ := hi.notify hw
  rw [← hworker, ← hq, ← hr] at n1 n3
  rw [← hworker] at n2 n4
  rw [← hq] at n4
  exact ⟨fun hidle => covered_of_nothing (n1 hidle).1 (n1 hidle).2, fun _ => n2, fun _ => n3, n4⟩

variable [DecidableEq Producer]

/-- The thread `p` moved and owes its notification if it owed it before. -/
theorem covered_update {s : State Producer Msg} {p : Producer} {pc : QueuePc Msg}
    (hpc : (s.producers p).OwesNotify → pc.OwesNotify)
    (h : ∃ q, (s.producers q).OwesNotify) :
    ∃ q, (Function.update s.producers p pc q).OwesNotify := by
  obtain ⟨q, hq⟩ := h
  refine ⟨q, ?_⟩
  by_cases hqp : q = p
  · subst hqp; rw [Function.update_self]; exact hpc hq
  · rw [Function.update_of_ne hqp]; exact hq

theorem wakeInv_queueStep {s t : State Producer Msg} {p : Producer} (hl : LockInv s)
    (hi : WakeInv s) (hc : s.producers p = .notify → s.waited = true)
    (h : queueStep s p = some t) : WakeInv t := by
  rcases queueStep_cases h with ⟨m, hpc, -, rfl⟩ | ⟨m, hpc, rfl⟩ | ⟨hpc, rfl⟩ | ⟨hpc, rfl⟩
  · refine ⟨fun hidle => ?_, hi.started, hi.nothing, hi.testing⟩
    obtain ⟨h1, h2⟩ := hi.covered hidle
    exact ⟨fun hq => covered_update (by simp [hpc, QueuePc.OwesNotify]) (h1 hq), h2⟩
  · -- the pusher owes the notification, and the worker is outside its critical section
    have hw : ¬ s.worker.Holds :=
      (hl.producerOnly (p := p) (by simp [hpc, QueuePc.Holds])).2.1
    refine ⟨fun hidle => ?_, hi.started, fun _ (hpw : s.worker = .wait) => ?_,
      fun (hpw : s.worker = .testRunning) => ?_⟩
    · exact ⟨fun _ => ⟨p, by simp [QueuePc.OwesNotify]⟩, (hi.covered hidle).2⟩
    · simp [hpw, ProcessPc.Holds] at hw
    · simp [hpw, ProcessPc.Holds] at hw
  · refine ⟨fun hidle => ?_, hi.started, hi.nothing, hi.testing⟩
    obtain ⟨h1, h2⟩ := hi.covered hidle
    exact ⟨fun hq => covered_update (by simp [QueuePc.OwesNotify]) (h1 hq), h2⟩
  · exact hi.of_notify (hc hpc) rfl (by simp) (by simp)

omit [DecidableEq Producer] in
theorem wakeInv_processStep {s t : State Producer Msg} (hi : WakeInv s)
    (h : processStep s = some t) : WakeInv t := by
  rcases processStep_cases h with ⟨hpc, -, rfl⟩ | ⟨hpc, rfl⟩ | ⟨-, rfl⟩ | ⟨-, -, rfl⟩ |
    ⟨-, hq, rfl⟩ | ⟨a, q, -, -, rfl⟩ | ⟨a, -, rfl⟩ | ⟨a, -, rfl⟩ | ⟨hpc, hr, rfl⟩ | ⟨-, -, rfl⟩
  · exact ⟨fun _ => hi.covered (by simp [hpc, Idle]), by simp,
      fun hw => absurd hpc (hi.started hw).2, by simp⟩
  · exact ⟨fun _ => hi.covered (by simp [hpc, Idle]), by simp, by simp, by simp⟩
  · exact ⟨by simp [Idle], by simp, by simp, by simp⟩
  · exact ⟨by simp [Idle], by simp, by simp, by simp⟩
  · exact ⟨by simp [Idle], by simp, by simp, fun _ => hq⟩
  · exact ⟨by simp [Idle], by simp, by simp, by simp⟩
  · exact ⟨by simp [Idle], by simp, by simp, by simp⟩
  · exact ⟨by simp [Idle], by simp, by simp, by simp⟩
  · -- back to the wait: queue and flag were seen under the mutex the worker still holds
    have hq := hi.testing hpc
    exact ⟨fun _ => covered_of_nothing hq hr, by simp, fun _ _ => ⟨hq, hr⟩, by simp⟩
  · exact ⟨by simp [Idle], by simp, by simp, by simp⟩

omit [DecidableEq Producer] in
theorem wakeInv_destructorStep {s t : State Producer Msg} (hl : LockInv s) (hi : WakeInv s)
    (hc : s.destructor = .notify → s.waited = true) (h : destructorStep s = some t) :
    WakeInv t := by
  have covered_of : ∀ d : DestructorPc, (s.destructor.OwesNotify → d.OwesNotify) →
      ∀ o, Idle s.worker → Covered { s with destructor := d, queueMtx := o } := by
    intro d hd o hidle
    obtain ⟨h1, h2⟩ := hi.covered hidle
    exact ⟨h1, fun hr => hd (h2 hr)⟩
  rcases destructorStep_cases h with ⟨hpc, -, rfl⟩ | ⟨hpc, rfl⟩ | ⟨hpc, rfl⟩ | ⟨hpc, rfl⟩ |
    ⟨hpc, hw, rfl⟩
  · exact ⟨covered_of _ (by simp [hpc, DestructorPc.OwesNotify]) _, hi.started, hi.nothing,
      hi.testing⟩
  · have hw : ¬ s.worker.Holds := by
      rw [hl.worker, hl.destructor.mp (by simp [hpc, DestructorPc.Holds])]; simp
    refine ⟨fun hidle => ⟨(hi.covered hidle).1, fun _ => by simp [DestructorPc.OwesNotify]⟩,
      hi.started, fun _ (hpw : s.worker = .wait) => ?_, hi.testing⟩
    simp [hpw, ProcessPc.Holds] at hw
  · exact ⟨covered_of _ (by simp [DestructorPc.OwesNotify]) _, hi.started, hi.nothing, hi.testing⟩
  · exact hi.of_notify (hc hpc) rfl (by simp) (by simp)
  · exact ⟨fun (hidle : Idle s.worker) => by simp [hw, Idle] at hidle,
      hi.started, hi.nothing, hi.testing⟩

/-- **Every timely step keeps the missing notifications owed.** -/
theorem wakeInv_step {s t : State Producer Msg} {e : Event Producer Msg} (hl : LockInv s)
    (hi : WakeInv s) (hc : Timely s e) (h : step s e = some t) : WakeInv t := by
  rcases step_cases h with ⟨hpc, rfl⟩ | ⟨p, m, hpc, rfl⟩ | ⟨p, rfl, h⟩ | h | ⟨b, -, rfl⟩ |
    ⟨hpc, rfl⟩ | ⟨rfl, h⟩
  · exact ⟨fun _ => hi.covered (by simp [hpc, Idle]),
      fun hw => absurd hpc (hi.started hw).1, by simp, by simp⟩
  · refine ⟨fun hidle => ?_, hi.started, hi.nothing, hi.testing⟩
    obtain ⟨h1, h2⟩ := hi.covered hidle
    exact ⟨fun hq => covered_update (by simp [hpc, QueuePc.OwesNotify]) (h1 hq), h2⟩
  · exact wakeInv_queueStep hl hi (fun hpc => hc (Or.inl ⟨p, rfl, hpc⟩)) h
  · exact wakeInv_processStep hi h
  · exact ⟨by simp [Idle], by simp, by simp, by simp⟩
  · refine ⟨fun hidle => ⟨(hi.covered hidle).1, fun hr => ?_⟩, hi.started, hi.nothing, hi.testing⟩
    have := (hi.covered hidle).2 hr
    simp [hpc, DestructorPc.OwesNotify] at this
  · exact wakeInv_destructorStep hl hi (fun hpc => hc (Or.inr ⟨rfl, hpc⟩)) h

omit [DecidableEq Producer] in
theorem wakeInv_initial : WakeInv (initial : State Producer Msg) :=
  ⟨fun _ => covered_of_nothing rfl rfl, by simp [initial], by simp [initial], by simp [initial]⟩

/-! ### What the invariant gives -/

omit [DecidableEq Producer] in
theorem noLostWakeup_of_wakeInv {s : State Producer Msg} (hi : WakeInv s) : NoLostWakeup s := by
  rintro ⟨b, hb⟩ hp
  have hidle : Idle s.worker := by
    cases b with
    | false => simp [hb, Idle]
    | true => exact absurd (Or.inl hb) hp
  obtain ⟨h1, h2⟩ := hi.covered hidle
  refine ⟨?_, ?_⟩
  · by_contra hq
    exact hp (Or.inr (Or.inl (h1 hq)))
  · by_contra hr
    exact hp (Or.inr (Or.inr (h2 (by simpa using hr))))

/-- The holder of the mutex can go on. -/
theorem goesOn_of_held {s : State Producer Msg} {o : Holder Producer} (hl : LockInv s)
    (ho : s.queueMtx = some o) : ∃ e t, Inside e ∧ step s e = some t := by
  obtain ⟨hw, hp, hd⟩ := holder_goes hl
  cases o with
  | worker =>
    obtain ⟨t, ht⟩ := hw ho
    exact ⟨.process, t, trivial, ht⟩
  | destructor =>
    obtain ⟨t, ht⟩ := hd ho
    exact ⟨.destructor, t, trivial, ht⟩
  | producer p =>
    obtain ⟨t, ht⟩ := hp p ho
    exact ⟨.queue p, t, trivial, ht⟩

/-- Who owes a notification can go on. -/
theorem goesOn_of_covered {s : State Producer Msg} (hc : Covered s)
    (hw : s.queue ≠ [] ∨ s.threadRunning = false) : ∃ e t, Inside e ∧ step s e = some t := by
  rcases hw with hq | hr
  · obtain ⟨p, hp⟩ := hc.1 hq
    obtain ⟨t, ht⟩ : ∃ t, queueStep s p = some t := by
      refine exists_queueStep ?_ fun m h => ?_
      · exact fun h => by simp [h, QueuePc.OwesNotify] at hp
      · simp [h, QueuePc.OwesNotify] at hp
    exact ⟨.queue p, t, trivial, ht⟩
  · have hd := hc.2 hr
    obtain ⟨t, ht⟩ : ∃ t, destructorStep s = some t := by
      refine exists_destructorStep ?_ ?_ ?_ ?_
      · exact fun h => by simp [h, DestructorPc.OwesNotify] at hd
      · exact fun h => by simp [h, DestructorPc.OwesNotify] at hd
      · exact fun h => by simp [h, DestructorPc.OwesNotify] at hd
      · exact fun h => by simp [h, DestructorPc.OwesNotify] at hd
    exact ⟨.destructor, t, trivial, ht⟩

theorem goesOn_of_wakeInv {s : State Producer Msg} (hl : LockInv s) (hi : WakeInv s) :
    GoesOn s := by
  intro hwork hne
  cases ho : s.queueMtx with
  | some o => exact goesOn_of_held hl ho
  | none =>
    have hfree := (hl.free ho).2.1
    cases hpc : s.worker with
    | unborn => exact ⟨.construct, by simp [step, Inside, hpc]⟩
    | start | woken | lock | run a =>
      exact ⟨.process, by simp [step, processStep, Inside, hpc, ho]⟩
    | waiting b =>
      cases b with
      | true => exact ⟨.process, by simp [step, processStep, Inside, hpc]⟩
      | false => exact goesOn_of_covered (hi.covered (by simp [hpc, Idle])) hwork
    | exited => exact absurd hpc hne
    | _ => simp [hpc, ProcessPc.Holds] at hfree

/-- **No wake-up is lost in the timely runs**: in every state reached by a run whose notifications
all come after the worker has entered its first wait, a worker that is blocked with no notification
pending has an empty queue and the flag set; hence, as long as there is something to do, somebody
can go on. -/
theorem no_lost_wakeup {s : State Producer Msg}
    (h : ((system Producer Msg).restrict Timely).Reachable s) : NoLostWakeup s ∧ GoesOn s := by
  have hl := (reachable_inv h.of_restrict).1
  have hi : WakeInv s := h.invariant_restrict (fun s hs => (reachable_inv hs).1)
    (fun s hs => hs ▸ wakeInv_initial) (fun s e t hl hi hc h => wakeInv_step hl hi hc h)
  exact ⟨noLostWakeup_of_wakeInv hi, goesOn_of_wakeInv hl hi⟩

/-- The worker gets to its first wait before anybody calls. -/
theorem reachable_waiting : ((system Producer Msg).restrict Timely).Reachable
    { (initial : State Producer Msg) with worker := .waiting false, waited := true } := by
  have quiet : ∀ {s : State Producer Msg} {e : Event Producer Msg},
      e = .construct ∨ e = .process → Timely s e := by
    rintro s e (rfl | rfl) <;> simp [Timely, IsNotify]
  exact .next (e := .process) (.next (e := .process) (.next (e := .construct) (.init rfl)
    ⟨quiet (Or.inl rfl), rfl⟩) ⟨quiet (Or.inr rfl), rfl⟩) ⟨quiet (Or.inr rfl), rfl⟩

/-- A message pushed to the sleeping worker, its notification about to be issued. -/
theorem no_lost_wakeup_pushed : ∃ s : State ℕ ℕ, s.worker = .waiting false ∧ s.queue = [⟨0, 7⟩] ∧
    NoLostWakeup s ∧ GoesOn s :=
  ⟨_, rfl, rfl, no_lost_wakeup (.next (e := .queue 0) (.next (e := .queue 0)
    (.next (e := .call 0 7) reachable_waiting ⟨fun _ => rfl, rfl⟩) ⟨fun _ => rfl, rfl⟩)
    ⟨fun _ => rfl, rfl⟩)⟩

end SampLogCore.LogManager.Wakeup
