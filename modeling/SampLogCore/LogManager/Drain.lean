import SampLogCore.LogManager.Process
import Mathlib.Tactic

/-!
# Shutdown drains the queue

`Inv` says what every reachable state satisfies: a thread in a critical section holds `_queueMtx`,
so the critical sections exclude each other; what was pushed is what was executed, the action in
the worker's hands and the queue, in this order; and the worker tests `_threadRunning` only with
the queue empty under the mutex, so that when it leaves, everything pushed before the flag was
cleared has been executed.
-/

namespace SampLogCore.LogManager.Drain

open SampLogCore.Lib.Transition SampLogCore.LogManager.Process

variable {Producer Msg : Type*} [DecidableEq Producer]

/-! ### The inversion of the steps -/

theorem queueStep_cases {s t : State Producer Msg} {p : Producer} (h : queueStep s p = some t) :
    (∃ m, s.producers p = .lock m ∧ s.queueMtx = none ∧
      t = { s with queueMtx := some (.producer p),
                   producers := Function.update s.producers p (.push m) }) ∨
    (∃ m, s.producers p = .push m ∧
      t = { s with queue := s.queue ++ [⟨p, m⟩], pushed := s.pushed ++ [⟨p, m⟩],
                   producers := Function.update s.producers p .unlock }) ∨
    (s.producers p = .unlock ∧
      t = { s with queueMtx := none, producers := Function.update s.producers p .notify }) ∨
    (s.producers p = .notify ∧
      t = { s.notifyOne with producers := Function.update s.producers p .idle }) := by
  unfold queueStep at h
  cases hp : s.producers p with
  | idle => simp [hp] at h
  | lock m =>
    cases hm : s.queueMtx with
    | none => exact Or.inl ⟨m, rfl, rfl, by simpa [hp, hm] using h.symm⟩
    | some o => simp [hp, hm] at h
  | push m => exact Or.inr (Or.inl ⟨m, rfl, by simpa [hp] using h.symm⟩)
  | unlock => exact Or.inr (Or.inr (Or.inl ⟨rfl, by simpa [hp] using h.symm⟩))
  | notify => exact Or.inr (Or.inr (Or.inr ⟨rfl, by simpa [hp] using h.symm⟩))

omit [DecidableEq Producer] in
theorem processStep_cases {s t : State Producer Msg} (h : processStep s = some t) :
    (s.worker = .start ∧ s.queueMtx = none ∧
      t = { s with queueMtx := some .worker, worker := .wait }) ∨
    (s.worker = .wait ∧ t = { s with queueMtx := none, worker := .waiting false, waited := true }) ∨
    (s.worker = .waiting true ∧ t = { s with worker := .woken }) ∨
    ((s.worker = .woken ∨ s.worker = .lock) ∧ s.queueMtx = none ∧
      t = { s with queueMtx := some .worker, worker := .testQueue }) ∨
    (s.worker = .testQueue ∧ s.queue = [] ∧ t = { s with worker := .testRunning }) ∨
    (∃ a q, s.worker = .testQueue ∧ s.queue = a :: q ∧
      t = { s with queue := q, worker := .unlock a }) ∨
    (∃ a, s.worker = .unlock a ∧ t = { s with queueMtx := none, worker := .run a }) ∨
    (∃ a, s.worker = .run a ∧ t = { s with executed := s.executed ++ [a], worker := .lock }) ∨
    (s.worker = .testRunning ∧ s.threadRunning = true ∧ t = { s with worker := .wait }) ∨
    (s.worker = .testRunning ∧ s.threadRunning = false ∧
      t = { s with queueMtx := none, worker := .exited }) := by
  unfold processStep at h
  cases hw : s.worker with
  | unborn | exited => simp [hw] at h
  | waiting b => cases b <;> simp_all
  | start | woken | lock => cases hm : s.queueMtx <;> simp_all
  | testQueue => cases hq : s.queue <;> simp_all
  | testRunning => cases hr : s.threadRunning <;> simp_all
  | wait | unlock a | run a => simp_all

omit [DecidableEq Producer] in
theorem destructorStep_cases {s t : State Producer Msg} (h : destructorStep s = some t) :
    (s.destructor = .lock ∧ s.queueMtx = none ∧
      t = { s with queueMtx := some .destructor, destructor := .clear }) ∨
    (s.destructor = .clear ∧
      t = { s with threadRunning := false, cleared := some s.pushed, destructor := .unlock }) ∨
    (s.destructor = .unlock ∧ t = { s with queueMtx := none, destructor := .notify }) ∨
    (s.destructor = .notify ∧ t = { s.notifyOne with destructor := .join }) ∨
    (s.destructor = .join ∧ s.worker = .exited ∧ t = { s with destructor := .joined }) := by
  unfold destructorStep at h
  cases hd : s.destructor with
  | idle | joined => simp [hd] at h
  | lock => cases hm : s.queueMtx <;> simp_all
  | join => cases hw : s.worker <;> simp_all
  | clear | unlock | notify => simp_all

section Inversion

variable {s t : State Producer Msg}

theorem construct_cases (h : step s .construct = some t) :
    s.worker = .unborn ∧ t = { s with worker := .start } := by
  simp only [step] at h
  split at h
  · next hw => exact ⟨hw, (Option.some.inj h).symm⟩
  · simp at h

theorem call_cases {p : Producer} {m : Msg} (h : step s (.call p m) = some t) :
    s.producers p = .idle ∧
      t = { s with producers := Function.update s.producers p (.lock m),
                   called := Function.update s.called p (s.called p ++ [m]) } := by
  simp only [step] at h
  split at h
  · simp at h
  · next hp _ => exact ⟨hp, (Option.some.inj h).symm⟩
  · simp at h

theorem spurious_cases (h : step s .spurious = some t) :
    ∃ b, s.worker = .waiting b ∧ t = { s with worker := .woken } := by
  simp only [step] at h
  split at h
  · next b hw => exact ⟨b, hw, (Option.some.inj h).symm⟩
  · simp at h

theorem destroy_cases (h : step s .destroy = some t) :
    s.destructor = .idle ∧ t = { s with destructor := .lock } := by
  simp only [step] at h
  split at h
  · simp at h
  · next hd _ => exact ⟨hd, (Option.some.inj h).symm⟩
  · simp at h

end Inversion

/-- **What a step can do**, the steps of the three kinds of thread apart. -/
theorem step_cases {s t : State Producer Msg} {e : Event Producer Msg} (h : step s e = some t) :
    (s.worker = .unborn ∧ t = { s with worker := .start }) ∨
    (∃ p m, s.producers p = .idle ∧
      t = { s with producers := Function.update s.producers p (.lock m),
                   called := Function.update s.called p (s.called p ++ [m]) }) ∨
    (∃ p, e = .queue p ∧ queueStep s p = some t) ∨
    processStep s = some t ∨
    (∃ b, s.worker = .waiting b ∧ t = { s with worker := .woken }) ∨
    (s.destructor = .idle ∧ t = { s with destructor := .lock }) ∨
    (e = .destructor ∧ destructorStep s = some t) := by
  cases e with
  | construct => exact Or.inl (construct_cases h)
  | call p m => exact Or.inr (Or.inl ⟨p, m, call_cases h⟩)
  | queue p => exact Or.inr (Or.inr (Or.inl ⟨p, rfl, h⟩))
  | process => exact Or.inr (Or.inr (Or.inr (Or.inl h)))
  | spurious => exact Or.inr (Or.inr (Or.inr (Or.inr (Or.inl (spurious_cases h)))))
  | destroy => exact Or.inr (Or.inr (Or.inr (Or.inr (Or.inr (Or.inl (destroy_cases h))))))
  | destructor => exact Or.inr (Or.inr (Or.inr (Or.inr (Or.inr (Or.inr ⟨rfl, h⟩)))))

/-! ### Who can go on -/

section Enabled

variable {s : State Producer Msg}

theorem exists_call (hw : s.worker ≠ .unborn) {p : Producer} (hp : s.producers p = .idle)
    (m : Msg) : ∃ t, step s (.call p m) = some t ∧ t.queueMtx = s.queueMtx := by
  simp only [step, hp]
  exact ⟨_, rfl, rfl⟩

theorem exists_destroy (hw : s.worker ≠ .unborn) (hd : s.destructor = .idle) :
    ∃ t, step s .destroy = some t := by
  simp only [step, hd]
  exact ⟨_, rfl⟩

/-- A thread in `Queue` goes on, unless it waits for the mutex. -/
theorem exists_queueStep {p : Producer} (hp : s.producers p ≠ .idle)
    (hlock : ∀ m, s.producers p = .lock m → s.queueMtx = none) :
    ∃ t, queueStep s p = some t := by
  cases hpc : s.producers p with
  | idle => exact absurd hpc hp
  | lock m => exact ⟨_, by simp [queueStep, hpc, hlock m hpc]; rfl⟩
  | push m => exact ⟨_, by simp [queueStep, hpc]; rfl⟩
  | unlock => exact ⟨_, by simp [queueStep, hpc]; rfl⟩
  | notify => exact ⟨_, by simp [queueStep, hpc]; rfl⟩

omit [DecidableEq Producer] in
/-- The destructor goes on, unless it waits for the mutex or for the worker to leave. -/
theorem exists_destructorStep (hi : s.destructor ≠ .idle) (hj : s.destructor ≠ .joined)
    (hlock : s.destructor = .lock → s.queueMtx = none)
    (hjoin : s.destructor = .join → s.worker = .exited) : ∃ t, destructorStep s = some t := by
  cases hpc : s.destructor with
  | idle => exact absurd hpc hi
  | lock => exact ⟨_, by simp [destructorStep, hpc, hlock hpc]; rfl⟩
  | clear => exact ⟨_, by simp [destructorStep, hpc]; rfl⟩
  | unlock => exact ⟨_, by simp [destructorStep, hpc]; rfl⟩
  | notify => exact ⟨_, by simp [destructorStep, hpc]; rfl⟩
  | join => exact ⟨_, by simp [destructorStep, hpc, hjoin hpc]; rfl⟩
  | joined => exact absurd hpc hj

omit [DecidableEq Producer] in
/-- The worker goes on, unless it sleeps or waits for the mutex. -/
theorem exists_processStep (hu : s.worker ≠ .unborn) (hsleep : s.worker ≠ .waiting false)
    (he : s.worker ≠ .exited)
    (hlock : s.worker = .start ∨ s.worker = .woken ∨ s.worker = .lock → s.queueMtx = none) :
    ∃ t, processStep s = some t := by
  cases hpc : s.worker with
  | unborn => exact absurd hpc hu
  | start => exact ⟨_, by simp [processStep, hpc, hlock (.inl hpc)]; rfl⟩
  | wait => exact ⟨_, by simp [processStep, hpc]; rfl⟩
  | waiting b =>
    cases b with
    | false => exact absurd hpc hsleep
    | true => exact ⟨_, by simp [processStep, hpc]; rfl⟩
  | woken => exact ⟨_, by simp [processStep, hpc, hlock (.inr (.inl hpc))]; rfl⟩
  | testQueue => cases hq : s.queue <;> exact ⟨_, by simp [processStep, hpc, hq]; rfl⟩
  | unlock a => exact ⟨_, by simp [processStep, hpc]; rfl⟩
  | run a => exact ⟨_, by simp [processStep, hpc]; rfl⟩
  | lock => exact ⟨_, by simp [processStep, hpc, hlock (.inr (.inr hpc))]; rfl⟩
  | testRunning => cases hr : s.threadRunning <;> exact ⟨_, by simp [processStep, hpc, hr]; rfl⟩
  | exited => exact absurd hpc he

end Enabled

/-! ### The mutex -/

/-- A thread is in a critical section exactly when it holds `_queueMtx`. -/
structure LockInv (s : State Producer Msg) : Prop where
  producer : ∀ p, (s.producers p).Holds ↔ s.queueMtx = some (.producer p)
  worker : s.worker.Holds ↔ s.queueMtx = some .worker
  destructor : s.destructor.Holds ↔ s.queueMtx = some .destructor

omit [DecidableEq Producer] in
/-- A notification leaves the worker inside or outside its critical section. -/
theorem notifyOne_holds (s : State Producer Msg) :
    s.notifyOne.worker.Holds ↔ s.worker.Holds := by
  rcases notifyOne_worker s with ⟨b, hb, hn⟩ | ⟨-, hn⟩
  · rw [hn, hb]; simp [ProcessPc.Holds]
  · rw [hn]

omit [DecidableEq Producer] in
/-- While the mutex is free nobody is in a critical section. -/
theorem LockInv.free {s : State Producer Msg} (hi : LockInv s) (h : s.queueMtx = none) :
    (∀ p, ¬ (s.producers p).Holds) ∧ ¬ s.worker.Holds ∧ ¬ s.destructor.Holds := by
  refine ⟨fun p => ?_, ?_, ?_⟩
  · rw [hi.producer p, h]; simp
  · rw [hi.worker, h]; simp
  · rw [hi.destructor, h]; simp

/-- The holder of the mutex goes on. -/
theorem holder_goes {s : State Producer Msg} (hi : LockInv s) :
    (s.queueMtx = some .worker → ∃ t, processStep s = some t) ∧
      (∀ p, s.queueMtx = some (.producer p) → ∃ t, queueStep s p = some t) ∧
      (s.queueMtx = some .destructor → ∃ t, destructorStep s = some t) := by
  refine ⟨fun ho => ?_, fun p ho => ?_, fun ho => ?_⟩
  · have hheld := hi.worker.mpr ho
    refine exists_processStep ?_ ?_ ?_ ?_
    · exact fun h => by simp [h, ProcessPc.Holds] at hheld
    · exact fun h => by simp [h, ProcessPc.Holds] at hheld
    · exact fun h => by simp [h, ProcessPc.Holds] at hheld
    · rintro (h | h | h) <;> simp [h, ProcessPc.Holds] at hheld
  · have hheld := (hi.producer p).mpr ho
    refine exists_queueStep ?_ fun m h => ?_
    · exact fun h => by simp [h, QueuePc.Holds] at hheld
    · simp [h, QueuePc.Holds] at hheld
  · have hheld := hi.destructor.mpr ho
    refine exists_destructorStep ?_ ?_ ?_ ?_
    · exact fun h => by simp [h, DestructorPc.Holds] at hheld
    · exact fun h => by simp [h, DestructorPc.Holds] at hheld
    · exact fun h => by simp [h, DestructorPc.Holds] at hheld
    · exact fun h => by simp [h, DestructorPc.Holds] at hheld

omit [DecidableEq Producer] in
/-- While the worker is in a critical section nobody else is. -/
theorem LockInv.workerOnly {s : State Producer Msg} (hi : LockInv s) (h : s.worker.Holds) :
    (∀ p, ¬ (s.producers p).Holds) ∧ ¬ s.destructor.Holds := by
  have hw := hi.worker.mp h
  refine ⟨fun p => ?_, ?_⟩
  · rw [hi.producer p, hw]; simp
  · rw [hi.destructor, hw]; simp

omit [DecidableEq Producer] in
/-- While the thread `p` is in a critical section nobody else is. -/
theorem LockInv.producerOnly {s : State Producer Msg} {p : Producer} (hi : LockInv s)
    (h : (s.producers p).Holds) :
    (∀ q, q ≠ p → ¬ (s.producers q).Holds) ∧ ¬ s.worker.Holds ∧ ¬ s.destructor.Holds := by
  have hp := (hi.producer p).mp h
  refine ⟨fun q hqp => ?_, ?_, ?_⟩
  · rw [hi.producer q, hp]
    simp only [Option.some.injEq, Holder.producer.injEq]
    exact fun h => hqp h.symm
  · rw [hi.worker, hp]; simp
  · rw [hi.destructor, hp]; simp

theorem lockInv_queueStep {s t : State Producer Msg} {p : Producer} (hi : LockInv s)
    (h : queueStep s p = some t) : LockInv t := by
  rcases queueStep_cases h with ⟨m, -, hm, rfl⟩ | ⟨m, hpc, rfl⟩ | ⟨hpc, rfl⟩ | ⟨hpc, rfl⟩
  · obtain ⟨f1, f2, f3⟩ := hi.free hm
    refine ⟨fun q => ?_, by simp [f2], by simp [f3]⟩
    by_cases hqp : q = p
    · subst hqp; simp [QueuePc.Holds]
    · have hpq : ¬ p = q := fun h => hqp h.symm
      simp [Function.update_of_ne hqp, f1 q, hpq]
  · have hown := (hi.producer p).mp (by simp [hpc, QueuePc.Holds])
    refine ⟨fun q => ?_, hi.worker, hi.destructor⟩
    by_cases hqp : q = p
    · subst hqp; simp [QueuePc.Holds, hown]
    · simp [Function.update_of_ne hqp, hi.producer q]
  · obtain ⟨f1, f2, f3⟩ := hi.producerOnly (p := p) (by simp [hpc, QueuePc.Holds])
    refine ⟨fun q => ?_, by simp [f2], by simp [f3]⟩
    by_cases hqp : q = p
    · subst hqp; simp [QueuePc.Holds]
    · simp [Function.update_of_ne hqp, f1 q hqp]
  · refine ⟨fun q => ?_, by simp [notifyOne_holds, hi.worker], by simp [hi.destructor]⟩
    have hfree : s.queueMtx ≠ some (.producer p) := by
      rw [ne_eq, ← hi.producer p, hpc]; simp [QueuePc.Holds]
    by_cases hqp : q = p
    · subst hqp; simp [QueuePc.Holds, hfree]
    · simp [Function.update_of_ne hqp, hi.producer q]

omit [DecidableEq Producer] in
theorem lockInv_processStep {s t : State Producer Msg} (hi : LockInv s)
    (h : processStep s = some t) : LockInv t := by
  -- the worker takes the free mutex, gives back its own, or stays on its side of it
  have take : s.queueMtx = none → ∀ pc : ProcessPc (Action Producer Msg), pc.Holds →
      LockInv { s with queueMtx := some .worker, worker := pc } := by
    intro hm pc hpc
    obtain ⟨f1, -, f3⟩ := hi.free hm
    exact ⟨fun p => by simp [f1 p], by simp [hpc], by simp [f3]⟩
  have give : s.worker.Holds → ∀ pc : ProcessPc (Action Producer Msg), ¬ pc.Holds →
      ∀ b, LockInv { s with queueMtx := none, worker := pc, waited := b } := by
    intro hw pc hpc b
    obtain ⟨f1, f2⟩ := hi.workerOnly hw
    exact ⟨fun p => by simp [f1 p], by simp [hpc], by simp [f2]⟩
  have stay : ∀ pc : ProcessPc (Action Producer Msg), (pc.Holds ↔ s.worker.Holds) →
      ∀ q ex, LockInv { s with queue := q, executed := ex, worker := pc } := by
    intro pc hpc q ex
    exact ⟨hi.producer, hpc.trans hi.worker, hi.destructor⟩
  rcases processStep_cases h with ⟨-, hm, rfl⟩ | ⟨hpc, rfl⟩ | ⟨hpc, rfl⟩ | ⟨-, hm, rfl⟩ |
    ⟨hpc, -, rfl⟩ | ⟨a, q, hpc, -, rfl⟩ | ⟨a, hpc, rfl⟩ | ⟨a, hpc, rfl⟩ | ⟨hpc, -, rfl⟩ |
    ⟨hpc, -, rfl⟩
  · exact take hm _ (by simp [ProcessPc.Holds])
  · exact give (by simp [hpc, ProcessPc.Holds]) _ (by simp [ProcessPc.Holds]) _
  · exact stay _ (by simp [hpc, ProcessPc.Holds]) _ _
  · exact take hm _ (by simp [ProcessPc.Holds])
  · exact stay _ (by simp [hpc, ProcessPc.Holds]) _ _
  · exact stay _ (by simp [hpc, ProcessPc.Holds]) _ _
  · exact give (by simp [hpc, ProcessPc.Holds]) _ (by simp [ProcessPc.Holds]) _
  · exact stay _ (by simp [hpc, ProcessPc.Holds]) _ _
  · exact stay _ (by simp [hpc, ProcessPc.Holds]) _ _
  · exact give (by simp [hpc, ProcessPc.Holds]) _ (by simp [ProcessPc.Holds]) _

omit [DecidableEq Producer] in
theorem lockInv_destructorStep {s t : State Producer Msg} (hi : LockInv s)
    (h : destructorStep s = some t) : LockInv t := by
  have hpd := hi.destructor
  rcases destructorStep_cases h with ⟨hpc, hm, rfl⟩ | ⟨hpc, rfl⟩ | ⟨hpc, rfl⟩ | ⟨hpc, rfl⟩ |
    ⟨hpc, -, rfl⟩
  · obtain ⟨f1, f2, -⟩ := hi.free hm
    exact ⟨fun p => by simp [f1 p], by simp [f2], by simp [DestructorPc.Holds]⟩
  · rw [hpc] at hpd
    exact ⟨hi.producer, hi.worker, hpd⟩
  · have hown := hpd.mp (by simp [hpc, DestructorPc.Holds])
    refine ⟨fun p => ?_, ?_, by simp [DestructorPc.Holds]⟩
    · have := hi.producer p; rw [hown] at this; simpa using this
    · have := hi.worker; rw [hown] at this; simpa using this
  · rw [hpc] at hpd
    have hjoin : DestructorPc.join.Holds ↔ s.queueMtx = some .destructor := hpd
    exact ⟨by simpa using hi.producer, by simp [notifyOne_holds, hi.worker], by simpa using hjoin⟩
  · rw [hpc] at hpd
    exact ⟨hi.producer, hi.worker, hpd⟩

/-- **Every step keeps the critical sections exclusive.** -/
theorem lockInv_step {s t : State Producer Msg} {e : Event Producer Msg} (hi : LockInv s)
    (h : step s e = some t) : LockInv t := by
  have hpw := hi.worker
  have hpd := hi.destructor
  rcases step_cases h with ⟨hpc, rfl⟩ | ⟨p, m, hpc, rfl⟩ | ⟨p, -, h⟩ | h | ⟨b, hpc, rfl⟩ |
    ⟨hpc, rfl⟩ | ⟨-, h⟩
  · rw [hpc] at hpw
    exact ⟨hi.producer, hpw, hi.destructor⟩
  · have hpp := hi.producer p
    rw [hpc] at hpp
    refine ⟨fun q => ?_, hi.worker, hi.destructor⟩
    by_cases hqp : q = p
    · subst hqp
      simp only [Function.update_self]; exact hpp
    · simp only [Function.update_of_ne hqp]; exact hi.producer q
  · exact lockInv_queueStep hi h
  · exact lockInv_processStep hi h
  · rw [hpc] at hpw
    exact ⟨hi.producer, hpw, hi.destructor⟩
  · rw [hpc] at hpd
    exact ⟨hi.producer, hi.worker, hpd⟩
  · exact lockInv_destructorStep hi h

/-! ### The actions -/

theorem messagesOf_append (p : Producer) (l l' : List (Action Producer Msg)) :
    messagesOf p (l ++ l') = messagesOf p l ++ messagesOf p l' := by
  simp [messagesOf]

/-- What the executed actions have to do with the pushed ones. -/
structure DataInv (s : State Producer Msg) : Prop where
  /-- pushes are executed in push order -/
  order : s.pushed = s.executed ++ (s.worker.inHand ++ s.queue)
  /-- each thread pushes its messages in call order -/
  calls : ∀ p, s.called p = messagesOf p s.pushed ++ (s.producers p).inHand
  /-- the flag is tested with the queue empty -/
  empty : s.worker = .testRunning → s.queue = []
  clearedPrefix : ∀ l, s.cleared = some l → l <+: s.pushed
  flag : s.threadRunning = false → ∃ l, s.cleared = some l
  uncleared : s.destructor.Early → s.cleared = none
  /-- the worker leaves only with everything executed that was pushed before the clearing -/
  drained : s.worker = .exited → ∃ l, s.cleared = some l ∧ l <+: s.executed

omit [DecidableEq Producer] in
/-- A notification changes neither the worker's action nor whether it is at a given test. -/
theorem notifyOne_inHand (s : State Producer Msg) :
    s.notifyOne.worker.inHand = s.worker.inHand ∧
      (s.notifyOne.worker = .testRunning ↔ s.worker = .testRunning) ∧
      (s.notifyOne.worker = .exited ↔ s.worker = .exited) := by
  rcases notifyOne_worker s with ⟨b, hb, hn⟩ | ⟨-, hn⟩
  · rw [hn, hb]; simp [ProcessPc.inHand]
  · rw [hn]; simp

theorem dataInv_queueStep {s t : State Producer Msg} {p : Producer} (hl : LockInv s)
    (hi : DataInv s) (h : queueStep s p = some t) : DataInv t := by
  obtain ⟨ho, hc, he, hcp, hf, hu, hd⟩ := hi
  have calls_of : ∀ pc : QueuePc Msg, pc.inHand = (s.producers p).inHand → ∀ q,
      s.called q = messagesOf q s.pushed ++ (Function.update s.producers p pc q).inHand := by
    intro pc hpc q
    by_cases hqp : q = p
    · subst hqp; rw [Function.update_self, hpc]; exact hc q
    · rw [Function.update_of_ne hqp]; exact hc q
  rcases queueStep_cases h with ⟨m, hpc, -, rfl⟩ | ⟨m, hpc, rfl⟩ | ⟨hpc, rfl⟩ | ⟨hpc, rfl⟩
  · exact ⟨ho, calls_of _ (by rw [hpc]; rfl), he, hcp, hf, hu, hd⟩
  · -- the push: the mutex is held, so the worker is not at its test of the flag
    refine ⟨by simp [ho], fun q => ?_, fun hw => ?_,
      fun l h => (hcp l h).trans (List.prefix_append _ _), hf, hu, hd⟩
    · show s.called q = messagesOf q (s.pushed ++ [⟨p, m⟩]) ++
        (Function.update s.producers p .unlock q).inHand
      by_cases hqp : q = p
      · subst hqp
        rw [hc q, hpc, Function.update_self, messagesOf_append]
        simp [messagesOf, QueuePc.inHand]
      · have hpq : ¬ p = q := fun h => hqp h.symm
        rw [hc q, Function.update_of_ne hqp, messagesOf_append]
        simp [messagesOf, hpq]
    · have hw : s.worker = .testRunning := hw
      exact absurd (by simp [hw, ProcessPc.Holds])
        (hl.producerOnly (p := p) (by simp [hpc, QueuePc.Holds])).2.1
  · exact ⟨ho, calls_of _ (by rw [hpc]; rfl), he, hcp, hf, hu, hd⟩
  · obtain ⟨n1, n2, n3⟩ := notifyOne_inHand s
    refine ⟨by simpa [n1] using ho, fun q => ?_, fun h => ?_, by simpa using hcp,
      by simpa using hf, by simpa using hu, fun h => by simpa using hd (n3.mp h)⟩
    · simpa using calls_of .idle (by rw [hpc]; rfl) q
    · simpa using he (n2.mp h)

omit [DecidableEq Producer] in
/-- What the worker's steps leave alone. -/
theorem processStep_frame {s t : State Producer Msg} (h : processStep s = some t) :
    t.called = s.called ∧ t.pushed = s.pushed ∧ t.producers = s.producers ∧
      t.cleared = s.cleared ∧ t.threadRunning = s.threadRunning ∧
      t.destructor = s.destructor := by
  rcases processStep_cases h with ⟨-, -, rfl⟩ | ⟨-, rfl⟩ | ⟨-, rfl⟩ | ⟨-, -, rfl⟩ | ⟨-, -, rfl⟩ |
    ⟨a, q, -, -, rfl⟩ | ⟨a, -, rfl⟩ | ⟨a, -, rfl⟩ | ⟨-, -, rfl⟩ | ⟨-, -, rfl⟩ <;> simp

theorem dataInv_processStep {s t : State Producer Msg} (hi : DataInv s)
    (h : processStep s = some t) : DataInv t := by
  obtain ⟨ho, hc, he, hcp, hf, hu, hd⟩ := hi
  obtain ⟨e1, e2, e3, e4, e5, e6⟩ := processStep_frame h
  -- the fields that only speak of what the worker leaves alone, and the three others
  have main : t.pushed = t.executed ++ (t.worker.inHand ++ t.queue) ∧
      (t.worker = .testRunning → t.queue = []) ∧
      (t.worker = .exited → ∃ l, t.cleared = some l ∧ l <+: t.executed) := by
    rcases processStep_cases h with ⟨hpc, -, rfl⟩ | ⟨hpc, rfl⟩ | ⟨hpc, rfl⟩ | ⟨hpc, -, rfl⟩ |
      ⟨hpc, hq, rfl⟩ | ⟨a, q, hpc, hq, rfl⟩ | ⟨a, hpc, rfl⟩ | ⟨a, hpc, rfl⟩ | ⟨hpc, -, rfl⟩ |
      ⟨hpc, hr, rfl⟩
    · exact ⟨by simpa [hpc, ProcessPc.inHand] using ho, by simp, by simp⟩
    · exact ⟨by simpa [hpc, ProcessPc.inHand] using ho, by simp, by simp⟩
    · exact ⟨by simpa [hpc, ProcessPc.inHand] using ho, by simp, by simp⟩
    · exact ⟨by rcases hpc with hpc | hpc <;> simpa [hpc, ProcessPc.inHand] using ho, by simp,
        by simp⟩
    · exact ⟨by simpa [hpc, ProcessPc.inHand] using ho, fun _ => hq, by simp⟩
    · exact ⟨by simpa [hpc, hq, ProcessPc.inHand] using ho, by simp, by simp⟩
    · exact ⟨by simpa [hpc, ProcessPc.inHand] using ho, by simp, by simp⟩
    · exact ⟨by simpa [hpc, ProcessPc.inHand] using ho, by simp, by simp⟩
    · exact ⟨by simpa [hpc, ProcessPc.inHand] using ho, by simp, by simp⟩
    · -- the exit: the queue is empty and nothing is in hand, so all pushes are executed
      have hall : s.pushed = s.executed := by simpa [hpc, ProcessPc.inHand, he hpc] using ho
      refine ⟨by simpa [hpc, ProcessPc.inHand] using ho, by simp, fun _ => ?_⟩
      obtain ⟨l, hl⟩ := hf hr
      exact ⟨l, hl, hall ▸ hcp l hl⟩
  refine ⟨main.1, fun p => ?_, main.2.1, ?_, ?_, ?_, main.2.2⟩
  · rw [e1, e2, e3]; exact hc p
  · rw [e2, e4]; exact hcp
  · rw [e4, e5]; exact hf
  · rw [e4, e6]; exact hu

theorem dataInv_destructorStep {s t : State Producer Msg} (hi : DataInv s)
    (h : destructorStep s = some t) : DataInv t := by
  obtain ⟨ho, hc, he, hcp, hf, hu, hd⟩ := hi
  rcases destructorStep_cases h with ⟨hpc, -, rfl⟩ | ⟨hpc, rfl⟩ | ⟨hpc, rfl⟩ | ⟨hpc, rfl⟩ |
    ⟨hpc, -, rfl⟩
  · exact ⟨ho, hc, he, hcp, hf, fun _ => hu (by simp [hpc, DestructorPc.Early]), hd⟩
  · refine ⟨ho, hc, he, fun l h => ?_, fun _ => ⟨_, rfl⟩,
      fun h => by simp [DestructorPc.Early] at h, fun hw => ?_⟩
    · simp only [Option.some.injEq] at h
      exact h ▸ List.prefix_rfl
    · -- the worker does not leave before the flag is cleared
      obtain ⟨l, hl, -⟩ := hd hw
      simp [hu (by simp [hpc, DestructorPc.Early])] at hl
  · exact ⟨ho, hc, he, hcp, hf, fun h => by simp [DestructorPc.Early] at h, hd⟩
  · obtain ⟨n1, n2, n3⟩ := notifyOne_inHand s
    exact ⟨by simpa [n1] using ho, by simpa using hc, fun h => by simpa using he (n2.mp h),
      by simpa using hcp, by simpa using hf, fun h => by simp [DestructorPc.Early] at h,
      fun h => by simpa using hd (n3.mp h)⟩
  · exact ⟨ho, hc, he, hcp, hf, fun h => by simp [DestructorPc.Early] at h, hd⟩

/-- **Every step keeps the order of the actions.** -/
theorem dataInv_step {s t : State Producer Msg} {e : Event Producer Msg} (hl : LockInv s)
    (hi : DataInv s) (h : step s e = some t) : DataInv t := by
  rcases step_cases h with ⟨hpc, rfl⟩ | ⟨p, m, hpc, rfl⟩ | ⟨p, -, h⟩ | h | ⟨b, hpc, rfl⟩ |
    ⟨hpc, rfl⟩ | ⟨-, h⟩
  · obtain ⟨ho, hc, he, hcp, hf, hu, hd⟩ := hi
    exact ⟨by simpa [hpc, ProcessPc.inHand] using ho, hc, by simp, hcp, hf, hu, by simp⟩
  · obtain ⟨ho, hc, he, hcp, hf, hu, hd⟩ := hi
    refine ⟨ho, fun q => ?_, he, hcp, hf, hu, hd⟩
    by_cases hqp : q = p
    · subst hqp
      simp only [Function.update_self, hc q, hpc]
      simp [QueuePc.inHand]
    · simp only [Function.update_of_ne hqp]; exact hc q
  · exact dataInv_queueStep hl hi h
  · exact dataInv_processStep hi h
  · obtain ⟨ho, hc, he, hcp, hf, hu, hd⟩ := hi
    exact ⟨by simpa [hpc, ProcessPc.inHand] using ho, hc, by simp, hcp, hf, hu, by simp⟩
  · obtain ⟨ho, hc, he, hcp, hf, hu, hd⟩ := hi
    exact ⟨ho, hc, he, hcp, hf, fun _ => hu (by simp [hpc, DestructorPc.Early]), hd⟩
  · exact dataInv_destructorStep hi h

/-! ### Runs -/

/-- What every reachable state satisfies. -/
theorem reachable_inv {s : State Producer Msg} (h : (system Producer Msg).Reachable s) :
    LockInv s ∧ DataInv s := by
  refine h.invariant (I := fun s => LockInv s ∧ DataInv s) ?_ ?_
  · rintro s rfl
    refine ⟨⟨fun p => ?_, ?_, ?_⟩, ⟨rfl, fun p => rfl, ?_, ?_, ?_, ?_, ?_⟩⟩ <;>
      simp [initial, QueuePc.Holds, ProcessPc.Holds, DestructorPc.Holds]
  · rintro s e t ⟨hl, hi⟩ h
    exact ⟨lockInv_step hl h, dataInv_step hl hi h⟩

/-- The executed actions are the first of the pushed ones, in every reachable state. -/
theorem executed_prefix_pushed {s : State Producer Msg} (h : (system Producer Msg).Reachable s) :
    s.executed <+: s.pushed :=
  ⟨_, (reachable_inv h).2.order.symm⟩

/-- The messages of one thread are executed in the order of its calls. -/
theorem messagesOf_executed_prefix {s : State Producer Msg}
    (h : (system Producer Msg).Reachable s) (p : Producer) :
    messagesOf p s.executed <+: s.called p := by
  have hi := (reachable_inv h).2
  rw [hi.calls p, hi.order, messagesOf_append, List.append_assoc]
  exact List.prefix_append _ _

/-- **Shutdown drains the queue.** When the worker has left, `_threadRunning` had been cleared, and
with `l` the actions pushed until then: the executed sequence begins with `l` and is a prefix of the
pushed sequence, so each action of `l` was executed exactly once and in push order; and the
executed messages of each thread are the first of its calls, in call order. -/
theorem shutdown_drains {s : State Producer Msg} (h : (system Producer Msg).Reachable s)
    (hw : s.worker = .exited) :
    (∃ l, s.cleared = some l ∧ l <+: s.executed) ∧ s.executed <+: s.pushed ∧
      ∀ p, messagesOf p s.executed <+: s.called p :=
  ⟨(reachable_inv h).2.drained hw, executed_prefix_pushed h, messagesOf_executed_prefix h⟩

/-- A run in which a message is queued, then the destructor is called, and the worker drains. -/
def drainRun : List (Event ℕ ℕ) :=
  [.construct, .process, .process, .call 0 7, .queue 0, .queue 0, .queue 0, .destroy,
    .destructor, .destructor, .destructor, .destructor, .process, .process, .process, .process,
    .process, .queue 0, .process, .process, .process]

theorem shutdown_drains_drainRun : ∃ s : State ℕ ℕ, exec step initial drainRun = some s ∧
    s.worker = .exited ∧ s.executed = [⟨0, 7⟩] ∧ (∃ l, s.cleared = some l ∧ l <+: s.executed) ∧
      s.executed <+: s.pushed ∧ ∀ p, messagesOf p s.executed <+: s.called p :=
  ⟨_, rfl, rfl, rfl, shutdown_drains (reachable_exec drainRun (.init rfl) rfl) rfl⟩

end SampLogCore.LogManager.Drain
