import SampLogCore.LogManager.CrashHang
import Mathlib.Data.Prod.Lex

/-!
# When a crash gets past the join

The signals come after the worker has entered its first wait and no notification came before it, so
that no wake-up is lost. From the first signal on, the handler joins the worker exactly when nobody
whom it waits for is frozen (`CanShutDown`, **`shutDown_iff`**).

`rank` says who steps next: first the handler counts, then the holders of `_configLock` and
`_rotationEntriesLock`, then the holder of `_queueMtx`, then the worker.
-/

namespace SampLogCore.LogManager.CrashHandler

open SampLogCore.Lib.Transition SampLogCore.Lib.Progress SampLogCore.LogManager.Process
  SampLogCore.LogManager.Drain SampLogCore.LogManager.Wakeup SampLogCore.LogManager.Completion

variable {Producer Msg : Type*} [DecidableEq Producer]

/-- The worker has entered its first wait, and no notification came before. -/
structure Settled (s : Process.State (Option Producer) Msg) : Prop where
  timely : ((Process.system (Option Producer) Msg).restrict Timely).Reachable s
  waited : s.waited = true

/-- **The server with signals that come after the worker's first wait.** -/
def settled (messages : List Msg) : System (Crash Producer Msg) (Event Producer Msg) :=
  ofStep (fun c => Running c ∧ Settled c.manager) (step messages)

/-- The step is one of code that is running already: no signal, no new call, no spurious wake-up. -/
def Quiet : Event Producer Msg → Prop
  | .signal _ | .lockConfig _ _ | .lockRotation _ _ => False
  | .manager e => Inside e
  | .handler | .config | .rotation => True

variable {messages : List Msg} {c c' : Crash Producer Msg}
  {s s' : Process.State (Option Producer) Msg} {e : Process.Event (Option Producer) Msg}

theorem Settled.next (h : Settled s) (hst : Process.step s e = some s') : Settled s' :=
  ⟨h.timely.next ⟨fun _ => h.waited, hst⟩, waited_mono hst h.waited⟩

theorem Settled.wakeInv (h : Settled s) : WakeInv s :=
  h.timely.invariant_restrict (fun _ h => (reachable_inv h).1) (fun _ h => h ▸ wakeInv_initial)
    (fun _ _ _ hl hi hc h => wakeInv_step hl hi hc h)

theorem settled_of_reachable (h : (settled messages).Reachable c) :
    (system messages).Reachable c ∧ Settled c.manager := by
  refine h.invariant (I := fun c => (system messages).Reachable c ∧ Settled c.manager) ?_ ?_
  · rintro c ⟨hrunning, hsettled⟩
    exact ⟨.init hrunning, hsettled⟩
  · rintro c e c' ⟨hreach, hsettled⟩ hst
    refine ⟨hreach.next hst, ?_⟩
    rcases manager_step hst with heq | ⟨e', hmst⟩
    · rw [heq]
      exact hsettled
    · exact hsettled.next hmst

/-! ### How far the end is -/

section Ranks

variable {P : Type*} {s s' : Process.State P Msg}

/-- How far the holder of the mutex is from releasing it, if it is in `Queue`. -/
def holderRank (s : Process.State P Msg) : ℕ :=
  match s.queueMtx with
  | some (.producer p) => queueRank (s.producers p)
  | _ => 0

theorem holderRank_le (h : processStep s = some s') : holderRank s' ≤ holderRank s := by
  rcases processStep_cases h with ⟨-, -, rfl⟩ | ⟨-, rfl⟩ | ⟨-, rfl⟩ | ⟨-, -, rfl⟩ | ⟨-, -, rfl⟩ |
    ⟨a, q, -, -, rfl⟩ | ⟨a, -, rfl⟩ | ⟨a, -, rfl⟩ | ⟨-, -, rfl⟩ | ⟨-, -, rfl⟩ <;>
    simp [holderRank]

variable [DecidableEq P] {p : P}

/-- The holder of the mutex comes closer to releasing it. -/
theorem holderRank_lt (ho : s.queueMtx = some (.producer p)) (hh : (s.producers p).Holds)
    (h : queueStep s p = some s') : holderRank s' < holderRank s := by
  rcases queueStep_cases h with ⟨m, hp, hm, rfl⟩ | ⟨m, hp, rfl⟩ | ⟨hp, rfl⟩ | ⟨hp, rfl⟩
  · simp [hm] at ho
  · simp [holderRank, ho, hp, queueRank]
  · simp [holderRank, ho, hp, queueRank]
  · simp [hp, QueuePc.Holds] at hh

/-- A thread in `Queue` comes closer to its end, and the others stay where they are. -/
theorem queueRank_lt (h : queueStep s p = some s') :
    queueRank (s'.producers p) < queueRank (s.producers p) ∧
      ∀ q, q ≠ p → s'.producers q = s.producers q := by
  rcases queueStep_cases h with ⟨m, hp, -, rfl⟩ | ⟨m, hp, rfl⟩ | ⟨hp, rfl⟩ | ⟨hp, rfl⟩ <;>
    exact ⟨by simp [hp, queueRank], fun q hq => by simp [Function.update_of_ne hq]⟩

end Ranks

/-- How far the handler is from the end. -/
def handlerRank (c : Crash Producer Msg) : ℕ :=
  match c.handler with
  | .log rest => 7 + 6 * rest.length
  | .queueing rest => 7 + 6 * rest.length + queueRank (c.manager.producers none)
  | .destroying => 1 + destructorRank c.manager.destructor
  | .idle | .shutDown => 0

/-- How far the holder of a mutex is from releasing it that has `n` more things to do. Each of them
may be a `Queue` call, which counts in both sections. -/
def sectionRank (s : Process.State (Option Producer) Msg) : Option (Producer × ℕ) → ℕ
  | none => 0
  | some (p, n) => 1 + 10 * n + queueRank (s.producers (some p))

omit [DecidableEq Producer] in
theorem sectionRank_succ (s : Process.State (Option Producer) Msg) (p : Producer) (n : ℕ) :
    sectionRank s (some (p, n + 1)) = sectionRank s (some (p, n)) + 10 := by
  simp only [sectionRank]
  omega

/-- How far `_configLock` and `_rotationEntriesLock` are from being released. -/
def lockRank (c : Crash Producer Msg) : ℕ :=
  sectionRank c.manager (c.config.map fun x => (x.1, x.2.length)) +
    sectionRank c.manager (c.rotation.map fun x => (x.1, x.2.length))

/-- First the handler counts, then the holders of the two other mutexes, then the holder of
`_queueMtx`, then the worker. -/
def rank (c : Crash Producer Msg) : ℕ ×ₗ ℕ ×ₗ ℕ ×ₗ ℕ :=
  toLex (handlerRank c, toLex (lockRank c, toLex (holderRank c.manager, workerRank c.manager)))

omit [DecidableEq Producer] in
theorem rank_lt_of_lock (hh : handlerRank c' = handlerRank c) (hl : lockRank c' < lockRank c) :
    rank c' < rank c := by
  rw [rank, rank, hh, Prod.Lex.toLex_lt_toLex]
  refine .inr ⟨rfl, ?_⟩
  rw [Prod.Lex.toLex_lt_toLex]
  exact .inl hl

omit [DecidableEq Producer] in
theorem rank_lt_of_holder (hh : handlerRank c' = handlerRank c) (hl : lockRank c' ≤ lockRank c)
    (ho : holderRank c'.manager < holderRank c.manager) : rank c' < rank c := by
  rcases hl.lt_or_eq with hl | hl
  · exact rank_lt_of_lock hh hl
  · rw [rank, rank, hh, hl, Prod.Lex.toLex_lt_toLex]
    refine .inr ⟨rfl, ?_⟩
    rw [Prod.Lex.toLex_lt_toLex]
    refine .inr ⟨rfl, ?_⟩
    rw [Prod.Lex.toLex_lt_toLex]
    exact .inl ho

omit [DecidableEq Producer] in
theorem rank_lt_of_worker (hh : handlerRank c' = handlerRank c) (hl : lockRank c' ≤ lockRank c)
    (ho : holderRank c'.manager ≤ holderRank c.manager)
    (hw : workerRank c'.manager < workerRank c.manager) : rank c' < rank c := by
  rcases ho.lt_or_eq with ho | ho
  · exact rank_lt_of_holder hh hl ho
  rcases hl.lt_or_eq with hl | hl
  · exact rank_lt_of_lock hh hl
  · rw [rank, rank, hh, hl, ho, Prod.Lex.toLex_lt_toLex]
    refine .inr ⟨rfl, ?_⟩
    rw [Prod.Lex.toLex_lt_toLex]
    refine .inr ⟨rfl, ?_⟩
    rw [Prod.Lex.toLex_lt_toLex]
    exact .inr ⟨rfl, hw⟩

/-- The holders of the two mutexes come closer to releasing them when they go on in `Queue`. -/
theorem lockRank_queue {p : Producer} (h : queueStep c.manager (some p) = some s) :
    lockRank { c with manager := s } ≤ lockRank c ∧
      (holdsLock c p = true → lockRank { c with manager := s } < lockRank c) := by
  obtain ⟨hlt, hother⟩ := queueRank_lt h
  -- one section, with or without the thread
  have hsection : ∀ x : Option (Producer × ℕ), sectionRank s x ≤ sectionRank c.manager x ∧
      (x.any (·.1 = p) = true → sectionRank s x < sectionRank c.manager x) := by
    rintro (_ | ⟨q, n⟩)
    · simp [sectionRank]
    · by_cases hqp : q = p
      · subst hqp
        simp only [sectionRank]
        omega
      · have hsame := hother (some q) (by simpa using hqp)
        simp [sectionRank, hsame, hqp]
  have hconfig := hsection (c.config.map fun x => (x.1, x.2.length))
  have hrotation := hsection (c.rotation.map fun x => (x.1, x.2.length))
  refine ⟨Nat.add_le_add hconfig.1 hrotation.1, fun hholds => ?_⟩
  simp only [holdsLock, Bool.or_eq_true] at hholds
  rcases hholds with hp | hp
  · exact Nat.add_lt_add_of_lt_of_le (hconfig.2 (by rwa [Option.any_map])) hrotation.1
  · exact Nat.add_lt_add_of_le_of_lt hconfig.1 (hrotation.2 (by rwa [Option.any_map]))

/-- The handler's steps bring it closer to the end. -/
theorem handlerRank_lt {s : Process.State (Option Producer) Msg}
    {e : Process.Event (Option Producer) Msg} (hplace : Place c.manager c.handler)
    (he : handlerEvent c.handler = some e) (h : Process.step c.manager e = some s) :
    handlerRank { c with manager := s, handler := handlerNext s c.handler } < handlerRank c := by
  cases hpc : c.handler with
  | idle => simp [handlerEvent, hpc] at he
  | shutDown => simp [handlerEvent, hpc] at he
  | log rest =>
    rw [hpc] at hplace
    rcases rest with _ | ⟨m, rest⟩
    · obtain rfl := Option.some.inj (by simpa [handlerEvent, hpc] using he)
      obtain ⟨-, rfl⟩ := destroy_cases h
      simp [handlerRank, hpc, handlerNext, destructorRank]
    · obtain rfl := Option.some.inj (by simpa [handlerEvent, hpc] using he)
      obtain ⟨-, rfl⟩ := call_cases h
      simp [handlerRank, hpc, handlerNext, queueRank]
      omega
  | queueing rest =>
    obtain rfl := Option.some.inj (by simpa [handlerEvent, hpc] using he)
    rcases queueStep_cases h with ⟨m, hp, -, rfl⟩ | ⟨m, hp, rfl⟩ | ⟨hp, rfl⟩ | ⟨hp, rfl⟩ <;>
      simp [handlerRank, hpc, handlerNext, queueRank, hp]
  | destroying =>
    obtain rfl := Option.some.inj (by simpa [handlerEvent, hpc] using he)
    rcases destructorStep_cases h with ⟨hd, -, rfl⟩ | ⟨hd, rfl⟩ | ⟨hd, rfl⟩ | ⟨hd, rfl⟩ |
      ⟨hd, -, rfl⟩ <;> simp [handlerRank, hpc, handlerNext, destructorRank, hd]

/-- **The handler takes a step, or waits** for the mutex, which a thread of the `LogManager` holds,
or for the worker to leave. -/
theorem handler_goes_or_waits (hs : Sound messages c) (hidle : c.handler ≠ .idle)
    (hnot : c.handler ≠ .shutDown) :
    (∃ e s, handlerEvent c.handler = some e ∧ Process.step c.manager e = some s) ∨
      c.manager.queueMtx = some .worker ∨
      (∃ p, c.manager.queueMtx = some (.producer (some p))) ∧ c.manager.destructor.Early ∨
      c.manager.destructor = .join ∧ c.manager.worker ≠ .exited := by
  have hlock := (reachable_inv hs.reachable).1
  have hplace := hs.place
  -- a thread that waits for the mutex does not hold it
  have hheld : ∀ o, c.manager.queueMtx = some o → ¬ (c.manager.producers none).Holds →
      ¬ c.manager.destructor.Holds → c.manager.queueMtx = some .worker ∨
        ∃ p, c.manager.queueMtx = some (.producer (some p)) := by
    intro o ho hp hd
    rcases o with _ | _ | (_ | p)
    · exact .inl ho
    · exact absurd (hlock.destructor.mpr ho) hd
    · exact absurd ((hlock.producer none).mpr ho) hp
    · exact .inr ⟨p, ho⟩
  cases hpc : c.handler with
  | idle => exact absurd hpc hidle
  | shutDown => exact absurd hpc hnot
  | log rest =>
    rw [hpc] at hplace
    obtain ⟨hp, hd⟩ := hplace
    refine .inl ?_
    rcases rest with _ | ⟨m, rest⟩
    · obtain ⟨s, hst⟩ := exists_destroy hs.published hd
      exact ⟨.destroy, s, rfl, hst⟩
    · obtain ⟨s, hst, -⟩ := exists_call hs.published hp m
      exact ⟨.call none m, s, rfl, hst⟩
  | queueing rest =>
    rw [hpc] at hplace
    obtain ⟨hp, hd⟩ := hplace
    by_cases hwaits : ∃ m o, c.manager.producers none = .lock m ∧ c.manager.queueMtx = some o
    · obtain ⟨m, o, hq, ho⟩ := hwaits
      rcases hheld o ho (by simp [hq, QueuePc.Holds]) (by simp [hd, DestructorPc.Holds]) with h | h
      · exact .inr (.inl h)
      · exact .inr (.inr (.inl ⟨h, by simp [hd, DestructorPc.Early]⟩))
    · obtain ⟨s, hst⟩ := exists_queueStep hp fun m hq => Option.eq_none_iff_forall_ne_some.mpr
        fun o ho => hwaits ⟨m, o, hq, ho⟩
      exact .inl ⟨.queue none, s, rfl, hst⟩
  | destroying =>
    rw [hpc] at hplace
    obtain ⟨hp, hd, hj⟩ := hplace
    by_cases hjoin : c.manager.destructor = .join ∧ c.manager.worker ≠ .exited
    · exact .inr (.inr (.inr hjoin))
    by_cases hwaits : ∃ o, c.manager.destructor = .lock ∧ c.manager.queueMtx = some o
    · obtain ⟨o, hq, ho⟩ := hwaits
      rcases hheld o ho (by simp [hp, QueuePc.Holds]) (by simp [hq, DestructorPc.Holds]) with h | h
      · exact .inr (.inl h)
      · exact .inr (.inr (.inl ⟨h, by simp [hq, DestructorPc.Early]⟩))
    · obtain ⟨s, hst⟩ := exists_destructorStep hd hj
        (fun hq => Option.eq_none_iff_forall_ne_some.mpr fun o ho => hwaits ⟨o, hq, ho⟩)
        (fun hq => not_not.mp fun hw => hjoin ⟨hq, hw⟩)
      exact .inl ⟨.destructor, s, rfl, hst⟩

/-- The worker takes a step, or waits for the mutex, once the handler is at its join. -/
theorem worker_goes_or_waits (hs : Sound messages c) (hset : Settled c.manager)
    (hd : c.manager.destructor = .join)
    (hw : c.manager.worker ≠ .exited) (hm : c.manager.queueMtx = none ∨
      c.manager.queueMtx = some .worker) : ∃ s, processStep c.manager = some s := by
  have hwake := hset.wakeInv
  have hawake := not_idle_of_join hs.reachable hwake hd
  rcases hm with hm | hm
  · exact exists_processStep (hwake.started hset.waited).1 (fun h => hawake (by simp [h, Idle])) hw
      fun _ => hm
  · exact (holder_goes (reachable_inv hs.reachable).1).1 hm

/-- A thread's step leaves the handler where it is, and the frozen threads frozen. -/
theorem handlerRank_thread {s : Process.State (Option Producer) Msg}
    {e : Process.Event (Option Producer) Msg} {t : Thread Producer} (ht : thread e = some t)
    (h : Process.step c.manager e = some s) :
    handlerRank { c with manager := s } = handlerRank c := by
  obtain ⟨hp, hd, -⟩ := frame_thread ht h
  simp only [handlerRank, hp, hd]

/-- The handler's step neither wakes a worker that has left nor makes another thread hold the
mutex. -/
theorem handler_frame {s s' : Process.State (Option Producer) Msg} {pc : HandlerPc Msg}
    {e : Process.Event (Option Producer) Msg} (he : handlerEvent pc = some e)
    (h : Process.step s e = some s') : (s.worker = .exited → s'.worker = .exited) ∧
      ∀ p, s'.queueMtx = some (.producer (some p)) → s.queueMtx = some (.producer (some p)) := by
  rcases pc with _ | (_ | ⟨m, rest⟩) | rest | _ | _
  · simp [handlerEvent] at he
  · obtain rfl := Option.some.inj he
    obtain ⟨-, rfl⟩ := destroy_cases h
    exact ⟨id, fun _ => id⟩
  · obtain rfl := Option.some.inj he
    obtain ⟨-, rfl⟩ := call_cases h
    exact ⟨id, fun _ => id⟩
  · obtain rfl := Option.some.inj he
    rcases queueStep_cases h with ⟨m, -, -, rfl⟩ | ⟨m, -, rfl⟩ | ⟨-, rfl⟩ | ⟨-, rfl⟩
    · exact ⟨id, by simp⟩
    · exact ⟨id, fun _ => id⟩
    · exact ⟨id, by simp⟩
    · exact ⟨(notifyOne_inHand s).2.2.mpr, by simp⟩
  · obtain rfl := Option.some.inj he
    rcases destructorStep_cases h with ⟨-, -, rfl⟩ | ⟨-, rfl⟩ | ⟨-, rfl⟩ | ⟨-, rfl⟩ | ⟨-, -, rfl⟩
    · exact ⟨id, by simp⟩
    · exact ⟨id, fun _ => id⟩
    · exact ⟨id, by simp⟩
    · exact ⟨(notifyOne_inHand s).2.2.mpr, by simp⟩
    · exact ⟨id, fun _ => id⟩
  · simp [handlerEvent] at he

/-- The handler makes no work that was not there. -/
theorem work_of_handler (he : handlerEvent c.handler = some e)
    (hst : Process.step c.manager e = some s)
    (hw : Work { c with manager := s, handler := handlerNext s c.handler }) : Work c := by
  unfold Work at hw ⊢
  rcases hh : c.handler with _ | (_ | ⟨m, rest⟩) | rest | _ | _ <;> rw [hh] at he hw
  · simp [handlerEvent] at he
  · obtain rfl := Option.some.inj he
    exact .inl (unrun_of_next hst (by simp) (by simp) (hw.resolve_right (by simp [handlerNext,
      remaining])))
  · exact .inr (by simp [remaining])
  · obtain rfl := Option.some.inj he
    rw [remaining_queueing] at hw
    exact hw.imp_left (unrun_of_next hst (by simp) (by simp))
  · obtain rfl := Option.some.inj he
    refine .inl (unrun_of_next hst (by simp) (by simp) (hw.resolve_right ?_))
    simp only [handlerNext]
    split <;> simp [remaining]
  · simp [handlerEvent] at he

/-- Code that is running takes a step that brings the end closer. -/
def Closer (messages : List Msg) (c : Crash Producer Msg) : Prop :=
  ∃ e c', Quiet e ∧ step messages c e = some c' ∧ c'.handler ≠ .idle ∧ CanShutDown c' ∧
    rank c' < rank c

omit [DecidableEq Producer] in
theorem lockRank_process (h : processStep c.manager = some s) :
    lockRank { c with manager := s } = lockRank c := by
  obtain ⟨-, -, hp, -, -, -⟩ := processStep_frame h
  have hsection : ∀ x, sectionRank s x = sectionRank c.manager x := by
    rintro (_ | ⟨q, n⟩) <;> simp only [sectionRank, hp]
  simp only [lockRank, hsection]

theorem closer_worker (hidle : c.handler ≠ .idle) (hcan : CanShutDown c)
    (hw : c.manager.worker ≠ .exited) (hbar : barred c .process = false)
    (hst : processStep c.manager = some s) : Closer messages c := by
  obtain ⟨hawake, hfree⟩ := hcan
  obtain ⟨hfrozen, hholder, hwork⟩ := hfree.resolve_left hw
  refine ⟨.manager .process, { c with manager := s }, trivial, ?_, hidle,
    ⟨hawake, .inr ⟨hfrozen, fun p hp => hholder p ?_, fun hworks => hwork ?_⟩⟩, ?_⟩
  · simp [step, thread, hfrozen, hbar, Process.step, hst]
  · have hp : s.queueMtx = some (.producer (some p)) := hp
    rcases processStep_cases hst with ⟨-, -, rfl⟩ | ⟨-, rfl⟩ | ⟨-, rfl⟩ | ⟨-, -, rfl⟩ |
      ⟨-, -, rfl⟩ | ⟨a, q, -, -, rfl⟩ | ⟨a, -, rfl⟩ | ⟨a, -, rfl⟩ | ⟨-, -, rfl⟩ | ⟨-, -, rfl⟩
    all_goals first | exact hp | simp at hp
  · exact hworks.imp_left (unrun_of_next (e := .process) hst (by simp) (by simp))
  · exact rank_lt_of_worker (handlerRank_thread (e := .process) (t := .worker) rfl hst)
      (lockRank_process hst).le (holderRank_le hst) (workerRank_lt hst)

theorem closer_queue (hs : Sound messages c) (hidle : c.handler ≠ .idle) (hcan : CanShutDown c)
    {p : Producer} (hf : ¬ Frozen c (.producer p))
    (ho : c.manager.queueMtx = some (.producer (some p))) : Closer messages c := by
  have hlock := (reachable_inv hs.reachable).1
  have hheld := (hlock.producer (some p)).mpr ho
  obtain ⟨s, hst⟩ := (holder_goes hlock).2.1 (some p) ho
  obtain ⟨hawake, hfree⟩ := hcan
  refine ⟨.manager (.queue (some p)), { c with manager := s }, trivial, ?_, hidle,
    ⟨hawake, ?_⟩, ?_⟩
  · simp [step, thread, barred, hf, Process.step, hst]
  · rcases hfree with hexited | ⟨hw, hholder, hwork⟩
    · refine .inl ?_
      show s.worker = .exited
      rcases queueStep_cases hst with ⟨m, -, -, rfl⟩ | ⟨m, -, rfl⟩ | ⟨-, rfl⟩ | ⟨-, rfl⟩
      · exact hexited
      · exact hexited
      · exact hexited
      · exact (notifyOne_inHand c.manager).2.2.mpr hexited
    · refine .inr ⟨hw, fun q hq => ?_, fun hworks => hwork ?_⟩
      · have hq : s.queueMtx = some (.producer (some q)) := hq
        rcases queueStep_cases hst with ⟨m, hp, -, rfl⟩ | ⟨m, hp, rfl⟩ | ⟨hp, rfl⟩ | ⟨hp, rfl⟩
        · simp [hp, QueuePc.Holds] at hheld
        · exact hholder q hq
        · simp at hq
        · simp [hp, QueuePc.Holds] at hheld
      · refine hworks.imp_left (unrun_of_next (e := .queue (some p)) hst (by simp) ?_)
        rintro q hq
        obtain rfl : p = q := by simpa using hq
        exact ho
  · exact rank_lt_of_holder (handlerRank_thread (e := .queue (some p)) rfl hst)
      (lockRank_queue hst).1 (holderRank_lt ho hheld hst)

theorem closer_handler (hs : Sound messages c) (hcan : CanShutDown c)
    (he : handlerEvent c.handler = some e) (hst : Process.step c.manager e = some s) :
    Closer messages c := by
  obtain ⟨hawake, hfree⟩ := hcan
  have hsleeps : handlerSleeps c = false := by
    rw [Bool.eq_false_iff]
    exact fun h => hawake (handlerSleeps_iff.mp h)
  refine ⟨.handler, { c with manager := s, handler := handlerNext s c.handler }, trivial, ?_,
    (place_handler hs.place he hst).2.1, ⟨hawake, ?_⟩, ?_⟩
  · simp [step, hsleeps, he, hst]
  · obtain ⟨hleft, hmutex⟩ := handler_frame he hst
    rcases hfree with hexited | ⟨hw, hholder, hwork⟩
    · exact .inl (hleft hexited)
    · exact .inr ⟨hw, fun p hp => hholder p (hmutex p hp), fun hworks => hwork
        (work_of_handler he hst hworks)⟩
  · rw [rank, rank, Prod.Lex.toLex_lt_toLex]
    exact .inl (handlerRank_lt hs.place he hst)

/-! While the worker is at an action and the handler at its join, the holders of the two other
mutexes can go on. -/

/-- The worker is at an action, the handler is at its join, and nobody whom it waits for is
frozen. -/
structure AtAction (messages : List Msg) (c : Crash Producer Msg) : Prop where
  sound : Sound messages c
  join : c.manager.destructor = .join
  run : ∃ a, c.manager.worker = .run a
  can : CanShutDown c

omit [DecidableEq Producer] in
theorem work_of_run {a : Action (Option Producer) Msg} (h : c.manager.worker = .run a) : Work c :=
  .inl (.inl (.inl (by simp [h, ProcessPc.inHand])))

namespace AtAction

variable (h : AtAction messages c)
include h

theorem destroying : c.handler = .destroying := by
  have hplace := h.sound.place
  cases hh : c.handler <;> rw [hh] at hplace <;> simp [Place, h.join] at hplace ⊢

theorem not_exited : c.manager.worker ≠ .exited := by
  obtain ⟨a, ha⟩ := h.run
  simp [ha]

/-- Nobody holds `_queueMtx`, or a thread does that is not frozen. -/
theorem mutex : c.manager.queueMtx = none ∨
    ∃ p, c.manager.queueMtx = some (.producer (some p)) ∧ ¬ Frozen c (.producer p) := by
  have hlock := (reachable_inv h.sound.reachable).1
  have hplace := h.sound.place
  rw [h.destroying] at hplace
  obtain ⟨a, ha⟩ := h.run
  obtain ⟨-, hholder, -⟩ := h.can.2.resolve_left h.not_exited
  rcases ho : c.manager.queueMtx with _ | (_ | _ | (_ | p))
  · exact .inl rfl
  · have hheld := hlock.worker.mpr ho
    simp [ha, ProcessPc.Holds] at hheld
  · have hheld := hlock.destructor.mpr ho
    simp [h.join, DestructorPc.Holds] at hheld
  · have hheld := (hlock.producer none).mpr ho
    simp [hplace.1, QueuePc.Holds] at hheld
  · exact .inr ⟨p, rfl, hholder p ho⟩

theorem not_lost : ¬ ConfigLost c := by
  obtain ⟨a, ha⟩ := h.run
  obtain ⟨-, -, hwork⟩ := h.can.2.resolve_left h.not_exited
  exact hwork (work_of_run ha)

/-- A step that keeps the worker, leaves `_queueMtx` alone or takes it for a thread that is not
frozen, and does not lose `_configLock`, keeps the way free. -/
theorem can_next (hinterrupted : c'.interrupted = c.interrupted) (hasleep : c'.asleep = c.asleep)
    (hmutex : ∀ p, c'.manager.queueMtx = some (.producer (some p)) → ¬ Frozen c (.producer p))
    (hlost : ConfigLost c' → ConfigLost c) : CanShutDown c' := by
  obtain ⟨hfrozen, -, -⟩ := h.can.2.resolve_left h.not_exited
  have hsame : ∀ t, Frozen c' t ↔ Frozen c t := fun t => by
    unfold Frozen
    rw [hinterrupted, hasleep]
  refine ⟨?_, .inr ⟨mt (hsame _).mp hfrozen, fun p hp => mt (hsame _).mp (hmutex p hp),
    fun _ => mt hlost h.not_lost⟩⟩
  rintro ⟨t, ht, hsleeps⟩
  exact h.can.1 ⟨t, hinterrupted ▸ ht, hasleep ▸ hsleeps⟩

/-- The holder of one of the two mutexes goes on in `Queue`. -/
theorem closer_inQueue {p : Producer} (hf : ¬ Frozen c (.producer p)) (hp : holdsLock c p = true)
    (hin : c.manager.producers (some p) ≠ .idle) : Closer messages c := by
  have hidle : c.handler ≠ .idle := by simp [h.destroying]
  have hlock := (reachable_inv h.sound.reachable).1
  rcases h.mutex with hm | ⟨q, ho, hq⟩
  · obtain ⟨s, hst⟩ := exists_queueStep hin fun _ _ => hm
    refine ⟨.manager (.queue (some p)), { c with manager := s }, trivial, ?_, hidle,
      h.can_next rfl rfl (fun q hq => ?_) id, ?_⟩
    · simp [step, thread, barred, hf, Process.step, hst]
    · have hq : s.queueMtx = some (.producer (some q)) := hq
      rcases queueStep_cases hst with ⟨m, -, -, rfl⟩ | ⟨m, -, rfl⟩ | ⟨-, rfl⟩ | ⟨-, rfl⟩
      · obtain rfl : p = q := by simpa using hq
        exact hf
      · simp [hm] at hq
      · simp at hq
      · simp [hm] at hq
    · exact rank_lt_of_lock (handlerRank_thread (e := .queue (some p)) rfl hst)
        ((lockRank_queue hst).2 hp)
  · exact closer_queue h.sound hidle h.can hq ho

omit h in
/-- A call counts four steps. -/
theorem sectionRank_call {p : Producer} {m : Msg}
    (hst : Process.step c.manager (.call (some p) m) = some s) (x : Option (Producer × ℕ)) :
    sectionRank s x ≤ sectionRank c.manager x + 4 := by
  obtain ⟨-, rfl⟩ := call_cases hst
  rcases x with _ | ⟨q, n⟩
  · simp [sectionRank]
  · by_cases hqp : q = p
    · subst hqp
      simp [sectionRank, queueRank]
    · simp [sectionRank, Function.update_of_ne (show some q ≠ some p by simpa using hqp)]

/-- The holder of `_rotationEntriesLock` goes on. -/
theorem closer_rotation {q : Producer} {ms : List Msg} (hr : c.rotation = some (q, ms))
    (hf : ¬ Frozen c (.producer q)) : Closer messages c := by
  have hidle : c.handler ≠ .idle := by simp [h.destroying]
  by_cases hin : c.manager.producers (some q) = .idle
  swap
  · exact h.closer_inQueue hf (by simp [holdsLock, hr]) hin
  cases ms with
  | nil =>
    refine ⟨.rotation, { c with rotation := none }, trivial, ?_, hidle,
      h.can_next rfl rfl (h.can.2.resolve_left h.not_exited).2.1 ?_, ?_⟩
    · simp [step, rotationStep, hr, hf, hin]
    · rintro ⟨p, tasks, hc, hp | ⟨-, q', ms', hr', -⟩⟩
      · exact ⟨p, tasks, hc, .inl hp⟩
      · simp at hr'
    · refine rank_lt_of_lock rfl ?_
      simp only [lockRank, hr, Option.map_none, Option.map_some, sectionRank]
      omega
  | cons m rest =>
    obtain ⟨s, hst, hmutex⟩ := exists_call h.sound.published hin m
    refine ⟨.rotation, { c with manager := s, rotation := some (q, rest) }, trivial, ?_, hidle,
      h.can_next rfl rfl (fun p hp => ?_) ?_, ?_⟩
    · simp [step, rotationStep, hr, hf, hin, hst]
    · exact (h.can.2.resolve_left h.not_exited).2.1 p (hmutex ▸ hp)
    · rintro ⟨p, tasks, hc, hp | ⟨-, q', ms', hr', hq'⟩⟩
      · exact ⟨p, tasks, hc, .inl hp⟩
      · obtain ⟨rfl, -⟩ : q = q' ∧ rest = ms' := by simpa using hr'
        exact absurd hq' hf
    · refine rank_lt_of_lock (handlerRank_thread (e := .call (some q) m) rfl hst) ?_
      have hconfig := sectionRank_call hst (c.config.map fun x => (x.1, x.2.length))
      have hrotation := sectionRank_call hst (some (q, rest.length))
      simp only [lockRank, hr, Option.map_some, List.length_cons, sectionRank_succ]
      omega

omit [DecidableEq Producer] h in
/-- What the holder of `_configLock` has done does not hinder it any more. -/
theorem configLost_of_rest {p : Producer} {task : Task Msg} {rest : List (Task Msg)}
    (hc : c.config = some (p, task :: rest)) (s : Process.State (Option Producer) Msg) :
    ConfigLost { c with manager := s, config := some (p, rest) } → ConfigLost c := by
  rintro ⟨q, ts, hq, hblocked⟩
  obtain ⟨rfl, rfl⟩ : p = q ∧ rest = ts := by simpa using hq
  exact ⟨p, _, hc, hblocked.imp_right (And.imp_left (List.mem_cons_of_mem _))⟩

/-- The holder of `_configLock` goes on, or the holder of `_rotationEntriesLock` that it waits
for. -/
theorem closer_config {p : Producer} {tasks : List (Task Msg)} (hc : c.config = some (p, tasks)) :
    Closer messages c := by
  have hidle : c.handler ≠ .idle := by simp [h.destroying]
  have hholder := (h.can.2.resolve_left h.not_exited).2.1
  have hf : ¬ Frozen c (.producer p) := fun hf => h.not_lost ⟨p, tasks, hc, .inl hf⟩
  by_cases hin : c.manager.producers (some p) = .idle
  swap
  · exact h.closer_inQueue hf (by simp [holdsLock, hc]) hin
  rcases tasks with _ | ⟨m | _, rest⟩
  · refine ⟨.config, { c with config := none }, trivial, ?_, hidle,
      h.can_next rfl rfl hholder ?_, ?_⟩
    · simp [step, configStep, hc, hf, hin]
    · rintro ⟨q, ts, hq, -⟩
      simp at hq
    · refine rank_lt_of_lock rfl ?_
      simp only [lockRank, hc, Option.map_none, Option.map_some, sectionRank]
      omega
  · obtain ⟨s, hst, hmutex⟩ := exists_call h.sound.published hin m
    refine ⟨.config, { c with manager := s, config := some (p, rest) }, trivial, ?_, hidle,
      h.can_next rfl rfl (fun q hq => hholder q (hmutex ▸ hq)) (configLost_of_rest hc s), ?_⟩
    · simp [step, configStep, hc, hf, hin, hst]
    · refine rank_lt_of_lock (handlerRank_thread (e := .call (some p) m) rfl hst) ?_
      have hconfig := sectionRank_call hst (some (p, rest.length))
      have hrotation := sectionRank_call hst (c.rotation.map fun x => (x.1, x.2.length))
      simp only [lockRank, hc, Option.map_some, List.length_cons, sectionRank_succ]
      omega
  · cases hr : c.rotation with
    | some x =>
      obtain ⟨q, ms⟩ := x
      refine h.closer_rotation hr fun hq => h.not_lost ?_
      exact ⟨p, _, hc, .inr ⟨by simp, q, ms, hr, hq⟩⟩
    | none =>
      refine ⟨.config, { c with config := some (p, rest) }, trivial, ?_, hidle,
        h.can_next rfl rfl hholder (configLost_of_rest hc c.manager), ?_⟩
      · simp [step, configStep, hc, hf, hin, hr]
      · refine rank_lt_of_lock rfl ?_
        simp only [lockRank, hc, Option.map_some, List.length_cons, sectionRank_succ]
        omega

end AtAction

/-- **While it can shut down, somebody brings the end closer.** -/
theorem exists_closer (hs : Sound messages c) (hset : Settled c.manager) (hidle : c.handler ≠ .idle)
    (hcan : CanShutDown c) (hnot : c.handler ≠ .shutDown) : Closer messages c := by
  obtain ⟨hlock, hdata⟩ := reachable_inv hs.reachable
  have hfree := hcan.2
  -- a worker that does not wait for `_configLock` steps
  have hworker : ∀ s, c.manager.worker ≠ .exited → processStep c.manager = some s →
      (∀ a, c.manager.worker ≠ .run a) → Closer messages c := by
    intro s hw hst hrun
    refine closer_worker hidle hcan hw ?_ hst
    cases hpc : c.manager.worker <;> simp [barred, atAction, hpc]
    exact absurd hpc (hrun _)
  rcases handler_goes_or_waits hs hidle hnot with ⟨e, s, he, hst⟩ | hm | ⟨⟨p, hm⟩, hearly⟩ |
    ⟨hd, hw⟩
  · exact closer_handler hs hcan he hst
  · -- the worker holds the mutex, so it has not left and is not at an action
    have hheld := hlock.worker.mpr hm
    obtain ⟨s, hst⟩ := (holder_goes hlock).1 hm
    refine hworker s (fun hw => ?_) hst fun a hw => ?_ <;> simp [hw, ProcessPc.Holds] at hheld
  · rcases hfree with hw | ⟨hw, hholder, -⟩
    · -- the worker does not leave before the flag is cleared
      obtain ⟨l, hl, -⟩ := hdata.drained hw
      simp [hdata.uncleared hearly] at hl
    · exact closer_queue hs hidle hcan (hholder p hm) hm
  · by_cases hrun : ∃ a, c.manager.worker = .run a
    · have hat : AtAction messages c := ⟨hs, hd, hrun, hcan⟩
      obtain ⟨a, ha⟩ := hrun
      cases hc : c.config with
      | some x => exact hat.closer_config (p := x.1) hc
      | none =>
        exact closer_worker hidle hcan hw (by simp [barred, hc])
          (show processStep c.manager = some _ by simp [processStep, ha]; rfl)
    · obtain ⟨-, hholder, -⟩ := hfree.resolve_left hw
      have hgo : c.manager.queueMtx = none ∨ c.manager.queueMtx = some .worker →
          Closer messages c := fun hm => by
        obtain ⟨s, hst⟩ := worker_goes_or_waits hs hset hd hw hm
        exact hworker s hw hst fun a ha => hrun ⟨a, ha⟩
      rcases ho : c.manager.queueMtx with _ | (_ | _ | (_ | p))
      · exact hgo (.inl ho)
      · exact hgo (.inr ho)
      · have hheld := hlock.destructor.mpr ho
        simp [hd, DestructorPc.Holds] at hheld
      · have hheld := (hlock.producer none).mpr ho
        have hplace := hs.place
        cases hpc : c.handler <;> rw [hpc] at hplace <;> simp [Place, hd] at hplace
        simp [hplace, QueuePc.Holds] at hheld
      · exact closer_queue hs hidle hcan (hholder p ho) ho

/-- The thread `p` crashes. -/
def untilCrash (p : ℕ) : List (Event ℕ ℕ) :=
  [.lockRotation 1 [], .lockConfig 0 [.register], .signal (.producer p)]

def crashedOutside : Crash ℕ ℕ := (exec (step [1]) sleeping (untilCrash 2)).get rfl

def crashedInside : Crash ℕ ℕ := (exec (step [1]) sleeping (untilCrash 1)).get rfl

theorem settled_crashed : (settled [1]).Reachable crashedOutside ∧
    (settled [1]).Reachable crashedInside := by
  have hinit : Running sleeping ∧ Settled sleeping.manager :=
    ⟨running_sleeping, reachable_waiting, rfl⟩
  exact ⟨reachable_exec (untilCrash 2) (.init hinit) (Option.some_get _).symm,
    reachable_exec (untilCrash 1) (.init hinit) (Option.some_get _).symm⟩

end SampLogCore.LogManager.CrashHandler
