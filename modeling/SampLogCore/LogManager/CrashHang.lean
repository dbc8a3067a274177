import SampLogCore.LogManager.CrashHandler

/-!
# When a crash hangs

The handler waits for the worker, the worker for `_queueMtx` and, as long as an action is to be run,
for `_configLock`, whose holder may wait for `_rotationEntriesLock`. Where one of these is frozen,
or the handler's own thread has caught another signal, the handler is stuck, and no step gets it
going again (**`stuck_step`**).
-/

namespace SampLogCore.LogManager.CrashHandler

open SampLogCore.Lib.Transition SampLogCore.Lib.Progress SampLogCore.LogManager.Process
  SampLogCore.LogManager.Drain SampLogCore.LogManager.Wakeup SampLogCore.LogManager.Completion

variable {Producer Msg : Type*} [DecidableEq Producer]

/-- `_configLock` is not released any more: its holder is frozen, or has a file to register while
the holder of `_rotationEntriesLock` is frozen. -/
def ConfigLost (c : Crash Producer Msg) : Prop :=
  ∃ p tasks, c.config = some (p, tasks) ∧ (Frozen c (.producer p) ∨
    .register ∈ tasks ∧ ∃ q ms, c.rotation = some (q, ms) ∧ Frozen c (.producer q))

/-- An action is to be run before the worker can leave: the worker or the queue has one, or the
handler or the holder of `_queueMtx` is about to push one. -/
def Unrun (s : Process.State (Option Producer) Msg) : Prop :=
  (s.worker.inHand ≠ [] ∨ s.queue ≠ []) ∨
    ∃ p, (p = none ∨ s.queueMtx = some (.producer p)) ∧ (s.producers p).inHand ≠ []

/-- An action is to be run before the handler is at its join. -/
def Work (c : Crash Producer Msg) : Prop := Unrun c.manager ∨ remaining c.handler ≠ []

/-- **Nobody whom the handler waits for is frozen.** -/
def CanShutDown (c : Crash Producer Msg) : Prop :=
  ¬ HandlerAsleep c ∧ (c.manager.worker = .exited ∨ ¬ Frozen c .worker ∧
    (∀ p, c.manager.queueMtx = some (.producer (some p)) → ¬ Frozen c (.producer p)) ∧
    (Work c → ¬ ConfigLost c))

variable {messages : List Msg} {c c' : Crash Producer Msg}
  {s s' : Process.State (Option Producer) Msg} {e : Process.Event (Option Producer) Msg}

/-! ### The actions that are to be run -/

section Manager

variable {P : Type*} [DecidableEq P] {s s' : Process.State P Msg} {e : Process.Event P Msg}

/-- A held mutex stays with its holder while that does not step, and the worker does not leave. -/
theorem held_stays {p : P} (hlock : LockInv s) (ho : s.queueMtx = some (.producer p))
    (he : e ≠ .queue p) (h : Process.step s e = some s') :
    s'.queueMtx = some (.producer p) ∧ (s.worker ≠ .exited → s'.worker ≠ .exited) := by
  have hfree : s.queueMtx ≠ none := by simp [ho]
  have hworker : ¬ s.worker.Holds := by rw [hlock.worker, ho]; simp
  have hdestructor : ¬ s.destructor.Holds := by rw [hlock.destructor, ho]; simp
  rcases Drain.step_cases h with ⟨-, rfl⟩ | ⟨q, m, -, rfl⟩ | ⟨q, rfl, h⟩ | h | ⟨b, -, rfl⟩ |
    ⟨-, rfl⟩ | ⟨-, h⟩
  · exact ⟨ho, by simp⟩
  · exact ⟨ho, id⟩
  · have hqp : q ≠ p := fun heq => he (by rw [heq])
    have hq : ¬ (s.producers q).Holds := by
      rw [hlock.producer, ho]
      simp only [Option.some.injEq, Holder.producer.injEq]
      exact fun heq => hqp heq.symm
    rcases queueStep_cases h with ⟨m, -, hm, rfl⟩ | ⟨m, -, rfl⟩ | ⟨hpc, rfl⟩ | ⟨-, rfl⟩
    · exact absurd hm hfree
    · exact ⟨ho, id⟩
    · simp [hpc, QueuePc.Holds] at hq
    · exact ⟨by simpa using ho, fun hw => mt (notifyOne_inHand s).2.2.mp hw⟩
  · rcases processStep_cases h with ⟨-, hm, rfl⟩ | ⟨hw, rfl⟩ | ⟨-, rfl⟩ | ⟨-, hm, rfl⟩ |
      ⟨-, -, rfl⟩ | ⟨a, q, -, -, rfl⟩ | ⟨a, hw, rfl⟩ | ⟨a, -, rfl⟩ | ⟨-, -, rfl⟩ | ⟨hw, -, rfl⟩
    · exact absurd hm hfree
    · simp [hw, ProcessPc.Holds] at hworker
    · exact ⟨ho, by simp⟩
    · exact absurd hm hfree
    · exact ⟨ho, by simp⟩
    · exact ⟨ho, by simp⟩
    · simp [hw, ProcessPc.Holds] at hworker
    · exact ⟨ho, by simp⟩
    · exact ⟨ho, by simp⟩
    · simp [hw, ProcessPc.Holds] at hworker
  · exact ⟨ho, by simp⟩
  · exact ⟨ho, id⟩
  · rcases destructorStep_cases h with ⟨-, hm, rfl⟩ | ⟨-, rfl⟩ | ⟨hd, rfl⟩ | ⟨-, rfl⟩ | ⟨-, -, rfl⟩
    · exact absurd hm hfree
    · exact ⟨ho, id⟩
    · simp [hd, DestructorPc.Holds] at hdestructor
    · exact ⟨by simpa using ho, fun hw => mt (notifyOne_inHand s).2.2.mp hw⟩
    · exact ⟨ho, id⟩

/-- A thread that has a message in hand keeps its place while it does not step. -/
theorem place_stays {p : P} (hp : (s.producers p).inHand ≠ []) (he : e ≠ .queue p)
    (h : Process.step s e = some s') : s'.producers p = s.producers p := by
  rcases Drain.step_cases h with ⟨-, rfl⟩ | ⟨q, m, hq, rfl⟩ | ⟨q, rfl, h⟩ | h | ⟨b, -, rfl⟩ |
    ⟨-, rfl⟩ | ⟨-, h⟩
  · rfl
  · have hne : p ≠ q := by
      rintro rfl
      simp [hq, QueuePc.inHand] at hp
    exact Function.update_of_ne hne ..
  · have hne : p ≠ q := fun heq => he (by rw [heq])
    rcases queueStep_cases h with ⟨m, -, -, rfl⟩ | ⟨m, -, rfl⟩ | ⟨-, rfl⟩ | ⟨-, rfl⟩ <;>
      simp [Function.update_of_ne hne]
  · obtain ⟨-, -, hkept, -, -, -⟩ := processStep_frame h
    rw [hkept]
  · rfl
  · rfl
  · rcases destructorStep_cases h with ⟨-, -, rfl⟩ | ⟨-, rfl⟩ | ⟨-, rfl⟩ | ⟨-, rfl⟩ |
      ⟨-, -, rfl⟩ <;> simp

/-- What the worker or the queue has stays there until the worker runs it. -/
theorem pending_stays (h : Process.step s e = some s')
    (hrun : ∀ a, e = .process → s.worker ≠ .run a)
    (hp : s.worker.inHand ≠ [] ∨ s.queue ≠ []) : s'.worker.inHand ≠ [] ∨ s'.queue ≠ [] := by
  have hnotify : s.notifyOne.worker.inHand ≠ [] ∨ s.notifyOne.queue ≠ [] := by
    rw [(notifyOne_inHand s).1, notifyOne_queue]
    exact hp
  cases e with
  | construct =>
    obtain ⟨hw, rfl⟩ := construct_cases h
    simpa [hw, ProcessPc.inHand] using hp
  | call p m =>
    obtain ⟨-, rfl⟩ := call_cases h
    exact hp
  | queue p =>
    rcases queueStep_cases h with ⟨m, -, -, rfl⟩ | ⟨m, -, rfl⟩ | ⟨-, rfl⟩ | ⟨-, rfl⟩
    · exact hp
    · exact .inr (by simp)
    · exact hp
    · exact hnotify
  | process =>
    rcases processStep_cases h with ⟨hw, -, rfl⟩ | ⟨hw, rfl⟩ | ⟨hw, rfl⟩ | ⟨hw, -, rfl⟩ |
      ⟨hw, hq, rfl⟩ | ⟨a, q, -, -, rfl⟩ | ⟨a, -, rfl⟩ | ⟨a, hw, rfl⟩ | ⟨hw, -, rfl⟩ | ⟨hw, -, rfl⟩
    · simpa [hw, ProcessPc.inHand] using hp
    · simpa [hw, ProcessPc.inHand] using hp
    · simpa [hw, ProcessPc.inHand] using hp
    · rcases hw with hw | hw <;> simpa [hw, ProcessPc.inHand] using hp
    · simp [hw, hq, ProcessPc.inHand] at hp
    · exact .inl (by simp [ProcessPc.inHand])
    · exact .inl (by simp [ProcessPc.inHand])
    · exact absurd hw (hrun a rfl)
    · simpa [hw, ProcessPc.inHand] using hp
    · simpa [hw, ProcessPc.inHand] using hp
  | spurious =>
    obtain ⟨b, hw, rfl⟩ := spurious_cases h
    simpa [hw, ProcessPc.inHand] using hp
  | destroy =>
    obtain ⟨-, rfl⟩ := destroy_cases h
    exact hp
  | destructor =>
    rcases destructorStep_cases h with ⟨-, -, rfl⟩ | ⟨-, rfl⟩ | ⟨-, rfl⟩ | ⟨-, rfl⟩ | ⟨-, -, rfl⟩
    · exact hp
    · exact hp
    · exact hp
    · exact hnotify
    · exact hp

omit [DecidableEq P] in
/-- The worker makes no action. -/
theorem pending_of_process (h : processStep s = some s')
    (hp : s'.worker.inHand ≠ [] ∨ s'.queue ≠ []) : s.worker.inHand ≠ [] ∨ s.queue ≠ [] := by
  rcases processStep_cases h with ⟨-, -, rfl⟩ | ⟨-, rfl⟩ | ⟨-, rfl⟩ | ⟨-, -, rfl⟩ | ⟨-, -, rfl⟩ |
    ⟨a, q, -, hq, rfl⟩ | ⟨a, hw, rfl⟩ | ⟨a, -, rfl⟩ | ⟨-, -, rfl⟩ | ⟨-, -, rfl⟩
  · exact .inr (by simpa [ProcessPc.inHand] using hp)
  · exact .inr (by simpa [ProcessPc.inHand] using hp)
  · exact .inr (by simpa [ProcessPc.inHand] using hp)
  · exact .inr (by simpa [ProcessPc.inHand] using hp)
  · exact .inr (by simpa [ProcessPc.inHand] using hp)
  · exact .inr (by simp [hq])
  · exact .inl (by simp [hw, ProcessPc.inHand])
  · exact .inr (by simpa [ProcessPc.inHand] using hp)
  · exact .inr (by simpa [ProcessPc.inHand] using hp)
  · exact .inr (by simpa [ProcessPc.inHand] using hp)

end Manager

/-- There is an action to be run as long as the worker does not run one. -/
theorem unrun_step (hlock : LockInv s) (h : Process.step s e = some s')
    (hrun : ∀ a, e = .process → s.worker ≠ .run a) (hu : Unrun s) : Unrun s' := by
  rcases hu with hp | ⟨p, hm, hp⟩
  · exact .inl (pending_stays h hrun hp)
  · by_cases he : e = .queue p
    · subst he
      rcases queueStep_cases h with ⟨m, -, -, rfl⟩ | ⟨m, -, rfl⟩ | ⟨hpc, rfl⟩ | ⟨hpc, rfl⟩
      · exact .inr ⟨p, .inr rfl, by simp [QueuePc.inHand]⟩
      · exact .inl (.inr (by simp))
      · simp [hpc, QueuePc.inHand] at hp
      · simp [hpc, QueuePc.inHand] at hp
    · refine .inr ⟨p, hm.imp_right fun ho => (held_stays hlock ho he h).1, ?_⟩
      rw [place_stays hp he h]
      exact hp

/-- It was there before, unless it comes with a call or a thread takes the mutex for it. -/
theorem unrun_of_next (h : Process.step s e = some s')
    (hcall : ∀ p m, e ≠ .call p m)
    (hqueue : ∀ p, e = .queue (some p) → s.queueMtx = some (.producer (some p)))
    (hu : Unrun s') : Unrun s := by
  obtain ⟨hinHand, -, -⟩ := notifyOne_inHand s
  cases e with
  | construct =>
    obtain ⟨hw, rfl⟩ := construct_cases h
    simpa [Unrun, hw, ProcessPc.inHand] using hu
  | call p m => exact absurd rfl (hcall p m)
  | queue p =>
    have hown : p = none ∨ s.queueMtx = some (.producer p) := by
      cases p with
      | none => exact .inl rfl
      | some p => exact .inr (hqueue p rfl)
    -- the places of the other threads, and who holds the mutex
    have hback : ∀ (pc : QueuePc Msg) (o : Option (Holder (Option Producer))), pc.inHand = [] →
        (∀ q, o = some (.producer q) → s.queueMtx = some (.producer q)) →
        (∃ q, (q = none ∨ o = some (.producer q)) ∧
          (Function.update s.producers p pc q).inHand ≠ []) →
        ∃ q, (q = none ∨ s.queueMtx = some (.producer q)) ∧ (s.producers q).inHand ≠ [] := by
      rintro pc o hpc ho ⟨q, hq, hinHandq⟩
      refine ⟨q, hq.imp_right (ho q), ?_⟩
      by_cases hqp : q = p
      · rw [hqp, Function.update_self, hpc] at hinHandq
        exact absurd rfl hinHandq
      · rwa [Function.update_of_ne hqp] at hinHandq
    rcases queueStep_cases h with ⟨m, hpc, hm, rfl⟩ | ⟨m, hpc, rfl⟩ | ⟨hpc, rfl⟩ | ⟨hpc, rfl⟩
    · exact .inr ⟨p, hown, by simp [hpc, QueuePc.inHand]⟩
    · exact .inr ⟨p, hown, by simp [hpc, QueuePc.inHand]⟩
    · exact hu.imp id (hback .notify none rfl (by simp))
    · refine hu.imp (fun hp => ?_) (hback .idle s.notifyOne.queueMtx rfl (by simp))
      simpa [hinHand] using hp
  | process =>
    obtain ⟨-, -, hkept, -, -, -⟩ := processStep_frame h
    rcases hu with hp | ⟨q, hq, hinHandq⟩
    · exact .inl (pending_of_process h hp)
    · refine .inr ⟨q, hq.imp_right fun ho => ?_, by rwa [hkept] at hinHandq⟩
      rcases processStep_cases h with ⟨-, -, rfl⟩ | ⟨-, rfl⟩ | ⟨-, rfl⟩ | ⟨-, -, rfl⟩ |
        ⟨-, -, rfl⟩ | ⟨a, q, -, -, rfl⟩ | ⟨a, -, rfl⟩ | ⟨a, -, rfl⟩ | ⟨-, -, rfl⟩ | ⟨-, -, rfl⟩
      all_goals first | exact ho | simp at ho
  | spurious =>
    obtain ⟨b, hw, rfl⟩ := spurious_cases h
    simpa [Unrun, hw, ProcessPc.inHand] using hu
  | destroy =>
    obtain ⟨-, rfl⟩ := destroy_cases h
    exact hu
  | destructor =>
    rcases destructorStep_cases h with ⟨-, hm, rfl⟩ | ⟨-, rfl⟩ | ⟨-, rfl⟩ | ⟨-, rfl⟩ | ⟨-, -, rfl⟩
    · simpa [Unrun, hm] using hu
    · exact hu
    · refine hu.imp id ?_
      rintro ⟨q, hq, hinHandq⟩
      exact ⟨q, .inl (hq.resolve_right (by simp)), hinHandq⟩
    · simpa [Unrun, hinHand] using hu
    · exact hu

/-! ### When the handler does not get there -/

theorem frozen_step (hs : Sound messages c) {e : Event Producer Msg}
    (h : step messages c e = some c') {t : Thread Producer} (hf : Frozen c t) : Frozen c' t := by
  rcases step_kinds h with ⟨t', rfl⟩ | ⟨e', s, -, -, -, rfl⟩ | ⟨e', t', s, _, _, -, -, -, -, rfl⟩ |
    ⟨_, _, rfl⟩
  · unfold signalStep
    split_ifs with hfirst
    · have hnone : c.interrupted = none := hs.interrupted.mpr (hs.first.mp hfirst)
      rcases hf with hf | hf
      · simp [hnone] at hf
      · exact .inr hf
    · rcases hf with hf | hf
      · exact .inl hf
      · refine .inr ?_
        show Function.update c.asleep t' true t = true
        by_cases htt : t = t'
        · rw [htt, Function.update_self]
        · rw [Function.update_of_ne htt]
          exact hf
  · exact hf
  · exact hf
  · exact hf

omit [DecidableEq Producer] in
theorem ConfigLost.config_ne_none (h : ConfigLost c) : c.config ≠ none := by
  obtain ⟨p, tasks, hc, -⟩ := h
  simp [hc]

/-- What is lost stays lost. -/
theorem configLost_step (hs : Sound messages c) {e : Event Producer Msg}
    (h : step messages c e = some c') (hlost : ConfigLost c) : ConfigLost c' := by
  have hkept : ∀ t, Frozen c t → Frozen c' t := fun _ => frozen_step hs h
  obtain ⟨p, tasks, hc, hblocked⟩ := hlost
  -- neither mutex changes its holder
  have stays : c'.config = some (p, tasks) → c'.rotation = c.rotation → ConfigLost c' := by
    refine fun hconfig hrotation => ⟨p, tasks, hconfig, hblocked.imp (hkept _) ?_⟩
    rintro ⟨hmem, q, ms, hr, hf⟩
    exact ⟨hmem, q, ms, hrotation.trans hr, hkept _ hf⟩
  rcases step_cases h with ⟨t, -, -, rfl⟩ | ⟨e', t, s, -, -, -, -, -, rfl⟩ |
    ⟨e', s, -, -, -, -, rfl⟩ | ⟨q, ts, -, hnone, rfl⟩ | ⟨-, h⟩ | ⟨q, ms, -, hnone, rfl⟩ | ⟨-, h⟩
  · refine stays ?_ ?_ <;> unfold signalStep <;> split_ifs
    · exact hc
    · exact hc
    · rfl
    · rfl
  · exact stays hc rfl
  · exact stays hc rfl
  · simp [hc] at hnone
  · obtain ⟨q, ts, hq, hfree, -, h⟩ := configStep_cases h
    obtain ⟨rfl, rfl⟩ : p = q ∧ tasks = ts := by simpa [hc] using hq
    rcases hblocked with hf | ⟨hmem, q, ms, hr, hf⟩
    · exact absurd hf hfree
    · rcases h with ⟨rfl, -⟩ | ⟨rest, -, hnone, -⟩ | ⟨m, rest, s, rfl, -, rfl⟩
      · simp at hmem
      · simp [hr] at hnone
      · exact ⟨p, rest, rfl, .inr ⟨by simpa using hmem, q, ms, hr, hkept _ hf⟩⟩
  · rcases hblocked with hf | ⟨-, q, ms, hr, -⟩
    · exact ⟨p, tasks, hc, .inl (hkept _ hf)⟩
    · simp [hr] at hnone
  · obtain ⟨q, ms, hq, hfree, -, h⟩ := rotationStep_cases h
    rcases hblocked with hf | ⟨-, q', ms', hr, hf⟩
    · refine ⟨p, tasks, ?_, .inl (hkept _ hf)⟩
      rcases h with ⟨-, rfl⟩ | ⟨m, rest, s, -, -, rfl⟩ <;> exact hc
    · obtain ⟨rfl, -⟩ : q' = q ∧ ms' = ms := by simpa [hr] using hq
      exact absurd hf hfree

theorem exits_cases (h : Process.step s e = some s') (hw : s.worker ≠ .exited)
    (hexit : s'.worker = .exited) :
    e = .process ∧ s.worker = .testRunning ∧ s.threadRunning = false := by
  have hnotify : s.notifyOne.worker ≠ .exited := mt (notifyOne_inHand s).2.2.mp hw
  cases e with
  | process =>
    rcases processStep_cases h with ⟨-, -, rfl⟩ | ⟨-, rfl⟩ | ⟨-, rfl⟩ | ⟨-, -, rfl⟩ | ⟨-, -, rfl⟩ |
      ⟨a, q, -, -, rfl⟩ | ⟨a, -, rfl⟩ | ⟨a, -, rfl⟩ | ⟨-, -, rfl⟩ | ⟨hpc, hr, -⟩
    · simp at hexit
    · simp at hexit
    · simp at hexit
    · simp at hexit
    · simp at hexit
    · simp at hexit
    · simp at hexit
    · simp at hexit
    · simp at hexit
    · exact ⟨rfl, hpc, hr⟩
  | queue p =>
    rcases queueStep_cases h with ⟨m, -, -, rfl⟩ | ⟨m, -, rfl⟩ | ⟨-, rfl⟩ | ⟨-, rfl⟩
    · exact absurd hexit hw
    · exact absurd hexit hw
    · exact absurd hexit hw
    · exact absurd hexit hnotify
  | destructor =>
    rcases destructorStep_cases h with ⟨-, -, rfl⟩ | ⟨-, rfl⟩ | ⟨-, rfl⟩ | ⟨-, rfl⟩ | ⟨-, -, rfl⟩
    · exact absurd hexit hw
    · exact absurd hexit hw
    · exact absurd hexit hw
    · exact absurd hexit hnotify
    · exact absurd hexit hw
  | construct =>
    obtain ⟨-, rfl⟩ := construct_cases h
    simp at hexit
  | call p m =>
    obtain ⟨-, rfl⟩ := call_cases h
    exact absurd hexit hw
  | spurious =>
    obtain ⟨b, -, rfl⟩ := spurious_cases h
    simp at hexit
  | destroy =>
    obtain ⟨-, rfl⟩ := destroy_cases h
    exact absurd hexit hw

/-- The worker does not leave while an action is to be run. -/
theorem stays_for_work (hs : Sound messages c) (hwork : Work c)
    (h : Process.step c.manager e = some s) (hw : c.manager.worker ≠ .exited) :
    s.worker ≠ .exited := by
  intro hexit
  obtain ⟨rfl, hpc, hflag⟩ := exits_cases h hw hexit
  obtain ⟨hlock, hdata⟩ := reachable_inv hs.reachable
  have hm : c.manager.queueMtx = some .worker := hlock.worker.mp (by simp [hpc, ProcessPc.Holds])
  -- so the handler is not at the destructor yet
  have hidle : c.manager.destructor = .idle := by
    have hplace := hs.place
    rcases hwork with (hp | ⟨p, hp, hinHand⟩) | hremaining
    · simp [hpc, ProcessPc.inHand, hdata.empty hpc] at hp
    · obtain rfl := hp.resolve_right (by simp [hm])
      cases hh : c.handler <;> rw [hh] at hplace <;> simp only [Place] at hplace
      · exact hplace.2
      · exact hplace.2
      · exact hplace.2
      · simp [hplace.1, QueuePc.inHand] at hinHand
      · simp [hplace.1, QueuePc.inHand] at hinHand
    · cases hh : c.handler <;> rw [hh] at hplace hremaining <;> simp only [Place] at hplace
      · exact hplace.2
      · exact hplace.2
      · exact hplace.2
      · simp [remaining] at hremaining
      · simp [remaining] at hremaining
  have hset := (endInv_of_reachable hs.reachable).flag.mpr (by simp [hidle, DestructorPc.Early])
  simp [hflag] at hset

omit [DecidableEq Producer] in
theorem remaining_queueing (s : Process.State (Option Producer) Msg) (rest : List Msg) :
    remaining (handlerNext s (.queueing rest)) = rest := by
  simp only [handlerNext]
  split <;> rfl

/-- The worker runs no action without `_configLock`, and the handler passes its messages on. -/
theorem work_step (hs : Sound messages c) {e : Event Producer Msg}
    (h : step messages c e = some c') (hconfig : c.config ≠ none) (hwork : Work c) : Work c' := by
  have hlock := (reachable_inv hs.reachable).1
  rcases step_kinds h with ⟨t, rfl⟩ | ⟨e', s, -, he, hst, rfl⟩ |
    ⟨e', t, s, _, _, -, -, haction, hst, rfl⟩ | ⟨_, _, rfl⟩
  · unfold signalStep
    split_ifs with hfirst
    · refine .inl (hwork.resolve_right ?_)
      simp [hs.first.mp hfirst, remaining]
    · exact hwork
  · rcases hwork with hu | hremaining
    · refine .inl (unrun_step hlock hst ?_ hu)
      rintro a rfl
      rcases hh : c.handler with _ | (_ | ⟨m, rest⟩) | rest | _ | _ <;> rw [hh] at he <;>
        simp [handlerEvent] at he
    · rcases hh : c.handler with _ | (_ | ⟨m, rest⟩) | rest | _ | _ <;> rw [hh] at he hremaining
      · simp [remaining] at hremaining
      · simp [remaining] at hremaining
      · obtain rfl := Option.some.inj he
        have hidle := hs.place
        rw [hh] at hidle
        obtain ⟨-, rfl⟩ := call_cases hst
        exact .inl (.inr ⟨none, .inl rfl, by simp [QueuePc.inHand]⟩)
      · refine .inr ?_
        show remaining (handlerNext s (.queueing rest)) ≠ []
        rw [remaining_queueing]
        exact hremaining
      · simp [remaining] at hremaining
      · simp [remaining] at hremaining
  · refine hwork.imp_left (unrun_step hlock hst ?_)
    rintro a rfl hpc
    exact hconfig (haction rfl (by simp [hpc, atAction]))
  · exact hwork

/-- The worker is frozen, or the holder of `_queueMtx` is, or an action is to be run that never gets
`_configLock`. -/
def Hindered (c : Crash Producer Msg) : Prop :=
  Frozen c .worker ∨
    (∃ p, c.manager.queueMtx = some (.producer (some p)) ∧ Frozen c (.producer p)) ∨
    Work c ∧ ConfigLost c

/-- The handler has not joined the worker, and somebody whom it waits for does not go on. -/
structure Stuck (c : Crash Producer Msg) : Prop where
  handler : c.handler ≠ .shutDown
  blocked : HandlerAsleep c ∨ c.manager.worker ≠ .exited ∧ Hindered c

omit [DecidableEq Producer] in
theorem not_canShutDown_iff :
    ¬ CanShutDown c ↔ HandlerAsleep c ∨ c.manager.worker ≠ .exited ∧ Hindered c := by
  unfold CanShutDown Hindered
  simp only [not_and_or, not_or, not_not, not_forall, exists_prop]

omit [DecidableEq Producer] in
/-- The handler's steps are none of the frozen threads'. -/
theorem thread_handlerEvent {pc : HandlerPc Msg} (he : handlerEvent pc = some e) :
    thread e = none := by
  rcases pc with _ | (_ | ⟨m, rest⟩) | rest | _ | _ <;> simp [handlerEvent] at he <;>
    obtain rfl := he <;> rfl

/-- What holds the handler up stays where it is while a thread that is not frozen takes a step. -/
theorem hindered_step (hs : Sound messages c) {e' : Event Producer Msg}
    (hstep : step messages c e' = some c') (he : ∀ t, thread e = some t → ¬ Frozen c t)
    (h : Process.step c.manager e = some c'.manager) (hw : c.manager.worker ≠ .exited)
    (hblocked : Hindered c) : c'.manager.worker ≠ .exited ∧ Hindered c' := by
  have hlock := (reachable_inv hs.reachable).1
  rcases hblocked with hf | ⟨p, ho, hf⟩ | ⟨hwork, hlost⟩
  · refine ⟨fun hexit => ?_, .inl (frozen_step hs hstep hf)⟩
    obtain ⟨rfl, -, -⟩ := exits_cases h hw hexit
    exact he _ rfl hf
  · have hne : e ≠ .queue (some p) := by
      rintro rfl
      exact he _ rfl hf
    obtain ⟨ho', hw'⟩ := held_stays hlock ho hne h
    exact ⟨hw' hw, .inr (.inl ⟨p, ho', frozen_step hs hstep hf⟩)⟩
  · exact ⟨stays_for_work hs hwork h hw, .inr (.inr ⟨work_step hs hstep hlost.config_ne_none hwork,
      configLost_step hs hstep hlost⟩)⟩

/-- And while the `LogManager` is left alone. -/
theorem hindered_same (hs : Sound messages c) {e' : Event Producer Msg}
    (hstep : step messages c e' = some c') (h : c'.manager = c.manager) (hblocked : Hindered c) :
    Hindered c' := by
  rcases hblocked with hf | ⟨p, ho, hf⟩ | ⟨hwork, hlost⟩
  · exact .inl (frozen_step hs hstep hf)
  · exact .inr (.inl ⟨p, h ▸ ho, frozen_step hs hstep hf⟩)
  · exact .inr (.inr ⟨work_step hs hstep hlost.config_ne_none hwork,
      configLost_step hs hstep hlost⟩)

theorem handlerAsleep_step (hs : Sound messages c) {e : Event Producer Msg}
    (h : step messages c e = some c') (hasleep : HandlerAsleep c) : HandlerAsleep c' := by
  obtain ⟨t, ht, hsleeps⟩ := hasleep
  -- it was not the first signal
  have hnot : c.first_exit ≠ 0 := fun hzero => by
    simp [hs.interrupted.mpr (hs.first.mp hzero)] at ht
  rcases step_kinds h with ⟨t', rfl⟩ | ⟨e', s, -, -, -, rfl⟩ | ⟨e', t', s, _, _, -, -, -, -, rfl⟩ |
    ⟨_, _, rfl⟩
  · refine ⟨t, by simpa [signalStep, hnot] using ht, ?_⟩
    simp only [signalStep, hnot, if_false, Function.update_apply]
    split_ifs
    · rfl
    · exact hsleeps
  · exact ⟨t, ht, hsleeps⟩
  · exact ⟨t, ht, hsleeps⟩
  · exact ⟨t, ht, hsleeps⟩

/-- Only a handler that is awake gets past the join, and the worker has left then. -/
theorem shutDown_of_step (hs : Sound messages c) {e : Event Producer Msg}
    (h : step messages c e = some c') (hnot : c.handler ≠ .shutDown)
    (hend : c'.handler = .shutDown) : ¬ HandlerAsleep c ∧ c'.manager.worker = .exited := by
  have hs' := sound_step hs h
  rcases step_kinds h with ⟨t, rfl⟩ | ⟨e', s, hawake, -, -, rfl⟩ |
    ⟨e', t, s, _, _, -, -, -, -, rfl⟩ | ⟨_, _, rfl⟩
  · unfold signalStep at hend
    split_ifs at hend
    exact absurd hend hnot
  · have hplace := hs'.place
    rw [hend] at hplace
    exact ⟨hawake, (endInv_of_reachable hs'.reachable).joined hplace.2⟩
  · exact absurd hend hnot
  · exact absurd hend hnot

/-- **No step gets a stuck handler going.** -/
theorem stuck_step (hs : Sound messages c) {e : Event Producer Msg}
    (h : step messages c e = some c') (hstuck : Stuck c) : Stuck c' := by
  obtain ⟨hhandler, hasleep | ⟨hw, hblocked⟩⟩ := hstuck
  · exact ⟨fun hend => (shutDown_of_step hs h hhandler hend).1 hasleep,
      .inl (handlerAsleep_step hs h hasleep)⟩
  · have hkept : c'.manager.worker ≠ .exited ∧ Hindered c' := by
      rcases step_kinds h with ⟨t, hc'⟩ | ⟨e', s, -, he, hst, rfl⟩ |
        ⟨e', t, s, _, _, ht, hf, -, hst, rfl⟩ | ⟨_, _, rfl⟩
      · have hsame : c'.manager = c.manager := by
          rw [hc', signalStep]
          split_ifs <;> rfl
        exact ⟨hsame ▸ hw, hindered_same hs h hsame hblocked⟩
      · refine hindered_step hs h (fun u hu => ?_) hst hw hblocked
        simp [thread_handlerEvent he] at hu
      · refine hindered_step hs h (fun u hu => ?_) hst hw hblocked
        obtain rfl := Option.some.inj (ht.symm.trans hu)
        exact hf
      · exact ⟨hw, hindered_same hs h rfl hblocked⟩
    exact ⟨fun hend => hkept.1 (shutDown_of_step hs h hhandler hend).2, .inr hkept⟩

end SampLogCore.LogManager.CrashHandler
