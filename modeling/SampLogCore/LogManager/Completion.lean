import SampLogCore.Lib.Progress
import SampLogCore.LogManager.Wakeup

/-!
# What the running code gets done

Where no notification comes before the worker's first wait, the code that is running, without a new
call or a spurious wake-up, takes a bounded number of steps, in whatever order the threads take
them. When none of them can go on, every `Queue` call has returned, everything that had been queued
before the flag was cleared is executed, and the destructor has returned from its join if it had
been called (**`running_code_ends`**).

`workLeft` counts the steps that are left. A push makes work for the worker and a notification wakes
it, so the steps of `Queue` and of the destructor count more than those of the worker.
-/

namespace SampLogCore.LogManager.Completion

open SampLogCore.Lib.Transition SampLogCore.Lib.Progress SampLogCore.LogManager.Process
  SampLogCore.LogManager.Drain SampLogCore.LogManager.Wakeup

variable {Producer Msg : Type*}

/-! ### How much is left -/

def queueRank : QueuePc Msg → ℕ
  | .lock _ => 4
  | .push _ => 3
  | .unlock => 2
  | .notify => 1
  | .idle => 0

def destructorRank : DestructorPc → ℕ
  | .lock => 5
  | .clear => 4
  | .unlock => 3
  | .notify => 2
  | .join => 1
  | .idle | .joined => 0

def processRank {Action : Type*} : ProcessPc Action → ℕ
  | .unlock _ => 8
  | .run _ => 7
  | .waiting true => 6
  | .woken | .lock => 5
  | .testQueue | .unborn => 4
  | .start | .testRunning => 3
  | .wait => 2
  | .waiting false | .exited => 0

/-- How far the worker is from waiting, or from leaving. -/
def workerRank (s : State Producer Msg) : ℕ := 5 * s.queue.length + processRank s.worker

/-- The steps that are left, where only threads of `F` are in `Queue`. -/
def workLeft (F : Finset Producer) (s : State Producer Msg) : ℕ :=
  7 * (∑ p ∈ F, queueRank (s.producers p) + destructorRank s.destructor) + workerRank s

/-- Only threads of `F` are in `Queue`. -/
def Within (F : Finset Producer) (s : State Producer Msg) : Prop :=
  ∀ p, p ∉ F → s.producers p = .idle

variable {s t : State Producer Msg}

theorem workerRank_lt (h : processStep s = some t) : workerRank t < workerRank s := by
  rcases processStep_cases h with ⟨hw, -, rfl⟩ | ⟨hw, rfl⟩ | ⟨hw, rfl⟩ | ⟨hw, -, rfl⟩ |
    ⟨hw, -, rfl⟩ | ⟨a, q, hw, hq, rfl⟩ | ⟨a, hw, rfl⟩ | ⟨a, hw, rfl⟩ | ⟨hw, -, rfl⟩ | ⟨hw, -, rfl⟩
  · simp [workerRank, processRank, hw]
  · simp [workerRank, processRank, hw]
  · simp [workerRank, processRank, hw]
  · rcases hw with hw | hw <;> simp [workerRank, processRank, hw]
  · simp [workerRank, processRank, hw]
  · simp [workerRank, processRank, hw, hq]
    omega
  · simp [workerRank, processRank, hw]
  · simp [workerRank, processRank, hw]
  · simp [workerRank, processRank, hw]
  · simp [workerRank, processRank, hw]

theorem workerRank_notifyOne (s : State Producer Msg) :
    workerRank s.notifyOne ≤ workerRank s + 6 := by
  unfold workerRank
  rcases notifyOne_worker s with ⟨b, hb, hn⟩ | ⟨-, hn⟩
  · rw [hn]
    simp [processRank]
  · rw [hn]
    simp

variable [DecidableEq Producer]

/-- One thread of the sum takes a step. -/
theorem sum_queueRank_update {F : Finset Producer} {p : Producer} (hp : p ∈ F)
    (ps : Producer → QueuePc Msg) (c : QueuePc Msg) (h : queueRank (ps p) = queueRank c + 1) :
    ∑ q ∈ F, queueRank (Function.update ps p c q) + 1 = ∑ q ∈ F, queueRank (ps q) := by
  have hrest : ∑ q ∈ F.erase p, queueRank (Function.update ps p c q) =
      ∑ q ∈ F.erase p, queueRank (ps q) :=
    Finset.sum_congr rfl fun q hq => by rw [Function.update_of_ne (Finset.ne_of_mem_erase hq)]
  rw [← Finset.add_sum_erase F (fun q => queueRank (Function.update ps p c q)) hp,
    ← Finset.add_sum_erase F (fun q => queueRank (ps q)) hp, Function.update_self, hrest]
  omega

theorem workLeft_queueStep {F : Finset Producer} {p : Producer} (hF : Within F s)
    (h : queueStep s p = some t) : Within F t ∧ workLeft F t < workLeft F s := by
  have hp : p ∈ F := by
    by_contra hp
    simp [queueStep, hF p hp] at h
  have hother : ∀ pc, ∀ q, q ∉ F → Function.update s.producers p pc q = .idle := by
    intro pc q hq
    rw [Function.update_of_ne (fun heq : q = p => hq (heq ▸ hp))]
    exact hF q hq
  rcases queueStep_cases h with ⟨m, hpc, -, rfl⟩ | ⟨m, hpc, rfl⟩ | ⟨hpc, rfl⟩ | ⟨hpc, rfl⟩
  · refine ⟨hother _, ?_⟩
    have hsum := sum_queueRank_update hp s.producers (.push m) (by rw [hpc]; rfl)
    simp only [workLeft, workerRank]
    omega
  · -- the worker has five steps more
    refine ⟨hother _, ?_⟩
    have hsum := sum_queueRank_update hp s.producers .unlock (by rw [hpc]; rfl)
    simp only [workLeft, workerRank, List.length_append, List.length_singleton]
    omega
  · refine ⟨hother _, ?_⟩
    have hsum := sum_queueRank_update hp s.producers .notify (by rw [hpc]; rfl)
    simp only [workLeft, workerRank]
    omega
  · refine ⟨by simpa [Within] using hother .idle, ?_⟩
    have hsum := sum_queueRank_update hp s.producers .idle (by rw [hpc]; rfl)
    have hn := workerRank_notifyOne s
    simp only [workLeft, workerRank, notifyOne_destructor, notifyOne_queue] at hn ⊢
    omega

omit [DecidableEq Producer] in
theorem workLeft_destructorStep {F : Finset Producer} (hF : Within F s)
    (h : destructorStep s = some t) : Within F t ∧ workLeft F t < workLeft F s := by
  rcases destructorStep_cases h with ⟨hd, -, rfl⟩ | ⟨hd, rfl⟩ | ⟨hd, rfl⟩ | ⟨hd, rfl⟩ |
    ⟨hd, -, rfl⟩
  · exact ⟨hF, by simp [workLeft, destructorRank, workerRank, hd]⟩
  · exact ⟨hF, by simp [workLeft, destructorRank, workerRank, hd]⟩
  · exact ⟨hF, by simp [workLeft, destructorRank, workerRank, hd]⟩
  · refine ⟨fun p hp => by simpa using hF p hp, ?_⟩
    have hn := workerRank_notifyOne s
    simp only [workLeft, workerRank, destructorRank, notifyOne_producers, notifyOne_queue, hd]
      at hn ⊢
    omega
  · exact ⟨hF, by simp [workLeft, destructorRank, workerRank, hd]⟩

/-- **Every step of the running code leaves less to do.** -/
theorem workLeft_lt {F : Finset Producer} {e : Event Producer Msg} (hF : Within F s)
    (he : Inside e) (h : step s e = some t) : Within F t ∧ workLeft F t < workLeft F s := by
  cases e with
  | construct =>
    obtain ⟨hw, rfl⟩ := construct_cases h
    exact ⟨hF, by simp [workLeft, workerRank, processRank, hw]⟩
  | queue p => exact workLeft_queueStep hF h
  | process =>
    obtain ⟨-, -, hp, -, -, hd⟩ := processStep_frame h
    refine ⟨fun p hq => by rw [hp]; exact hF p hq, ?_⟩
    have hlt := workerRank_lt h
    simp only [workLeft, hp, hd]
    omega
  | destructor => exact workLeft_destructorStep hF h
  | call | spurious | destroy => exact absurd he id

/-- Finitely many threads are in `Queue`. -/
theorem exists_within (h : (system Producer Msg).Reachable s) : ∃ F, Within F s := by
  refine h.invariant (I := fun s => ∃ F, Within F s) ?_ ?_
  · rintro _ rfl
    exact ⟨∅, fun _ _ => rfl⟩
  · rintro s e t ⟨F, hF⟩ hst
    rcases step_cases hst with ⟨-, rfl⟩ | ⟨p, m, -, rfl⟩ | ⟨p, -, h⟩ | h | ⟨b, -, rfl⟩ | ⟨-, rfl⟩ |
      ⟨-, h⟩
    · exact ⟨F, hF⟩
    · refine ⟨insert p F, fun q hq => ?_⟩
      obtain ⟨hne, hq⟩ := not_or.mp (mt Finset.mem_insert.mpr hq)
      show Function.update s.producers p (.lock m) q = .idle
      rw [Function.update_of_ne hne]
      exact hF q hq
    · exact ⟨F, (workLeft_queueStep hF h).1⟩
    · obtain ⟨-, -, hp, -, -, -⟩ := processStep_frame h
      exact ⟨F, fun p hq => by rw [hp]; exact hF p hq⟩
    · exact ⟨F, hF⟩
    · exact ⟨F, hF⟩
    · exact ⟨F, (workLeft_destructorStep hF h).1⟩

/-! ### What the steps leave alone -/

/-- The flag is set until the destructor clears it, and the join ends with the worker gone. -/
structure EndInv (s : State Producer Msg) : Prop where
  flag : s.threadRunning = true ↔ s.destructor.Early
  joined : s.destructor = .joined → s.worker = .exited

theorem endInv_step {e : Event Producer Msg} (hi : EndInv s) (h : step s e = some t) :
    EndInv t := by
  obtain ⟨hf, hj⟩ := hi
  rcases step_cases h with ⟨hw, rfl⟩ | ⟨p, m, -, rfl⟩ | ⟨p, -, h⟩ | h | ⟨b, hw, rfl⟩ |
    ⟨hd, rfl⟩ | ⟨-, h⟩
  · exact ⟨hf, fun hd => by simp [hj hd] at hw⟩
  · exact ⟨hf, hj⟩
  · rcases queueStep_cases h with ⟨m, -, -, rfl⟩ | ⟨m, -, rfl⟩ | ⟨-, rfl⟩ | ⟨-, rfl⟩
    · exact ⟨hf, hj⟩
    · exact ⟨hf, hj⟩
    · exact ⟨hf, hj⟩
    · refine ⟨by simpa using hf, fun hd => ?_⟩
      exact (notifyOne_inHand s).2.2.mpr (hj (by simpa using hd))
  · obtain ⟨-, -, -, -, hr, hd⟩ := processStep_frame h
    refine ⟨by rw [hr, hd]; exact hf, fun hdj => ?_⟩
    rw [hd] at hdj
    have hexit := hj hdj
    simp [processStep, hexit] at h
  · exact ⟨hf, fun hd => by simp [hj hd] at hw⟩
  · rw [hd] at hf
    exact ⟨by simpa [DestructorPc.Early] using hf, by simp⟩
  · rcases destructorStep_cases h with ⟨hd, -, rfl⟩ | ⟨hd, rfl⟩ | ⟨hd, rfl⟩ | ⟨hd, rfl⟩ |
      ⟨hd, hw, rfl⟩ <;> rw [hd] at hf
    · exact ⟨by simpa [DestructorPc.Early] using hf, by simp⟩
    · exact ⟨by simp [DestructorPc.Early], by simp⟩
    · exact ⟨by simpa [DestructorPc.Early] using hf, by simp⟩
    · exact ⟨by simpa [DestructorPc.Early] using hf, by simp⟩
    · exact ⟨by simpa [DestructorPc.Early] using hf, fun _ => hw⟩

theorem endInv_of_reachable (h : (system Producer Msg).Reachable s) : EndInv s := by
  refine h.invariant (I := EndInv) ?_ fun _ _ _ hi hst => endInv_step hi hst
  rintro _ rfl
  exact ⟨by simp [initial, DestructorPc.Early], by simp [initial]⟩

/-- At the join the destructor has notified: the worker does not sleep without a notification. -/
theorem not_idle_of_join (h : (system Producer Msg).Reachable s) (hi : WakeInv s)
    (hd : s.destructor = .join) : ¬ Idle s.worker := by
  intro hidle
  have hflag : s.threadRunning = false := by
    have hearly := (endInv_of_reachable h).flag
    rw [hd] at hearly
    simpa [DestructorPc.Early] using hearly
  have hcovered := (hi.covered hidle).2 hflag
  simp [hd, DestructorPc.OwesNotify] at hcovered

theorem waited_mono {e : Event Producer Msg} (h : step s e = some t) (hw : s.waited = true) :
    t.waited = true := by
  rcases step_cases h with ⟨-, rfl⟩ | ⟨p, m, -, rfl⟩ | ⟨p, -, h⟩ | h | ⟨b, -, rfl⟩ |
    ⟨-, rfl⟩ | ⟨-, h⟩
  · exact hw
  · exact hw
  · rcases queueStep_cases h with ⟨m, -, -, rfl⟩ | ⟨m, -, rfl⟩ | ⟨-, rfl⟩ | ⟨-, rfl⟩ <;>
      simpa using hw
  · rcases processStep_cases h with ⟨-, -, rfl⟩ | ⟨-, rfl⟩ | ⟨-, rfl⟩ | ⟨-, -, rfl⟩ | ⟨-, -, rfl⟩ |
      ⟨a, q, -, -, rfl⟩ | ⟨a, -, rfl⟩ | ⟨a, -, rfl⟩ | ⟨-, -, rfl⟩ | ⟨-, -, rfl⟩ <;> simp [hw]
  · exact hw
  · exact hw
  · rcases destructorStep_cases h with ⟨-, -, rfl⟩ | ⟨-, rfl⟩ | ⟨-, rfl⟩ | ⟨-, rfl⟩ |
      ⟨-, -, rfl⟩ <;> simpa using hw

/-- The worker's place before it has entered its first wait. -/
def Early : ProcessPc (Action Producer Msg) → Prop
  | .unborn | .start | .wait => True
  | _ => False

theorem waited_of_reachable (h : (system Producer Msg).Reachable s) :
    Early s.worker ∨ s.waited = true := by
  refine h.invariant (I := fun s => Early s.worker ∨ s.waited = true) ?_ ?_
  · rintro _ rfl
    exact .inl trivial
  · intro s e t hs hst
    rcases hs.symm with hw | hearly
    · exact .inr (waited_mono hst hw)
    have hnotify : Early s.notifyOne.worker := by
      rcases notifyOne_worker s with ⟨b, hb, -⟩ | ⟨-, hn⟩
      · rw [hb] at hearly
        exact hearly.elim
      · rw [hn]
        exact hearly
    rcases step_cases hst with ⟨-, rfl⟩ | ⟨p, m, -, rfl⟩ | ⟨p, -, h⟩ | h | ⟨b, hb, rfl⟩ |
      ⟨-, rfl⟩ | ⟨-, h⟩
    · exact .inl trivial
    · exact .inl hearly
    · rcases queueStep_cases h with ⟨m, -, -, rfl⟩ | ⟨m, -, rfl⟩ | ⟨-, rfl⟩ | ⟨-, rfl⟩
      · exact .inl hearly
      · exact .inl hearly
      · exact .inl hearly
      · exact .inl hnotify
    · rcases processStep_cases h with ⟨-, -, rfl⟩ | ⟨-, rfl⟩ | ⟨hpc, rfl⟩ | ⟨hpc, -, rfl⟩ |
        ⟨hpc, -, rfl⟩ | ⟨a, q, hpc, -, rfl⟩ | ⟨a, hpc, rfl⟩ | ⟨a, hpc, rfl⟩ | ⟨hpc, -, rfl⟩ |
        ⟨hpc, -, rfl⟩
      · exact .inl trivial
      · exact .inr rfl
      · simp [hpc, Early] at hearly
      · rcases hpc with hpc | hpc <;> simp [hpc, Early] at hearly
      all_goals simp [hpc, Early] at hearly
    · simp [hb, Early] at hearly
    · exact .inl hearly
    · rcases destructorStep_cases h with ⟨-, -, rfl⟩ | ⟨-, rfl⟩ | ⟨-, rfl⟩ | ⟨-, rfl⟩ | ⟨-, -, rfl⟩
      · exact .inl hearly
      · exact .inl hearly
      · exact .inl hearly
      · exact .inl hnotify
      · exact .inl hearly

/-- What is pushed stays, and the flag is cleared with what is pushed. -/
theorem pushed_mono {e : Event Producer Msg} (h : step s e = some t) : s.pushed <+: t.pushed ∧
    (t.cleared = s.cleared ∨
      t.cleared = some s.pushed ∧ s.destructor = .clear ∧ t.pushed = s.pushed) := by
  rcases step_cases h with ⟨-, rfl⟩ | ⟨p, m, -, rfl⟩ | ⟨p, -, h⟩ | h | ⟨b, -, rfl⟩ |
    ⟨-, rfl⟩ | ⟨-, h⟩
  · exact ⟨List.prefix_rfl, .inl rfl⟩
  · exact ⟨List.prefix_rfl, .inl rfl⟩
  · rcases queueStep_cases h with ⟨m, -, -, rfl⟩ | ⟨m, -, rfl⟩ | ⟨-, rfl⟩ | ⟨-, rfl⟩ <;> simp
  · obtain ⟨-, hp, -, hc, -, -⟩ := processStep_frame h
    rw [hp, hc]
    exact ⟨List.prefix_rfl, .inl rfl⟩
  · exact ⟨List.prefix_rfl, .inl rfl⟩
  · exact ⟨List.prefix_rfl, .inl rfl⟩
  · rcases destructorStep_cases h with ⟨-, -, rfl⟩ | ⟨hd, rfl⟩ | ⟨-, rfl⟩ | ⟨-, rfl⟩ |
      ⟨-, -, rfl⟩ <;> simp
    exact .inr hd

/-- What had been queued before the flag is cleared stays queued, and is cleared with it. -/
def KeepsPushed (s t : State Producer Msg) : Prop :=
  s.cleared = none → s.pushed <+: t.pushed ∧ ∀ l, t.cleared = some l → s.pushed <+: l

omit [DecidableEq Producer] in
theorem KeepsPushed.refl (s : State Producer Msg) : KeepsPushed s s := by
  refine fun hc => ⟨List.prefix_rfl, fun l hl => ?_⟩
  rw [hc] at hl
  simp at hl

theorem KeepsPushed.next {u : State Producer Msg} {e : Event Producer Msg} (hk : KeepsPushed s t)
    (h : step t e = some u) : KeepsPushed s u := by
  intro hc
  obtain ⟨hpushed, hcleared⟩ := hk hc
  obtain ⟨hmono, heq | ⟨heq, -, -⟩⟩ := pushed_mono h
  · exact ⟨hpushed.trans hmono, fun l hl => hcleared l (heq ▸ hl)⟩
  · refine ⟨hpushed.trans hmono, fun l hl => ?_⟩
    obtain rfl := Option.some.inj (heq.symm.trans hl)
    exact hpushed

/-- When the worker has left it is executed. -/
theorem KeepsPushed.executed (hk : KeepsPushed s t) (hi : DataInv t)
    (hw : t.worker = .exited) (hc : s.cleared = none) : s.pushed <+: t.executed := by
  obtain ⟨l, hl, hexecuted⟩ := hi.drained hw
  exact ((hk hc).2 l hl).trans hexecuted

/-! ### When nobody can go on -/

/-- What the running code has got done when it stops in `t`, from `s` on. -/
structure Done (s t : State Producer Msg) : Prop where
  calls : ∀ p, t.producers p = .idle
  joins : s.destructor ≠ .idle → t.destructor = .joined
  executed : s.cleared = none → s.pushed <+: t.executed
  drained : ∀ l, t.cleared = some l → l <+: t.executed

/-- Nobody can go on without a new call or a spurious wake-up. -/
def Stopped (s : State Producer Msg) : Prop :=
  ∀ e t, Inside e → Timely s e → step s e ≠ some t

omit [DecidableEq Producer] in
theorem timely_of_waited {e : Event Producer Msg} (hw : s.waited = true) : Timely s e :=
  fun _ => hw

omit [DecidableEq Producer] in
theorem timely_process : Timely s .process := by
  rintro (⟨p, h, -⟩ | ⟨h, -⟩) <;> simp at h

/-- Nobody holds the mutex then. -/
theorem Stopped.free (hs : Stopped s) (hl : LockInv s) : s.queueMtx = none := by
  obtain ⟨hw, hp, hd⟩ := holder_goes hl
  cases ho : s.queueMtx with
  | none => rfl
  | some o =>
    cases o with
    | worker =>
      obtain ⟨t, ht⟩ := hw ho
      exact absurd ht (hs .process t trivial timely_process)
    | producer p =>
      obtain ⟨t, ht⟩ := hp p ho
      have hheld := (hl.producer p).mpr ho
      refine absurd ht (hs (.queue p) t trivial ?_)
      rintro (⟨q, hq, hnotify⟩ | ⟨h, -⟩)
      · obtain rfl : p = q := by simpa using hq
        simp [hnotify, QueuePc.Holds] at hheld
      · simp at h
    | destructor =>
      obtain ⟨t, ht⟩ := hd ho
      have hheld := hl.destructor.mpr ho
      refine absurd ht (hs .destructor t trivial ?_)
      rintro (⟨q, hq, -⟩ | ⟨-, hnotify⟩)
      · simp at hq
      · simp [hnotify, DestructorPc.Holds] at hheld

/-- The worker sleeps then, or has left. -/
theorem Stopped.worker (hs : Stopped s) (hl : LockInv s) :
    s.worker = .waiting false ∨ s.worker = .exited := by
  have hborn : s.worker ≠ .unborn := by
    intro hw
    refine absurd (show step s .construct = some { s with worker := .start } by simp [step, hw])
      (hs .construct _ trivial ?_)
    rintro (⟨p, h, -⟩ | ⟨h, -⟩) <;> simp at h
  by_contra hne
  obtain ⟨hsleep, hexit⟩ := not_or.mp hne
  obtain ⟨t, ht⟩ := exists_processStep hborn hsleep hexit fun _ => hs.free hl
  exact hs .process t trivial timely_process ht

/-- Every `Queue` call has returned then, and the destructor if it has been called. -/
theorem Stopped.returned (hs : Stopped s) (hreach : (system Producer Msg).Reachable s)
    (hi : WakeInv s) : (∀ p, s.producers p = .idle) ∧
      (s.destructor = .idle ∨ s.destructor = .joined) := by
  have hl := (reachable_inv hreach).1
  have hm := hs.free hl
  have hworker := hs.worker hl
  have hwaited : s.waited = true := by
    refine (waited_of_reachable hreach).resolve_left fun hearly => ?_
    rcases hworker with hw | hw <;> simp [hw, Early] at hearly
  constructor
  · intro p
    by_contra hp
    obtain ⟨t, ht⟩ := exists_queueStep hp fun _ _ => hm
    exact hs (.queue p) t trivial (timely_of_waited hwaited) ht
  · by_contra hne
    obtain ⟨hidle, hjoined⟩ := not_or.mp hne
    have hjoin : s.destructor = .join → s.worker = .exited := fun hd =>
      hworker.resolve_left fun hw => not_idle_of_join hreach hi hd (by simp [hw, Idle])
    obtain ⟨t, ht⟩ := exists_destructorStep hidle hjoined (fun _ => hm) hjoin
    exact hs .destructor t trivial (timely_of_waited hwaited) ht

/-- What is kept by the steps from `s` to `t`. -/
structure Onward (s t : State Producer Msg) : Prop where
  reachable : ((system Producer Msg).restrict Timely).Reachable t
  called : s.destructor ≠ .idle → t.destructor ≠ .idle
  pushed : KeepsPushed s t

theorem called_mono {e : Event Producer Msg} (h : step s e = some t) (hd : s.destructor ≠ .idle) :
    t.destructor ≠ .idle := by
  rcases step_cases h with ⟨-, rfl⟩ | ⟨p, m, -, rfl⟩ | ⟨p, -, h⟩ | h | ⟨b, -, rfl⟩ |
    ⟨-, rfl⟩ | ⟨-, h⟩
  · exact hd
  · exact hd
  · rcases queueStep_cases h with ⟨m, -, -, rfl⟩ | ⟨m, -, rfl⟩ | ⟨-, rfl⟩ | ⟨-, rfl⟩ <;>
      simpa using hd
  · obtain ⟨-, -, -, -, -, hkept⟩ := processStep_frame h
    rw [hkept]
    exact hd
  · exact hd
  · simp
  · rcases destructorStep_cases h with ⟨-, -, rfl⟩ | ⟨-, rfl⟩ | ⟨-, rfl⟩ | ⟨-, rfl⟩ |
      ⟨-, -, rfl⟩ <;> simp

theorem Onward.next {u : State Producer Msg} {e : Event Producer Msg} (ho : Onward s t)
    (h : ((system Producer Msg).restrict Timely).Step t e u) : Onward s u :=
  ⟨ho.reachable.next h, fun hd => called_mono h.2 (ho.called hd), ho.pushed.next h.2⟩

theorem done_of_stopped (ho : Onward s t) (hs : Stopped t) : Done s t := by
  have hreach := ho.reachable.of_restrict
  obtain ⟨hl, hdata⟩ := reachable_inv hreach
  have hi : WakeInv t := ho.reachable.invariant_restrict (fun _ h => (reachable_inv h).1)
    (fun _ h => h ▸ wakeInv_initial) (fun _ _ _ hl hi hc h => wakeInv_step hl hi hc h)
  obtain ⟨hcalls, hd⟩ := hs.returned hreach hi
  have hjoins : s.destructor ≠ .idle → t.destructor = .joined :=
    fun hcalled => hd.resolve_left (ho.called hcalled)
  rcases hs.worker hl with hw | hw
  · -- nobody owes a notification, so the queue is empty
    have hq : t.queue = [] := by
      by_contra hq
      obtain ⟨p, hp⟩ := (hi.covered (by simp [hw, Idle])).1 hq
      simp [hcalls p, QueuePc.OwesNotify] at hp
    have hall : t.pushed = t.executed := by
      have horder := hdata.order
      rw [hw, hq] at horder
      simpa [ProcessPc.inHand] using horder
    exact ⟨hcalls, hjoins, fun hc => hall ▸ (ho.pushed hc).1,
      fun l hl => hall ▸ hdata.clearedPrefix l hl⟩
  · refine ⟨hcalls, hjoins, ho.pushed.executed hdata hw, fun l hl => ?_⟩
    obtain ⟨l', hl', hexecuted⟩ := hdata.drained hw
    obtain rfl := Option.some.inj (hl.symm.trans hl')
    exact hexecuted

/-- While the running code has not stopped, somebody takes a step of it. -/
theorem exists_of_not_stopped (h : ¬ Stopped s) :
    ∃ e t, Inside e ∧ ((system Producer Msg).restrict Timely).Step s e t := by
  unfold Stopped at h
  simp only [not_forall, not_not] at h
  obtain ⟨e, t, hinside, htimely, hst⟩ := h
  exact ⟨e, t, hinside, htimely, hst⟩

/-- **The running code comes to its end, with everything done.** From every state of a run whose
notifications all come after the worker's first wait, the running code takes a bounded number of
steps. When it stops, every `Queue` call has returned, the join has ended if the destructor had been
called, and everything that had been queued, or was queued before the flag was cleared, is executed;
and it does get there. -/
theorem running_code_ends (h : ((system Producer Msg).restrict Timely).Reachable s) :
    (∃ n, ∀ r, ((system Producer Msg).restrict Timely).IsRun s r → (∀ p ∈ r, Inside p.1) →
      r.length ≤ n ∧ (Stopped (endOf s r) → Done s (endOf s r))) ∧
    ∃ r, ((system Producer Msg).restrict Timely).IsRun s r ∧ (∀ p ∈ r, Inside p.1) ∧
      Done s (endOf s r) := by
  obtain ⟨F, hF⟩ := exists_within h.of_restrict
  have hstart : Onward s s := ⟨h, id, .refl s⟩
  constructor
  · refine ⟨workLeft F s, fun r hr hinside => ?_⟩
    obtain ⟨-, hle⟩ := length_le_of_measure (I := Within F)
      (S := (system Producer Msg).restrict Timely)
      (fun t e u ht he hst => workLeft_lt ht he hst.2) hF hr hinside
    refine ⟨hle, fun hstopped => done_of_stopped ?_ hstopped⟩
    exact (along_run (I := Onward s) (fun t e u ht hst => ht.next hst) hstart hr).1
  · refine exists_run (S := (system Producer Msg).restrict Timely)
      (fun t => Onward s t ∧ Within F t) (Done s) Inside (workLeft F) ?_ s ⟨hstart, hF⟩
    rintro t ⟨ht, hwithin⟩ hdone
    obtain ⟨e, u, he, hst⟩ := exists_of_not_stopped fun hstopped =>
      hdone (done_of_stopped ht hstopped)
    obtain ⟨hwithin', hlt⟩ := workLeft_lt hwithin he hst.2
    exact ⟨e, u, he, hst, ⟨ht.next hst, hwithin'⟩, hlt⟩

/-- A message is pushed to the sleeping worker and the destructor called: the running code executes
the message and returns from the join. -/
theorem running_code_ends_shutdown : ∃ s t : State ℕ ℕ, s.worker = .waiting false ∧
    s.queue = [⟨0, 7⟩] ∧ s.destructor = .lock ∧ t.destructor = .joined ∧
      s.pushed <+: t.executed := by
  have hwaiting : ((system ℕ ℕ).restrict Timely).Reachable _ := reachable_waiting
  obtain ⟨-, r, -, -, hdone⟩ := running_code_ends (.next (e := .destroy) (.next (e := .queue 0)
    (.next (e := .queue 0) (.next (e := .call 0 7) hwaiting ⟨fun _ => rfl, rfl⟩)
    ⟨fun _ => rfl, rfl⟩) ⟨fun _ => rfl, rfl⟩) ⟨fun _ => rfl, rfl⟩)
  exact ⟨_, _, rfl, rfl, rfl, hdone.joins (by simp), hdone.executed rfl⟩

end SampLogCore.LogManager.Completion
