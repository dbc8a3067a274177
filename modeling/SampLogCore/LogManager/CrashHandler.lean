import SampLogCore.LogManager.Completion

/-!
# The crash handler

On Unix `LogManager` installs `SignalHandler`. The first signal that any thread catches logs two
messages on that thread and destroys the `LogManager`; a thread that catches a later one sleeps for
ever. While the handler runs, the thread that it has interrupted does not go on.

So there is a thread more that logs, the handler (the producer `none`), and there are threads that
are *frozen* where they are, with the mutexes that they hold. An action takes `_configLock`, so the
worker waits for a thread that is frozen with it; the holder of `_configLock` may wait for
`_rotationEntriesLock` in turn. What the holders of these two still do before they release them is
part of the state.

The signals come at any time after the `LogManager` is published, and nobody else destroys it.
-/

namespace SampLogCore.LogManager.CrashHandler

open SampLogCore.Lib.Transition SampLogCore.Lib.Progress SampLogCore.LogManager.Process
  SampLogCore.LogManager.Drain SampLogCore.LogManager.Wakeup SampLogCore.LogManager.Completion

/-- A thread that catches a signal. One that has nothing to do with the library counts as one that
logs and is not in `Queue`. -/
inductive Thread (Producer : Type*)
  | worker
  | producer (p : Producer)
  deriving DecidableEq

/-- Where the first signal is in `SignalHandler`. -/
inductive HandlerPc (Msg : Type*)
  /-- no signal has been caught -/
  | idle
  /-- at the `LogInternal` of the first of these messages; at `Destroy` when there is none -/
  | log (rest : List Msg)
  /-- in `Queue`, with these messages to come -/
  | queueing (rest : List Msg)
  /-- in the destructor -/
  | destroying
  /-- the worker is joined -/
  | shutDown

/-- What a thread does while it holds `_configLock`. -/
inductive Task (Msg : Type*)
  /-- `LogInternal` -/
  | log (m : Msg)
  /-- the callback of a logger: `RegisterLogFile`, under `_rotationEntriesLock` -/
  | register

variable {Producer Msg : Type*}

/-- The `LogManager`, the two other mutexes, and what signals have done. -/
structure Crash (Producer Msg : Type*) where
  manager : Process.State (Option Producer) Msg
  /-- the holder of `_configLock`, and what it still does before it releases it -/
  config : Option (Producer × List (Task Msg))
  /-- the holder of `_rotationEntriesLock` that does not hold `_configLock`, and what it still logs
  before it releases it -/
  rotation : Option (Producer × List Msg)
  first_exit : ℕ
  /-- the thread on which the handler of the first signal runs -/
  interrupted : Option (Thread Producer)
  /-- the threads that have caught a later signal -/
  asleep : Thread Producer → Bool
  handler : HandlerPc Msg

/-- What can happen. -/
inductive Event (Producer Msg : Type*)
  /-- the thread `t` catches a signal -/
  | signal (t : Thread Producer)
  /-- a thread that is not frozen takes a step in `LogManager` -/
  | manager (e : Process.Event (Option Producer) Msg)
  /-- the handler takes its next step -/
  | handler
  /-- the thread `p` takes `_configLock`, and has these things to do with it -/
  | lockConfig (p : Producer) (tasks : List (Task Msg))
  /-- the holder of `_configLock` does the next of them, or releases it -/
  | config
  /-- the thread `p` takes `_rotationEntriesLock`, and logs these messages with it -/
  | lockRotation (p : Producer) (messages : List Msg)
  /-- the holder of `_rotationEntriesLock` logs the next of them, or releases it -/
  | rotation

/-- The thread stays where it is: the handler runs on it, or it sleeps. -/
def Frozen (c : Crash Producer Msg) (t : Thread Producer) : Prop :=
  c.interrupted = some t ∨ c.asleep t = true

/-- The thread on which the handler runs has caught another signal. -/
def HandlerAsleep (c : Crash Producer Msg) : Prop :=
  ∃ t, c.interrupted = some t ∧ c.asleep t = true

/-- The thread that takes the step, of those that a signal can freeze. -/
def thread : Process.Event (Option Producer) Msg → Option (Thread Producer)
  | .call (some p) _ | .queue (some p) => some (.producer p)
  | .process | .spurious => some .worker
  | _ => none

/-- What the handler does next. -/
def handlerEvent : HandlerPc Msg → Option (Process.Event (Option Producer) Msg)
  | .log (m :: _) => some (.call none m)
  | .log [] => some .destroy
  | .queueing _ => some (.queue none)
  | .destroying => some .destructor
  | .idle | .shutDown => none

/-- Where the handler is then. -/
def handlerNext (s : Process.State (Option Producer) Msg) : HandlerPc Msg → HandlerPc Msg
  | .log (_ :: rest) => .queueing rest
  | .log [] => .destroying
  | .queueing rest =>
    match s.producers none with
    | .idle => .log rest
    | _ => .queueing rest
  | .destroying =>
    match s.destructor with
    | .joined => .shutDown
    | _ => .destroying
  | pc => pc

/-- The worker is at `action()`. -/
def atAction : ProcessPc (Action (Option Producer) Msg) → Bool
  | .run _ => true
  | _ => false

variable [DecidableEq Producer]

instance (c : Crash Producer Msg) (t : Thread Producer) : Decidable (Frozen c t) := by
  unfold Frozen
  infer_instance

/-- Whether the handler's thread sleeps. -/
def handlerSleeps (c : Crash Producer Msg) : Bool := c.interrupted.any c.asleep

/-- Whether the thread holds `_configLock` or `_rotationEntriesLock`. -/
def holdsLock (c : Crash Producer Msg) (p : Producer) : Bool :=
  c.config.any (·.1 = p) || c.rotation.any (·.1 = p)

/-- The steps that the locks do not allow: what a holder logs is among its tasks, and the action
waits for `_configLock`. -/
def barred (c : Crash Producer Msg) : Process.Event (Option Producer) Msg → Bool
  | .call (some p) _ => holdsLock c p
  | .process => atAction c.manager.worker && c.config.isSome
  | _ => false

/-- `SignalHandler`, up to where the handler of the first signal goes on. `messages` is what that
one logs. -/
def signalStep (messages : List Msg) (c : Crash Producer Msg) (t : Thread Producer) :
    Crash Producer Msg :=
  if c.first_exit = 0 then
    { c with first_exit := 1, interrupted := some t, handler := .log messages }
  else
    { c with first_exit := c.first_exit + 1, asleep := Function.update c.asleep t true }

/-- The holder of `_configLock` goes on. A `RegisterLogFile` takes and releases
`_rotationEntriesLock`. -/
def configStep (c : Crash Producer Msg) : Option (Crash Producer Msg) :=
  match c.config with
  | none => none
  | some (p, tasks) =>
    if Frozen c (.producer p) then none
    else
      match c.manager.producers (some p), tasks with
      | .idle, [] => some { c with config := none }
      | .idle, .log m :: rest =>
        (Process.step c.manager (.call (some p) m)).map fun s =>
          { c with manager := s, config := some (p, rest) }
      | .idle, .register :: rest =>
        match c.rotation with
        | none => some { c with config := some (p, rest) }
        | some _ => none
      | _, _ => none

/-- The holder of `_rotationEntriesLock` goes on. -/
def rotationStep (c : Crash Producer Msg) : Option (Crash Producer Msg) :=
  match c.rotation with
  | none => none
  | some (p, messages) =>
    if Frozen c (.producer p) then none
    else
      match c.manager.producers (some p), messages with
      | .idle, [] => some { c with rotation := none }
      | .idle, m :: rest =>
        (Process.step c.manager (.call (some p) m)).map fun s =>
          { c with manager := s, rotation := some (p, rest) }
      | _, _ => none

/-- **One step of the server.** -/
def step (messages : List Msg) (c : Crash Producer Msg) :
    Event Producer Msg → Option (Crash Producer Msg)
  | .signal t =>
    match t, c.manager.worker with
    | .worker, .exited => none
    | _, _ => some (signalStep messages c t)
  | .manager e =>
    match thread e with
    | some t =>
      if Frozen c t ∨ barred c e = true then none
      else (Process.step c.manager e).map fun s => { c with manager := s }
    | none => none
  | .handler =>
    if handlerSleeps c then none
    else
      (handlerEvent c.handler).bind fun e =>
        (Process.step c.manager e).map fun s =>
          { c with manager := s, handler := handlerNext s c.handler }
  | .lockConfig p tasks =>
    match c.config, c.manager.producers (some p) with
    | none, .idle =>
      if Frozen c (.producer p) ∨ holdsLock c p = true then none
      else some { c with config := some (p, tasks) }
    | _, _ => none
  | .config => configStep c
  | .lockRotation p ms =>
    match c.rotation, c.manager.producers (some p) with
    | none, .idle =>
      if Frozen c (.producer p) ∨ holdsLock c p = true then none
      else some { c with rotation := some (p, ms) }
    | _, _ => none
  | .rotation => rotationStep c

/-- A server before any signal: there is a `LogManager`, and nobody destroys it. -/
structure Running (c : Crash Producer Msg) : Prop where
  reachable : (Process.system (Option Producer) Msg).Reachable c.manager
  published : c.manager.worker ≠ .unborn
  alive : c.manager.destructor = .idle
  handler : c.manager.producers none = .idle
  silent : c.manager.called none = []
  apart : ∀ p tasks ms, c.config = some (p, tasks) → c.rotation ≠ some (p, ms)
  first_exit : c.first_exit = 0
  interrupted : c.interrupted = none
  asleep : ∀ t, c.asleep t = false
  idle : c.handler = .idle

/-- **The server with its signals.** -/
def system (messages : List Msg) : System (Crash Producer Msg) (Event Producer Msg) :=
  ofStep Running (step messages)

/-! ### The inversion of the steps -/

variable {messages : List Msg} {c c' : Crash Producer Msg}

omit [DecidableEq Producer] in
theorem handlerSleeps_iff : handlerSleeps c = true ↔ HandlerAsleep c := by
  unfold handlerSleeps HandlerAsleep
  cases c.interrupted <;> simp

theorem configStep_cases (h : configStep c = some c') : ∃ p tasks, c.config = some (p, tasks) ∧
    ¬ Frozen c (.producer p) ∧ c.manager.producers (some p) = .idle ∧
    ((tasks = [] ∧ c' = { c with config := none }) ∨
      (∃ rest, tasks = .register :: rest ∧ c.rotation = none ∧
        c' = { c with config := some (p, rest) }) ∨
      ∃ m rest s, tasks = .log m :: rest ∧
        Process.step c.manager (.call (some p) m) = some s ∧
        c' = { c with manager := s, config := some (p, rest) }) := by
  unfold configStep at h
  split at h
  · simp at h
  · next p tasks hc =>
    split_ifs at h with hf
    refine ⟨p, tasks, hc, hf, ?_⟩
    split at h
    · next hp => exact ⟨hp, .inl ⟨rfl, (Option.some.inj h).symm⟩⟩
    · next hp =>
      obtain ⟨s, hs, rfl⟩ := Option.map_eq_some_iff.mp h
      exact ⟨hp, .inr (.inr ⟨_, _, s, rfl, hs, rfl⟩)⟩
    · next hp =>
      split at h
      · next hr => exact ⟨hp, .inr (.inl ⟨_, rfl, hr, (Option.some.inj h).symm⟩)⟩
      · simp at h
    · simp at h

theorem rotationStep_cases (h : rotationStep c = some c') : ∃ p ms, c.rotation = some (p, ms) ∧
    ¬ Frozen c (.producer p) ∧ c.manager.producers (some p) = .idle ∧
    ((ms = [] ∧ c' = { c with rotation := none }) ∨
      ∃ m rest s, ms = m :: rest ∧ Process.step c.manager (.call (some p) m) = some s ∧
        c' = { c with manager := s, rotation := some (p, rest) }) := by
  unfold rotationStep at h
  split at h
  · simp at h
  · next p ms hc =>
    split_ifs at h with hf
    refine ⟨p, ms, hc, hf, ?_⟩
    split at h
    · next hp => exact ⟨hp, .inl ⟨rfl, (Option.some.inj h).symm⟩⟩
    · next hp =>
      obtain ⟨s, hs, rfl⟩ := Option.map_eq_some_iff.mp h
      exact ⟨hp, .inr ⟨_, _, s, rfl, hs, rfl⟩⟩
    · simp at h

/-- **What a step can do.** -/
theorem step_cases {e : Event Producer Msg} (h : step messages c e = some c') :
    (∃ t, e = .signal t ∧ ¬ (t = .worker ∧ c.manager.worker = .exited) ∧
      c' = signalStep messages c t) ∨
    (∃ e' t s, e = .manager e' ∧ thread e' = some t ∧ ¬ Frozen c t ∧ barred c e' = false ∧
      Process.step c.manager e' = some s ∧ c' = { c with manager := s }) ∨
    (∃ e' s, e = .handler ∧ ¬ HandlerAsleep c ∧ handlerEvent c.handler = some e' ∧
      Process.step c.manager e' = some s ∧
      c' = { c with manager := s, handler := handlerNext s c.handler }) ∨
    (∃ p tasks, e = .lockConfig p tasks ∧ c.config = none ∧
      c' = { c with config := some (p, tasks) }) ∨
    (e = .config ∧ configStep c = some c') ∨
    (∃ p ms, e = .lockRotation p ms ∧ c.rotation = none ∧
      c' = { c with rotation := some (p, ms) }) ∨
    (e = .rotation ∧ rotationStep c = some c') := by
  cases e with
  | signal t =>
    refine .inl ⟨t, rfl, ?_, ?_⟩
    · rintro ⟨rfl, hw⟩
      simp [step, hw] at h
    · simp only [step] at h
      split at h
      · simp at h
      · exact (Option.some.inj h).symm
  | manager e =>
    refine .inr (.inl ?_)
    simp only [step] at h
    split at h
    · next t ht =>
      split_ifs at h with hf
      obtain ⟨hf, hb⟩ := not_or.mp hf
      obtain ⟨s, hs, rfl⟩ := Option.map_eq_some_iff.mp h
      exact ⟨e, t, s, rfl, ht, hf, by simpa using hb, hs, rfl⟩
    · simp at h
  | handler =>
    refine .inr (.inr (.inl ?_))
    simp only [step] at h
    split_ifs at h with hsleep
    obtain ⟨e', he', h⟩ := Option.bind_eq_some_iff.mp h
    obtain ⟨s, hs, rfl⟩ := Option.map_eq_some_iff.mp h
    exact ⟨e', s, rfl, fun hasleep => hsleep (handlerSleeps_iff.mpr hasleep), he', hs, rfl⟩
  | lockConfig p tasks =>
    refine .inr (.inr (.inr (.inl ⟨p, tasks, rfl, ?_⟩)))
    simp only [step] at h
    split at h
    · next hc hp =>
      split_ifs at h
      exact ⟨hc, (Option.some.inj h).symm⟩
    · simp at h
  | config => exact .inr (.inr (.inr (.inr (.inl ⟨rfl, h⟩))))
  | lockRotation p ms =>
    refine .inr (.inr (.inr (.inr (.inr (.inl ⟨p, ms, rfl, ?_⟩)))))
    simp only [step] at h
    split at h
    · next hr hp =>
      split_ifs at h
      exact ⟨hr, (Option.some.inj h).symm⟩
    · simp at h
  | rotation => exact .inr (.inr (.inr (.inr (.inr (.inr ⟨rfl, h⟩)))))

/-- The steps apart from what they do to the two other mutexes. -/
theorem step_kinds {e : Event Producer Msg} (h : step messages c e = some c') :
    (∃ t, c' = signalStep messages c t) ∨
    (∃ e' s, ¬ HandlerAsleep c ∧ handlerEvent c.handler = some e' ∧
      Process.step c.manager e' = some s ∧
      c' = { c with manager := s, handler := handlerNext s c.handler }) ∨
    (∃ e' t s config rotation, thread e' = some t ∧ ¬ Frozen c t ∧
      (e' = .process → atAction c.manager.worker = true → c.config = none) ∧
      Process.step c.manager e' = some s ∧
      c' = { c with manager := s, config := config, rotation := rotation }) ∨
    ∃ config rotation, c' = { c with config := config, rotation := rotation } := by
  rcases step_cases h with ⟨t, -, -, rfl⟩ | ⟨e', t, s, -, ht, hf, hb, hst, rfl⟩ |
    ⟨e', s, -, hawake, he, hst, rfl⟩ | ⟨p, tasks, -, -, rfl⟩ | ⟨-, h⟩ | ⟨p, ms, -, -, rfl⟩ | ⟨-, h⟩
  · exact .inl ⟨t, rfl⟩
  · refine .inr (.inr (.inl ⟨e', t, s, c.config, c.rotation, ht, hf, ?_, hst, rfl⟩))
    rintro rfl hact
    simpa [barred, hact] using hb
  · exact .inr (.inl ⟨e', s, hawake, he, hst, rfl⟩)
  · exact .inr (.inr (.inr ⟨_, _, rfl⟩))
  · obtain ⟨p, tasks, -, hf, -, h⟩ := configStep_cases h
    rcases h with ⟨-, rfl⟩ | ⟨rest, -, -, rfl⟩ | ⟨m, rest, s, -, hst, rfl⟩
    · exact .inr (.inr (.inr ⟨_, _, rfl⟩))
    · exact .inr (.inr (.inr ⟨_, _, rfl⟩))
    · exact .inr (.inr (.inl ⟨_, _, s, _, _, rfl, hf, by simp, hst, rfl⟩))
  · exact .inr (.inr (.inr ⟨_, _, rfl⟩))
  · obtain ⟨p, ms, -, hf, -, h⟩ := rotationStep_cases h
    rcases h with ⟨-, rfl⟩ | ⟨m, rest, s, -, hst, rfl⟩
    · exact .inr (.inr (.inr ⟨_, _, rfl⟩))
    · exact .inr (.inr (.inl ⟨_, _, s, _, _, rfl, hf, by simp, hst, rfl⟩))

/-! ### Where the handler is -/

/-- A thread's own step leaves the handler's place alone. -/
theorem frame_thread {s s' : Process.State (Option Producer) Msg}
    {e : Process.Event (Option Producer) Msg} {t : Thread Producer} (ht : thread e = some t)
    (h : Process.step s e = some s') : s'.producers none = s.producers none ∧
      s'.destructor = s.destructor ∧ s'.called none = s.called none := by
  rcases e with _ | ⟨p, m⟩ | p | _ | _ | _ | _
  · simp [thread] at ht
  · rcases p with _ | p
    · simp [thread] at ht
    · obtain ⟨-, rfl⟩ := call_cases h
      simp
  · rcases p with _ | p
    · simp [thread] at ht
    · rcases queueStep_cases (p := some p) h with ⟨m, -, -, rfl⟩ | ⟨m, -, rfl⟩ | ⟨-, rfl⟩ |
        ⟨-, rfl⟩ <;> simp
  · obtain ⟨hc, -, hp, -, -, hd⟩ := processStep_frame h
    exact ⟨by rw [hp], hd, by rw [hc]⟩
  · obtain ⟨b, -, rfl⟩ := spurious_cases h
    simp
  · simp [thread] at ht
  · simp [thread] at ht

/-- The messages that the handler has not passed to `Queue` yet. -/
def remaining : HandlerPc Msg → List Msg
  | .log rest | .queueing rest => rest
  | _ => []

/-- What the handler's place says about the `LogManager`. -/
def Place (s : Process.State (Option Producer) Msg) : HandlerPc Msg → Prop
  | .idle | .log _ => s.producers none = .idle ∧ s.destructor = .idle
  | .queueing _ => s.producers none ≠ .idle ∧ s.destructor = .idle
  | .destroying => s.producers none = .idle ∧ s.destructor ≠ .idle ∧ s.destructor ≠ .joined
  | .shutDown => s.producers none = .idle ∧ s.destructor = .joined

/-- What every reachable state of the server satisfies. -/
structure Sound (messages : List Msg) (c : Crash Producer Msg) : Prop where
  reachable : (Process.system (Option Producer) Msg).Reachable c.manager
  published : c.manager.worker ≠ .unborn
  place : Place c.manager c.handler
  first : c.first_exit = 0 ↔ c.handler = .idle
  interrupted : c.interrupted = none ↔ c.handler = .idle
  called : c.manager.called none ++ remaining c.handler = if c.first_exit = 0 then [] else messages

theorem published_mono {s s' : Process.State (Option Producer) Msg}
    {e : Process.Event (Option Producer) Msg} (h : Process.step s e = some s')
    (hw : s.worker ≠ .unborn) : s'.worker ≠ .unborn := by
  have hnotify : s.notifyOne.worker ≠ .unborn := by
    rcases notifyOne_worker s with ⟨b, -, hn⟩ | ⟨-, hn⟩ <;> rw [hn]
    · simp
    · exact hw
  rcases Drain.step_cases h with ⟨-, rfl⟩ | ⟨p, m, -, rfl⟩ | ⟨p, -, h⟩ | h | ⟨b, -, rfl⟩ |
    ⟨-, rfl⟩ | ⟨-, h⟩
  · simp
  · exact hw
  · rcases queueStep_cases h with ⟨m, -, -, rfl⟩ | ⟨m, -, rfl⟩ | ⟨-, rfl⟩ | ⟨-, rfl⟩
    · exact hw
    · exact hw
    · exact hw
    · exact hnotify
  · rcases processStep_cases h with ⟨-, -, rfl⟩ | ⟨-, rfl⟩ | ⟨-, rfl⟩ | ⟨-, -, rfl⟩ | ⟨-, -, rfl⟩ |
      ⟨a, q, -, -, rfl⟩ | ⟨a, -, rfl⟩ | ⟨a, -, rfl⟩ | ⟨-, -, rfl⟩ | ⟨-, -, rfl⟩ <;> simp
  · simp
  · exact hw
  · rcases destructorStep_cases h with ⟨-, -, rfl⟩ | ⟨-, rfl⟩ | ⟨-, rfl⟩ | ⟨-, rfl⟩ | ⟨-, -, rfl⟩
    · exact hw
    · exact hw
    · exact hw
    · exact hnotify
    · exact hw

/-- The handler's own steps. -/
theorem place_handler {s s' : Process.State (Option Producer) Msg} {pc : HandlerPc Msg}
    {e : Process.Event (Option Producer) Msg} (hplace : Place s pc) (he : handlerEvent pc = some e)
    (h : Process.step s e = some s') : Place s' (handlerNext s' pc) ∧ handlerNext s' pc ≠ .idle ∧
      s'.called none ++ remaining (handlerNext s' pc) = s.called none ++ remaining pc := by
  rcases pc with _ | (_ | ⟨m, rest⟩) | rest | _ | _
  · simp [handlerEvent] at he
  · -- the messages are logged: the destructor is called
    obtain rfl := Option.some.inj he
    obtain ⟨hp, -⟩ := hplace
    obtain ⟨-, rfl⟩ := destroy_cases h
    exact ⟨⟨hp, by simp, by simp⟩, by simp [handlerNext], rfl⟩
  · obtain rfl := Option.some.inj he
    obtain ⟨hp, hd⟩ := hplace
    obtain ⟨-, rfl⟩ := call_cases h
    exact ⟨⟨by simp, hd⟩, by simp [handlerNext], by simp [handlerNext, remaining]⟩
  · obtain rfl := Option.some.inj he
    obtain ⟨hp, hd⟩ := hplace
    rcases queueStep_cases h with ⟨m, -, -, rfl⟩ | ⟨m, -, rfl⟩ | ⟨-, rfl⟩ | ⟨-, rfl⟩
    · exact ⟨by simpa [handlerNext, Place] using hd, by simp [handlerNext],
        by simp [handlerNext, remaining]⟩
    · exact ⟨by simpa [handlerNext, Place] using hd, by simp [handlerNext],
        by simp [handlerNext, remaining]⟩
    · exact ⟨by simpa [handlerNext, Place] using hd, by simp [handlerNext],
        by simp [handlerNext, remaining]⟩
    · exact ⟨by simpa [handlerNext, Place] using hd, by simp [handlerNext],
        by simp [handlerNext, remaining]⟩
  · obtain rfl := Option.some.inj he
    obtain ⟨hp, -, -⟩ := hplace
    rcases destructorStep_cases h with ⟨-, -, rfl⟩ | ⟨-, rfl⟩ | ⟨-, rfl⟩ | ⟨-, rfl⟩ | ⟨-, -, rfl⟩
    · exact ⟨⟨hp, by simp, by simp⟩, by simp [handlerNext], rfl⟩
    · exact ⟨⟨hp, by simp, by simp⟩, by simp [handlerNext], rfl⟩
    · exact ⟨⟨hp, by simp, by simp⟩, by simp [handlerNext], rfl⟩
    · exact ⟨by simpa [handlerNext, Place] using hp, by simp [handlerNext],
        by simp [handlerNext, remaining]⟩
    · exact ⟨⟨hp, rfl⟩, by simp [handlerNext], rfl⟩
  · simp [handlerEvent] at he

theorem sound_signal {t : Thread Producer} (hs : Sound messages c) :
    Sound messages (signalStep messages c t) := by
  unfold signalStep
  split_ifs with hfirst
  · have hidle : c.handler = .idle := hs.first.mp hfirst
    have hplace := hs.place
    have hcalled := hs.called
    rw [hidle] at hplace hcalled
    rw [if_pos hfirst] at hcalled
    refine ⟨hs.reachable, hs.published, hplace, by simp, by simp, ?_⟩
    have hnil : c.manager.called none = [] := by simpa [remaining] using hcalled
    simp [hnil, remaining]
  · have hnot : c.handler ≠ .idle := fun hidle => hfirst (hs.first.mpr hidle)
    refine ⟨hs.reachable, hs.published, hs.place, by simpa using hnot, hs.interrupted, ?_⟩
    have hcalled := hs.called
    rw [if_neg hfirst] at hcalled
    simpa using hcalled

theorem sound_step {e : Event Producer Msg} (hs : Sound messages c)
    (h : step messages c e = some c') : Sound messages c' := by
  rcases step_kinds h with ⟨t, rfl⟩ | ⟨e', s, -, he, hst, rfl⟩ |
    ⟨e', t, s, _, _, ht, -, -, hst, rfl⟩ | ⟨_, _, rfl⟩
  · exact sound_signal hs
  · obtain ⟨hplace, hnot, hcalled⟩ := place_handler hs.place he hst
    have hhandler : c.handler ≠ .idle := by
      intro hidle
      rw [hidle] at he
      simp [handlerEvent] at he
    have hfirst : c.first_exit ≠ 0 := fun hzero => hhandler (hs.first.mp hzero)
    have hinterrupted : c.interrupted ≠ none := fun hnone => hhandler (hs.interrupted.mp hnone)
    refine ⟨hs.reachable.next hst, published_mono hst hs.published, hplace, ?_, ?_, ?_⟩
    · simp [hfirst, hnot]
    · simp [hinterrupted, hnot]
    · show s.called none ++ remaining (handlerNext s c.handler) = _
      rw [hcalled]
      exact hs.called
  · obtain ⟨hp, hd, hc⟩ := frame_thread ht hst
    refine ⟨hs.reachable.next hst, published_mono hst hs.published, ?_, hs.first,
      hs.interrupted, by rw [hc]; exact hs.called⟩
    have hplace := hs.place
    show Place s c.handler
    unfold Place at hplace ⊢
    rw [hp, hd]
    exact hplace
  · exact ⟨hs.reachable, hs.published, hs.place, hs.first, hs.interrupted, hs.called⟩

theorem sound_of_running (hc : Running c) : Sound messages c := by
  refine ⟨hc.reachable, hc.published, ?_, ?_, ?_, ?_⟩
  · rw [hc.idle]
    exact ⟨hc.handler, hc.alive⟩
  · simp [hc.first_exit, hc.idle]
  · simp [hc.interrupted, hc.idle]
  · simp [hc.silent, hc.idle, hc.first_exit, remaining]

theorem sound_of_reachable (h : (system messages).Reachable c) : Sound messages c :=
  h.invariant (I := Sound messages) (fun _ => sound_of_running) fun _ _ _ hs hst =>
    sound_step hs hst

/-! ### What the handler saves -/

/-- A step of the server is a step of the `LogManager`, or leaves it alone. -/
theorem manager_step {e : Event Producer Msg} (h : step messages c e = some c') :
    c'.manager = c.manager ∨ ∃ e', Process.step c.manager e' = some c'.manager := by
  rcases step_kinds h with ⟨t, rfl⟩ | ⟨e', s, -, -, hst, rfl⟩ |
    ⟨e', t, s, _, _, -, -, -, hst, rfl⟩ | ⟨_, _, rfl⟩
  · refine .inl ?_
    unfold signalStep
    split <;> rfl
  · exact .inr ⟨e', hst⟩
  · exact .inr ⟨e', hst⟩
  · exact .inl rfl

/-- The handler has passed all its messages to `Queue` when the flag is cleared. -/
theorem messages_pushed (hs : Sound messages c) (hd : c.manager.destructor = .clear) :
    messagesOf none c.manager.pushed = messages := by
  have hdata := (reachable_inv hs.reachable).2
  have hplace := hs.place
  have hhandler : c.handler = .destroying := by
    cases hpc : c.handler <;> rw [hpc] at hplace <;> simp [Place, hd] at hplace ⊢
  rw [hhandler] at hplace
  have hfirst : c.first_exit ≠ 0 := fun hzero => by
    rw [hs.first.mp hzero] at hhandler
    simp at hhandler
  have hcalled := hs.called
  rw [hhandler, if_neg hfirst, hdata.calls none, hplace.1] at hcalled
  simpa [remaining, QueuePc.inHand] using hcalled

/-- What was cleared has the handler's messages. -/
theorem messages_cleared (h : (system messages).Reachable c) :
    ∀ l, c.manager.cleared = some l → messagesOf none l = messages := by
  induction h with
  | init hc =>
    intro l hl
    have hdata := (reachable_inv hc.reachable).2
    rw [hdata.uncleared (by simp [hc.alive, DestructorPc.Early])] at hl
    simp at hl
  | next h hst ih =>
    have hs := sound_of_reachable h
    rcases manager_step hst with heq | ⟨e', hmst⟩
    · rw [heq]
      exact ih
    · rcases (pushed_mono hmst).2 with heq | ⟨heq, hd, -⟩
      · rw [heq]
        exact ih
      · intro l hl
        obtain rfl := Option.some.inj (heq.symm.trans hl)
        exact messages_pushed hs hd

/-- **Nothing is lost in a crash that shuts the server down.** When the handler has joined the
worker, everything that had been pushed before it called the destructor, the handler's own messages
last of what it logged, is executed once and in the order of the pushes. -/
theorem crash_drains {c₀ : Crash Producer Msg} (h₀ : (system messages).Reachable c₀)
    (hd : c₀.manager.destructor = .idle) {r : List (Event Producer Msg × Crash Producer Msg)}
    (hr : (system messages).IsRun c₀ r) (hend : (endOf c₀ r).handler = .shutDown) :
    c₀.manager.pushed <+: (endOf c₀ r).manager.executed ∧
      (endOf c₀ r).manager.executed <+: (endOf c₀ r).manager.pushed ∧
      messagesOf none (endOf c₀ r).manager.executed = messages ∧
      ∀ p, messagesOf (some p) (endOf c₀ r).manager.executed <+:
        (endOf c₀ r).manager.called (some p) := by
  have hreach :=
    (along_run (I := (system messages).Reachable) (fun _ _ _ h hst => h.next hst) h₀ hr).1
  have hsound := sound_of_reachable hreach
  have hbase := hsound.reachable
  have hplace := hsound.place
  rw [hend] at hplace
  have hexited := (endInv_of_reachable hbase).joined hplace.2
  have hkept := (along_run (I := fun x : Crash Producer Msg => KeepsPushed c₀.manager x.manager)
    (fun x e y hx hst => by
      rcases manager_step hst with heq | ⟨e', hmst⟩
      · rw [heq]
        exact hx
      · exact hx.next hmst) (.refl _) hr).1
  have hnone : c₀.manager.cleared = none :=
    (reachable_inv (sound_of_reachable h₀).reachable).2.uncleared (by simp [hd, DestructorPc.Early])
  obtain ⟨l, hl, hexecuted⟩ := (reachable_inv hbase).2.drained hexited
  have hprefix := executed_prefix_pushed hbase
  refine ⟨hkept.executed (reachable_inv hbase).2 hexited hnone, hprefix, ?_,
    fun p => messagesOf_executed_prefix hbase _⟩
  have hmessages := messages_cleared hreach l hl
  have hfirst : (endOf c₀ r).first_exit ≠ 0 := fun hzero => by
    rw [hsound.first.mp hzero] at hend
    simp at hend
  have hcalled := hsound.called
  rw [hend, if_neg hfirst] at hcalled
  have hle := messagesOf_executed_prefix hbase none
  rw [show (endOf c₀ r).manager.called none = messages by simpa [remaining] using hcalled] at hle
  have hge : messages <+: messagesOf none (endOf c₀ r).manager.executed := by
    obtain ⟨l', hl'⟩ := hexecuted
    rw [← hl', messagesOf_append, hmessages]
    exact List.prefix_append _ _
  exact hle.eq_of_length (le_antisymm hle.length_le hge.length_le)

/-! A server whose worker sleeps. A thread pushes a message and crashes before it notifies. -/

/-- The worker in its first wait. -/
def sleeping : Crash ℕ ℕ where
  manager := { initial with worker := .waiting false, waited := true }
  config := none
  rotation := none
  first_exit := 0
  interrupted := none
  asleep _ := false
  handler := .idle

theorem running_sleeping : Running sleeping :=
  ⟨reachable_waiting.of_restrict, by simp [sleeping], rfl, rfl, rfl, by simp [sleeping], rfl, rfl,
    fun _ => rfl, rfl⟩

/-- The thread `0` calls `Queue` for the message `7` and catches a signal after `n` steps there. -/
def untilSignal (n : ℕ) : List (Event ℕ ℕ) :=
  .manager (.call (some 0) 7) :: List.replicate n (.manager (.queue (some 0))) ++
    [.signal (.producer 0)]

/-- The handler logs the message `1` and destroys the `LogManager`, and the worker leaves. -/
def untilShutDown : List (Event ℕ ℕ) :=
  List.replicate 10 .handler ++ List.replicate 12 (.manager .process) ++ [.handler]

/-- The crash at `notify_one`. -/
def crashed : Crash ℕ ℕ := (exec (step [1]) sleeping (untilSignal 3)).get rfl

/-- Everything is joined. -/
def ended : Crash ℕ ℕ := (exec (step [1]) crashed untilShutDown).get rfl

theorem reachable_crashed : (system [1]).Reachable crashed :=
  reachable_exec (untilSignal 3) (.init running_sleeping) (Option.some_get _).symm

theorem crash_drains_crashed : ended.manager.executed = [⟨some 0, 7⟩, ⟨none, 1⟩] ∧
    crashed.manager.pushed <+: ended.manager.executed ∧
    messagesOf none ended.manager.executed = [1] := by
  have hrun : ∃ r, (system [1]).IsRun crashed r ∧ endOf crashed r = ended :=
    exists_isRun_of_exec untilShutDown (Option.some_get _).symm
  obtain ⟨r, hr, hend⟩ := hrun
  have hdrains := crash_drains reachable_crashed rfl hr (by rw [hend]; rfl)
  rw [hend] at hdrains
  exact ⟨rfl, hdrains.1, hdrains.2.2.1⟩

end SampLogCore.LogManager.CrashHandler
