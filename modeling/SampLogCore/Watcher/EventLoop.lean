import SampLogCore.Lib.Loop
import SampLogCore.Watcher.Inotify

/-!
# The loop over an event batch

`forBody` is one round of the `for` loop with which `FileChangeDetector::EventLoop` goes through
the bytes that `read` returned. The index advances at the bottom of the body only, so the three
`continue`s above it (queue overflow, foreign watch, directory event) examine the same event again,
for ever.

`consumes_iff`: a batch is consumed exactly when its events, up to the first one that reports the
removal of the own watch, are plain events of the own watch, and this one does not report an
overflow too (`Clear`).
-/

namespace SampLogCore.Watcher.EventLoop

open SampLogCore.Lib.Loop SampLogCore.Watcher.Inotify

/-- What a round does besides advancing. -/
inductive Action
  /-- the warning "event queue overflowed" -/
  | overflowed
  /-- the warning "unknown watcher in event" -/
  | unknownWatcher
  /-- the warning "inotify watch was removed by the system" -/
  | watchRemoved
  /-- `_callback()` -/
  | callback
  deriving DecidableEq

/-- The variables of the loop, and its history. -/
structure LoopState where
  /-- the index `i` into the buffer -/
  i : ℕ
  /-- `last_execution_tp`, in nanoseconds -/
  last_execution_tp : ℤ
  /-- how often the clock was read -/
  clockReads : ℕ
  /-- history: the indices of the examined events -/
  examined : List ℕ
  /-- history: the warnings and callbacks -/
  actions : List Action

/-- How the loop is left. -/
inductive Outcome
  /-- `exit_thread` tells whether by the `break` -/
  | left (s : LoopState) (exit_thread : Bool)
  /-- a read past `length` -/
  | pastLength

/-- One second in nanoseconds: `std::chrono::milliseconds(1000)`. -/
def oneSecond : ℤ := 1000000000

/-- The parameters of the loop: the own watch descriptor, the name of the watched file, and the
readings of the steady clock. -/
structure Env where
  change_notify : Int32
  file_name : List UInt8
  now : ℕ → ℤ

variable (env : Env)

/-- **One round of the loop** over the first `length` bytes `buf` of the buffer. `read` returns at
most `sizeof(buf)` = 278528 bytes, so the `int` arithmetic of the index does not wrap. -/
def forBody (buf : List UInt8) (s : LoopState) : Round LoopState Outcome :=
  if s.i = buf.length then .leave (.left s false)
  else
    match readEvent (buf.drop s.i) with
    | none => .leave .pastLength
    | some (event, name) =>
      let s := { s with examined := s.examined ++ [s.i] }
      if event.wd < 0 ∨ event.has IN_Q_OVERFLOW then
        .again { s with actions := s.actions ++ [.overflowed] }
      else if event.wd ≠ env.change_notify then
        .again { s with actions := s.actions ++ [.unknownWatcher] }
      else if event.has IN_IGNORED ∨ event.has IN_UNMOUNT then
        .leave (.left { s with actions := s.actions ++ [.watchRemoved] } true)
      else if event.has IN_ISDIR then
        .again s
      else if 0 < event.len then
        match strcmpZero env.file_name name with
        | none => .leave .pastLength
        | some false => .again { s with i := s.i + (EVENT_SIZE + event.len.toNat) }
        | some true =>
          -- don't spam with change events
          let current_tp := env.now s.clockReads
          if current_tp - s.last_execution_tp > oneSecond then
            .again { s with clockReads := s.clockReads + 1, last_execution_tp := current_tp,
                            actions := s.actions ++ [.callback],
                            i := s.i + (EVENT_SIZE + event.len.toNat) }
          else
            .again { s with clockReads := s.clockReads + 1,
                            i := s.i + (EVENT_SIZE + event.len.toNat) }
      else
        .again { s with i := s.i + (EVENT_SIZE + event.len.toNat) }

/-- The loop starts at the beginning of the buffer. -/
def start (last_execution_tp : ℤ) : LoopState := ⟨0, last_execution_tp, 0, [], []⟩

/-! ### Kinds of events -/

/-- The own watch with `IN_IGNORED` or `IN_UNMOUNT`: the only event allowed to end the loop. -/
def ReportsRemoval (e : Event) : Prop :=
  e.wd = env.change_notify ∧ (e.has IN_IGNORED ∨ e.has IN_UNMOUNT)

/-- An event of the own watch with none of the bits that the loop tests. -/
def Plain (e : Event) : Prop :=
  ¬ (e.wd < 0 ∨ e.has IN_Q_OVERFLOW) ∧ e.wd = env.change_notify ∧
    ¬ (e.has IN_IGNORED ∨ e.has IN_UNMOUNT) ∧ ¬ e.has IN_ISDIR

/-- The report of the removal as the loop sees it: not hidden behind the overflow test. -/
def Removal (e : Event) : Prop :=
  ¬ (e.wd < 0 ∨ e.has IN_Q_OVERFLOW) ∧ ReportsRemoval env e

instance (e : Event) : Decidable (Plain env e) := inferInstanceAs (Decidable (_ ∧ _ ∧ _ ∧ _))
instance (e : Event) : Decidable (Removal env e) :=
  inferInstanceAs (Decidable (_ ∧ _ ∧ (_ ∨ _)))

/-- **The events up to the first reported removal are plain.** -/
def Clear : List Event → Prop
  | [] => True
  | e :: es => Removal env e ∨ (Plain env e ∧ Clear es)

instance decidableClear : ∀ es : List Event, Decidable (Clear env es)
  | [] => isTrue trivial
  | _ :: es => have := decidableClear es; inferInstanceAs (Decidable (_ ∨ (_ ∧ Clear env es)))

/-- The indices at which the events of a batch start. -/
def offsets : ℕ → List Event → List ℕ
  | _, [] => []
  | i, e :: es => i :: offsets (i + e.size) es

/-- The buffer of a batch. -/
def buffer (es : List Event) : List UInt8 := es.flatMap encode

/-- **The batch is consumed**: the loop ends without a read past `length`, has examined the first
`k` events in order and each once, and has stopped early only at a report of the removal of the own
watch. -/
def Consumes (last_execution_tp : ℤ) (es : List Event) : Prop :=
  ∃ k ≤ es.length, ∃ s b, Ends (forBody env (buffer es)) (start last_execution_tp) (.left s b) ∧
    s.examined = offsets 0 (es.take k) ∧
    (k < es.length ∨ b = true → ∃ e, es[k - 1]? = some e ∧ 0 < k ∧ ReportsRemoval env e)

/-! ### One round at the start of an event -/

section Round

variable {env} {e : Event} {rest buf : List UInt8} {s : LoopState}

/-- The round at an event reads its header. -/
theorem forBody_at (hd : buf.drop s.i = encode e ++ rest) :
    s.i ≠ buf.length ∧ readEvent (buf.drop s.i) = some (e.toHeader, e.name ++ rest) := by
  refine ⟨fun h => ?_, hd ▸ readEvent_encode e rest⟩
  have hlen := congrArg List.length hd
  rw [h] at hlen
  simp [Event.size, EVENT_SIZE] at hlen
  omega

/-- **A plain event is examined and passed.** -/
theorem forBody_plain (hd : buf.drop s.i = encode e ++ rest) (hp : Plain env e) :
    ∃ t, forBody env buf s = .again t ∧ t.i = s.i + e.size ∧
      t.examined = s.examined ++ [s.i] := by
  obtain ⟨h1, h2, h3, h4⟩ := hp
  obtain ⟨hi, hr⟩ := forBody_at hd
  simp only [forBody, if_neg hi, hr, if_neg h1, if_neg (not_not.mpr h2), if_neg h3, if_neg h4]
  by_cases hlen : 0 < e.len
  · obtain ⟨b, hb⟩ := strcmpZero_terminated env.file_name e.name rest
      (e.terminated (by simpa [UInt32.lt_iff_toNat_lt] using hlen))
    rw [if_pos hlen, hb]
    cases b with
    | false => exact ⟨_, rfl, rfl, rfl⟩
    | true =>
      dsimp only
      split_ifs
      · exact ⟨_, rfl, rfl, rfl⟩
      · exact ⟨_, rfl, rfl, rfl⟩
  · rw [if_neg hlen]
    exact ⟨_, rfl, rfl, rfl⟩

/-- The report of the removal of the own watch ends the loop. -/
theorem forBody_removal (hd : buf.drop s.i = encode e ++ rest) (hr : Removal env e) :
    ∃ t, forBody env buf s = .leave (.left t true) ∧ t.examined = s.examined ++ [s.i] := by
  obtain ⟨h1, h2, h3⟩ := hr
  obtain ⟨hi, hr⟩ := forBody_at hd
  simp only [forBody, if_neg hi, hr, if_neg h1, if_neg (not_not.mpr h2), if_pos h3]
  exact ⟨_, rfl, rfl⟩

/-- **Any other event is examined again and again.** -/
theorem forBody_stall (hd : buf.drop s.i = encode e ++ rest) (hp : ¬ Plain env e)
    (hr : ¬ Removal env e) : ∃ t, forBody env buf s = .again t ∧ t.i = s.i := by
  obtain ⟨hi, hev⟩ := forBody_at hd
  simp only [forBody, if_neg hi, hev]
  by_cases h1 : e.wd < 0 ∨ e.has IN_Q_OVERFLOW
  · exact ⟨_, if_pos h1, rfl⟩
  rw [if_neg h1]
  by_cases h2 : e.wd = env.change_notify
  · rw [if_neg (not_not.mpr h2)]
    have h3 : ¬ (e.has IN_IGNORED ∨ e.has IN_UNMOUNT) := fun h => hr ⟨h1, h2, h⟩
    have h4 : e.has IN_ISDIR := by
      by_contra h
      exact hp ⟨h1, h2, h3, h⟩
    rw [if_neg h3, if_pos h4]
    exact ⟨_, rfl, rfl⟩
  · exact ⟨_, if_pos h2, rfl⟩

end Round

/-! ### The whole batch -/

variable {env}

/-- From the end of the bytes `pre` the loop ends only if the events to come are clear. -/
theorem clear_of_halts : ∀ (es : List Event) (pre : List UInt8) (s : LoopState),
    s.i = pre.length → Halts (forBody env (pre ++ buffer es)) s → Clear env es
  | [], _, _, _, _ => trivial
  | e :: es, pre, s, hi, h => by
    have hd : (pre ++ buffer (e :: es)).drop s.i = encode e ++ buffer es := by
      rw [hi, List.drop_left]; rfl
    by_cases hr : Removal env e
    · exact Or.inl hr
    by_cases hp : Plain env e
    · obtain ⟨t, hb, ht, -⟩ := forBody_plain hd hp
      refine Or.inr ⟨hp, clear_of_halts es (pre ++ encode e) t (by simp [ht, hi]) ?_⟩
      rw [halts_of_again hb] at h
      simpa [buffer] using h
    · refine absurd h (not_halts_of_invariant (fun t => t.i = s.i) (fun t ht => ?_) rfl)
      obtain ⟨u, hb, hu⟩ := forBody_stall (s := t) (by rw [ht]; exact hd) hp hr
      exact ⟨u, hb, hu.trans ht⟩

/-- From the end of the bytes `pre` the loop goes through the clear events to come. -/
theorem ends_of_clear : ∀ (es : List Event) (pre : List UInt8) (s : LoopState),
    s.i = pre.length → Clear env es → ∃ k ≤ es.length, ∃ t b,
      Ends (forBody env (pre ++ buffer es)) s (.left t b) ∧
      t.examined = s.examined ++ offsets pre.length (es.take k) ∧
      (k < es.length ∨ b = true → ∃ e, es[k - 1]? = some e ∧ 0 < k ∧ ReportsRemoval env e)
  | [], pre, s, hi, _ => by
    refine ⟨0, le_rfl, s, false, ends_of_leave ?_, by simp [offsets], by simp⟩
    simp [forBody, buffer, hi]
  | e :: es, pre, s, hi, hc => by
    have hd : (pre ++ buffer (e :: es)).drop s.i = encode e ++ buffer es := by
      rw [hi, List.drop_left]; rfl
    rcases hc with hr | ⟨hp, hc⟩
    · obtain ⟨t, hb, ht⟩ := forBody_removal hd hr
      exact ⟨1, by simp, t, true, ends_of_leave hb, by simp [ht, hi, offsets],
        fun _ => ⟨e, by simp, by omega, hr.2⟩⟩
    · obtain ⟨u, hb, hu, hex⟩ := forBody_plain hd hp
      obtain ⟨k, hk, t, b, hends, ht, hstop⟩ :=
        ends_of_clear es (pre ++ encode e) u (by simp [hu, hi]) hc
      refine ⟨k + 1, by simpa using hk, t, b, (ends_of_again hb).mpr ?_, ?_, fun h => ?_⟩
      · simpa [buffer] using hends
      · rw [ht, hex, hi]; simp [offsets]
      · obtain ⟨e', he', hpos, hrem⟩ := hstop (by simpa using h)
        obtain ⟨j, rfl⟩ := Nat.exists_eq_add_of_lt hpos
        exact ⟨e', by simpa using he', by omega, hrem⟩

/-- **Which batches are consumed**: those whose events, up to the first report of the removal of
the own watch, are events of the own watch without overflow and directory bits. The report itself
has no overflow bit either. -/
theorem consumes_iff (env : Env) (last_execution_tp : ℤ) (es : List Event) :
    Consumes env last_execution_tp es ↔ Clear env es := by
  constructor
  · rintro ⟨k, -, s, b, h, -⟩
    exact clear_of_halts es [] _ rfl ⟨_, h⟩
  · intro hc
    obtain ⟨k, hk, s, b, h, hex, hstop⟩ :=
      ends_of_clear es [] (start last_execution_tp) rfl hc
    exact ⟨k, hk, s, b, h, by simpa [start] using hex, hstop⟩

/-- The bytes of `log-config.yml`. -/
def configFileName : List UInt8 :=
  [108, 111, 103, 45, 99, 111, 110, 102, 105, 103, 46, 121, 109, 108]

/-- The creation of the folder `logs` in the watched directory. -/
def logsCreated : Event where
  wd := 1
  mask := 0x40000100
  cookie := 0
  len := 16
  name := [108, 111, 103, 115, 0, 0, 0, 0, 0, 0, 0, 0, 0, 0, 0, 0]
  length_name := rfl
  terminated _ := by decide

/-- **A batch with a directory event is not consumed.** -/
theorem not_consumes_logsCreated :
    ¬ Consumes ⟨1, configFileName, fun _ => 0⟩ 0 [logsCreated] := by
  rintro ⟨k, -, s, b, h, -⟩
  have hc := clear_of_halts [logsCreated] [] _ rfl ⟨_, h⟩
  revert hc
  decide

end SampLogCore.Watcher.EventLoop
