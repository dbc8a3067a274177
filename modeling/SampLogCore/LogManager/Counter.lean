import SampLogCore.LogManager.Drain
import Mathlib.Data.Int.ModEq

/-!
# The pending counter of a logger

`Logger::Log` hands an action to `LogManager::Queue` and then increments the `_logCounter` of its
logger; the last thing the action does is to decrement it. The destructor of the logger waits until
it reads `0`. The counter is an `unsigned int`, and it is incremented after the push, so the worker
may decrement it first: it then wraps around, and until the increment it is too small by one for
every call that has pushed.

The state extends that of `LogManager` with the counters and with the `Log` call each thread is in.
-/

namespace SampLogCore.LogManager.Counter

open SampLogCore.Lib.Transition SampLogCore.LogManager.Process SampLogCore.LogManager.Drain

/-- What a closure captures: its logger, and the rest. -/
structure Message (Logger Text : Type*) where
  logger : Logger
  text : Text

variable {Producer Logger Text : Type*}

/-- `LogManager`, the counters, and the threads in `Logger::Log`. -/
structure State (Producer Logger Text : Type*) where
  manager : Process.State Producer (Message Logger Text)
  /-- `_logCounter` -/
  logCounter : Logger → UInt32
  /-- the logger whose `Log` the thread is in -/
  logging : Producer → Option Logger

/-- A choice of the scheduler. -/
inductive Event (Producer Logger Text : Type*)
  /-- the thread `p` calls `Log`, which passes the level check and calls `Queue` -/
  | log (p : Producer) (m : Message Logger Text)
  /-- a step of `LogManager` -/
  | manager (e : Process.Event Producer (Message Logger Text))
  /-- `++_logCounter`, and the end of `Log` -/
  | increment (p : Producer)

/-- The action that a step of `LogManager` runs to its end. -/
def finished (s : Process.State Producer (Message Logger Text))
    (e : Process.Event Producer (Message Logger Text)) :
    Option (Action Producer (Message Logger Text)) :=
  match e, s.worker with
  | .process, .run a => some a
  | _, _ => none

section Steps

variable [DecidableEq Producer] [DecidableEq Logger]

/-- `--_logCounter`, for the logger of the action. -/
def decrement (logCounter : Logger → UInt32) :
    Option (Action Producer (Message Logger Text)) → Logger → UInt32
  | some a => Function.update logCounter a.msg.logger (logCounter a.msg.logger - 1)
  | none => logCounter

/-- **One step.** Only `Log` calls `Queue`. -/
def step (s : State Producer Logger Text) :
    Event Producer Logger Text → Option (State Producer Logger Text)
  | .log p m =>
    match s.logging p with
    | some _ => none
    | none =>
      (Process.step s.manager (.call p m)).map fun t =>
        { s with manager := t, logging := Function.update s.logging p (some m.logger) }
  | .manager (.call _ _) => none
  | .manager e =>
    (Process.step s.manager e).map fun t =>
      { s with manager := t, logCounter := decrement s.logCounter (finished s.manager e) }
  | .increment p =>
    match s.logging p, s.manager.producers p with
    | some l, .idle =>
      some { s with
        logCounter := Function.update s.logCounter l (s.logCounter l + 1)
        logging := Function.update s.logging p none }
    | _, _ => none

/-- Nothing is logged yet, and all counters are `0`. -/
def initial : State Producer Logger Text where
  manager := Process.initial
  logCounter _ := 0
  logging _ := none

/-- **The transition system of the counters.** -/
def system (Producer Logger Text : Type*) [DecidableEq Producer] [DecidableEq Logger] :
    System (State Producer Logger Text) (Event Producer Logger Text) :=
  ofStep (· = initial) step

end Steps

/-- The thread is in a `Log` call of the logger, which has pushed and not incremented yet. -/
def State.Owes (s : State Producer Logger Text) (l : Logger) (p : Producer) : Prop :=
  s.logging p = some l ∧ (s.manager.producers p).inHand = []

section Counts

variable [DecidableEq Logger] (s : State Producer Logger Text) (l : Logger)

/-- How many actions of the logger a list holds. -/
def actionsOf (as : List (Action Producer (Message Logger Text))) : ℕ :=
  as.countP fun a => a.msg.logger = l

theorem actionsOf_concat (as : List (Action Producer (Message Logger Text)))
    (a : Action Producer (Message Logger Text)) :
    actionsOf l (as ++ [a]) = actionsOf l as + if a.msg.logger = l then 1 else 0 := by
  simp [actionsOf, List.countP_singleton]

/-- The actions of the logger that are pushed and not decremented yet. -/
def State.outstanding : ℤ :=
  (actionsOf l s.manager.pushed : ℤ) - (actionsOf l s.manager.executed : ℤ)

/-- The actions of the logger that are queued or run. -/
def State.pending : List (Action Producer (Message Logger Text)) :=
  (s.manager.worker.inHand ++ s.manager.queue).filter fun a => a.msg.logger = l

end Counts

/-! ### What a step of the manager does to the calls -/

section Steps

variable [DecidableEq Producer]

/-- A step of `LogManager` pushes an action, runs one, or does neither. -/
theorem manager_cases {s t : Process.State Producer (Message Logger Text)}
    {e : Process.Event Producer (Message Logger Text)} (h : Process.step s e = some t)
    (hcall : ∀ p m, e ≠ .call p m) :
    (∃ p m, s.producers p = .push m ∧ t.producers = Function.update s.producers p .unlock ∧
      t.pushed = s.pushed ++ [⟨p, m⟩] ∧ t.executed = s.executed ∧ finished s e = none) ∨
    (∃ a, finished s e = some a ∧ t.producers = s.producers ∧ t.pushed = s.pushed ∧
      t.executed = s.executed ++ [a]) ∨
    ((∀ p, (t.producers p).inHand = (s.producers p).inHand) ∧
      t.pushed = s.pushed ∧ t.executed = s.executed ∧ finished s e = none) := by
  have hsame : ∀ {u : Process.State Producer (Message Logger Text)}, u.producers = s.producers →
      ∀ p, (u.producers p).inHand = (s.producers p).inHand := fun hu p => by rw [hu]
  have hmove : ∀ {p pc}, pc.inHand = (s.producers p).inHand → ∀ q,
      (Function.update s.producers p pc q).inHand = (s.producers q).inHand := by
    intro p pc hpc q
    by_cases hq : q = p
    · subst hq
      rw [Function.update_self, hpc]
    · rw [Function.update_of_ne hq]
  cases e with
  | construct =>
    obtain ⟨-, rfl⟩ := construct_cases h
    exact .inr (.inr ⟨hsame rfl, rfl, rfl, rfl⟩)
  | call p m => exact absurd rfl (hcall p m)
  | queue p =>
    rcases queueStep_cases h with ⟨m, hp, -, rfl⟩ | ⟨m, hp, rfl⟩ | ⟨hp, rfl⟩ | ⟨hp, rfl⟩
    · exact .inr (.inr ⟨hmove (by simp [hp, QueuePc.inHand]), rfl, rfl, rfl⟩)
    · exact .inl ⟨p, m, hp, rfl, rfl, rfl, rfl⟩
    · exact .inr (.inr ⟨hmove (by simp [hp, QueuePc.inHand]), rfl, rfl, rfl⟩)
    · exact .inr (.inr ⟨hmove (by simp [hp, QueuePc.inHand]), by simp, by simp, rfl⟩)
  | process =>
    have hnone : (∀ a, s.worker ≠ .run a) → finished s .process = none := by
      intro hrun
      unfold finished
      split
      · rename_i a _ ha
        exact absurd ha (hrun a)
      · rfl
    rcases processStep_cases h with ⟨hw, -, rfl⟩ | ⟨hw, rfl⟩ | ⟨hw, rfl⟩ | ⟨hw, -, rfl⟩ |
      ⟨hw, -, rfl⟩ | ⟨a, q, hw, -, rfl⟩ | ⟨a, hw, rfl⟩ | ⟨a, hw, rfl⟩ | ⟨hw, -, rfl⟩ |
      ⟨hw, -, rfl⟩
    case inr.inr.inr.inr.inr.inr.inr.inl =>
      exact .inr (.inl ⟨a, by simp [finished, hw], rfl, rfl, rfl⟩)
    case inr.inr.inr.inl =>
      refine .inr (.inr ⟨hsame rfl, rfl, rfl, hnone fun a => ?_⟩)
      rcases hw with hw | hw
      all_goals simp [hw]
    all_goals exact .inr (.inr ⟨hsame rfl, rfl, rfl, hnone fun a => by simp [hw]⟩)
  | spurious =>
    obtain ⟨b, -, rfl⟩ := spurious_cases h
    exact .inr (.inr ⟨hsame rfl, rfl, rfl, rfl⟩)
  | destroy =>
    obtain ⟨-, rfl⟩ := destroy_cases h
    exact .inr (.inr ⟨hsame rfl, rfl, rfl, rfl⟩)
  | destructor =>
    rcases destructorStep_cases h with ⟨-, -, rfl⟩ | ⟨-, rfl⟩ | ⟨-, rfl⟩ | ⟨-, rfl⟩ | ⟨-, -, rfl⟩
    case inr.inr.inr.inl => exact .inr (.inr ⟨hsame (by simp), by simp, by simp, rfl⟩)
    all_goals exact .inr (.inr ⟨hsame rfl, rfl, rfl, rfl⟩)

end Steps

/-! ### The relation -/

theorem toNat_add_one (c : UInt32) : ((c + 1).toNat : ℤ) ≡ c.toNat + 1 [ZMOD 2 ^ 32] := by
  have h1 : (1 : UInt32).toNat = 1 := rfl
  rw [UInt32.toNat_add, h1, Int.ModEq]
  omega

theorem toNat_sub_one (c : UInt32) : ((c - 1).toNat : ℤ) ≡ c.toNat - 1 [ZMOD 2 ^ 32] := by
  have h1 : (1 : UInt32).toNat = 1 := rfl
  have hlt := c.toNat_lt
  rw [UInt32.toNat_sub, h1, Int.ModEq]
  omega

/-- What the counters have to do with the calls and the actions. -/
structure Inv [DecidableEq Producer] [DecidableEq Logger] (s : State Producer Logger Text) :
    Prop where
  manager : (Process.system Producer (Message Logger Text)).Reachable s.manager
  /-- a thread that has not pushed yet is in the `Log` of its message's logger -/
  inHand : ∀ p, ∀ m ∈ (s.manager.producers p).inHand, s.logging p = some m.logger
  counter : ∀ l, ∃ P : Finset Producer, (∀ p, p ∈ P ↔ s.Owes l p) ∧
    ((s.logCounter l).toNat : ℤ) ≡ s.outstanding l - P.card [ZMOD 2 ^ 32]

variable [DecidableEq Producer] [DecidableEq Logger]

theorem inv_initial : Inv (initial : State Producer Logger Text) where
  manager := .init rfl
  inHand p m hm := absurd hm (by simp [initial, Process.initial, QueuePc.inHand])
  counter l := by
    refine ⟨∅, fun p => ?_, ?_⟩
    · simp [State.Owes, initial]
    · simp [initial, State.outstanding, actionsOf, Process.initial]

section Step

variable {s t : State Producer Logger Text} (hi : Inv s)
include hi

/-- Nothing is pushed, run or counted, and each thread stays on its side of the push. -/
theorem Inv.quiet (hmanager : (Process.system Producer (Message Logger Text)).Reachable t.manager)
    (hcounter : t.logCounter = s.logCounter) (hpushed : t.manager.pushed = s.manager.pushed)
    (hexecuted : t.manager.executed = s.manager.executed)
    (hin : ∀ p, ∀ m ∈ (t.manager.producers p).inHand, t.logging p = some m.logger)
    (howes : ∀ l p, t.Owes l p ↔ s.Owes l p) : Inv t where
  manager := hmanager
  inHand := hin
  counter l := by
    obtain ⟨P, hP, hmod⟩ := hi.counter l
    refine ⟨P, fun p => (hP p).trans (howes l p).symm, ?_⟩
    rw [hcounter, State.outstanding, hpushed, hexecuted]
    exact hmod

theorem Inv.log {p : Producer} {m : Message Logger Text} (h : step s (.log p m) = some t) :
    Inv t := by
  simp only [step] at h
  split at h
  · exact absurd h (by simp)
  rename_i hnone
  obtain ⟨u, hu, rfl⟩ := Option.map_eq_some_iff.mp h
  have hnext := hi.manager.next hu
  obtain ⟨-, rfl⟩ := call_cases hu
  refine hi.quiet hnext rfl rfl rfl ?_ ?_
  · intro q m' hm'
    simp only at hm' ⊢
    by_cases hq : q = p
    · subst hq
      rw [Function.update_self] at hm' ⊢
      rw [List.mem_singleton.mp hm']
    · rw [Function.update_of_ne hq] at hm' ⊢
      exact hi.inHand q m' hm'
  · intro l q
    simp only [State.Owes]
    by_cases hq : q = p
    · subst hq
      simp [QueuePc.inHand, hnone]
    · rw [Function.update_of_ne hq, Function.update_of_ne hq]

theorem Inv.increment {p : Producer} (h : step s (.increment p) = some t) : Inv t := by
  simp only [step] at h
  split at h
  · rename_i l hlog hidle
    obtain rfl := Option.some.inj h
    refine ⟨hi.manager, ?_, fun k => ?_⟩
    · intro q m hm
      by_cases hq : q = p
      · subst hq
        simp [hidle, QueuePc.inHand] at hm
      · simp only [Function.update_of_ne hq]
        exact hi.inHand q m hm
    · obtain ⟨P, hP, hmod⟩ := hi.counter k
      have howes : ∀ q, q ≠ p → (State.Owes { s with
          logCounter := Function.update s.logCounter l (s.logCounter l + 1)
          logging := Function.update s.logging p none } k q ↔ s.Owes k q) := by
        intro q hq
        simp only [State.Owes, Function.update_of_ne hq]
      refine ⟨P.erase p, fun q => ?_, ?_⟩
      · by_cases hq : q = p
        · subst hq
          simp [State.Owes]
        · rw [Finset.mem_erase, howes q hq, ← hP]
          simp [hq]
      · by_cases hk : k = l
        · subst hk
          have hmem : p ∈ P := (hP p).mpr ⟨hlog, by simp [hidle, QueuePc.inHand]⟩
          have hcard := Finset.card_erase_of_mem hmem
          have hpos := Finset.card_pos.mpr ⟨p, hmem⟩
          simp only [Function.update_self]
          refine (toNat_add_one _).trans ?_
          have hsub : ((P.erase p).card : ℤ) = P.card - 1 := by omega
          rw [hsub]
          have := hmod.add_right 1
          simpa [State.outstanding, sub_sub_eq_add_sub, sub_add_eq_add_sub] using this
        · have hmem : p ∉ P := by
            rw [hP]
            rintro ⟨hlog', -⟩
            rw [hlog, Option.some.injEq] at hlog'
            exact hk hlog'.symm
          simp only [Function.update_of_ne hk, Finset.erase_eq_of_notMem hmem]
          exact hmod
  · exact absurd h (by simp)

/-- The calls after a push: the thread that pushed owes its increment from now on. -/
theorem Inv.push {u : Process.State Producer (Message Logger Text)} {p : Producer}
    {m : Message Logger Text}
    (hmanager : (Process.system Producer (Message Logger Text)).Reachable u)
    (hp : s.manager.producers p = .push m)
    (hprod : u.producers = Function.update s.manager.producers p .unlock)
    (hpushed : u.pushed = s.manager.pushed ++ [⟨p, m⟩])
    (hexecuted : u.executed = s.manager.executed) : Inv { s with manager := u } := by
  have hlog : s.logging p = some m.logger := hi.inHand p m (by simp [hp, QueuePc.inHand])
  have hother : ∀ {q}, q ≠ p → u.producers q = s.manager.producers q := by
    intro q hq
    rw [hprod, Function.update_of_ne hq]
  have hself : (u.producers p).inHand = [] := by
    rw [hprod, Function.update_self]
    rfl
  refine ⟨hmanager, fun q m' hm' => ?_, fun l => ?_⟩
  · by_cases hq : q = p
    · subst hq
      rw [show ({ s with manager := u } : State Producer Logger Text).manager = u from rfl,
        hself] at hm'
      exact absurd hm' (by simp)
    · have hm' : m' ∈ (u.producers q).inHand := hm'
      rw [hother hq] at hm'
      exact hi.inHand q m' hm'
  · obtain ⟨P, hP, hmod⟩ := hi.counter l
    have howes : ∀ q, q ≠ p → (State.Owes { s with manager := u } l q ↔ s.Owes l q) := by
      intro q hq
      simp only [State.Owes, hother hq]
    by_cases hl : l = m.logger
    · subst hl
      have hmem : p ∉ P := by
        rw [hP]
        rintro ⟨-, hnil⟩
        simp [hp, QueuePc.inHand] at hnil
      refine ⟨insert p P, fun q => ?_, ?_⟩
      · by_cases hq : q = p
        · subst hq
          simp [State.Owes, hlog, hself]
        · rw [Finset.mem_insert, howes q hq, ← hP]
          simp [hq]
      · have hcount : State.outstanding { s with manager := u } m.logger =
            s.outstanding m.logger + 1 := by
          simp only [State.outstanding, hpushed, hexecuted, actionsOf_concat, if_true]
          omega
        rw [Finset.card_insert_of_notMem hmem, hcount]
        have hsum : s.outstanding m.logger + 1 - ((P.card + 1 : ℕ) : ℤ) =
            s.outstanding m.logger - P.card := by
          omega
        rw [hsum]
        exact hmod
    · refine ⟨P, fun q => ?_, ?_⟩
      · by_cases hq : q = p
        · subst hq
          have hne : some m.logger ≠ some l := fun h => hl (Option.some.inj h).symm
          simp [hP, State.Owes, hlog, hne]
        · rw [howes q hq, ← hP]
      · have hcount : State.outstanding { s with manager := u } l = s.outstanding l := by
          simp only [State.outstanding, hpushed, hexecuted, actionsOf_concat, if_neg (Ne.symm hl),
            Nat.add_zero]
        rw [hcount]
        exact hmod

/-- The counters after an action: that of its logger is one less. -/
theorem Inv.run {u : Process.State Producer (Message Logger Text)}
    {a : Action Producer (Message Logger Text)}
    (hmanager : (Process.system Producer (Message Logger Text)).Reachable u)
    (hprod : u.producers = s.manager.producers) (hpushed : u.pushed = s.manager.pushed)
    (hexecuted : u.executed = s.manager.executed ++ [a]) :
    Inv { s with manager := u, logCounter := decrement s.logCounter (some a) } := by
  refine ⟨hmanager, fun q m hm => ?_, fun l => ?_⟩
  · have hm : m ∈ (u.producers q).inHand := hm
    rw [hprod] at hm
    exact hi.inHand q m hm
  · obtain ⟨P, hP, hmod⟩ := hi.counter l
    refine ⟨P, fun q => ?_, ?_⟩
    · simp only [hP, State.Owes, hprod]
    · by_cases hl : l = a.msg.logger
      · subst hl
        have hcount : State.outstanding ({ s with
            manager := u, logCounter := decrement s.logCounter (some a) } :
              State Producer Logger Text) a.msg.logger =
            s.outstanding a.msg.logger - 1 := by
          simp only [State.outstanding, hpushed, hexecuted, actionsOf_concat, if_true]
          omega
        rw [hcount]
        simp only [decrement, Function.update_self]
        have hsub : s.outstanding a.msg.logger - 1 - (P.card : ℤ) =
            s.outstanding a.msg.logger - P.card - 1 := by
          omega
        rw [hsub]
        exact (toNat_sub_one _).trans (hmod.sub_right 1)
      · have hcount : State.outstanding ({ s with
            manager := u, logCounter := decrement s.logCounter (some a) } :
              State Producer Logger Text) l = s.outstanding l := by
          simp only [State.outstanding, hpushed, hexecuted, actionsOf_concat, if_neg (Ne.symm hl),
            Nat.add_zero]
        rw [hcount]
        simp only [decrement, Function.update_of_ne hl]
        exact hmod

theorem Inv.managerStep {e : Process.Event Producer (Message Logger Text)}
    (h : step s (.manager e) = some t) : Inv t := by
  have hcall : ∀ p m, e ≠ .call p m := by
    rintro p m rfl
    simp [step] at h
  have hmap : (Process.step s.manager e).map (fun u => { s with
      manager := u, logCounter := decrement s.logCounter (finished s.manager e) }) = some t := by
    rw [← h]
    cases e
    case call p m => exact absurd rfl (hcall p m)
    all_goals rfl
  obtain ⟨u, hu, rfl⟩ := Option.map_eq_some_iff.mp hmap
  have hmanager : (Process.system Producer (Message Logger Text)).Reachable u :=
    hi.manager.next hu
  rcases manager_cases hu hcall with ⟨p, m, hp, hprod, hpushed, hexecuted, hnone⟩ |
    ⟨a, ha, hprod, hpushed, hexecuted⟩ | ⟨hside, hpushed, hexecuted, hnone⟩
  · rw [hnone]
    exact hi.push hmanager hp hprod hpushed hexecuted
  · rw [ha]
    exact hi.run hmanager hprod hpushed hexecuted
  · refine hi.quiet hmanager (by rw [hnone]; rfl) hpushed hexecuted ?_ ?_
    · intro p m hm
      have hm : m ∈ (u.producers p).inHand := hm
      rw [hside p] at hm
      exact hi.inHand p m hm
    · intro l p
      simp only [State.Owes, hside p]

/-- **Every step keeps the relation of the counters with the calls and the actions.** -/
theorem inv_step {e : Event Producer Logger Text} (h : step s e = some t) : Inv t := by
  cases e with
  | log p m => exact hi.log h
  | manager e => exact hi.managerStep h
  | increment p => exact hi.increment h

end Step

theorem reachable_inv {s : State Producer Logger Text}
    (h : (system Producer Logger Text).Reachable s) : Inv s := by
  refine h.invariant (I := Inv) ?_ ?_
  · rintro s rfl
    exact inv_initial
  · intro s e t hi h
    exact inv_step hi h

/-! ### The counter protects the logger -/

/-- What is pushed and not decremented is what is queued or run. -/
theorem outstanding_eq {s : State Producer Logger Text}
    (h : (Process.system Producer (Message Logger Text)).Reachable s.manager) (l : Logger) :
    s.outstanding l = (s.pending l).length := by
  have horder := (Drain.reachable_inv h).2.order
  simp only [State.outstanding, State.pending, actionsOf, horder, List.countP_append,
    ← List.countP_eq_length_filter]
  omega

/-- **The counter of a logger**, in every reachable state: modulo 2^32 it is the number of its
actions that are pushed and not decremented, less the number of the calls that have pushed and not
incremented. Between the calls, and below 2^32 actions, the destructor reads `0` exactly when no
action of the logger is left. -/
theorem counter_protects {s : State Producer Logger Text}
    (h : (system Producer Logger Text).Reachable s) (l : Logger) :
    (∃ P : Finset Producer, (∀ p, p ∈ P ↔ s.Owes l p) ∧
      ((s.logCounter l).toNat : ℤ) ≡ s.outstanding l - P.card [ZMOD 2 ^ 32]) ∧
    ((∀ p, s.logging p ≠ some l) → (s.pending l).length < 2 ^ 32 →
      (s.logCounter l = 0 ↔ s.pending l = [])) := by
  have hi := reachable_inv h
  refine ⟨hi.counter l, fun hno hfew => ?_⟩
  obtain ⟨P, hP, hmod⟩ := hi.counter l
  have hempty : P = ∅ := by
    refine Finset.eq_empty_of_forall_notMem fun p hp => ?_
    exact hno p ((hP p).mp hp).1
  have hlt := (s.logCounter l).toNat_lt
  have heq : (s.logCounter l).toNat = (s.pending l).length := by
    rw [hempty, outstanding_eq hi.manager, Finset.card_empty, Int.ModEq] at hmod
    omega
  have hzero : s.logCounter l = 0 ↔ (s.logCounter l).toNat = 0 :=
    ⟨fun h0 => by rw [h0]; rfl, fun h0 => UInt32.toNat_inj.mp h0⟩
  rw [hzero, heq, List.length_eq_zero_iff]

/-- A run in which the worker decrements before the thread increments. -/
def wrapRun : List (Event ℕ Unit ℕ) :=
  [.manager .construct, .manager .process, .manager .process, .log 0 ⟨(), 7⟩,
    .manager (.queue 0), .manager (.queue 0), .manager (.queue 0), .manager (.queue 0),
    .manager .process, .manager .process, .manager .process, .manager .process,
    .manager .process]

/-- The counter wraps to 2^32 - 1, and the increment takes it back to `0`. -/
theorem counter_protects_wrapRun : ∃ s t : State ℕ Unit ℕ,
    exec step initial wrapRun = some s ∧ (s.logCounter ()).toNat = 2 ^ 32 - 1 ∧
      (∃ P : Finset ℕ, (∀ p, p ∈ P ↔ s.Owes () p) ∧
        ((s.logCounter ()).toNat : ℤ) ≡ s.outstanding () - P.card [ZMOD 2 ^ 32]) ∧
      step s (.increment 0) = some t ∧ (t.logCounter () = 0 ↔ t.pending () = []) := by
  have hs : ∃ s : State ℕ Unit ℕ, exec step initial wrapRun = some s := ⟨_, rfl⟩
  obtain ⟨s, hs⟩ := hs
  have hreach : (system ℕ Unit ℕ).Reachable s := reachable_exec wrapRun (.init rfl) hs
  obtain rfl := Option.some.inj hs
  refine ⟨_, _, rfl, rfl, (counter_protects hreach ()).1, rfl, ?_⟩
  refine (counter_protects (hreach.next (e := .increment 0) rfl) ()).2 (fun p => ?_) ?_
  · by_cases hp : p = 0
    · subst hp
      exact nofun
    · simp [Function.update_of_ne hp, initial]
  · decide

end SampLogCore.LogManager.Counter
