import Mathlib.Logic.Basic
import Mathlib.Tactic.Common

/-!
# Computations that emit events and may throw

An `Emit ε φ α` is a list of events of type `ε` and a result, an `α` or an exception of type `φ`.
What follows a computation that throws is not run, so it emits nothing.

`Emits P x` says that `x` emits an event with `P`, `Throws x` that it throws. Both go through binds
(`emits_bind`, `throws_bind`) and through loops over a list (`emits_each`, `throws_each`): a loop
throws when some round does, and emits when some round does with no round before it that throws.

Events may act on a state. What the state was before is forgotten at an event that resets it
(`foldl_forgets`).
-/

namespace SampLogCore.Lib.Emitting

/-- A computation that emits events and may throw. -/
structure Emit (ε φ α : Type) where
  events : List ε
  result : Except φ α

variable {ε φ α β : Type}

namespace Emit

/-- Nothing is emitted. -/
def ret (a : α) : Emit ε φ α := ⟨[], .ok a⟩

/-- One computation after the other. -/
def andThen (x : Emit ε φ α) (f : α → Emit ε φ β) : Emit ε φ β :=
  match x.result with
  | .ok a => ⟨x.events ++ (f a).events, (f a).result⟩
  | .error e => ⟨x.events, .error e⟩

end Emit

instance : Monad (Emit ε φ) where
  pure := Emit.ret
  bind := Emit.andThen

/-- Emit one event. -/
def emit (e : ε) : Emit ε φ Unit := ⟨[e], .ok ()⟩

/-- A computation that emits nothing. -/
def liftExcept (r : Except φ α) : Emit ε φ α := ⟨[], r⟩

/-- An exception. -/
def raise (e : φ) : Emit ε φ α := ⟨[], .error e⟩

/-- The loop over a list. -/
def each (f : α → Emit ε φ Unit) : List α → Emit ε φ Unit
  | [] => pure ()
  | a :: as => f a >>= fun _ => each f as

/-- The computation emits an event with `P`. -/
def Emits (P : ε → Prop) (x : Emit ε φ α) : Prop := ∃ e ∈ x.events, P e

/-- The computation throws. -/
def Throws (x : Emit ε φ α) : Prop := ∃ e, x.result = .error e

variable {P : ε → Prop} {x : Emit ε φ α} {f : α → Emit ε φ β}

/-! ### Results and events -/

@[simp] theorem result_pure (a : α) : (pure a : Emit ε φ α).result = .ok a := rfl

@[simp] theorem events_pure (a : α) : (pure a : Emit ε φ α).events = [] := rfl

@[simp] theorem result_emit (e : ε) : (emit e : Emit ε φ Unit).result = .ok () := rfl

@[simp] theorem events_emit (e : ε) : (emit e : Emit ε φ Unit).events = [e] := rfl

@[simp] theorem result_liftExcept (r : Except φ α) :
    (liftExcept r : Emit ε φ α).result = r := rfl

@[simp] theorem events_liftExcept (r : Except φ α) :
    (liftExcept r : Emit ε φ α).events = [] := rfl

theorem bind_of_ok {a : α} (h : x.result = .ok a) :
    x >>= f = ⟨x.events ++ (f a).events, (f a).result⟩ := by
  change x.andThen f = _
  rw [Emit.andThen, h]

theorem bind_of_error {e : φ} (h : x.result = .error e) : x >>= f = ⟨x.events, .error e⟩ := by
  change x.andThen f = _
  rw [Emit.andThen, h]

@[simp] theorem liftExcept_ok_bind (a : α) (f : α → Emit ε φ β) :
    (liftExcept (.ok a) : Emit ε φ α) >>= f = f a := by
  rw [bind_of_ok (result_liftExcept _)]
  rfl

@[simp] theorem liftExcept_error_bind (e : φ) (f : α → Emit ε φ β) :
    (liftExcept (.error e) : Emit ε φ α) >>= f = raise e :=
  bind_of_error (result_liftExcept _)

@[simp] theorem emit_bind_result (e : ε) (f : Unit → Emit ε φ β) :
    (emit e >>= f).result = (f ()).result := by
  rw [bind_of_ok (result_emit e)]

@[simp] theorem emit_bind_events (e : ε) (f : Unit → Emit ε φ β) :
    (emit e >>= f).events = e :: (f ()).events := by
  rw [bind_of_ok (result_emit e)]
  rfl

/-! ### What is emitted, and whether it throws -/

@[simp] theorem emits_pure (a : α) : ¬ Emits P (pure a : Emit ε φ α) := by
  simp [Emits]

@[simp] theorem emits_emit (e : ε) : Emits P (emit e : Emit ε φ Unit) ↔ P e := by
  simp [Emits]

@[simp] theorem emits_liftExcept (r : Except φ α) :
    ¬ Emits P (liftExcept r : Emit ε φ α) := by
  simp [Emits]

@[simp] theorem throws_pure (a : α) : ¬ Throws (pure a : Emit ε φ α) := by
  simp [Throws]

@[simp] theorem throws_emit (e : ε) : ¬ Throws (emit e : Emit ε φ Unit) := by
  simp [Throws]

@[simp] theorem emits_raise (e : φ) : ¬ Emits P (raise e : Emit ε φ α) := by
  simp [Emits, raise]

@[simp] theorem throws_raise (e : φ) : Throws (raise e : Emit ε φ α) := ⟨e, rfl⟩

@[simp] theorem throws_emit_bind (e : ε) (f : Unit → Emit ε φ β) :
    Throws (emit e >>= f) ↔ Throws (f ()) := by
  simp [Throws]

@[simp] theorem emits_emit_bind (e : ε) (f : Unit → Emit ε φ β) :
    Emits P (emit e >>= f) ↔ P e ∨ Emits P (f ()) := by
  simp [Emits]

theorem throws_or_ok (x : Emit ε φ α) : Throws x ∨ ∃ a, x.result = .ok a := by
  cases h : x.result with
  | ok a => exact .inr ⟨a, rfl⟩
  | error e => exact .inl ⟨e, h⟩

theorem not_throws_iff : ¬ Throws x ↔ ∃ a, x.result = .ok a := by
  constructor
  · exact (throws_or_ok x).resolve_left
  · rintro ⟨a, ha⟩ ⟨e, he⟩
    rw [ha] at he
    exact absurd he (by simp)

theorem throws_bind : Throws (x >>= f) ↔ Throws x ∨ ∃ a, x.result = .ok a ∧ Throws (f a) := by
  cases h : x.result with
  | ok a =>
    rw [bind_of_ok h]
    simp [Throws, h]
  | error e =>
    rw [bind_of_error h]
    simp [Throws, h]

theorem emits_bind :
    Emits P (x >>= f) ↔ Emits P x ∨ ∃ a, x.result = .ok a ∧ Emits P (f a) := by
  cases h : x.result with
  | ok a =>
    rw [bind_of_ok h]
    simp [Emits, or_and_right, exists_or]
  | error e =>
    rw [bind_of_error h]
    simp [Emits]

/-- What none of two parts emits, the whole does not emit. -/
theorem not_emits_bind (hx : ¬ Emits P x) (hf : ∀ a, ¬ Emits P (f a)) : ¬ Emits P (x >>= f) := by
  rw [emits_bind]
  rintro (h | ⟨a, _, h⟩)
  · exact hx h
  · exact hf a h

/-- Two computations that do not depend on each other. -/
theorem throws_seq {y : Emit ε φ β} : Throws (x >>= fun _ => y) ↔ Throws x ∨ Throws y := by
  rw [throws_bind]
  by_cases hx : Throws x
  · simp [hx]
  · obtain ⟨a, ha⟩ := not_throws_iff.mp hx
    simp [hx, ha]

theorem emits_seq {y : Emit ε φ β} :
    Emits P (x >>= fun _ => y) ↔ Emits P x ∨ ¬ Throws x ∧ Emits P y := by
  rw [emits_bind, not_throws_iff]
  constructor
  · rintro (h | ⟨a, ha, h⟩)
    · exact .inl h
    · exact .inr ⟨⟨a, ha⟩, h⟩
  · rintro (h | ⟨⟨a, ha⟩, h⟩)
    · exact .inl h
    · exact .inr ⟨a, ha, h⟩

/-! ### Loops -/

/-- **A loop throws when one of its rounds does.** -/
theorem throws_each {f : α → Emit ε φ Unit} :
    ∀ {as : List α}, Throws (each f as) ↔ ∃ a ∈ as, Throws (f a)
  | [] => by simp [each]
  | a :: as => by
    rw [each, throws_bind, throws_each]
    constructor
    · rintro (h | ⟨_, _, b, hb, h⟩)
      · exact ⟨a, List.mem_cons_self, h⟩
      · exact ⟨b, List.mem_cons_of_mem a hb, h⟩
    · rintro ⟨b, hb, h⟩
      by_cases ha : Throws (f a)
      · exact .inl ha
      · rcases List.mem_cons.mp hb with rfl | hb
        · exact .inl h
        · obtain ⟨u, hu⟩ := not_throws_iff.mp ha
          exact .inr ⟨u, hu, b, hb, h⟩

/-- **A loop emits when one of its rounds does, with no round before it that throws.** -/
theorem emits_each {f : α → Emit ε φ Unit} :
    ∀ {as : List α}, Emits P (each f as) ↔
      ∃ before a after, as = before ++ a :: after ∧ Emits P (f a) ∧ ∀ b ∈ before, ¬ Throws (f b)
  | [] => by simp [each]
  | a :: as => by
    rw [each, emits_bind, emits_each]
    constructor
    · rintro (h | ⟨u, hu, before, b, after, rfl, hb, hbefore⟩)
      · exact ⟨[], a, as, rfl, h, by simp⟩
      · refine ⟨a :: before, b, after, rfl, hb, fun c hc => ?_⟩
        rcases List.mem_cons.mp hc with rfl | hc
        · exact not_throws_iff.mpr ⟨u, hu⟩
        · exact hbefore c hc
    · rintro ⟨before, b, after, heq, hb, hbefore⟩
      cases before with
      | nil =>
        obtain ⟨rfl, rfl⟩ := List.cons.inj heq
        exact .inl hb
      | cons c before =>
        obtain ⟨rfl, rfl⟩ := List.cons.inj heq
        obtain ⟨u, hu⟩ := not_throws_iff.mp (hbefore a List.mem_cons_self)
        exact .inr ⟨u, hu, before, b, after, rfl, hb,
          fun d hd => hbefore d (List.mem_cons_of_mem a hd)⟩

theorem not_emits_each {f : α → Emit ε φ Unit} (h : ∀ a, ¬ Emits P (f a)) (as : List α) :
    ¬ Emits P (each f as) := by
  rw [emits_each]
  rintro ⟨_, a, _, _, ha, _⟩
  exact h a ha

/-! ### Events that act on a state -/

/-- A fold forgets its start, as far as `π` sees it, at an event that resets `π`. -/
theorem foldl_forgets {σ κ : Type} (f : σ → ε → σ) (π : σ → κ)
    (hstep : ∀ s t e, π s = π t → π (f s e) = π (f t e)) {e : ε}
    (hreset : ∀ s t, π (f s e) = π (f t e)) :
    ∀ {es : List ε}, e ∈ es → ∀ s t, π (es.foldl f s) = π (es.foldl f t) := by
  have hsame : ∀ (es : List ε) s t, π s = π t → π (es.foldl f s) = π (es.foldl f t) := by
    intro es
    induction es with
    | nil => exact fun s t h => h
    | cons e es ih => exact fun s t h => ih _ _ (hstep s t e h)
  intro es he s t
  obtain ⟨before, after, rfl⟩ := List.append_of_mem he
  rw [List.foldl_append, List.foldl_append, List.foldl_cons, List.foldl_cons]
  exact hsame after _ _ (hreset _ _)

end SampLogCore.Lib.Emitting
