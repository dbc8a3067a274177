import SampLogCore.Lib.Emitting

/-!
# Pre- and postconditions of computations that emit events

The events of a computation act on a state, one after the other (`step`). `Triple step P x Q` says:
in a state with `P`, if `x` returns an `a`, then its events lead to a state with `Q a`. What they
lead to when `x` throws is left open.

There is one rule for each way of building a computation; the rule for loops takes an invariant
(`triple_each`). A computation that returns and emits known events is an equation instead
(`bind_pure_eq`, `each_emit`).
-/

namespace SampLogCore.Lib.Triples

open SampLogCore.Lib.Emitting

variable {ε φ σ α β : Type}

/-- If the computation returns, its events lead from `P` to `Q`. -/
def Triple (step : σ → ε → σ) (P : σ → Prop) (x : Emit ε φ α) (Q : α → σ → Prop) : Prop :=
  ∀ s, P s → ∀ a, x.result = .ok a → Q a (x.events.foldl step s)

variable {step : σ → ε → σ} {P : σ → Prop} {x : Emit ε φ α} {f : α → Emit ε φ β}

/-! ### Rules -/

theorem triple_pure {Q : α → σ → Prop} {a : α} (h : ∀ s, P s → Q a s) :
    Triple step P (pure a : Emit ε φ α) Q := by
  intro s hs b hb
  obtain rfl := Except.ok.inj hb
  exact h s hs

theorem triple_emit {Q : Unit → σ → Prop} {e : ε} (h : ∀ s, P s → Q () (step s e)) :
    Triple step P (emit e : Emit ε φ Unit) Q :=
  fun s hs _ _ => h s hs

theorem triple_liftExcept {Q : α → σ → Prop} {r : Except φ α}
    (h : ∀ s, P s → ∀ a, r = .ok a → Q a s) : Triple step P (liftExcept r : Emit ε φ α) Q :=
  h

/-- **One computation after the other**: the first one's postcondition is the other's
precondition. -/
theorem triple_bind {R : α → σ → Prop} {Q : β → σ → Prop} (hx : Triple step P x R)
    (hf : ∀ a, Triple step (R a) (f a) Q) : Triple step P (x >>= f) Q := by
  intro s hs b hb
  rcases h : x.result with e | a
  · rw [bind_of_error h] at hb
    exact absurd hb (by simp)
  · rw [bind_of_ok h] at hb ⊢
    rw [List.foldl_append]
    exact hf a _ (hx s hs a h) b hb

/-- What the precondition says about the past may be assumed. -/
theorem triple_assume {p : Prop} {Q : α → σ → Prop} (h : p → Triple step P x Q) :
    Triple step (fun s => P s ∧ p) x Q :=
  fun s hs a ha => h hs.2 s hs.1 a ha

/-- **The loop rule**: what every round keeps holds after the loop. -/
theorem triple_each {I : σ → Prop} {f : α → Emit ε φ Unit} :
    ∀ {as : List α}, (∀ a ∈ as, Triple step I (f a) fun _ => I) →
      Triple step I (each f as) fun _ => I
  | [], _ => triple_pure fun _ hs => hs
  | a :: as, h => by
    refine triple_bind (h a List.mem_cons_self) fun _ => ?_
    exact triple_each fun b hb => h b (List.mem_cons_of_mem a hb)

/-! ### Computations with known events -/

@[simp] theorem bind_pure_eq (a : α) (f : α → Emit ε φ β) : (pure a : Emit ε φ α) >>= f = f a := by
  rw [bind_of_ok (result_pure a)]
  rfl

/-- A loop whose rounds emit one event each. -/
theorem each_emit {f : β → Emit ε φ Unit} {g : α → β} {event : α → ε} :
    ∀ {as : List α}, (∀ a ∈ as, f (g a) = emit (event a)) →
      each f (as.map g) = ⟨as.map event, .ok ()⟩
  | [], _ => rfl
  | a :: as, h => by
    have hrest := each_emit fun b hb => h b (List.mem_cons_of_mem a hb)
    rw [List.map_cons, each, h a List.mem_cons_self, bind_of_ok (result_emit _), hrest]
    rfl

end SampLogCore.Lib.Triples
