import Mathlib.Logic.Basic
import Mathlib.Tactic.Common

/-!
# Computations of one thread

A `Thread κ φ σ α` runs in a state `σ`, with the list of the mutexes that its thread holds. It ends
in one of three ways: it returns an `α`, it throws an exception `φ`, both with the state it leaves
behind, or it is stuck: the thread waits for a mutex of type `κ` that it holds itself.

A lock guard (`withLock`) lives as long as a block. The mutex is held in the block and released
after it, whether the block returns or throws, so the held mutexes are a parameter of a computation
and not part of its state. Mutexes are not recursive.
-/

namespace SampLogCore.Lib.Locking

/-- How a computation ends. -/
inductive Outcome (κ φ σ α : Type)
  | ok (a : α) (s : σ)
  | throw (e : φ) (s : σ)
  /-- waiting for a mutex that the thread holds -/
  | stuck (k : κ)

/-- A computation of a thread that holds the given mutexes. -/
def Thread (κ φ σ α : Type) := List κ → σ → Outcome κ φ σ α

variable {κ φ σ α β : Type}

namespace Thread

def ret (a : α) : Thread κ φ σ α := fun _ s => .ok a s

def andThen (x : Thread κ φ σ α) (f : α → Thread κ φ σ β) : Thread κ φ σ β := fun held s =>
  match x held s with
  | .ok a t => f a held t
  | .throw e t => .throw e t
  | .stuck k => .stuck k

end Thread

instance : Monad (Thread κ φ σ) where
  pure := Thread.ret
  bind := Thread.andThen

/-- The state. -/
def getState : Thread κ φ σ σ := fun _ s => .ok s s

/-- A change of the state. -/
def change (g : σ → σ) : Thread κ φ σ Unit := fun _ s => .ok () (g s)

/-- An exception. -/
def raise (e : φ) : Thread κ φ σ α := fun _ s => .throw e s

/-- `std::lock_guard<std::mutex> lock(k)` at the start of a block. -/
def withLock [DecidableEq κ] (k : κ) (x : Thread κ φ σ α) : Thread κ φ σ α := fun held s =>
  if k ∈ held then .stuck k else x (k :: held) s

variable {x : Thread κ φ σ α} {f : α → Thread κ φ σ β} {held : List κ} {s t : σ}

/-! ### Running -/

@[simp] theorem run_pure (a : α) : (pure a : Thread κ φ σ α) held s = .ok a s := rfl

@[simp] theorem run_change (g : σ → σ) :
    (change g : Thread κ φ σ Unit) held s = .ok () (g s) := rfl

/-- What follows a computation that returns. -/
theorem run_bind_ok {a : α} (h : x held s = .ok a t) : (x >>= f) held s = f a held t := by
  change x.andThen f held s = _
  rw [Thread.andThen, h]

/-- Nothing follows a computation that throws. -/
theorem run_bind_throw {e : φ} (h : x held s = .throw e t) :
    (x >>= f) held s = .throw e t := by
  change x.andThen f held s = _
  rw [Thread.andThen, h]

/-- Nothing follows a computation that is stuck. -/
theorem run_bind_stuck {k : κ} (h : x held s = .stuck k) : (x >>= f) held s = .stuck k := by
  change x.andThen f held s = _
  rw [Thread.andThen, h]

/-- A computation returns in one state. -/
theorem state_of_ok {a b : α} {u : σ} (h : x held s = .ok a t) (h' : x held s = .ok b u) :
    t = u := by
  rw [h, Outcome.ok.injEq] at h'
  exact h'.2

@[simp] theorem run_getState_bind (f : σ → Thread κ φ σ β) :
    ((getState : Thread κ φ σ σ) >>= f) held s = f s held s := rfl

@[simp] theorem run_change_bind (g : σ → σ) (f : Unit → Thread κ φ σ β) :
    ((change g : Thread κ φ σ Unit) >>= f) held s = f () held (g s) := rfl

variable [DecidableEq κ] {k : κ}

/-- A free mutex is held in the block. -/
theorem run_withLock (h : k ∉ held) : withLock k x held s = x (k :: held) s := if_neg h

/-- **A mutex that the thread holds stops it.** -/
theorem run_withLock_held (h : k ∈ held) : withLock k x held s = .stuck k := if_pos h

end SampLogCore.Lib.Locking
