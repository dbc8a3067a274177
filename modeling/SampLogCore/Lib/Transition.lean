import Mathlib.Logic.Basic
import Mathlib.Tactic.ByContra
import Mathlib.Tactic.TypeStar

/-!
# Labelled transition systems

A system is a predicate on the states a run may start in and a labelled step relation. `Reachable`
is the set of states that runs reach, `IsRun s r` says that the list `r` of labels and states is a
run from `s`. Four rules do most of the work:

* `Reachable.invariant`: what holds initially and is kept by every step holds in every reachable
  state;
* `isRun_forall_iff`: where a step keeps a property exactly when it meets a condition, the property
  holds in every state of a run exactly when every step of the run meets the condition;
* `along_of_last`: where a step that misses a condition spoils the end of the run for good, a run
  that ends well meets the condition at every step.

`restrict C` is the system whose steps meet `C` in the state before the step.
-/

namespace SampLogCore.Lib.Transition

/-- A labelled transition system. -/
structure System (σ ε : Type*) where
  /-- the states a run may start in -/
  Init : σ → Prop
  /-- `Step s e t`: the step `e` leads from `s` to `t` -/
  Step : σ → ε → σ → Prop

variable {σ ε : Type*}

namespace System

variable (S : System σ ε)

/-- The states that runs reach. -/
inductive Reachable : σ → Prop
  | init {s : σ} (h : S.Init s) : Reachable s
  | next {s t : σ} {e : ε} (h : Reachable s) (hs : S.Step s e t) : Reachable t

/-- The steps of `S` that meet `C` in the state before the step. -/
def restrict (C : σ → ε → Prop) : System σ ε where
  Init := S.Init
  Step s e t := C s e ∧ S.Step s e t

/-- `r` lists the labels of a run from `s` with the states they lead to. -/
def IsRun : σ → List (ε × σ) → Prop
  | _, [] => True
  | s, (e, t) :: r => S.Step s e t ∧ IsRun t r

end System

/-- Every step of the run `r` from `s` meets `C` in the state before it. -/
def Along (C : σ → ε → Prop) : σ → List (ε × σ) → Prop
  | _, [] => True
  | s, (e, t) :: r => C s e ∧ Along C t r

/-- The system of a step function: the step `e` is possible in `s` when the function answers. -/
def ofStep (init : σ → Prop) (step : σ → ε → Option σ) : System σ ε where
  Init := init
  Step s e t := step s e = some t

/-- The state after a list of steps, if each of them is possible. -/
def exec (step : σ → ε → Option σ) : σ → List ε → Option σ
  | s, [] => some s
  | s, e :: es => (step s e).bind fun t => exec step t es

namespace System

variable {S : System σ ε}

/-- **Induction over runs.** -/
theorem Reachable.invariant {I : σ → Prop} (h0 : ∀ s, S.Init s → I s)
    (hstep : ∀ s e t, I s → S.Step s e t → I t) {s : σ} (h : S.Reachable s) : I s := by
  induction h with
  | init h => exact h0 _ h
  | next _ hs ih => exact hstep _ _ _ ih hs

/-- A restricted run is a run. -/
theorem Reachable.of_restrict {C : σ → ε → Prop} {s : σ} (h : (S.restrict C).Reachable s) :
    S.Reachable s := by
  induction h with
  | init h => exact .init h
  | next _ hs ih => exact .next ih hs.2

/-- The invariant of a restricted system may use an invariant of the system itself. -/
theorem Reachable.invariant_restrict {C : σ → ε → Prop} {I J : σ → Prop}
    (hI : ∀ s, S.Reachable s → I s) (h0 : ∀ s, S.Init s → J s)
    (hstep : ∀ s e t, I s → J s → C s e → S.Step s e t → J t) {s : σ}
    (h : (S.restrict C).Reachable s) : J s := by
  induction h with
  | init h => exact h0 _ h
  | next h hs ih => exact hstep _ _ _ (hI _ h.of_restrict) ih hs.1 hs.2

/-- What is kept by the steps that meet `C` holds along a run of such steps. -/
theorem invariant_of_along {C : σ → ε → Prop} {I : σ → Prop}
    (hI : ∀ s e t, I s → C s e → S.Step s e t → I t) :
    ∀ {r : List (ε × σ)} {s : σ}, I s → S.IsRun s r → Along C s r → ∀ p ∈ r, I p.2
  | [], _, _, _, _, p, hp => absurd hp List.not_mem_nil
  | (e, t) :: r, s, hs, hr, hc, p, hp => by
    obtain ⟨hst, hr⟩ := hr
    obtain ⟨hc, hrest⟩ := hc
    have ht : I t := hI s e t hs hc hst
    rcases List.mem_cons.mp hp with rfl | hp
    · exact ht
    · exact invariant_of_along hI ht hr hrest p hp

/-- **Exact conditions on runs.** Where, in the states that meet the invariant `I`, a step keeps
`P` exactly when it meets `C`, a run keeps `P` exactly when all its steps meet `C`. The invariant
has to hold as long as `P` does. -/
theorem isRun_forall_iff {C : σ → ε → Prop} {I P : σ → Prop}
    (hI : ∀ s e t, I s → P s → S.Step s e t → P t → I t)
    (hstep : ∀ s e t, I s → P s → S.Step s e t → (P t ↔ C s e)) :
    ∀ {r : List (ε × σ)} {s : σ}, I s → P s → S.IsRun s r → ((∀ p ∈ r, P p.2) ↔ Along C s r)
  | [], _, _, _, _ => by simp [Along]
  | (e, t) :: r, s, hs, hp, hr => by
    obtain ⟨hst, hr⟩ := hr
    have hhead := hstep s e t hs hp hst
    simp only [List.forall_mem_cons, Along]
    constructor
    · rintro ⟨ht, hrest⟩
      exact ⟨hhead.mp ht, (isRun_forall_iff hI hstep (hI s e t hs hp hst ht) ht hr).mp hrest⟩
    · rintro ⟨hc, hrest⟩
      have ht := hhead.mpr hc
      exact ⟨ht, (isRun_forall_iff hI hstep (hI s e t hs hp hst ht) ht hr).mpr hrest⟩

/-- What every step meets where the invariant holds, a run meets. -/
theorem along_of_step {C : σ → ε → Prop} {I : σ → Prop} (hI : ∀ s e t, I s → S.Step s e t → I t)
    (h : ∀ s e t, I s → S.Step s e t → C s e) :
    ∀ {r : List (ε × σ)} {s : σ}, I s → S.IsRun s r → Along C s r
  | [], _, _, _ => trivial
  | (e, t) :: r, s, hs, hr => by
    obtain ⟨hst, hr⟩ := hr
    exact ⟨h s e t hs hst, along_of_step hI h (hI s e t hs hst) hr⟩

/-- **Conditions that nothing makes up for.** Where a step that misses `C` leads to states that meet
`D`, all steps keep `D`, and `D` excludes `Q`, a run that ends in `Q` meets `C` at every step. -/
theorem along_of_last {C : σ → ε → Prop} {I D Q : σ → Prop}
    (hI : ∀ s e t, I s → S.Step s e t → I t)
    (hmiss : ∀ s e t, I s → ¬ C s e → S.Step s e t → D t)
    (hD : ∀ s e t, D s → S.Step s e t → D t) (hQ : ∀ s, D s → ¬ Q s) :
    ∀ {r : List (ε × σ)} {s : σ}, I s → S.IsRun s r → ∀ p, r.getLast? = some p → Q p.2 →
      Along C s r
  | [], _, _, _, _, _, _ => trivial
  | (e, t) :: r, s, hs, hr, p, hp, hq => by
    obtain ⟨hst, hr⟩ := hr
    have hc : C s e := by
      by_contra hc
      have ht : D t := hmiss s e t hs hc hst
      rcases List.mem_cons.mp (List.mem_of_getLast? hp) with rfl | hmem
      · exact hQ _ ht hq
      · have hall := invariant_of_along (C := fun _ _ => True) (fun s e t hs _ => hD s e t hs) ht hr
          (along_of_step hD (fun _ _ _ _ _ => trivial) ht hr)
        exact hQ _ (hall p hmem) hq
    refine ⟨hc, ?_⟩
    cases r with
    | nil => trivial
    | cons q r => exact along_of_last hI hmiss hD hQ (hI s e t hs hst) hr p (by simpa using hp) hq

/-- Conditions that agree where the invariant holds agree along a run. -/
theorem along_congr {C C' : σ → ε → Prop} {I : σ → Prop}
    (hI : ∀ s e t, I s → S.Step s e t → I t)
    (h : ∀ s e t, I s → S.Step s e t → (C s e ↔ C' s e)) :
    ∀ {r : List (ε × σ)} {s : σ}, I s → S.IsRun s r → (Along C s r ↔ Along C' s r)
  | [], _, _, _ => Iff.rfl
  | (e, t) :: r, s, hs, hr => by
    obtain ⟨hst, hr⟩ := hr
    exact and_congr (h s e t hs hst) (along_congr hI h (hI s e t hs hst) hr)

/-- **What a run never loses.** Where a step carries `P` over exactly when it meets `C`, `P` once
reached is kept through the run exactly when all steps meet `C`. -/
theorem pairwise_iff_along {C : σ → ε → Prop} {I P : σ → Prop}
    (hI : ∀ s e t, I s → S.Step s e t → I t)
    (h : ∀ s e t, I s → S.Step s e t → ((P s → P t) ↔ C s e)) :
    ∀ {r : List (ε × σ)} {s : σ}, I s → S.IsRun s r →
      ((s :: r.map Prod.snd).Pairwise (fun a b => P a → P b) ↔ Along C s r)
  | [], _, _, _ => by simp [Along]
  | (e, t) :: r, s, hs, hr => by
    obtain ⟨hst, hr⟩ := hr
    have ih := pairwise_iff_along hI h (hI s e t hs hst) hr
    rw [List.map_cons, List.pairwise_cons, ih, Along]
    constructor
    · rintro ⟨hhead, hrest⟩
      exact ⟨(h s e t hs hst).mp (hhead t List.mem_cons_self), hrest⟩
    · rintro ⟨hc, hrest⟩
      refine ⟨fun x hx hps => ?_, hrest⟩
      have hpt := (h s e t hs hst).mpr hc hps
      rcases List.mem_cons.mp hx with rfl | hx
      · exact hpt
      · exact (List.pairwise_cons.mp (ih.mpr hrest)).1 x hx hpt

end System

/-- One list of steps after the other. -/
theorem exec_append {step : σ → ε → Option σ} :
    ∀ (es fs : List ε) {s t : σ}, exec step s es = some t → exec step s (es ++ fs) = exec step t fs
  | [], fs, s, t, h => by rw [Option.some.inj h, List.nil_append]
  | e :: es, fs, s, t, h => by
    obtain ⟨u, hu, h⟩ := Option.bind_eq_some_iff.mp h
    rw [List.cons_append, exec, hu, Option.bind_some, exec_append es fs h]

/-- **Simulation.** Where a step of one system is a list of steps of another, a run of such steps is
one of the other. -/
theorem exec_simulation {σ' ε' : Type*} {step : σ → ε → Option σ} {step' : σ' → ε' → Option σ'}
    {A : ε → Prop} {R : σ → σ' → Prop}
    (hsim : ∀ s e t s', A e → R s s' → step s e = some t →
      ∃ es t', exec step' s' es = some t' ∧ R t t') :
    ∀ (es : List ε) {s t : σ} {s' : σ'}, (∀ e ∈ es, A e) → R s s' → exec step s es = some t →
      ∃ es' t', exec step' s' es' = some t' ∧ R t t'
  | [], s, t, s', _, hR, h => ⟨[], s', rfl, Option.some.inj h ▸ hR⟩
  | e :: es, s, t, s', hA, hR, h => by
    obtain ⟨hhead, hrest⟩ := List.forall_mem_cons.mp hA
    obtain ⟨u, hu, h⟩ := Option.bind_eq_some_iff.mp h
    obtain ⟨fs, u', hfs, hRu⟩ := hsim s e u s' hhead hR hu
    obtain ⟨gs, t', hgs, hRt⟩ := exec_simulation hsim es hrest hRu h
    exact ⟨fs ++ gs, t', (exec_append fs gs hfs).trans hgs, hRt⟩

/-- **Working off a list.** A label that takes the first of the tasks that are left, repeated once
for each task, leaves none. -/
theorem exec_replicate (step : σ → ε → Option σ) {τ : Type*} {e : ε} {P : List τ → σ → Prop}
    (hstep : ∀ a as s, P (a :: as) s → ∃ t, step s e = some t ∧ P as t) :
    ∀ (as : List τ) {s : σ}, P as s →
      ∃ t, exec step s (List.replicate as.length e) = some t ∧ P [] t
  | [], s, h => ⟨s, rfl, h⟩
  | a :: as, s, h => by
    obtain ⟨u, hu, hrest⟩ := hstep a as s h
    obtain ⟨t, ht, hend⟩ := exec_replicate step hstep as hrest
    exact ⟨t, by simp [List.replicate_succ, exec, hu, ht], hend⟩

/-- The state a list of steps leads to is reachable. -/
theorem reachable_exec {init : σ → Prop} {step : σ → ε → Option σ} :
    ∀ (es : List ε) {s t : σ}, (ofStep init step).Reachable s → exec step s es = some t →
      (ofStep init step).Reachable t
  | [], s, t, h, he => by
    simp only [exec, Option.some.injEq] at he
    exact he ▸ h
  | e :: es, s, t, h, he => by
    simp only [exec, Option.bind_eq_some_iff] at he
    obtain ⟨u, hu, he⟩ := he
    exact reachable_exec es (h.next hu) he

/-- Steps that are always allowed are steps of the restricted system. -/
theorem reachable_exec_restrict {init : σ → Prop} {step : σ → ε → Option σ} {C : σ → ε → Prop} :
    ∀ (es : List ε) {s t : σ}, ((ofStep init step).restrict C).Reachable s →
      (∀ e ∈ es, ∀ s, C s e) → exec step s es = some t →
      ((ofStep init step).restrict C).Reachable t
  | [], s, t, h, _, he => by
    simp only [exec, Option.some.injEq] at he
    exact he ▸ h
  | e :: es, s, t, h, hC, he => by
    simp only [exec, Option.bind_eq_some_iff] at he
    obtain ⟨u, hu, he⟩ := he
    obtain ⟨hhead, hrest⟩ := List.forall_mem_cons.mp hC
    exact reachable_exec_restrict es (h.next ⟨hhead s, hu⟩) hrest he

end SampLogCore.Lib.Transition
