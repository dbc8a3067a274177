import Mathlib.Data.List.Perm.Basic
import Mathlib.Data.Set.Defs

/-!
# Steps that are confined to a part of the state

A state is seen through `obs`, which says what is at each place. A step is *confined* to a set of
places when it leaves all other places as they are and what it does to its own depends on nothing
else. Steps confined to disjoint sets can be taken in any order: each of them does what it does
alone (`Runs.inside`), so all orders lead to the same observations (`Runs.perm`).
-/

namespace SampLogCore.Lib.Footprints

variable {σ ι β κ : Type*}

/-- The step `R` only reads and writes the places in `A`, in states that meet `I`. -/
structure Confined (obs : σ → ι → β) (I : σ → Prop) (A : Set ι) (R : σ → σ → Prop) : Prop where
  keeps : ∀ {s t}, I s → R s t → I t
  frame : ∀ {s t}, I s → R s t → ∀ x ∉ A, obs t x = obs s x
  alike : ∀ {s s' t t'}, I s → I s' → R s t → R s' t' → (∀ x ∈ A, obs s x = obs s' x) →
    ∀ x ∈ A, obs t x = obs t' x

/-- The steps with these labels, one after the other. -/
inductive Runs (R : κ → σ → σ → Prop) : List κ → σ → σ → Prop
  | nil {s : σ} : Runs R [] s s
  | cons {k : κ} {ks : List κ} {s m t : σ} (h : R k s m) (hrest : Runs R ks m t) :
    Runs R (k :: ks) s t

namespace Runs

variable {obs : σ → ι → β} {I : σ → Prop} {A : κ → Set ι} {R : κ → σ → σ → Prop} {ks : List κ}
  {s t : σ}

/-- What belongs to no step stays. -/
theorem outside (h : Runs R ks s t) (hc : ∀ k ∈ ks, Confined obs I (A k) (R k)) (hs : I s) {x : ι}
    (hx : ∀ k ∈ ks, x ∉ A k) : obs t x = obs s x := by
  induction h with
  | nil => rfl
  | cons h _ ih =>
    obtain ⟨hk, hks⟩ := List.forall_mem_cons.mp hc
    obtain ⟨hxk, hxks⟩ := List.forall_mem_cons.mp hx
    rw [ih hks (hk.keeps hs h) hxks, hk.frame hs h x hxk]

/-- A step finds its places as they were at first, and they stay as it leaves them. -/
theorem exists_step (h : Runs R ks s t) (hc : ∀ k ∈ ks, Confined obs I (A k) (R k))
    (hdisj : ks.Pairwise fun k l => ∀ x ∈ A k, x ∉ A l) (hs : I s) {k : κ} (hk : k ∈ ks) :
    ∃ m m', I m ∧ R k m m' ∧ (∀ x ∈ A k, obs m x = obs s x) ∧ ∀ x ∈ A k, obs t x = obs m' x := by
  induction h with
  | nil => simp at hk
  | @cons l ks s m t h hrest ih =>
    obtain ⟨hl, hks⟩ := List.forall_mem_cons.mp hc
    obtain ⟨hapart, hdisj⟩ := List.pairwise_cons.mp hdisj
    rcases List.mem_cons.mp hk with rfl | hmem
    · refine ⟨s, m, hs, h, fun _ _ => rfl, fun x hx => ?_⟩
      exact hrest.outside hks (hl.keeps hs h) fun l hmem => hapart l hmem x hx
    · obtain ⟨m₁, m₂, hm₁, hstep, hbefore, hafter⟩ := ih hks hdisj (hl.keeps hs h) hmem
      refine ⟨m₁, m₂, hm₁, hstep, fun x hx => ?_, hafter⟩
      rw [hbefore x hx, hl.frame hs h x fun hxl => hapart k hmem x hxl hx]

/-- **Every step does what it does alone.** -/
theorem inside (h : Runs R ks s t) (hc : ∀ k ∈ ks, Confined obs I (A k) (R k))
    (hdisj : ks.Pairwise fun k l => ∀ x ∈ A k, x ∉ A l) (hs : I s) {k : κ} (hk : k ∈ ks) {u : σ}
    (hu : R k s u) : ∀ x ∈ A k, obs t x = obs u x := by
  intro x hx
  obtain ⟨m, m', hm, hstep, hbefore, hafter⟩ := h.exists_step hc hdisj hs hk
  rw [hafter x hx, (hc k hk).alike hm hs hstep hu hbefore x hx]

/-- **The order does not matter.** -/
theorem perm {ls : List κ} {u : σ} (h : Runs R ks s t) (h' : Runs R ls s u) (hperm : ks.Perm ls)
    (hc : ∀ k ∈ ks, Confined obs I (A k) (R k))
    (hdisj : ks.Pairwise fun k l => ∀ x ∈ A k, x ∉ A l) (hs : I s) (x : ι) :
    obs t x = obs u x := by
  have hc' : ∀ k ∈ ls, Confined obs I (A k) (R k) := fun k hk => hc k (hperm.mem_iff.mpr hk)
  have hdisj' : ls.Pairwise fun k l => ∀ x ∈ A k, x ∉ A l :=
    hdisj.perm hperm fun hab x hx hx' => hab x hx' hx
  by_cases hx : ∃ k ∈ ks, x ∈ A k
  · obtain ⟨k, hk, hx⟩ := hx
    have hk' := hperm.mem_iff.mp hk
    obtain ⟨m, m', hm, hstep, hbefore, hafter⟩ := h.exists_step hc hdisj hs hk
    obtain ⟨n, n', hn, hstep', hbefore', hafter'⟩ := h'.exists_step hc' hdisj' hs hk'
    rw [hafter x hx, hafter' x hx]
    refine (hc k hk).alike hm hn hstep hstep' (fun y hy => ?_) x hx
    rw [hbefore y hy, hbefore' y hy]
  · have hout : ∀ k ∈ ks, x ∉ A k := fun k hk hmem => hx ⟨k, hk, hmem⟩
    rw [h.outside hc hs hout, h'.outside hc' hs fun k hk => hout k (hperm.mem_iff.mpr hk)]

end Runs

end SampLogCore.Lib.Footprints
