import Mathlib.Data.Set.Basic
import Mathlib.Logic.Function.Basic
import Mathlib.Logic.Relation
import Mathlib.Tactic
import SampLogCore.Lib.Transition

/-!
# Threads that lock in order

A thread is a program over mutexes: it acquires and releases them, joins other threads, awaits what
another thread does, and chooses and loops as it likes, since what its choices depend on is left
out. Any number of threads run their programs in any interleaving (`threads`).

`check` goes through a program once and finds out which mutexes it holds where. It accepts a program
that acquires mutexes in ascending order of their ranks, releases the last one first, and holds none
when it waits for a thread. If all programs are accepted, and no thread that is waited for waits for
threads itself, then no set of threads ever waits for each other (**`not_deadlocked`**), and a
thread that waits for a mutex waits, by way of others, for a thread that can go on
(**`exists_ready`**).
-/

namespace SampLogCore.Lib.LockOrder

open SampLogCore.Lib.Transition

/-- What a thread does with the mutexes `κ` and the other threads `τ`. -/
inductive Cmd (κ τ : Type)
  | skip
  | acquire (k : κ)
  | release (k : κ)
  /-- wait until the thread has ended -/
  | join (t : τ)
  /-- wait for something that the thread does -/
  | await (t : τ)
  | seq (c d : Cmd κ τ)
  /-- one or the other -/
  | choice (c d : Cmd κ τ)
  /-- any number of times -/
  | loop (c : Cmd κ τ)

/-- The threads, with the commands they have left, and the owners of the mutexes. -/
structure State (κ τ : Type) where
  left : τ → List (Cmd κ τ)
  owner : κ → Option τ

variable {κ τ : Type} [DecidableEq κ]

/-- The thread `t` goes on with `cs`. -/
def State.go [DecidableEq τ] (s : State κ τ) (t : τ) (cs : List (Cmd κ τ)) : State κ τ :=
  { s with left := Function.update s.left t cs }

/-- The owner of a mutex changes. -/
def State.own (s : State κ τ) (k : κ) (t : Option τ) : State κ τ :=
  { s with owner := Function.update s.owner k t }

/-- A step of a thread, with the choice it makes. -/
def step [DecidableEq τ] (s : State κ τ) (e : τ × Bool) : Option (State κ τ) :=
  match s.left e.1 with
  | [] => none
  | .skip :: cs => some (s.go e.1 cs)
  | .acquire k :: cs => if (s.owner k).isNone then some ((s.go e.1 cs).own k e.1) else none
  | .release k :: cs => some ((s.go e.1 cs).own k none)
  | .join t :: cs => if (s.left t).isEmpty then some (s.go e.1 cs) else none
  | .await _ :: cs => some (s.go e.1 cs)
  | .seq c d :: cs => some (s.go e.1 (c :: d :: cs))
  | .choice c d :: cs => some (s.go e.1 ((if e.2 then c else d) :: cs))
  | .loop c :: cs => some (s.go e.1 (if e.2 then c :: .loop c :: cs else cs))

/-- The threads run their programs. -/
def threads [DecidableEq τ] (prog : τ → Cmd κ τ) : System (State κ τ) (τ × Bool) :=
  ofStep (fun s => s = ⟨fun t => [prog t], fun _ => none⟩) step

/-! ### The discipline -/

/-- The mutexes that a program holds at its end, if it keeps the discipline. -/
def check (rank : κ → ℕ) : Cmd κ τ → List κ → Option (List κ)
  | .skip, held => some held
  | .acquire k, held => if ∀ h ∈ held, rank h < rank k then some (k :: held) else none
  | .release k, held => if held.head? = some k then some held.tail else none
  | .join _, held => if held = [] then some [] else none
  | .await _, held => if held = [] then some [] else none
  | .seq c d, held => (check rank c held).bind (check rank d)
  | .choice c d, held =>
    if check rank c held = check rank d held then check rank c held else none
  | .loop c, held => if check rank c held = some held then some held else none

/-- The threads that a program waits for. -/
def waits : Cmd κ τ → List τ
  | .join t => [t]
  | .await t => [t]
  | .seq c d => waits c ++ waits d
  | .choice c d => waits c ++ waits d
  | .loop c => waits c
  | _ => []

/-- The mutexes that are held at the end of a list of commands. -/
def checkAll (rank : κ → ℕ) : List (Cmd κ τ) → List κ → Option (List κ)
  | [], held => some held
  | c :: cs, held => (check rank c held).bind (checkAll rank cs)

/-- All threads keep the discipline. -/
structure Disciplined (rank : κ → ℕ) (prog : τ → Cmd κ τ) : Prop where
  checked : ∀ t, check rank (prog t) [] = some []
  waited : ∀ t, ∀ u ∈ waits (prog t), waits (prog u) = []

/-! ### Waiting -/

/-- The thread `t` cannot go on before `u` has done something. -/
inductive WaitsFor (s : State κ τ) (t u : τ) : Prop
  | mutex {k : κ} {cs : List (Cmd κ τ)} (h : s.left t = .acquire k :: cs) (hu : s.owner k = some u)
  | join {cs : List (Cmd κ τ)} (h : s.left t = .join u :: cs) (hu : s.left u ≠ [])
  | await {cs : List (Cmd κ τ)} (h : s.left t = .await u :: cs)

/-- Some threads wait for each other. -/
def Deadlocked (s : State κ τ) : Prop :=
  ∃ T : Set τ, T.Nonempty ∧ ∀ t ∈ T, ∃ u ∈ T, WaitsFor s t u

/-- The thread can go on, and waits for no other. -/
def Ready [DecidableEq τ] (s : State κ τ) (t : τ) : Prop :=
  (step s (t, true)).isSome ∧ ∀ u, ¬ WaitsFor s t u

/-! ### The invariant -/

variable {rank : κ → ℕ} {prog : τ → Cmd κ τ} {s s' : State κ τ} {held : τ → List κ} {t u : τ}

/-- Each thread holds a list of mutexes with which the rest of its program keeps the discipline. -/
structure Holds (rank : κ → ℕ) (prog : τ → Cmd κ τ) (s : State κ τ) (held : τ → List κ) : Prop where
  checked : ∀ t, checkAll rank (s.left t) (held t) = some []
  owned : ∀ k t, s.owner k = some t ↔ k ∈ held t
  descending : ∀ t, (held t).Pairwise fun h k => rank k < rank h
  waited : ∀ t, ∀ c ∈ s.left t, waits c ⊆ waits (prog t)

theorem holds_init (h : Disciplined rank prog) :
    Holds rank prog ⟨fun t => [prog t], fun _ => none⟩ fun _ => [] where
  checked := by
    intro t
    rw [checkAll, h.checked t]
    rfl
  owned := by simp
  descending := fun _ => List.Pairwise.nil
  waited := by
    intro t c hc
    rw [List.mem_singleton.mp hc]
    exact fun _ => id

/-- A wait needs that nothing is held. -/
theorem check_of_nil {c : Cmd κ τ} {hs held' : List κ}
    (hc : check rank c hs = if hs = [] then some [] else none)
    (hcheck : check rank c hs = some held') : held' = hs := by
  rw [hc] at hcheck
  split_ifs at hcheck with hheld
  rw [hheld, ← Option.some.inj hcheck]

/-- What a command that is done leaves to check. -/
theorem Holds.next (h : Holds rank prog s held) {c : Cmd κ τ} {cs : List (Cmd κ τ)}
    (hleft : s.left t = c :: cs) :
    ∃ held', check rank c (held t) = some held' ∧ checkAll rank cs held' = some [] := by
  have hcheck := h.checked t
  rw [hleft, checkAll] at hcheck
  exact Option.bind_eq_some_iff.mp hcheck

theorem Holds.waits_tail (h : Holds rank prog s held) {c : Cmd κ τ} {cs : List (Cmd κ τ)}
    (hleft : s.left t = c :: cs) : ∀ d ∈ cs, waits d ⊆ waits (prog t) := by
  intro d hd
  apply h.waited t
  rw [hleft]
  exact List.mem_cons_of_mem c hd

variable [DecidableEq τ]

/-- One thread goes on with `cs`, holding `hs`. -/
theorem Holds.change (h : Holds rank prog s held) {cs : List (Cmd κ τ)} {hs : List κ}
    (owner : κ → Option τ) (hcheck : checkAll rank cs hs = some [])
    (hself : ∀ k, owner k = some t ↔ k ∈ hs)
    (hothers : ∀ k u, u ≠ t → (owner k = some u ↔ s.owner k = some u))
    (hdescending : hs.Pairwise fun h k => rank k < rank h)
    (hwaits : ∀ c ∈ cs, waits c ⊆ waits (prog t)) :
    Holds rank prog ⟨Function.update s.left t cs, owner⟩ (Function.update held t hs) := by
  refine ⟨fun u => ?_, fun k u => ?_, fun u => ?_, fun u => ?_⟩ <;> by_cases hu : u = t
  · subst hu
    simpa using hcheck
  · simpa [Function.update_of_ne hu] using h.checked u
  · subst hu
    simpa using hself k
  · rw [hothers k u hu, Function.update_of_ne hu]
    exact h.owned k u
  · subst hu
    simpa using hdescending
  · simpa [Function.update_of_ne hu] using h.descending u
  · subst hu
    simpa using hwaits
  · simpa [Function.update_of_ne hu] using h.waited u

/-- A thread goes on, and holds what it held. -/
theorem Holds.go (h : Holds rank prog s held) {cs : List (Cmd κ τ)}
    (hcheck : checkAll rank cs (held t) = some []) (hwaits : ∀ c ∈ cs, waits c ⊆ waits (prog t)) :
    Holds rank prog (s.go t cs) held := by
  have hchange := h.change s.owner hcheck (fun k => h.owned k t) (fun _ _ _ => Iff.rfl)
    (h.descending t) hwaits
  rwa [Function.update_eq_self] at hchange

/-- A mutex is acquired. -/
theorem Holds.acquire (h : Holds rank prog s held) {k : κ} {cs : List (Cmd κ τ)}
    (hleft : s.left t = .acquire k :: cs) (hfree : s.owner k = none) :
    Holds rank prog ((s.go t cs).own k t) (Function.update held t (k :: held t)) := by
  obtain ⟨held', hcheck, hrest⟩ := h.next hleft
  rw [check] at hcheck
  split_ifs at hcheck with habove
  obtain rfl := Option.some.inj hcheck
  refine h.change _ hrest (fun k' => ?_) (fun k' u hu => ?_)
    (List.Pairwise.cons habove (h.descending t)) (h.waits_tail hleft)
  · by_cases hk : k' = k
    · subst hk
      simp
    · rw [Function.update_of_ne hk, List.mem_cons, or_iff_right hk]
      exact h.owned k' t
  · by_cases hk : k' = k
    · subst hk
      rw [Function.update_self, hfree, Option.some.injEq]
      simp [Ne.symm hu]
    · rw [Function.update_of_ne hk]
      rfl

/-- The mutex acquired last is released. -/
theorem Holds.release (h : Holds rank prog s held) {k : κ} {cs : List (Cmd κ τ)}
    (hleft : s.left t = .release k :: cs) :
    Holds rank prog ((s.go t cs).own k none) (Function.update held t (held t).tail) := by
  obtain ⟨held', hcheck, hrest⟩ := h.next hleft
  rw [check] at hcheck
  split_ifs at hcheck with hhead
  obtain rfl := Option.some.inj hcheck
  obtain ⟨rest, hheld⟩ := List.head?_eq_some_iff.mp hhead
  have hdescending := h.descending t
  have howned := h.owned k t
  rw [hheld] at hdescending howned
  have hnot : k ∉ rest := fun hk => lt_irrefl _ ((List.pairwise_cons.mp hdescending).1 k hk)
  refine h.change _ hrest (fun k' => ?_) (fun k' u hu => ?_) ?_ (h.waits_tail hleft)
  · rw [hheld, List.tail_cons]
    by_cases hk : k' = k
    · subst hk
      simp [hnot]
    · have hmem := h.owned k' t
      rw [hheld, List.mem_cons, or_iff_right hk] at hmem
      rw [Function.update_of_ne hk]
      exact hmem
  · by_cases hk : k' = k
    · subst hk
      rw [Function.update_self, howned.mpr List.mem_cons_self, Option.some.injEq]
      simp [Ne.symm hu]
    · rw [Function.update_of_ne hk]
      rfl
  · rw [hheld, List.tail_cons]
    exact (List.pairwise_cons.mp hdescending).2

/-- The commands `ds` take the place of the first, and wait for no other threads than it does. -/
theorem Holds.replace (h : Holds rank prog s held) {c : Cmd κ τ} {cs : List (Cmd κ τ)}
    (hleft : s.left t = c :: cs) (ds : List (Cmd κ τ))
    (hcheck : checkAll rank (ds ++ cs) (held t) = some [])
    (hwaits : ∀ d ∈ ds, waits d ⊆ waits c) : Holds rank prog (s.go t (ds ++ cs)) held := by
  refine h.go hcheck fun d hd => ?_
  rcases List.mem_append.mp hd with hd | hd
  · have hmem : c ∈ s.left t := by
      rw [hleft]
      exact List.mem_cons_self
    exact fun v hv => h.waited t c hmem (hwaits d hd hv)
  · exact h.waits_tail hleft d hd

/-- A command that changes nothing is over. -/
theorem Holds.pass (h : Holds rank prog s held) {c : Cmd κ τ} {cs : List (Cmd κ τ)}
    (hleft : s.left t = c :: cs) (hsame : ∀ held', check rank c (held t) = some held' →
      held' = held t) : Holds rank prog (s.go t cs) held := by
  obtain ⟨held', hcheck, hrest⟩ := h.next hleft
  obtain rfl := hsame held' hcheck
  exact h.replace hleft [] hrest (by simp)

theorem Holds.seq (h : Holds rank prog s held) {c d : Cmd κ τ} {cs : List (Cmd κ τ)}
    (hleft : s.left t = .seq c d :: cs) : Holds rank prog (s.go t (c :: d :: cs)) held := by
  obtain ⟨held', hcheck, hrest⟩ := h.next hleft
  obtain ⟨heldc, hc, hd⟩ := Option.bind_eq_some_iff.mp hcheck
  refine h.replace hleft [c, d] ?_ ?_
  · show checkAll rank (c :: d :: cs) (held t) = some []
    rw [checkAll, hc, Option.bind_some, checkAll, hd]
    exact hrest
  · simp [waits]

theorem Holds.choice (h : Holds rank prog s held) {c d : Cmd κ τ} {cs : List (Cmd κ τ)}
    (hleft : s.left t = .choice c d :: cs) (b : Bool) :
    Holds rank prog (s.go t ((if b then c else d) :: cs)) held := by
  obtain ⟨held', hcheck, hrest⟩ := h.next hleft
  rw [check] at hcheck
  split_ifs at hcheck with hsame
  refine h.replace hleft [if b then c else d] ?_ ?_
  · show checkAll rank ((if b then c else d) :: cs) (held t) = some []
    cases b
    · rw [if_neg (by simp), checkAll, ← hsame, hcheck]
      exact hrest
    · rw [if_pos rfl, checkAll, hcheck]
      exact hrest
  · cases b <;> simp [waits]

theorem Holds.loop (h : Holds rank prog s held) {c : Cmd κ τ} {cs : List (Cmd κ τ)}
    (hleft : s.left t = .loop c :: cs) (b : Bool) :
    Holds rank prog (s.go t (if b then c :: .loop c :: cs else cs)) held := by
  obtain ⟨held', hcheck, hrest⟩ := h.next hleft
  rw [check] at hcheck
  split_ifs at hcheck with hsame
  obtain rfl := Option.some.inj hcheck
  cases b
  · exact h.replace hleft [] hrest (by simp)
  · refine h.replace hleft [c, .loop c] ?_ (by simp [waits])
    show checkAll rank (c :: .loop c :: cs) (held t) = some []
    rw [checkAll, hsame, Option.bind_some, checkAll, check, if_pos hsame]
    exact hrest

/-- **A step keeps the discipline.** -/
theorem Holds.step (h : Holds rank prog s held) {e : τ × Bool} (hs : step s e = some s') :
    ∃ held', Holds rank prog s' held' := by
  obtain ⟨t, b⟩ := e
  unfold LockOrder.step at hs
  rcases hleft : s.left t with _ | ⟨c, cs⟩ <;> rw [hleft] at hs
  · exact absurd hs (by simp)
  cases c with
  | skip =>
    obtain rfl := Option.some.inj hs
    exact ⟨held, h.pass hleft fun _ hc => (Option.some.inj hc).symm⟩
  | acquire k =>
    simp only at hs
    split_ifs at hs with hfree
    obtain rfl := Option.some.inj hs
    exact ⟨_, h.acquire hleft (Option.isNone_iff_eq_none.mp hfree)⟩
  | release k =>
    obtain rfl := Option.some.inj hs
    exact ⟨_, h.release hleft⟩
  | join u =>
    simp only at hs
    split_ifs at hs
    obtain rfl := Option.some.inj hs
    exact ⟨held, h.pass hleft fun _ => check_of_nil rfl⟩
  | await u =>
    obtain rfl := Option.some.inj hs
    exact ⟨held, h.pass hleft fun _ => check_of_nil rfl⟩
  | seq c d =>
    obtain rfl := Option.some.inj hs
    exact ⟨held, h.seq hleft⟩
  | choice c d =>
    obtain rfl := Option.some.inj hs
    exact ⟨held, h.choice hleft b⟩
  | loop c =>
    obtain rfl := Option.some.inj hs
    exact ⟨held, h.loop hleft b⟩

/-- **In every reachable state the threads keep the discipline.** -/
theorem exists_holds (hd : Disciplined rank prog) (h : (threads prog).Reachable s) :
    ∃ held, Holds rank prog s held := by
  refine h.invariant (I := fun s => ∃ held, Holds rank prog s held) ?_ ?_
  · rintro s rfl
    exact ⟨_, holds_init hd⟩
  · rintro s e s' ⟨held, hheld⟩ hs
    exact hheld.step hs

/-! ### Nobody waits in a circle -/

/-- A thread that holds a mutex waits for no thread, and if it waits for a mutex, then for one of a
greater rank. -/
theorem Holds.holder (h : Holds rank prog s held) {k : κ} (hk : s.owner k = some u) :
    Ready s u ∨ ∃ k' v cs, rank k < rank k' ∧ s.left u = .acquire k' :: cs ∧
      s.owner k' = some v := by
  have hmem := (h.owned k u).mp hk
  have hne : held u ≠ [] := List.ne_nil_of_mem hmem
  rcases hleft : s.left u with _ | ⟨c, cs⟩
  · have hcheck := h.checked u
    rw [hleft, checkAll] at hcheck
    exact absurd (Option.some.inj hcheck) hne
  · obtain ⟨held', hcheck, -⟩ := h.next hleft
    have hready : (∀ v, c ≠ .await v) → (∀ v, c ≠ .join v) → (∀ k', c ≠ .acquire k') →
        (LockOrder.step s (u, true)).isSome → Ready s u := by
      intro hawait hjoin hacquire hstep
      refine ⟨hstep, fun v hv => ?_⟩
      rcases hv with ⟨hv, -⟩ | ⟨hv, -⟩ | hv <;> rw [hleft] at hv
      · exact hacquire _ (List.cons.inj hv).1
      · exact hjoin _ (List.cons.inj hv).1
      · exact hawait _ (List.cons.inj hv).1
    cases c with
    | acquire k' =>
      rw [check] at hcheck
      split_ifs at hcheck with habove
      rcases howner : s.owner k' with _ | v
      · refine .inl ⟨by simp [LockOrder.step, hleft, howner], fun v hv => ?_⟩
        rcases hv with ⟨hv, hu⟩ | ⟨hv, -⟩ | hv <;> rw [hleft] at hv
        · obtain ⟨hv, -⟩ := List.cons.inj hv
          rw [← Cmd.acquire.inj hv, howner] at hu
          exact absurd hu (by simp)
        · exact absurd (List.cons.inj hv).1 (by simp)
        · exact absurd (List.cons.inj hv).1 (by simp)
      · exact .inr ⟨k', v, cs, habove k hmem, rfl, howner⟩
    | join v =>
      rw [check, if_neg hne] at hcheck
      exact absurd hcheck (by simp)
    | await v =>
      rw [check, if_neg hne] at hcheck
      exact absurd hcheck (by simp)
    | _ =>
      exact .inl (hready (by simp) (by simp) (by simp) (by simp [LockOrder.step, hleft]))

/-- A thread that waits for a mutex waits for a thread that can go on, by way of threads that wait
for mutexes of greater and greater rank. -/
theorem Holds.exists_ready (h : Holds rank prog s held) {n : ℕ} (hn : ∀ k, rank k ≤ n) :
    ∀ {m : ℕ} {k : κ} {t u : τ} {cs : List (Cmd κ τ)}, n ≤ rank k + m →
      s.left t = .acquire k :: cs → s.owner k = some u →
      ∃ v, Relation.TransGen (WaitsFor s) t v ∧ Ready s v := by
  intro m
  induction m with
  | zero =>
    intro k t u cs hm hleft howner
    rcases h.holder howner with hready | ⟨k', v, cs', hlt, -, -⟩
    · exact ⟨u, .single (.mutex hleft howner), hready⟩
    · have := hn k'
      omega
  | succ m ih =>
    intro k t u cs hm hleft howner
    rcases h.holder howner with hready | ⟨k', v, cs', hlt, hleft', howner'⟩
    · exact ⟨u, .single (.mutex hleft howner), hready⟩
    · obtain ⟨w, hw, hready⟩ := ih (by omega) hleft' howner'
      exact ⟨w, .head (.mutex hleft howner) hw, hready⟩

/-- **No threads wait for each other.** -/
theorem Holds.not_deadlocked (h : Holds rank prog s held) (hd : Disciplined rank prog) {n : ℕ}
    (hn : ∀ k, rank k ≤ n) : ¬ Deadlocked s := by
  rintro ⟨T, ⟨t, ht⟩, hT⟩
  -- nobody in the set waits for a mutex: the holder of the greatest one would wait for no other
  have hmutex : ∀ (m : ℕ) (k : κ) (t u : τ) (cs : List (Cmd κ τ)), n ≤ rank k + m → u ∈ T →
      s.left t = .acquire k :: cs → s.owner k = some u → False := by
    intro m
    induction m with
    | zero =>
      intro k t u cs hm hu hleft howner
      obtain ⟨v, -, hwait⟩ := hT u hu
      rcases h.holder howner with hready | ⟨k', v', cs', hlt, -, -⟩
      · exact hready.2 v hwait
      · have := hn k'
        omega
    | succ m ih =>
      intro k t u cs hm hu hleft howner
      obtain ⟨v, hv, hwait⟩ := hT u hu
      rcases h.holder howner with hready | ⟨k', v', cs', hlt, hleft', howner'⟩
      · exact hready.2 v hwait
      · rcases hwait with ⟨hv', hk'⟩ | ⟨hv', -⟩ | hv' <;> rw [hleft'] at hv'
        · obtain ⟨hv', -⟩ := List.cons.inj hv'
          rw [← Cmd.acquire.inj hv'] at hk'
          exact ih k' u v cs' (by omega) hv hleft' hk'
        · exact absurd (List.cons.inj hv').1 (by simp)
        · exact absurd (List.cons.inj hv').1 (by simp)
  -- so everybody waits for a thread, but a thread that is waited for does not
  have hthread : ∀ t ∈ T, ∃ u ∈ T, u ∈ waits (prog t) := by
    intro t ht
    obtain ⟨u, hu, hwait⟩ := hT t ht
    rcases hwait with ⟨hleft, howner⟩ | ⟨hleft, -⟩ | hleft
    · exact absurd (hmutex n _ t u _ (by omega) hu hleft howner) id
    · refine ⟨u, hu, h.waited t (.join u) ?_ List.mem_cons_self⟩
      rw [hleft]
      exact List.mem_cons_self
    · refine ⟨u, hu, h.waited t (.await u) ?_ List.mem_cons_self⟩
      rw [hleft]
      exact List.mem_cons_self
  obtain ⟨u, hu, htu⟩ := hthread t ht
  obtain ⟨v, -, huv⟩ := hthread u hu
  rw [hd.waited t u htu] at huv
  exact absurd huv (by simp)

/-- Nobody waits in a circle, and who waits for a mutex waits in the end for a thread that can go
on. -/
def Live (s : State κ τ) : Prop :=
  ¬ Deadlocked s ∧ ∀ t k u cs, s.left t = .acquire k :: cs → s.owner k = some u →
    ∃ v, Relation.TransGen (WaitsFor s) t v ∧ Ready s v

/-- **Threads that keep the discipline are live** in every reachable state. -/
theorem Disciplined.live (hd : Disciplined rank prog) {n : ℕ} (hn : ∀ k, rank k ≤ n)
    (h : (threads prog).Reachable s) : Live s := by
  obtain ⟨held, hheld⟩ := exists_holds hd h
  refine ⟨hheld.not_deadlocked hd hn, fun t k u cs hleft howner => ?_⟩
  exact hheld.exists_ready (m := n) hn (by omega) hleft howner

end SampLogCore.Lib.LockOrder
