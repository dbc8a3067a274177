import SampLogCore.Lifecycle.Runs

/-!
# What the end of the library leaves

With `RefCounter` at zero no instance should be left. The counter comes back to zero in three ways,
and each of them leaves some: `samplog_DestroyApi` on the last `Api`, because the logger inside
`LogManager` is destroyed after `LogConfig` and asks for it again; a first `samplog_GetApi` that
hands out nothing, because it has already created the instances; and the one that makes the counter
overflow. A run leaves nothing behind exactly when it does none of these (`leavesNothing_iff`).
-/

namespace SampLogCore.Lifecycle.Teardown

open SampLogCore.Lib.Transition SampLogCore.Lib.Locking SampLogCore.Config.Yaml
  SampLogCore.Lifecycle.Library SampLogCore.Lifecycle.Effects SampLogCore.Lifecycle.WellFormed
  SampLogCore.Lifecycle.Loading SampLogCore.Lifecycle.Operations SampLogCore.Lifecycle.Runs

variable (c : Conversions) {w t : World}

/-- Without a reference there is no instance. -/
def LeavesNothing (w : World) : Prop :=
  w.refCounter = 0 → w.logConfig = none ∧ w.logManager = none ∧ w.logRotationManager = none ∧
    w.sampConfigReader = false

/-- The event does not bring `RefCounter` back to zero, and does not leave it there. -/
def KeepsReference (w : World) : Event → Prop
  | .getApi version source =>
    if w.refCounter = 0 then version = 1 ∧ ¬ SourceThrows source
    else version = 1 → w.refCounter + 1 ≠ 0
  | .destroyApi => w.refCounter ≠ 1
  | _ => True

/-- The counter counts the handles. With it the two instances that are created first are there,
and without it there is no logger. -/
structure Counted (w : World) : Prop where
  wf : Wf w
  handles : w.refCounter.toNat = w.handles
  instances : w.refCounter ≠ 0 → w.logConfig.isSome = true ∧ w.logManager.isSome = true
  loggers : w.refCounter = 0 → ∀ i, w.loggers i = none

theorem toNat_succ {r : UInt32} (h : r + 1 ≠ 0) : (r + 1).toNat = r.toNat + 1 := by
  have hlt := r.toNat_lt
  have hne : (r + 1).toNat ≠ 0 := fun h0 => h (UInt32.toNat_inj.mp (by simpa using h0))
  simp only [UInt32.toNat_add, UInt32.reduceToNat] at hne ⊢
  omega

theorem toNat_pred {r : UInt32} (h : 0 < r.toNat) : (r - 1).toNat = r.toNat - 1 := by
  have hle : 1 ≤ r := UInt32.le_iff_toNat_le.mpr h
  rw [UInt32.toNat_sub_of_le r 1 hle]
  rfl

theorem pred_eq_zero_iff {r : UInt32} : r - 1 = 0 ↔ r = 1 := by
  constructor
  · intro h
    grind
  · rintro rfl
    rfl

/-! ### One step -/

/-- What is known after a step. -/
structure After (t : World) (kept : Prop) : Prop where
  logConfig : t.logConfig.isSome = true
  refCounter : t.refCounter ≠ 0 ↔ kept
  rest : t.refCounter ≠ 0 → t.logManager.isSome = true ∧ t.refCounter.toNat = t.handles

/-- A call of `samplog_GetApi` that has its instances. -/
theorem after_handedOut {u : World} (hw : Wf u) (hc : u.logConfig.isSome = true)
    (hm : u.logManager.isSome = true) (hh : u.refCounter.toNat = u.handles) (version : ℤ) :
    After (handedOut version u)
      (if version = 1 then u.refCounter + 1 ≠ 0 else u.refCounter ≠ 0) := by
  unfold handedOut
  split_ifs
  · exact ⟨hc, Iff.rfl, fun h => ⟨hm, by rw [toNat_succ h, hh]⟩⟩
  · have hkept := hw.kept_loggedInternal Levels.ERROR
      ("unknown api version '" ++ toString version ++ "'")
    refine ⟨hkept.logConfig hc, by rw [hkept.refCounter], fun _ => ⟨hkept.logManager hm, ?_⟩⟩
    rw [hkept.refCounter, hkept.handles, hh]

theorem after_getApi (hs : Counted w) {version : ℤ} {source : Source}
    (h : (lifecycle c).Step w (.getApi version source) t) :
    After t (KeepsReference w (.getApi version source)) := by
  rcases getApi_step c hs.wf h with
    ⟨hr, rfl⟩ | ⟨hr, hsource, u, rfl, hkept, hc, hm⟩ | ⟨hr, hsource, hkept, hc⟩
  · obtain ⟨hc, hm⟩ := hs.instances hr
    have hafter := after_handedOut hs.wf hc hm hs.handles version
    rw [KeepsReference, if_neg hr]
    by_cases h1 : version = 1
    · simpa [h1] using hafter
    · simpa [h1, hr] using hafter
  · have hh : u.refCounter.toNat = u.handles := by
      rw [hkept.refCounter, hkept.handles, hs.handles]
    have hafter := after_handedOut (hkept.wf hs.wf) hc hm hh version
    rw [KeepsReference, if_pos hr]
    rw [hkept.refCounter, hr] at hafter
    by_cases h1 : version = 1
    · simpa [h1, hsource] using hafter
    · simpa [h1] using hafter
  · have ht : t.refCounter = 0 := hkept.refCounter.trans hr
    refine ⟨hc, ?_, fun h0 => absurd ht h0⟩
    rw [KeepsReference, if_pos hr]
    simp [ht, hsource]

theorem after_destroyApi (hs : Counted w) (h : (lifecycle c).Step w .destroyApi t) :
    After t (KeepsReference w .destroyApi) := by
  obtain ⟨hhandles, -, hr, hh, hsame, hleft⟩ := destroyApi_step c hs.wf h
  have hpos : 0 < w.refCounter.toNat := hs.handles ▸ hhandles
  have hne : w.refCounter ≠ 0 := by
    intro h0
    rw [h0] at hpos
    exact absurd hpos (by decide)
  obtain ⟨hc, hm⟩ := hs.instances hne
  refine ⟨?_, ?_, fun h0 => ?_⟩
  · by_cases h0 : w.refCounter - 1 = 0
    · exact hleft h0 hm
    · rw [(hsame h0).1]
      exact hc
  · rw [hr, KeepsReference, ne_eq, pred_eq_zero_iff]
  · rw [(hsame (hr ▸ h0)).2, hr, hh, toNat_pred hpos, hs.handles]
    exact ⟨hm, rfl⟩

/-- Without a reference, the other events are not possible. -/
theorem ne_zero_of_allowed (hs : Counted w) (hp : LeavesNothing w) {e : Event} (ha : Allowed w e)
    (he : ¬ e.Counts) : w.refCounter ≠ 0 := by
  intro h0
  have hhandles : w.handles = 0 := by
    rw [← hs.handles, h0]
    rfl
  have hlogger : ∀ i, ¬ PluginLogger w i := by
    rintro i ⟨hi, -⟩
    simp [hs.loggers h0 i] at hi
  obtain ⟨hc, hm, -, -⟩ := hp h0
  cases e with
  | getApi version source => exact he trivial
  | destroyApi => exact he trivial
  | createLogger module => exact absurd ha (by simp [Allowed, hhandles])
  | destroyLogger i => exact hlogger i ha.1
  | log i level msg => exact hlogger i ha
  | useDebug => exact absurd ha (by simp [Allowed, hhandles])
  | work =>
    obtain ⟨m, hsome, -⟩ := ha
    exact absurd (hm.symm.trans hsome) (by simp)
  | reload source =>
    obtain ⟨config, hsome, -⟩ := ha
    exact absurd (hc.symm.trans hsome) (by simp)

/-- **After any step there is an instance of `LogConfig`.** -/
theorem after_step (hs : Counted w) (hp : LeavesNothing w) {e : Event}
    (h : (lifecycle c).Step w e t) : After t (KeepsReference w e) := by
  by_cases he : e.Counts
  · cases e with
    | getApi version source => exact after_getApi c hs h
    | destroyApi => exact after_destroyApi c hs h
    | _ => exact absurd he id
  · have hne := ne_zero_of_allowed hs hp h.1 he
    have hkept := kept_of_step c hs.wf h he
    obtain ⟨hc, hm⟩ := hs.instances hne
    refine ⟨hkept.logConfig hc, ?_, fun _ => ⟨hkept.logManager hm, ?_⟩⟩
    · rw [hkept.refCounter]
      cases e <;> simp_all [KeepsReference, Event.Counts]
    · rw [hkept.refCounter, hkept.handles, hs.handles]

/-- With an instance of `LogConfig`, nothing being left means that there is a reference. -/
theorem After.empty_iff {kept : Prop} (h : After t kept) : LeavesNothing t ↔ kept := by
  rw [← h.refCounter]
  constructor
  · intro hp h0
    have := h.logConfig
    simp [(hp h0).1] at this
  · exact fun h h0 => absurd h0 h

theorem counted_step (hs : Counted w) (hp : LeavesNothing w) {e : Event}
    (h : (lifecycle c).Step w e t) (hp' : LeavesNothing t) : Counted t := by
  have hafter := after_step c hs hp h
  have hne := hafter.refCounter.mpr (hafter.empty_iff.mp hp')
  obtain ⟨hm, hh⟩ := hafter.rest hne
  exact ⟨wf_step c hs.wf h, hh, fun _ => ⟨hafter.logConfig, hm⟩, fun h0 => absurd h0 hne⟩

/-! ### Runs -/

theorem counted_init : Counted {} :=
  ⟨wf_init, rfl, fun h => absurd rfl h, fun _ _ => rfl⟩

/-- **A run leaves nothing behind exactly when it never comes back to a `RefCounter` of zero.** -/
theorem leavesNothing_iff {r : List (Event × World)} (h : (lifecycle c).IsRun {} r) :
    (∀ p ∈ r, LeavesNothing p.2) ↔ Along KeepsReference {} r :=
  System.isRun_forall_iff (fun _ _ _ hs hp hst hp' => counted_step c hs hp hst hp')
    (fun _ _ _ hs hp hst => (after_step c hs hp hst).empty_iff) counted_init
    (fun _ => ⟨rfl, rfl, rfl, rfl⟩) h

/-- After the first `samplog_GetApi` of a process without a configuration file. -/
def started : World := handedOut 1 (managed (watched (withConfig {})))

theorem step_started : (lifecycle noConversions).Step {} (.getApi 1 .badFile) started :=
  ⟨trivial, .inl (run_bind_ok (run_getApi_loaded noConversions rfl 1 rfl
    ((kept_withConfig {}).wf wf_init)))⟩

/-- The second plugin has come. -/
def secondApi : World := ran withTest (.getApi 1 .badFile)

/-- The logger has been destroyed. -/
def withoutTest : World := ran secondApi (.destroyLogger 1)

/-- One of the two has gone. -/
def firstGone : World := ran withoutTest .destroyApi

/-- A logger comes and goes, and so does one of two plugins. -/
theorem leavesNothing_firstGone : LeavesNothing firstGone ∧ firstGone.refCounter = 1 ∧
    (withTest.loggers 1).isSome = true ∧ firstGone.loggers 1 = none := by
  have h1 : (lifecycle noConversions).Step withTest (.getApi 1 .badFile) secondApi :=
    ⟨trivial, .inl rfl⟩
  have h2 : (lifecycle noConversions).Step secondApi (.destroyLogger 1) withoutTest := by
    refine ⟨⟨⟨rfl, ?_⟩, ?_⟩, .inl rfl⟩
    · intro m hm
      obtain rfl := Option.some.inj hm
      decide
    · intro m hm q hq
      obtain rfl := Option.some.inj hm
      exact absurd hq List.not_mem_nil
  have h3 : (lifecycle noConversions).Step withoutTest .destroyApi firstGone :=
    ⟨⟨by decide, fun h => absurd h (by decide)⟩, .inl rfl⟩
  have hrun : (lifecycle noConversions).IsRun {} [(.getApi 1 .badFile, loadedOnce),
      (.createLogger "test", withTest), (.getApi 1 .badFile, secondApi),
      (.destroyLogger 1, withoutTest), (.destroyApi, firstGone)] :=
    ⟨isRun_withTest.1, isRun_withTest.2.1, h1, h2, h3, trivial⟩
  refine ⟨(leavesNothing_iff noConversions hrun).mpr ?_ (.destroyApi, firstGone) (by simp), rfl,
    rfl, rfl⟩
  have hsecond : (1 : ℤ) = 1 → withTest.refCounter + 1 ≠ 0 := fun _ => by decide
  exact ⟨⟨rfl, id⟩, trivial, hsecond, trivial, show withoutTest.refCounter ≠ 1 by decide, trivial⟩

/-- The only logger is the internal one. -/
theorem not_pluginLogger_started (i : LoggerId) : ¬ PluginLogger started i := by
  rintro ⟨hi, hinternal⟩
  have hnames : names started = Function.update (names {}) 0 (some "log-core") :=
    names_created (watched (withConfig {})) "log-core"
  have hne : i ≠ 0 := (hinternal ⟨[], 0⟩ rfl).symm
  have hnone : names started i = none := by
    rw [hnames, Function.update_of_ne hne]
    rfl
  rw [names, Option.map_eq_none_iff] at hnone
  simp [hnone] at hi

/-- **`samplog_GetApi` and `samplog_DestroyApi` leave an instance of `LogConfig`.** -/
theorem not_leavesNothing :
    ¬ ∀ w, (lifecycle noConversions).Reachable w → LeavesNothing w := by
  intro h
  have hwf := wf_of_reachable noConversions (.next (.init rfl) step_started)
  obtain ⟨t, ht, -, hr, -, -, hleft⟩ := run_destroyApi hwf
  have hallowed : Allowed started .destroyApi :=
    ⟨by decide, fun _ => not_pluginLogger_started⟩
  have hreach : (lifecycle noConversions).Reachable t :=
    .next (.next (.init rfl) step_started) ⟨hallowed, .inl ht⟩
  have hsome : t.logConfig.isSome = true := hleft (by decide) rfl
  have hnone := (h t hreach (hr.trans (by decide))).1
  simp [hnone] at hsome

end SampLogCore.Lifecycle.Teardown
