import SampLogCore.Lifecycle.Runs

/-!
# All or nothing

Loading a document leaves the stores as they were or rebuilds all three from the document, when it
comes to an end. It does not when the document throws, or when it warns and there is no
`LogManager`. The states are all the well-formed ones with an instance of `LogConfig`; every
reachable state is well-formed, and `ParseConfigFile` runs on the instance.
-/

namespace SampLogCore.Lifecycle.Atomicity

open SampLogCore.Lib.Emitting SampLogCore.Lib.Locking SampLogCore.Config.Yaml
  SampLogCore.Config.Hazards SampLogCore.Config.Warnings SampLogCore.Lifecycle.Library
  SampLogCore.Lifecycle.Effects SampLogCore.Lifecycle.WellFormed SampLogCore.Lifecycle.Loading
  SampLogCore.Lifecycle.Runs

variable (c : Conversions) {w : World}

/-- `ParseConfigFile` returns, and the stores are the old ones or those of the document. -/
def AllOrNothing (w : World) (source : Source) : Prop :=
  ∃ t, ParseConfigFile c source [] w = .ok () t ∧
    ((config t).stores = (config w).stores ∨
      ∃ root, source = .document root ∧ (config t).stores = built c root)

/-- **Loading is all or nothing** exactly when no part of the document throws and there is a logger
for its warnings. -/
theorem allOrNothing_iff (hw : Wf w) (hc : w.logConfig.isSome = true) (source : Source) :
    AllOrNothing c w source ↔
      ¬ SourceThrows source ∧ (w.logManager.isSome = true ∨ ¬ SourceWarns source) := by
  constructor
  · rintro ⟨t, ht, -⟩
    rcases parse_cases c hw hc source with
      ⟨_, -, -, hl, hs⟩ | ⟨e, u, hu, -⟩ | ⟨hstuck, -⟩
    · exact ⟨hs, hl⟩
    · exact absurd (ht.symm.trans hu) (by simp)
    · exact absurd (ht.symm.trans hstuck) (by simp)
  · rintro ⟨hs, hl⟩
    cases source with
    | parserException what =>
      exact ⟨_, hw.run_logInternal _ _, .inl (stores_loggedInternal w _ _)⟩
    | badFile => exact ⟨w, rfl, .inl rfl⟩
    | document root =>
      exact ⟨_, parse_ok c hw hc hl hs, .inr ⟨root, rfl, stores_loaded_of_ok c w hs⟩⟩

/-- A document with a logger, a level and a time format. -/
def settings (level timeFormat : String) : Node :=
  .map [(.scalar "Logger", .map [(.scalar "test", .map [(.scalar "LogLevel", .scalar level)])]),
    (.scalar "LogLevel", .map [(.scalar level, .map [])]),
    (.scalar "LogTimeFormat", .scalar timeFormat)]

/-- A process that has loaded such a document. -/
def settled : World := ran withTest (.reload (.document (settings "All" "%H")))

theorem reachable_settled : (lifecycle noConversions).Reachable settled :=
  .next (e := .reload (.document (settings "All" "%H"))) reachable_withTest
    ⟨⟨_, rfl, rfl⟩, .inl rfl⟩

theorem settings_not_throws : ¬ DocumentThrows (settings "Error" "%M") := fun h =>
  not_throws_iff.mpr ⟨(), rfl⟩ ((throws_iff noConversions _).mpr h)

/-- Another document of the kind rebuilds the stores. -/
theorem allOrNothing_settings :
    AllOrNothing noConversions settled (.document (settings "Error" "%M")) ∧
    (config settled).stores.globalConfig.LogTimeFormat = "%H" ∧
    (built noConversions (settings "Error" "%M")).globalConfig.LogTimeFormat = "%M" :=
  ⟨(allOrNothing_iff noConversions (wf_of_reachable noConversions reachable_settled) rfl
    (.document (settings "Error" "%M"))).mpr ⟨settings_not_throws, .inl rfl⟩, rfl, rfl⟩

/-- A logger without `LogLevel`. -/
def withoutLevel : Node :=
  .map [(.scalar "Logger", .map [(.scalar "test", .map [(.scalar "Append", .scalar "false")])])]

theorem withoutLevel_throws : DocumentThrows withoutLevel := by
  refine .inr ⟨.logger (.node (.scalar "test"), .node (.map [(.scalar "Append", .scalar "false")])),
    List.mem_cons_self, ?_, .inr (.inl rfl)⟩
  exact ⟨by decide, by decide⟩

/-- **A logger without `LogLevel` makes the load throw.** -/
theorem not_allOrNothing :
    ¬ ∀ (w : World) (source : Source), Wf w → w.logConfig.isSome = true →
      AllOrNothing noConversions w source := by
  intro h
  obtain ⟨t, ht, -⟩ := h (withConfig {}) (.document withoutLevel)
    ((kept_withConfig {}).wf wf_init) rfl
  rcases parse_cases noConversions ((kept_withConfig {}).wf wf_init) rfl
    (.document withoutLevel) with ⟨_, -, -, -, hs⟩ | ⟨e, u, hu, -⟩ | ⟨hstuck, -⟩
  · exact hs withoutLevel_throws
  · exact absurd (ht.symm.trans hu) (by simp)
  · exact absurd (ht.symm.trans hstuck) (by simp)

end SampLogCore.Lifecycle.Atomicity
