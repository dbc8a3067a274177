import SampLogCore.Config.Rounds
import SampLogCore.Config.TimeFormat

/-!
# Where a whole document throws and warns

The loader reads the parts of a document in their order, and the first exception ends it. So a
document throws when one of its parts does (`throws_iff`), and it warns when some part does that
is reached (`warns_iff`).
-/

namespace SampLogCore.Config.Warnings

open SampLogCore.Levels SampLogCore.Lib.Emitting SampLogCore.Config.Yaml SampLogCore.Config.Settings
  SampLogCore.Config.Document SampLogCore.Config.Hazards SampLogCore.Config.Rounds
  SampLogCore.Config.TimeFormat

/-! ### The global settings -/

theorem parseTimeFormat_part (format : Option Node) (config : GlobalConfig) :
    (Throws (ParseTimeFormat (slotOf format) config) ↔ (Part.timeFormat format).Throws) ∧
      (Emits IsLog (ParseTimeFormat (slotOf format) config) ↔ (Part.timeFormat format).Warns) := by
  unfold ParseTimeFormat Part.Throws Part.Warns
  cases format with
  | none => simp [slotOf, scalarOr, Handle.isDefined]
  | some n =>
    cases n with
    | scalar s =>
      simp only [slotOf, scalarOr, Handle.isDefined, Handle.isScalar, Except.map, Handle.asStringOr,
        if_true, liftExcept_ok_bind]
      cases hv : ValidateTimeFormat s.toList with
      | error e =>
        obtain rfl := validateTimeFormat_error hv
        simp [hv]
      | ok valid => cases valid <;> simp [hv, IsLog]
    | null => simp [slotOf, scalarOr, Handle.isDefined, Handle.isScalar, Except.map]
    | sequence items => simp [slotOf, scalarOr, Handle.isDefined, Handle.isScalar, Except.map]
    | map es => simp [slotOf, scalarOr, Handle.isDefined, Handle.isScalar, Except.map]

/-- The time format does not change the root folder. -/
theorem result_parseTimeFormat {format : Option Node} {config config' : GlobalConfig}
    (h : (ParseTimeFormat (slotOf format) config).result = .ok config') :
    config'.LogsRootFolder = config.LogsRootFolder := by
  unfold ParseTimeFormat at h
  cases format with
  | none =>
    simp only [slotOf, scalarOr, Handle.isDefined, Bool.false_eq_true, if_false, liftExcept_ok_bind,
      result_pure, Except.ok.injEq] at h
    rw [h]
  | some n =>
    cases n with
    | scalar s =>
      simp only [slotOf, scalarOr, Handle.isDefined, Handle.isScalar, Except.map, Handle.asStringOr,
        if_true, liftExcept_ok_bind] at h
      cases hv : ValidateTimeFormat s.toList with
      | error e => simp [hv, raise] at h
      | ok valid =>
        cases valid <;> simp [hv] at h <;> rw [← h]
    | null =>
      simp [slotOf, scalarOr, Handle.isDefined, Handle.isScalar, Except.map] at h
      rw [h]
    | sequence items =>
      simp [slotOf, scalarOr, Handle.isDefined, Handle.isScalar, Except.map] at h
      rw [h]
    | map es =>
      simp [slotOf, scalarOr, Handle.isDefined, Handle.isScalar, Except.map] at h
      rw [h]

theorem endWithSlash_eq {folder : String} (h : folder ≠ "") :
    ∃ folder', endWithSlash folder = .ok folder' := by
  unfold endWithSlash
  cases hl : folder.toList.getLast? with
  | none => exact absurd (String.toList_eq_nil_iff.mp (List.getLast?_eq_none_iff.mp hl)) h
  | some c => exact ⟨_, rfl⟩

theorem parseGlobalScalars_part (c : Conversions) {root : Node} (h : ¬ IsScalar root)
    {config : GlobalConfig} (hfolder : config.LogsRootFolder ≠ "") :
    (Throws (ParseGlobalScalars c (.node root) config) ↔
      (Part.rootFolder (field "LogsRootFolder" root)).Throws) ∧
      ¬ Emits IsLog (ParseGlobalScalars c (.node root) config) := by
  obtain ⟨colors, hcolors⟩ := scalarOr_ok (slotOf (field "EnableColors" root))
    (·.asBoolOr c config.EnableColors) config.EnableColors
  obtain ⟨debug, hdebug⟩ := scalarOr_ok (slotOf (field "DisableDebugInfo" root))
    (·.asBoolOr c config.DisableDebugInfo) config.DisableDebugInfo
  obtain ⟨slashed, hslashed⟩ := endWithSlash_eq hfolder
  unfold ParseGlobalScalars
  simp only [getOrInsert_eq _ h, hcolors, hdebug, liftExcept_ok_bind, throws_emit_bind,
    emits_emit_bind, IsLog, false_or, Part.Throws]
  cases field "LogsRootFolder" root with
  | none => simp [slotOf, scalarOr, Handle.isDefined, hslashed, IsLog]
  | some n =>
    cases n with
    | scalar s =>
      simp only [slotOf, scalarOr, Handle.isDefined, Handle.isScalar, Except.map, Handle.asStringOr,
        if_true, liftExcept_ok_bind]
      by_cases hs : s = ""
      · subst hs
        simp [endWithSlash, IsLog]
      · obtain ⟨s', hs'⟩ := endWithSlash_eq hs
        simp [hs', hs, IsLog]
    | null =>
      simp [slotOf, scalarOr, Handle.isDefined, Handle.isScalar, Except.map, hslashed, IsLog]
    | sequence items =>
      simp [slotOf, scalarOr, Handle.isDefined, Handle.isScalar, Except.map, hslashed, IsLog]
    | map es =>
      simp [slotOf, scalarOr, Handle.isDefined, Handle.isScalar, Except.map, hslashed, IsLog]

theorem parseGlobal_parts (c : Conversions) {root : Node} (h : ¬ IsScalar root) :
    (Throws (ParseGlobal c (.node root)) ↔
      (Part.timeFormat (field "LogTimeFormat" root)).Throws ∨
        (Part.rootFolder (field "LogsRootFolder" root)).Throws) ∧
      (Emits IsLog (ParseGlobal c (.node root)) ↔
        (Part.timeFormat (field "LogTimeFormat" root)).Warns) := by
  obtain ⟨hthrows, hemits⟩ := parseTimeFormat_part (field "LogTimeFormat" root) {}
  have hrest : ∀ config, (ParseTimeFormat (slotOf (field "LogTimeFormat" root)) {}).result =
      .ok config → config.LogsRootFolder ≠ "" := by
    intro config hconfig
    rw [result_parseTimeFormat hconfig]
    decide
  rw [ParseGlobal, throws_emit_bind, emits_emit_bind, getOrInsert_eq _ h]
  simp only [liftExcept_ok_bind, throws_bind, emits_bind, hthrows, hemits]
  constructor
  · by_cases ht : (Part.timeFormat (field "LogTimeFormat" root)).Throws
    · simp [ht]
    · obtain ⟨config, hconfig⟩ := not_throws_iff.mp fun hth => ht (hthrows.mp hth)
      simp [ht, hconfig, (parseGlobalScalars_part c h (hrest config hconfig)).1]
  · have hscalars : ¬ ∃ config, (ParseTimeFormat (slotOf (field "LogTimeFormat" root)) {}).result =
        .ok config ∧ Emits IsLog (ParseGlobalScalars c (.node root) config) := by
      rintro ⟨config, hconfig, hemit⟩
      exact (parseGlobalScalars_part c h (hrest config hconfig)).2 hemit
    simp [IsLog, hscalars]

/-! ### Documents -/

/-- The loops over the pairs of a document throw and warn as its parts do. -/
theorem each_parts {f : Handle × Handle → Load Unit} {part : Handle × Handle → Part}
    (entries : List (Handle × Handle))
    (h : ∀ entry ∈ entries, (Throws (f entry) ↔ (part entry).Throws) ∧
      (Emits IsLog (f entry) ↔ (part entry).Warns)) :
    (Throws (each f entries) ↔ ∃ p ∈ entries.map part, p.Throws) ∧
      (Emits IsLog (each f entries) ↔ WarnsFirst (entries.map part)) := by
  rw [throws_each, emits_each]
  constructor
  · constructor
    · rintro ⟨entry, hentry, hthrows⟩
      exact ⟨part entry, List.mem_map_of_mem hentry, (h entry hentry).1.mp hthrows⟩
    · rintro ⟨p, hp, hthrows⟩
      obtain ⟨entry, hentry, rfl⟩ := List.mem_map.mp hp
      exact ⟨entry, hentry, (h entry hentry).1.mpr hthrows⟩
  · constructor
    · rintro ⟨before, entry, after, rfl, hemits, hbefore⟩
      refine ⟨before.map part, part entry, after.map part, by simp,
        (h entry (by simp)).2.mp hemits, fun q hq => ?_⟩
      obtain ⟨e, he, rfl⟩ := List.mem_map.mp hq
      exact fun hthrows => hbefore e he ((h e (by simp [he])).1.mpr hthrows)
    · rintro ⟨before, p, after, heq, hwarns, hbefore⟩
      obtain ⟨before', rest, rfl, rfl, hrest⟩ := List.map_eq_append_iff.mp heq
      obtain ⟨entry, after', rfl, rfl, rfl⟩ := List.map_eq_cons_iff.mp hrest
      refine ⟨before', entry, after', rfl, (h entry (by simp)).2.mpr hwarns, fun e he hthrows => ?_⟩
      exact hbefore (part e) (List.mem_map_of_mem he) ((h e (by simp [he])).1.mp hthrows)

/-- The pairs of an undefined node are those of no node. -/
theorem pairs_slotOf (key : String) (root : Node) :
    (slotOf (field key root)).pairs = pairsOf key root := by
  unfold pairsOf
  cases field key root <;> rfl

theorem warnsFirst_pair {p q : Part} :
    WarnsFirst [p, q] ↔ p.Warns ∨ ¬ p.Throws ∧ q.Warns := by
  have hone : ∀ p : Part, WarnsFirst [p] ↔ p.Warns := by
    intro p
    constructor
    · rintro ⟨before, r, after, heq, hr, _⟩
      cases before with
      | nil => exact (List.cons.inj heq).1 ▸ hr
      | cons q before => exact absurd (List.cons.inj heq).2 (by simp)
    · intro h
      exact ⟨[], p, [], rfl, h, by simp⟩
  rw [show [p, q] = [p] ++ [q] from rfl, warnsFirst_append, hone, hone]
  simp

/-- Loading a document that is no scalar, section by section. -/
theorem parseDocument_eq (c : Conversions) {root : Node} (h : ¬ IsScalar root) :
    ParseDocument c (.node root) =
      emit .clearLoggerConfigs >>= fun _ =>
      emit (.addLoggerConfig "log-core" GetInternalLogConfig) >>= fun _ =>
      each (ParseLogger c) (pairsOf "Logger" root) >>= fun _ =>
      emit .clearLevelConfigs >>= fun _ =>
      each (ParseLevel c) (pairsOf "LogLevel" root) >>= fun _ => ParseGlobal c (.node root) := by
  unfold ParseDocument
  simp only [getOrInsert_eq _ h, liftExcept_ok_bind, pairs_slotOf]

/-- **Where a document throws.** -/
theorem throws_iff (c : Conversions) (root : Node) :
    Throws (ParseDocument c (.node root)) ↔ DocumentThrows root := by
  by_cases hs : IsScalar root
  · obtain ⟨s, rfl⟩ := hs
    simp [ParseDocument, Handle.getOrInsert, DocumentThrows, IsScalar]
  · have hloggers := (each_parts (pairsOf "Logger" root)
      fun entry h => parseLogger_part c h).1
    have hlevels := (each_parts (pairsOf "LogLevel" root)
      fun entry h => parseLevel_part c h).1
    rw [parseDocument_eq c hs, throws_emit_bind, throws_emit_bind, throws_seq, throws_emit_bind,
      throws_seq, hloggers, hlevels, (parseGlobal_parts c hs).1]
    simp [DocumentThrows, parts, hs, or_and_right, exists_or]

/-- The first warning of three sections, bracketed in the two ways. -/
theorem sections_assoc {a b w t u : Prop} :
    (a ∨ ¬ t ∧ (b ∨ ¬ u ∧ w)) ↔ ((a ∨ ¬ t ∧ b) ∨ (¬ t ∧ ¬ u) ∧ w) := by
  tauto

/-- **Where a document warns.** -/
theorem warns_iff (c : Conversions) (root : Node) :
    Emits IsLog (ParseDocument c (.node root)) ↔ DocumentWarns root := by
  by_cases hs : IsScalar root
  · obtain ⟨s, rfl⟩ := hs
    simp [ParseDocument, Handle.getOrInsert, DocumentWarns, IsScalar, IsLog]
  · obtain ⟨hthrows, hloggers⟩ := each_parts (pairsOf "Logger" root)
      fun entry h => parseLogger_part c h
    obtain ⟨hthrows', hlevels⟩ := each_parts (pairsOf "LogLevel" root)
      fun entry h => parseLevel_part c h
    rw [parseDocument_eq c hs, emits_emit_bind, emits_emit_bind, emits_seq, emits_emit_bind,
      emits_seq, hthrows, hthrows', hloggers, hlevels, (parseGlobal_parts c hs).2]
    have hfirst : (∀ p ∈ (pairsOf "Logger" root).map Part.logger, ¬ p.Throws) ↔
        ¬ ∃ p ∈ (pairsOf "Logger" root).map Part.logger, p.Throws := by
      simp only [not_exists, not_and]
    have hboth : (∀ p ∈ (pairsOf "Logger" root).map Part.logger ++
        (pairsOf "LogLevel" root).map Part.level, ¬ p.Throws) ↔
        (¬ ∃ p ∈ (pairsOf "Logger" root).map Part.logger, p.Throws) ∧
          ¬ ∃ p ∈ (pairsOf "LogLevel" root).map Part.level, p.Throws := by
      simp only [List.forall_mem_append, not_exists, not_and]
    rw [DocumentWarns, parts, warnsFirst_append, warnsFirst_append, warnsFirst_pair, hboth, hfirst]
    simp only [IsLog, hs, Part.Warns, false_or, and_false, or_false, not_false_eq_true, true_and]
    exact sections_assoc

end SampLogCore.Config.Warnings
