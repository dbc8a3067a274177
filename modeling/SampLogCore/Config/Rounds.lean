import SampLogCore.Config.Hazards

/-!
# The rounds of the loader

What one round of the loops over the loggers and over the levels does: it throws and it warns as the
part of the document that it reads (`parseLogger_part`, `parseLevel_part`).
-/

namespace SampLogCore.Config.Rounds

open SampLogCore.Levels SampLogCore.Lib.Emitting SampLogCore.Config.Yaml SampLogCore.Config.Settings
  SampLogCore.Config.Document SampLogCore.Config.Hazards

/-- The action is a log message. -/
def IsLog : Action → Prop
  | .logInternal _ _ => True
  | _ => False

/-- An entry of a map, or a pair that an iterator over a sequence yields. -/
theorem mem_pairsOf {key : String} {root : Node} {entry : Handle × Handle}
    (h : entry ∈ pairsOf key root) :
    (∃ name value, entry = (name, .node value)) ∨ entry = (.invalid, .invalid) := by
  unfold pairsOf at h
  split at h
  · rename_i n _
    cases n with
    | map es =>
      obtain ⟨e, _, rfl⟩ := List.mem_map.mp h
      exact .inl ⟨_, _, rfl⟩
    | sequence items =>
      obtain ⟨item, _, rfl⟩ := List.mem_map.mp h
      exact .inr rfl
    | null => simp [Handle.pairs] at h
    | scalar s => simp [Handle.pairs] at h
  · simp at h

/-! ### Loggers -/

theorem not_isScalar_of_field {key : String} {n m : Node} (h : field key n = some m) :
    ¬ IsScalar n := by
  rintro ⟨s, rfl⟩
  exact absurd h (by simp [field])

theorem result_parseLogLevel (h : Handle) (dest : LogLevel) (msg : String) :
    (ParseLogLevel h dest msg).result = .ok (match loglevel_str_map (h.asStringOr "") with
      | none => (false, dest)
      | some level => (true, if level ≠ NONE then dest ||| level else NONE)) := by
  unfold ParseLogLevel
  dsimp only
  split_ifs with hempty
  · rw [hempty]
    rfl
  · split <;> simp_all

theorem emits_parseLogLevel (h : Handle) (dest : LogLevel) (msg : String) :
    Emits IsLog (ParseLogLevel h dest msg) ↔ UnknownLevel h := by
  unfold ParseLogLevel UnknownLevel
  dsimp only
  split_ifs with hempty
  · rw [hempty]
    simp [IsLog, show loglevel_str_map "" = none from rfl]
  · split <;> simp_all [IsLog]

theorem not_throws_parseLogLevel (h : Handle) (dest : LogLevel) (msg : String) :
    ¬ Throws (ParseLogLevel h dest msg) :=
  not_throws_iff.mpr ⟨_, result_parseLogLevel h dest msg⟩

theorem not_throws_parseLevelItems (msg : String) :
    ∀ (items : List Handle) (dest : LogLevel), ¬ Throws (ParseLevelItems msg items dest)
  | [], _ => by simp [ParseLevelItems]
  | item :: items, dest => by
    rw [ParseLevelItems, throws_bind]
    simp [not_throws_parseLogLevel, not_throws_parseLevelItems msg items]

theorem emits_parseLevelItems (msg : String) :
    ∀ (items : List Handle) (dest : LogLevel),
      Emits IsLog (ParseLevelItems msg items dest) ↔ ∃ item ∈ items, UnknownLevel item
  | [], _ => by simp [ParseLevelItems]
  | item :: items, dest => by
    rw [ParseLevelItems, emits_bind, emits_parseLogLevel]
    simp [emits_parseLevelItems msg items, result_parseLogLevel]

/-- A logger needs its levels. -/
theorem throws_parseLevels (module_name : String) (value : Node) :
    Throws (ParseLevels module_name (.node value)) ↔
      IsScalar value ∨ field "LogLevel" value = none := by
  unfold ParseLevels
  by_cases hs : IsScalar value
  · simp [get_scalar _ hs, hs]
  · rw [get_eq _ hs, liftExcept_ok_bind]
    simp only [hs, false_or]
    cases hf : field "LogLevel" value with
    | none => simp [handleOf, Handle.isDefined, Handle.isSequence]
    | some levels =>
      cases levels <;>
        simp [handleOf, Handle.isDefined, Handle.isNull, Handle.isSequence, Except.map, throws_bind,
          not_throws_parseLogLevel, not_throws_parseLevelItems]

theorem emits_parseLevels (module_name : String) (value : Node) :
    Emits IsLog (ParseLevels module_name (.node value)) ↔
      ∃ levels, field "LogLevel" value = some levels ∧ LevelsWarn levels := by
  unfold ParseLevels
  by_cases hs : IsScalar value
  · obtain ⟨s, rfl⟩ := hs
    simp [Handle.get, field]
  · rw [get_eq _ hs, liftExcept_ok_bind]
    cases hf : field "LogLevel" value with
    | none => simp [handleOf, Handle.isDefined, Handle.isSequence]
    | some levels =>
      cases levels <;>
        simp [handleOf, Handle.isDefined, Handle.isNull, Handle.isSequence, Handle.items,
          Except.map, emits_bind, emits_parseLogLevel, emits_parseLevelItems, LevelsWarn]

/-! ### Rotations -/

/-- The only exception of `std::stoi` on digits. -/
theorem parseFileSize_error {size : String} {e : Fault} (h : ParseFileSize size = .error e) :
    e = .outOfRange := by
  unfold ParseFileSize at h
  dsimp only at h
  split_ifs at h
  · exact (Except.error.inj h).symm
  · split at h
    · split_ifs at h
    · exact absurd h (by simp)

theorem throws_parseTrigger (module_name type_str : String) (trigger : Node) :
    Throws (ParseTrigger module_name type_str (.node trigger)) ↔
      type_str = "Size" ∧ SizeOverflows (textOr "100MB" trigger) := by
  unfold ParseTrigger SizeOverflows textOr
  dsimp only
  split_ifs with hdate hsize
  · subst hdate
    split <;> simp
  · cases hp : ParseFileSize ((Handle.node trigger).asStringOr "100MB") with
    | error e =>
      obtain rfl := parseFileSize_error hp
      simp [hsize]
    | ok size => cases size <;> simp
  · simp [hsize]

theorem emits_parseTrigger (module_name type_str : String) (trigger : Node) :
    Emits IsLog (ParseTrigger module_name type_str (.node trigger)) ↔
      TriggerWarns type_str trigger := by
  unfold ParseTrigger TriggerWarns textOr
  dsimp only
  split_ifs with hdate hsize
  · split <;> simp_all [IsLog]
  · cases hp : ParseFileSize ((Handle.node trigger).asStringOr "100MB") with
    | error e => simp
    | ok size => cases size <;> simp [IsLog]
  · simp [IsLog]

theorem parseBackupCount_ok (c : Conversions) {rotation : Node} (h : ¬ IsScalar rotation)
    (parsed : Option (LogRotationType × LogRotationValue)) :
    ¬ Throws (ParseBackupCount c (.node rotation) parsed) ∧
      ¬ Emits IsLog (ParseBackupCount c (.node rotation) parsed) := by
  cases parsed with
  | none => simp [ParseBackupCount]
  | some parsed =>
    obtain ⟨count, hcount⟩ := scalarOr_ok (handleOf (field "BackupCount" rotation))
      (·.asIntOr c ({} : LogRotationConfig).BackupCount) ({} : LogRotationConfig).BackupCount
    simp [ParseBackupCount, get_eq _ h, hcount]

theorem throws_parseRotation (c : Conversions) (module_name : String) {value : Node}
    (h : ¬ IsScalar value) :
    Throws (ParseRotation c module_name (.node value)) ↔
      ∃ rotation, field "LogRotation" value = some rotation ∧ RotationThrows rotation := by
  unfold ParseRotation
  rw [get_eq _ h, liftExcept_ok_bind]
  cases hf : field "LogRotation" value with
  | none => simp [handleOf, Handle.isDefined]
  | some rotation =>
    by_cases hr : IsScalar rotation
    · simp [handleOf, Handle.isDefined, get_scalar _ hr, RotationThrows, hr]
    · simp only [handleOf, Handle.isDefined, get_eq _ hr, liftExcept_ok_bind, if_true,
        Option.some.injEq, exists_eq_left', RotationThrows, hr, false_or]
      cases field "Type" rotation with
      | none => simp
      | some type =>
        cases field "Trigger" rotation with
        | none => simp
        | some trigger =>
          cases type <;>
            simp [Handle.asString, throws_bind, throws_parseTrigger, IsScalar,
              parseBackupCount_ok c hr]

/-- A logger with a scalar for its rotation throws before it warns about it. -/
theorem emits_parseRotation (c : Conversions) (module_name : String) {value : Node}
    (h : ¬ IsScalar value) :
    Emits IsLog (ParseRotation c module_name (.node value)) ↔
      ∃ rotation, field "LogRotation" value = some rotation ∧ RotationWarns rotation := by
  unfold ParseRotation
  rw [get_eq _ h, liftExcept_ok_bind]
  cases hf : field "LogRotation" value with
  | none => simp [handleOf, Handle.isDefined]
  | some rotation =>
    by_cases hr : IsScalar rotation
    · simp [handleOf, Handle.isDefined, get_scalar _ hr, RotationWarns, hr]
    · simp only [handleOf, Handle.isDefined, get_eq _ hr, liftExcept_ok_bind, if_true,
        Option.some.injEq, exists_eq_left', RotationWarns, hr, not_false_eq_true, true_and]
      cases field "Type" rotation with
      | none => simp [IsLog]
      | some type =>
        cases field "Trigger" rotation with
        | none => simp [IsLog]
        | some trigger =>
          cases type <;>
            simp [Handle.asString, emits_bind, emits_parseTrigger, parseBackupCount_ok c hr]

/-! ### The rounds of the loops -/

theorem parseFlags_ok (c : Conversions) (module_name : String) {value : Node}
    (h : ¬ IsScalar value) (Level : LogLevel) (Rotation : LogRotationConfig) :
    ¬ Throws (ParseFlags c module_name (.node value) Level Rotation) ∧
      ¬ Emits IsLog (ParseFlags c module_name (.node value) Level Rotation) := by
  obtain ⟨print, hprint⟩ := scalarOr_ok (handleOf (field "PrintToConsole" value))
    (·.asBoolOr c false) false
  obtain ⟨append, happend⟩ := scalarOr_ok (handleOf (field "Append" value))
    (·.asBoolOr c true) true
  simp [ParseFlags, get_eq _ h, hprint, happend, IsLog]

theorem throws_parseLogger (c : Conversions) (name : Handle) (value : Node) :
    Throws (ParseLogger c (name, .node value)) ↔ (Part.logger (name, .node value)).Throws := by
  unfold ParseLogger Part.Throws ValidName
  dsimp only
  split_ifs with hname
  · simp only [throws_emit, false_iff, not_and]
    rintro ⟨h1, h2⟩
    exact absurd hname (by simp [h1, h2])
  · have hvalid : name.asStringOr "" ≠ "" ∧ name.asStringOr "" ≠ "log-core" := not_or.mp hname
    rw [throws_bind, throws_parseLevels]
    by_cases hs : IsScalar value
    · simp [hs, hvalid]
    · by_cases hl : field "LogLevel" value = none
      · simp [hl, hvalid]
      · obtain ⟨Level, hLevel⟩ : ∃ Level, (ParseLevels (name.asStringOr "") (.node value)).result =
            .ok Level :=
          not_throws_iff.mp (by rw [throws_parseLevels]; simp [hs, hl])
        simp [hs, hl, hvalid, hLevel, throws_bind, throws_parseRotation c _ hs,
          parseFlags_ok c _ hs]

theorem emits_parseLogger (c : Conversions) (name : Handle) (value : Node) :
    Emits IsLog (ParseLogger c (name, .node value)) ↔
      (Part.logger (name, .node value)).Warns := by
  unfold ParseLogger Part.Warns ValidName
  dsimp only
  split_ifs with hname
  · simp only [emits_emit, IsLog, true_iff]
    exact .inl fun hvalid => by simp [hvalid] at hname
  · have hvalid : name.asStringOr "" ≠ "" ∧ name.asStringOr "" ≠ "log-core" := not_or.mp hname
    rw [emits_bind, emits_parseLevels]
    cases hl : field "LogLevel" value with
    | none =>
      have hthrows : Throws (ParseLevels (name.asStringOr "") (.node value)) := by
        rw [throws_parseLevels]
        exact .inr hl
      have hok : ∀ Level, (ParseLevels (name.asStringOr "") (.node value)).result ≠ .ok Level :=
        fun Level h => not_throws_iff.mpr ⟨Level, h⟩ hthrows
      simp [hvalid, hok]
    | some levels =>
      have hs := not_isScalar_of_field hl
      obtain ⟨Level, hLevel⟩ : ∃ Level, (ParseLevels (name.asStringOr "") (.node value)).result =
          .ok Level :=
        not_throws_iff.mp (by rw [throws_parseLevels]; simp [hs, hl])
      simp [hvalid, hLevel, emits_bind, emits_parseRotation c _ hs, parseFlags_ok c _ hs]

theorem throws_parseLevel (c : Conversions) (name : Handle) (value : Node) :
    Throws (ParseLevel c (name, .node value)) ↔ (Part.level (name, .node value)).Throws := by
  unfold ParseLevel Part.Throws UnknownLevel
  rw [throws_bind, result_parseLogLevel]
  cases hl : loglevel_str_map (name.asStringOr "") with
  | none => simp [not_throws_parseLogLevel, hl]
  | some level =>
    by_cases hs : IsScalar value
    · simp [get_scalar _ hs, hs, hl]
    · obtain ⟨print, hprint⟩ := scalarOr_ok (handleOf (field "PrintToConsole" value))
        (·.asBoolOr c false) false
      simp [not_throws_parseLogLevel, get_eq _ hs, hprint, hs]

theorem emits_parseLevel (c : Conversions) (name : Handle) (value : Node) :
    Emits IsLog (ParseLevel c (name, .node value)) ↔ (Part.level (name, .node value)).Warns := by
  unfold ParseLevel Part.Warns
  rw [emits_bind, emits_parseLogLevel, result_parseLogLevel]
  cases hl : loglevel_str_map (name.asStringOr "") with
  | none => simp
  | some level =>
    by_cases hs : IsScalar value
    · simp [get_scalar _ hs]
    · obtain ⟨print, hprint⟩ := scalarOr_ok (handleOf (field "PrintToConsole" value))
        (·.asBoolOr c false) false
      simp [get_eq _ hs, hprint, IsLog]

theorem parseLogger_part (c : Conversions) {root : Node} {key : String} {entry : Handle × Handle}
    (h : entry ∈ pairsOf key root) :
    (Throws (ParseLogger c entry) ↔ (Part.logger entry).Throws) ∧
      (Emits IsLog (ParseLogger c entry) ↔ (Part.logger entry).Warns) := by
  obtain ⟨name, value, rfl⟩ | rfl := mem_pairsOf h
  · exact ⟨throws_parseLogger c name value, emits_parseLogger c name value⟩
  · simp [ParseLogger, Part.Throws, Part.Warns, ValidName, Handle.asStringOr, IsLog]

theorem parseLevel_part (c : Conversions) {root : Node} {key : String} {entry : Handle × Handle}
    (h : entry ∈ pairsOf key root) :
    (Throws (ParseLevel c entry) ↔ (Part.level entry).Throws) ∧
      (Emits IsLog (ParseLevel c entry) ↔ (Part.level entry).Warns) := by
  obtain ⟨name, value, rfl⟩ | rfl := mem_pairsOf h
  · exact ⟨throws_parseLevel c name value, emits_parseLevel c name value⟩
  · have hunknown : loglevel_str_map "" = none := rfl
    unfold ParseLevel
    rw [throws_bind, emits_bind, result_parseLogLevel, emits_parseLogLevel]
    simp [Part.Throws, Part.Warns, UnknownLevel, Handle.asStringOr, hunknown,
      not_throws_parseLogLevel]

end SampLogCore.Config.Rounds
