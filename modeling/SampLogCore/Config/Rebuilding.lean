import SampLogCore.Config.Warnings

/-!
# What loading a document rebuilds

Loading clears the configurations of the loggers once, at its start, and never again
(`events_parseDocument`). A document that does not throw also clears the configurations of the
levels and assigns the global one, so nothing that was there before is left (`resets`).
-/

namespace SampLogCore.Config.Rebuilding

open SampLogCore.Levels SampLogCore.Lib.Emitting SampLogCore.Config.Yaml SampLogCore.Config.Settings
  SampLogCore.Config.Document SampLogCore.Config.Hazards SampLogCore.Config.Rounds
  SampLogCore.Config.Warnings

/-- The action clears the configurations of the loggers. -/
def Clears (action : Action) : Prop := action = .clearLoggerConfigs

variable (c : Conversions)

theorem not_clears_parseLogLevel (h : Handle) (dest : LogLevel) (msg : String) :
    ¬ Emits Clears (ParseLogLevel h dest msg) := by
  unfold ParseLogLevel
  dsimp only
  split_ifs
  · simp [Clears]
  · split <;> simp [Clears]

theorem not_clears_parseLevelItems (msg : String) :
    ∀ (items : List Handle) (dest : LogLevel), ¬ Emits Clears (ParseLevelItems msg items dest)
  | [], _ => emits_pure _
  | item :: items, dest => not_emits_bind (not_clears_parseLogLevel item dest msg)
      fun _ => not_clears_parseLevelItems msg items _

theorem not_clears_parseLevels (module_name : String) (logger : Handle) :
    ¬ Emits Clears (ParseLevels module_name logger) := by
  unfold ParseLevels
  refine not_emits_bind (emits_liftExcept _) fun log_levels => ?_
  refine not_emits_bind (emits_liftExcept _) fun specified => ?_
  refine not_emits_bind (emits_liftExcept _) fun several => ?_
  cases several with
  | true => exact not_clears_parseLevelItems _ _ _
  | false => exact not_emits_bind (not_clears_parseLogLevel _ _ _) fun _ => emits_pure _

theorem not_clears_parseTrigger (module_name type_str : String) (trigger : Handle) :
    ¬ Emits Clears (ParseTrigger module_name type_str trigger) := by
  unfold ParseTrigger
  split_ifs
  · dsimp only
    split <;> simp [Clears]
  · refine not_emits_bind (emits_liftExcept _) fun size => ?_
    split <;> simp [Clears]
  · simp [Clears]

theorem not_clears_parseBackupCount (log_rotation : Handle)
    (parsed : Option (LogRotationType × LogRotationValue)) :
    ¬ Emits Clears (ParseBackupCount c log_rotation parsed) := by
  cases parsed with
  | none => exact emits_pure _
  | some parsed =>
    refine not_emits_bind (emits_liftExcept _) fun backup_count => ?_
    exact not_emits_bind (emits_liftExcept _) fun _ => emits_pure _

theorem not_clears_parseRotation (module_name : String) (logger : Handle) :
    ¬ Emits Clears (ParseRotation c module_name logger) := by
  unfold ParseRotation
  refine not_emits_bind (emits_liftExcept _) fun log_rotation => ?_
  split_ifs
  · refine not_emits_bind (emits_liftExcept _) fun type => ?_
    refine not_emits_bind (emits_liftExcept _) fun trigger => ?_
    split_ifs
    · refine not_emits_bind (emits_liftExcept _) fun type_str => ?_
      exact not_emits_bind (not_clears_parseTrigger _ _ _) fun _ =>
        not_clears_parseBackupCount c _ _
    · simp [Clears]
  · exact emits_pure _

theorem not_clears_parseLogger (entry : Handle × Handle) :
    ¬ Emits Clears (ParseLogger c entry) := by
  unfold ParseLogger
  dsimp only
  split_ifs
  · simp [Clears]
  · refine not_emits_bind (not_clears_parseLevels _ _) fun level => ?_
    refine not_emits_bind (not_clears_parseRotation c _ _) fun rotation => ?_
    refine not_emits_bind (emits_liftExcept _) fun console_print => ?_
    refine not_emits_bind (emits_liftExcept _) fun print => ?_
    refine not_emits_bind (emits_liftExcept _) fun append_logs => ?_
    refine not_emits_bind (emits_liftExcept _) fun append => ?_
    simp [Clears]

theorem not_clears_parseLevel (entry : Handle × Handle) : ¬ Emits Clears (ParseLevel c entry) := by
  unfold ParseLevel
  refine not_emits_bind (not_clears_parseLogLevel _ _ _) fun parsed => ?_
  split
  split_ifs
  · refine not_emits_bind (emits_liftExcept _) fun console_print => ?_
    refine not_emits_bind (emits_liftExcept _) fun print => ?_
    simp [Clears]
  · exact emits_pure _

theorem not_clears_parseGlobal (root : Handle) : ¬ Emits Clears (ParseGlobal c root) := by
  have htime : ∀ format config, ¬ Emits Clears (ParseTimeFormat format config) := by
    intro format config
    unfold ParseTimeFormat
    refine not_emits_bind (emits_liftExcept _) fun time_format => ?_
    split
    · refine not_emits_bind (emits_liftExcept _) fun valid => ?_
      split_ifs <;> simp [Clears]
    · exact emits_pure _
  have hscalars : ∀ config, ¬ Emits Clears (ParseGlobalScalars c root config) := by
    intro config
    unfold ParseGlobalScalars
    refine not_emits_bind (emits_liftExcept _) fun enable_colors => ?_
    refine not_emits_bind (emits_liftExcept _) fun colors => ?_
    refine not_emits_bind (by simp [Clears]) fun _ => ?_
    refine not_emits_bind (emits_liftExcept _) fun disable_debug => ?_
    refine not_emits_bind (emits_liftExcept _) fun disable => ?_
    refine not_emits_bind (by simp [Clears]) fun _ => ?_
    refine not_emits_bind (emits_liftExcept _) fun root_folder => ?_
    refine not_emits_bind (emits_liftExcept _) fun folder => ?_
    refine not_emits_bind (by simp [Clears]) fun _ => ?_
    refine not_emits_bind (emits_liftExcept _) fun slashed => ?_
    simp [Clears]
  unfold ParseGlobal
  refine not_emits_bind (by simp [Clears]) fun _ => ?_
  refine not_emits_bind (emits_liftExcept _) fun format => ?_
  exact not_emits_bind (htime _ _) fun config => hscalars config

/-- **The configurations of the loggers are cleared once**, before anything is loaded. -/
theorem events_parseDocument {root : Node} (h : ¬ IsScalar root) :
    ∃ rest, (ParseDocument c (.node root)).events = .clearLoggerConfigs :: rest ∧
      .clearLoggerConfigs ∉ rest := by
  rw [parseDocument_eq c h, emit_bind_events]
  refine ⟨_, rfl, fun hmem => ?_⟩
  have hemits : Emits Clears (emit (.addLoggerConfig "log-core" GetInternalLogConfig) >>= fun _ =>
      each (ParseLogger c) (pairsOf "Logger" root) >>= fun _ =>
      emit .clearLevelConfigs >>= fun _ =>
      each (ParseLevel c) (pairsOf "LogLevel" root) >>= fun _ => ParseGlobal c (.node root)) :=
    ⟨_, hmem, rfl⟩
  revert hemits
  refine not_emits_bind (by simp [Clears]) fun _ => ?_
  refine not_emits_bind (not_emits_each (not_clears_parseLogger c) _) fun _ => ?_
  refine not_emits_bind (by simp [Clears]) fun _ => ?_
  refine not_emits_bind (not_emits_each (not_clears_parseLevel c) _) fun _ => ?_
  exact not_clears_parseGlobal c _

/-- **A document that does not throw resets all three stores.** -/
theorem resets {root : Node} (h : ¬ DocumentThrows root) :
    .clearLoggerConfigs ∈ (ParseDocument c (.node root)).events ∧
      .clearLevelConfigs ∈ (ParseDocument c (.node root)).events ∧
      .setGlobalConfig {} ∈ (ParseDocument c (.node root)).events := by
  have hs : ¬ IsScalar root := fun hs => h (.inl hs)
  have hthrows : ¬ Throws (ParseDocument c (.node root)) := fun ht => h ((throws_iff c root).mp ht)
  have hmem : ∀ action, Emits (· = action) (ParseDocument c (.node root)) →
      action ∈ (ParseDocument c (.node root)).events := by
    rintro action ⟨e, he, rfl⟩
    exact he
  rw [parseDocument_eq c hs, throws_emit_bind, throws_emit_bind, throws_seq, throws_emit_bind,
    throws_seq, not_or, not_or] at hthrows
  obtain ⟨hloggers, hlevels, -⟩ := hthrows
  refine ⟨hmem _ ?_, hmem _ ?_, hmem _ ?_⟩ <;>
    simp [parseDocument_eq c hs, emits_seq, hloggers, hlevels, ParseGlobal]

end SampLogCore.Config.Rebuilding
