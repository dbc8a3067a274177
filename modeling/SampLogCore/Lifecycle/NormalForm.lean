import SampLogCore.Lifecycle.ReadBack

/-!
# Every load has a normal form

What the loader leaves in the stores is always something that can be written: masks of known
levels, known level names, rotations with an `int` of backups, a valid time format and a root folder
that ends with a `/`. Only a file size may be out of reach, when its product with the unit has left
the range of `int`.

The proof goes through the loader with pre- and postconditions. The invariant of the loops is
that the stores hold some configuration (`HoldsLoggers`, `HoldsLevels`); the global settings are
sound from the last assignment on (`HoldsGlobal`).
-/

namespace SampLogCore.Lifecycle.NormalForm

open SampLogCore.Levels SampLogCore.Lib.Emitting SampLogCore.Lib.Number SampLogCore.Lib.Triples
  SampLogCore.Lib.Names SampLogCore.Config.Yaml SampLogCore.Config.Settings
  SampLogCore.Config.Document SampLogCore.Config.Written SampLogCore.Config.Hazards
  SampLogCore.Config.Warnings SampLogCore.Lifecycle.Library SampLogCore.Lifecycle.Effects
  SampLogCore.Lifecycle.WellFormed SampLogCore.Lifecycle.Loading SampLogCore.Lifecycle.ReadBack

/-! ### What the stores hold -/

/-- A rotation that a document can ask for, with any size. -/
inductive SoundRotation : LogRotationConfig → Prop
  | none : SoundRotation {}
  | date (t : LogRotationTimeType) (n : CInt) : SoundRotation ⟨.DATE, .Date t, n⟩
  | size (k : UInt32) (n : CInt) : SoundRotation ⟨.SIZE, .FileSize k, n⟩

/-- The settings of a logger that a document can ask for, with any size. -/
structure SoundLogger (cfg : LoggerConfig) : Prop where
  level : cfg.Level.toNat < 64
  rotation : SoundRotation cfg.Rotation

/-- The stores hold settings for some loggers, and the internal one. -/
def HoldsLoggers (s : Stores) : Prop :=
  ∃ l : AList fun _ : LoggerName => LoggerConfig,
    (∀ name cfg, l.lookup name = some cfg → SoundLogger cfg) ∧
      s.loggerConfigs = withInternal (loggerNaming.map id l)

/-- The stores hold settings for some level names. -/
def HoldsLevels (s : Stores) : Prop :=
  ∃ l : AList fun _ : LevelName => Bool, s.levelConfigs = levelNaming.map LogLevelConfig.mk l

/-- The time format passes its check. -/
def SoundFormat (g : GlobalConfig) : Prop := ValidateTimeFormat g.LogTimeFormat.toList = .ok true

/-- The global settings pass all checks. -/
def HoldsGlobal (s : Stores) : Prop :=
  SoundFormat s.globalConfig ∧ s.globalConfig.LogsRootFolder.toList.getLast? = some '/'

/-! ### Computations that only log -/

variable {c : Conversions} {P : Stores → Prop}

/-- A message leaves the stores alone. -/
theorem triple_log (level : LogLevel) (msg : String) :
    Triple Stores.apply P (emit (.logInternal level msg) : Load Unit) fun _ => P :=
  triple_emit fun _ hs => hs

/-- Reading the document leaves the stores alone. -/
theorem triple_read {α : Type} (r : Except Fault α) :
    Triple Stores.apply P (liftExcept r : Load α) fun _ => P :=
  triple_liftExcept fun _ hs _ _ => hs

theorem or_lt_64 {m n : LogLevel} (hm : m.toNat < 64) (hn : n.toNat < 64) :
    (m ||| n).toNat < 64 := by
  rw [UInt32.toNat_or]
  exact Nat.or_lt_two_pow (n := 6) hm hn

theorem level_lt_64 (n : LevelName) : n.level.toNat < 64 := by
  cases n <;> decide

theorem joined_lt_64 {dest : LogLevel} (h : dest.toNat < 64) (n : LevelName) :
    (joined dest n).toNat < 64 := by
  unfold joined
  split_ifs
  · exact or_lt_64 h (level_lt_64 n)
  · decide

/-- A level that is read is the destination joined with a level name. -/
theorem triple_parseLogLevel (h : Handle) (dest : LogLevel) (msg : String) :
    Triple Stores.apply P (ParseLogLevel h dest msg) fun r s =>
      P s ∧ (r = (false, dest) ∨ ∃ n, r = (true, joined dest n)) := by
  unfold ParseLogLevel
  dsimp only
  split_ifs with hempty
  · refine triple_bind (triple_log _ _) fun _ => ?_
    exact triple_pure fun s hs => ⟨hs, .inl rfl⟩
  · rcases hmap : loglevel_str_map (h.asStringOr "") with _ | level
    · refine triple_bind (triple_log _ _) fun _ => ?_
      exact triple_pure fun s hs => ⟨hs, .inl rfl⟩
    · obtain ⟨n, -, rfl⟩ := exists_levelName hmap
      exact triple_pure fun s hs => ⟨hs, .inr ⟨n, rfl⟩⟩

theorem triple_parseLevelItems (msg : String) :
    ∀ (items : List Handle) (dest : LogLevel), dest.toNat < 64 →
      Triple Stores.apply P (ParseLevelItems msg items dest) fun level s => P s ∧ level.toNat < 64
  | [], _, hdest => triple_pure fun _ hs => ⟨hs, hdest⟩
  | item :: items, dest, hdest => by
    refine triple_bind (triple_parseLogLevel item dest msg) fun r => triple_assume fun hr => ?_
    rcases hr with rfl | ⟨n, rfl⟩
    · exact triple_parseLevelItems msg items dest hdest
    · exact triple_parseLevelItems msg items _ (joined_lt_64 hdest n)

/-- The levels of a logger are a mask of known levels. -/
theorem triple_parseLevels (name : String) (logger : Handle) :
    Triple Stores.apply P (ParseLevels name logger) fun level s => P s ∧ level.toNat < 64 := by
  unfold ParseLevels
  refine triple_bind (triple_read _) fun levels => ?_
  refine triple_bind (triple_read _) fun specified => ?_
  have hdest : (if specified then NONE else ({} : LoggerConfig).Level).toNat < 64 := by
    cases specified <;> decide
  refine triple_bind (triple_read _) fun several => ?_
  cases several with
  | true => exact triple_parseLevelItems _ _ _ hdest
  | false =>
    refine triple_bind (triple_parseLogLevel _ _ _) fun r => triple_assume fun hr => ?_
    rcases hr with rfl | ⟨n, rfl⟩
    · exact triple_pure fun s hs => ⟨hs, hdest⟩
    · exact triple_pure fun s hs => ⟨hs, joined_lt_64 hdest n⟩

/-! ### Rotations -/

/-- The type and the value that a trigger gives. -/
inductive SoundTrigger : Option (LogRotationType × LogRotationValue) → Prop
  | none : SoundTrigger Option.none
  | date (t : LogRotationTimeType) : SoundTrigger (some (.DATE, .Date t))
  | size (k : UInt32) : SoundTrigger (some (.SIZE, .FileSize k))

theorem triple_parseTrigger (name type_str : String) (trigger : Handle) :
    Triple Stores.apply P (ParseTrigger name type_str trigger) fun r s => P s ∧ SoundTrigger r := by
  unfold ParseTrigger
  split_ifs
  · rcases hd : ParseDuration (trigger.asStringOr "Daily") with _ | t
    · dsimp only
      rw [hd]
      refine triple_bind (triple_log _ _) fun _ => ?_
      exact triple_pure fun s hs => ⟨hs, .date _⟩
    · dsimp only
      rw [hd]
      exact triple_pure fun s hs => ⟨hs, .date t⟩
  · refine triple_bind (triple_read _) fun size => ?_
    rcases size with _ | k
    · refine triple_bind (triple_log _ _) fun _ => ?_
      exact triple_pure fun s hs => ⟨hs, .size _⟩
    · exact triple_pure fun s hs => ⟨hs, .size k⟩
  · refine triple_bind (triple_log _ _) fun _ => ?_
    exact triple_pure fun s hs => ⟨hs, .none⟩

/-- A setting that is read as an `int` is one. -/
theorem asIntOr_range (hc : Lawful c) {fallback : ℤ} (hf : INT_MIN ≤ fallback ∧ fallback ≤ INT_MAX)
    (h : Handle) : INT_MIN ≤ h.asIntOr c fallback ∧ h.asIntOr c fallback ≤ INT_MAX := by
  unfold Handle.asIntOr
  split
  · rename_i s
    rcases hs : c.asInt s with _ | n
    · exact hf
    · exact hc.asInt_range s n hs
  · exact hf

/-- A setting is the default or what is read from it. -/
theorem scalarOr_cases {α : Type} {setting : Handle} {read : Handle → α} {dest a : α}
    (h : scalarOr setting read dest = .ok a) : a = dest ∨ a = read setting := by
  unfold scalarOr at h
  split_ifs at h
  · rcases hscalar : setting.isScalar with e | scalar
    · rw [hscalar] at h
      exact absurd h (by simp [Except.map])
    · rw [hscalar] at h
      obtain rfl := Except.ok.inj h
      cases scalar
      · exact .inl rfl
      · exact .inr rfl
  · exact .inl (Except.ok.inj h).symm

theorem triple_parseBackupCount (hc : Lawful c) (rotation : Handle)
    {parsed : Option (LogRotationType × LogRotationValue)} (h : SoundTrigger parsed) :
    Triple Stores.apply P (ParseBackupCount c rotation parsed)
      fun r s => P s ∧ SoundRotation r := by
  have hdefault : INT_MIN ≤ ({} : LogRotationConfig).BackupCount ∧
      ({} : LogRotationConfig).BackupCount ≤ INT_MAX := by decide
  have hcount : ∀ setting : Handle, Triple Stores.apply P (liftExcept (scalarOr setting
      (·.asIntOr c ({} : LogRotationConfig).BackupCount) ({} : LogRotationConfig).BackupCount) :
        Load ℤ) fun n s => P s ∧ (INT_MIN ≤ n ∧ n ≤ INT_MAX) := by
    intro setting
    refine triple_liftExcept fun s hs n hn => ⟨hs, ?_⟩
    rcases scalarOr_cases hn with rfl | rfl
    · exact hdefault
    · exact asIntOr_range hc hdefault setting
  rcases h with _ | t | k
  · exact triple_pure fun s hs => ⟨hs, .none⟩
  · refine triple_bind (triple_read _) fun setting => ?_
    refine triple_bind (hcount setting) fun n => triple_assume fun hn => ?_
    exact triple_pure fun s hs => ⟨hs, .date t ⟨n, hn⟩⟩
  · refine triple_bind (triple_read _) fun setting => ?_
    refine triple_bind (hcount setting) fun n => triple_assume fun hn => ?_
    exact triple_pure fun s hs => ⟨hs, .size k ⟨n, hn⟩⟩

theorem triple_parseRotation (hc : Lawful c) (name : String) (logger : Handle) :
    Triple Stores.apply P (ParseRotation c name logger) fun r s => P s ∧ SoundRotation r := by
  unfold ParseRotation
  refine triple_bind (triple_read _) fun rotation => ?_
  split_ifs
  · refine triple_bind (triple_read _) fun type => ?_
    refine triple_bind (triple_read _) fun trigger => ?_
    split_ifs
    · refine triple_bind (triple_read _) fun type_str => ?_
      refine triple_bind (triple_parseTrigger name type_str trigger) fun parsed => ?_
      exact triple_assume fun h => triple_parseBackupCount hc rotation h
    · refine triple_bind (triple_log _ _) fun _ => ?_
      exact triple_pure fun s hs => ⟨hs, .none⟩
  · exact triple_pure fun s hs => ⟨hs, .none⟩

/-! ### Loggers and levels -/

/-- The configuration that is added is sound or the name has one. -/
theorem holdsLoggers_add {s : Stores} (hs : HoldsLoggers s) (name : LoggerName) {cfg : LoggerConfig}
    (hcfg : SoundLogger cfg) : HoldsLoggers (s.apply (.addLoggerConfig name cfg)) := by
  obtain ⟨l, hsound, hl⟩ := hs
  refine ⟨l ∪ AList.singleton name cfg, ?_, ?_⟩
  · intro name' cfg' hlookup
    rcases AList.mem_lookup_union.mp hlookup with h | ⟨-, h⟩
    · exact hsound name' cfg' h
    · obtain ⟨rfl, hcfg'⟩ := Sigma.mk.inj_iff.mp (List.mem_singleton.mp (List.of_mem_dlookup h))
      rw [eq_of_heq hcfg']
      exact hcfg
  · rw [Naming.map_join]
    change emplace s.loggerConfigs name.1 cfg = _
    rw [emplace_eq_join, hl, join_withInternal]
    rfl

theorem holdsLevels_emplace {s : Stores} (hs : HoldsLevels s) (n : LevelName) (print : Bool) :
    HoldsLevels (s.apply (.emplaceLevelConfig n.level ⟨print⟩)) := by
  obtain ⟨l, hl⟩ := hs
  refine ⟨l ∪ AList.singleton n print, ?_⟩
  rw [Naming.map_join]
  change emplace s.levelConfigs n.level ⟨print⟩ = _
  rw [emplace_eq_join, hl]
  rfl

/-- The flags join sound levels and a sound rotation. -/
theorem triple_parseFlags (name : LoggerName) (logger : Handle) {level : LogLevel}
    {rotation : LogRotationConfig} (hlevel : level.toNat < 64)
    (hrotation : SoundRotation rotation) :
    Triple Stores.apply HoldsLoggers (ParseFlags c name logger level rotation)
      fun _ => HoldsLoggers := by
  unfold ParseFlags
  refine triple_bind (triple_read _) fun console_print => ?_
  refine triple_bind (triple_read _) fun print => ?_
  refine triple_bind (triple_read _) fun append_logs => ?_
  refine triple_bind (triple_read _) fun append => ?_
  exact triple_emit fun s hs => holdsLoggers_add hs name ⟨hlevel, hrotation⟩

/-- **A round of the loop over the loggers.** -/
theorem triple_parseLogger (hc : Lawful c) (entry : Handle × Handle) :
    Triple Stores.apply HoldsLoggers (ParseLogger c entry) fun _ => HoldsLoggers := by
  unfold ParseLogger
  dsimp only
  split_ifs with hname
  · exact triple_log _ _
  · obtain ⟨name, hn⟩ : ∃ name : LoggerName, entry.1.asStringOr "" = name.1 :=
      ⟨⟨_, not_or.mp hname⟩, rfl⟩
    rw [hn]
    refine triple_bind (triple_parseLevels _ _) fun level => triple_assume fun hlevel => ?_
    refine triple_bind (triple_parseRotation hc _ _) fun rotation => triple_assume fun hrot => ?_
    exact triple_parseFlags name _ hlevel hrot

/-- **A round of the loop over the levels.** -/
theorem triple_parseLevel (entry : Handle × Handle) :
    Triple Stores.apply (fun s => HoldsLoggers s ∧ HoldsLevels s) (ParseLevel c entry)
      fun _ s => HoldsLoggers s ∧ HoldsLevels s := by
  unfold ParseLevel
  refine triple_bind (triple_parseLogLevel _ _ _) fun r => triple_assume fun hr => ?_
  rcases hr with rfl | ⟨n, rfl⟩
  · exact triple_pure fun s hs => hs
  · dsimp only
    rw [if_pos rfl, joined_zero]
    refine triple_bind (triple_read _) fun console_print => ?_
    refine triple_bind (triple_read _) fun print => ?_
    exact triple_emit fun s hs => ⟨hs.1, holdsLevels_emplace hs.2 n print⟩

/-! ### Global settings -/

/-- A setting of `_globalConfig` leaves the rest alone. -/
theorem triple_setGlobal (g : GlobalConfig) :
    Triple Stores.apply (fun s => HoldsLoggers s ∧ HoldsLevels s)
      (emit (.setGlobalConfig g) : Load Unit) fun _ s => HoldsLoggers s ∧ HoldsLevels s :=
  triple_emit fun _ hs => hs

theorem triple_parseTimeFormat (format : Handle) {config : GlobalConfig} (h : SoundFormat config) :
    Triple Stores.apply (fun s => HoldsLoggers s ∧ HoldsLevels s) (ParseTimeFormat format config)
      fun g s => (HoldsLoggers s ∧ HoldsLevels s) ∧ SoundFormat g := by
  unfold ParseTimeFormat
  refine triple_bind (triple_read _) fun time_format => ?_
  rcases time_format with _ | time_format
  · exact triple_pure fun s hs => ⟨hs, h⟩
  · refine triple_bind (R := fun valid s => (HoldsLoggers s ∧ HoldsLevels s) ∧
      ValidateTimeFormat time_format.toList = .ok valid)
      (triple_liftExcept fun s hs valid hv => ⟨hs, hv⟩) fun valid => triple_assume fun hvalid => ?_
    cases valid with
    | true =>
      rw [if_pos rfl]
      refine triple_bind (triple_setGlobal _) fun _ => ?_
      exact triple_pure fun s hs => ⟨hs, hvalid⟩
    | false =>
      rw [if_neg (by simp)]
      refine triple_bind (triple_log _ _) fun _ => ?_
      exact triple_pure fun s hs => ⟨hs, h⟩

/-- A folder with a `/` at its end. -/
theorem getLast_endWithSlash {folder folder' : String} (h : endWithSlash folder = .ok folder') :
    folder'.toList.getLast? = some '/' := by
  unfold endWithSlash at h
  rcases hlast : folder.toList.getLast? with _ | last
  · rw [hlast] at h
    exact absurd h (by simp)
  · rw [hlast] at h
    obtain rfl := Except.ok.inj h
    split_ifs with hslash
    · simp
    · rw [hlast, not_not.mp hslash]

theorem triple_parseGlobalScalars (root : Handle) {config : GlobalConfig} (h : SoundFormat config) :
    Triple Stores.apply (fun s => HoldsLoggers s ∧ HoldsLevels s) (ParseGlobalScalars c root config)
      fun _ s => (HoldsLoggers s ∧ HoldsLevels s) ∧ HoldsGlobal s := by
  unfold ParseGlobalScalars
  refine triple_bind (triple_read _) fun enable_colors => ?_
  refine triple_bind (triple_read _) fun colors => ?_
  refine triple_bind (triple_setGlobal _) fun _ => ?_
  refine triple_bind (triple_read _) fun disable_debug => ?_
  refine triple_bind (triple_read _) fun disable => ?_
  refine triple_bind (triple_setGlobal _) fun _ => ?_
  refine triple_bind (triple_read _) fun root_folder => ?_
  refine triple_bind (triple_read _) fun folder => ?_
  refine triple_bind (triple_setGlobal _) fun _ => ?_
  refine triple_bind (R := fun folder' s => (HoldsLoggers s ∧ HoldsLevels s) ∧
    folder'.toList.getLast? = some '/')
    (triple_liftExcept fun s hs folder' hf => ⟨hs, getLast_endWithSlash hf⟩)
    fun folder' => triple_assume fun hslash => ?_
  exact triple_emit fun s hs => ⟨hs, h, hslash⟩

theorem triple_parseGlobal (root : Handle) :
    Triple Stores.apply (fun s => HoldsLoggers s ∧ HoldsLevels s) (ParseGlobal c root)
      fun _ s => (HoldsLoggers s ∧ HoldsLevels s) ∧ HoldsGlobal s := by
  have hdefault : SoundFormat {} := rfl
  unfold ParseGlobal
  refine triple_bind (triple_setGlobal _) fun _ => ?_
  refine triple_bind (triple_read _) fun format => ?_
  refine triple_bind (triple_parseTimeFormat format hdefault) fun g => triple_assume fun hg => ?_
  exact triple_parseGlobalScalars root hg

/-- **Whatever a document leaves in the stores is sound.** -/
theorem triple_parseDocument (hc : Lawful c) (root : Handle) :
    Triple Stores.apply (fun _ => True) (ParseDocument c root)
      fun _ s => (HoldsLoggers s ∧ HoldsLevels s) ∧ HoldsGlobal s := by
  unfold ParseDocument
  refine triple_bind (R := fun _ s => s.loggerConfigs = fun _ => none)
    (triple_emit fun s _ => rfl) fun _ => ?_
  refine triple_bind (R := fun _ => HoldsLoggers) (triple_emit fun s hs => ?_) fun _ => ?_
  · refine ⟨∅, fun name cfg h => absurd h (by simp), ?_⟩
    rw [Naming.map_empty, ← emplace_internal, ← hs]
    rfl
  refine triple_bind (triple_read _) fun loggers => ?_
  refine triple_bind (triple_each fun entry _ => triple_parseLogger hc entry) fun _ => ?_
  refine triple_bind (R := fun _ s => HoldsLoggers s ∧ HoldsLevels s)
    (triple_emit fun s hs => ⟨hs, ∅, ?_⟩) fun _ => ?_
  · rw [Naming.map_empty]
    rfl
  refine triple_bind (triple_read _) fun levels => ?_
  refine triple_bind (triple_each fun entry _ => triple_parseLevel entry) fun _ => ?_
  exact triple_parseGlobal root

/-! ### Normal forms -/

/-- The file sizes in the stores are in the range of `int`. -/
def SizesFit (s : Stores) : Prop :=
  ∀ name cfg k, s.loggerConfigs name = some cfg → cfg.Rotation.Value = .FileSize k →
    (k.toNat : ℤ) ≤ INT_MAX

/-- Sound settings can be written if their size can. -/
theorem exists_settings {cfg : LoggerConfig} (h : SoundLogger cfg)
    (hsize : ∀ k, cfg.Rotation.Value = .FileSize k → (k.toNat : ℤ) ≤ INT_MAX) :
    ∃ settings : LoggerSettings, settings.config = cfg := by
  obtain ⟨level, print, append, rotation⟩ := cfg
  obtain ⟨hlevel, hrotation⟩ := h
  rcases hrotation with _ | ⟨t, n⟩ | ⟨k, n⟩
  · exact ⟨⟨⟨level, hlevel⟩, print, append, .none⟩, rfl⟩
  · exact ⟨⟨⟨level, hlevel⟩, print, append, .date t n⟩, rfl⟩
  · exact ⟨⟨⟨level, hlevel⟩, print, append, .size ⟨k, hsize k rfl⟩ n⟩, rfl⟩

/-- Settings whose configurations are those of the list. -/
theorem exists_loggers {l : AList fun _ : LoggerName => LoggerConfig}
    (h : ∀ name cfg, l.lookup name = some cfg →
      ∃ settings : LoggerSettings, settings.config = cfg) :
    ∃ l' : AList fun _ : LoggerName => LoggerSettings,
      loggerNaming.map LoggerSettings.config l' = loggerNaming.map id l := by
  have hsettings : ∀ cfg : LoggerConfig, ∃ settings : LoggerSettings,
      (∃ settings : LoggerSettings, settings.config = cfg) → settings.config = cfg := by
    intro cfg
    by_cases hcfg : ∃ settings : LoggerSettings, settings.config = cfg
    · obtain ⟨settings, hs⟩ := hcfg
      exact ⟨settings, fun _ => hs⟩
    · exact ⟨⟨⟨0, by decide⟩, false, false, .none⟩, fun h => absurd h hcfg⟩
  choose settings hsettings using hsettings
  refine ⟨(l.entries.map (Sigma.map id fun _ => settings)).toAList, ?_⟩
  funext k
  rcases hfind : loggerNaming.find k with _ | name
  · rw [Naming.map_of_find_none hfind, Naming.map_of_find_none hfind]
  · rw [Naming.map_of_find hfind, Naming.map_of_find hfind, AList.lookup_to_alist,
      List.dlookup_map₂, Option.map_map]
    change (l.lookup name).map _ = (l.lookup name).map id
    rcases hlookup : l.lookup name with _ | cfg
    · rfl
    · exact congrArg some (hsettings cfg (h name cfg hlookup))

/-- **What a load leaves is a configuration.** -/
theorem exists_storesOf (hc : Lawful c) {root : Node} (ht : ¬ DocumentThrows root)
    (hsizes : SizesFit (built c root)) : ∃ conf, built c root = storesOf conf := by
  obtain ⟨u, hu⟩ := not_throws_iff.mp fun h => ht ((throws_iff c root).mp h)
  obtain ⟨⟨⟨l, hsound, hloggers⟩, levels, hlevels⟩, hformat, hfolder⟩ :=
    triple_parseDocument hc (.node root) {} trivial u hu
  have hwritable : ∀ name cfg, l.lookup name = some cfg →
      ∃ settings : LoggerSettings, settings.config = cfg := by
    intro name cfg hname
    refine exists_settings (hsound name cfg hname) fun k hk => hsizes name.1 cfg k ?_ hk
    have hmap : loggerNaming.map id l name.1 = (l.lookup name).map id :=
      Naming.map_of_find (loggerNaming.find_name name)
    rw [built, hloggers, withInternal, if_neg name.2.2, hmap, hname]
    rfl
  obtain ⟨loggers, hl⟩ := exists_loggers hwritable
  refine ⟨⟨loggers, levels, ⟨_, hformat, hfolder⟩⟩, ?_⟩
  rw [← hl] at hloggers
  change List.foldl Stores.apply {} _ = Stores.mk _ _ _
  rw [← hloggers, ← hlevels]

variable {w t : World} {root : Node}

/-- **Every document that loads has a normal form**: the document of a configuration that, loaded
at any time, leaves the same settings, and logs nothing. -/
theorem load_normal (hc : Lawful c) (hw : Wf w) (hconfig : w.logConfig.isSome = true)
    (h : ParseConfigFile c (.document root) [] w = .ok () t) (hsizes : SizesFit (config t).stores) :
    ∃ conf, (config t).stores = storesOf conf ∧
      ∀ w', Wf w' → w'.logConfig.isSome = true →
        ∃ t', ParseConfigFile c (.document conf.document) [] w' = .ok () t' ∧
          (config t').stores = (config t).stores ∧ t'.logManager = w'.logManager := by
  obtain ⟨-, hthrows, rfl⟩ := parse_ok_inv c hw hconfig h
  rw [stores_loaded_of_ok c w hthrows] at hsizes ⊢
  obtain ⟨conf, hconf⟩ := exists_storesOf hc hthrows hsizes
  refine ⟨conf, hconf, fun w' hw' hconfig' => ?_⟩
  have hrestored := restored_loaded hc conf hw'
  exact ⟨_, parse_document hc conf hw' hconfig', hrestored.stores.trans hconf.symm,
    hrestored.silent⟩

/-- A document that is not in normal form: one level instead of a list, a size in megabytes, and
nothing about the rest. -/
def loose : Node :=
  .map [(.scalar "Logger", .map [(.scalar "plugins/mysql", .map [
    (.scalar "LogLevel", .scalar "All"),
    (.scalar "LogRotation", .map [(.scalar "Type", .scalar "Size"),
      (.scalar "Trigger", .scalar "5mb")]),
    (.scalar "PrintToConsole", .scalar "yes")])])]

/-- What the document is read as. -/
def looseConfig : LoggerConfig := ⟨GetAllLogLevel, true, true, ⟨.SIZE, .FileSize 5000, 10⟩⟩

theorem parseDocument_loose : ParseDocument plainConversions (.node loose) =
    ⟨[.clearLoggerConfigs, .addLoggerConfig "log-core" GetInternalLogConfig,
      .addLoggerConfig "plugins/mysql" looseConfig, .clearLevelConfigs, .setGlobalConfig {},
      .setGlobalConfig {}, .setGlobalConfig {}, .setGlobalConfig {}, .setGlobalConfig {}],
      .ok ()⟩ := by
  rfl

theorem loose_not_throws : ¬ DocumentThrows loose := by
  rw [← throws_iff plainConversions, parseDocument_loose]
  rintro ⟨e, he⟩
  exact absurd he (by simp)

theorem loose_not_warns : ¬ DocumentWarns loose := by
  rw [← warns_iff plainConversions, parseDocument_loose]
  rintro ⟨action, haction, hlog⟩
  simp only [List.mem_cons, List.not_mem_nil, or_false] at haction
  rcases haction with rfl | rfl | rfl | rfl | rfl | rfl | rfl | rfl | rfl <;> exact hlog

theorem sizesFit_loose : SizesFit (built plainConversions loose) := by
  have hloggers : (built plainConversions loose).loggerConfigs =
      join (join (fun _ => none) "log-core" GetInternalLogConfig) "plugins/mysql" looseConfig := by
    rw [built, parseDocument_loose]
    simp only [List.foldl_cons, List.foldl_nil, Stores.apply, emplace_eq_join]
  intro name cfg k hname hk
  rw [hloggers] at hname
  unfold join at hname
  by_cases hcore : "log-core" = name
  · rw [if_pos hcore] at hname
    obtain rfl := Option.some.inj hname
    exact absurd hk (by simp [GetInternalLogConfig])
  · rw [if_neg hcore] at hname
    by_cases hmysql : "plugins/mysql" = name
    · rw [if_pos hmysql] at hname
      obtain rfl := Option.some.inj hname
      obtain rfl := LogRotationValue.FileSize.inj hk
      decide
    · rw [if_neg hmysql] at hname
      exact absurd hname (by simp)

theorem load_normal_loose :
    ∃ t conf, ParseConfigFile plainConversions (.document loose) [] { logConfig := some {} } =
        .ok () t ∧ (config t).stores = storesOf conf ∧
      ∀ w', Wf w' → w'.logConfig.isSome = true →
        ∃ t', ParseConfigFile plainConversions (.document conf.document) [] w' = .ok () t' ∧
          (config t').stores = (config t).stores ∧ t'.logManager = w'.logManager := by
  have hw : Wf { logConfig := some {} } := (kept_withConfig {}).wf Runs.wf_init
  have hparse := parse_ok plainConversions hw rfl (.inr loose_not_warns) loose_not_throws
  have hsizes := sizesFit_loose
  rw [← stores_loaded_of_ok plainConversions { logConfig := some {} } loose_not_throws] at hsizes
  obtain ⟨conf, hconf⟩ := load_normal lawful_plainConversions hw rfl hparse hsizes
  exact ⟨_, conf, hparse, hconf⟩

end SampLogCore.Lifecycle.NormalForm
