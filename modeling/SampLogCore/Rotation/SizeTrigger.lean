import SampLogCore.Config.FileSize
import SampLogCore.Rotation.History

/-!
# The size trigger

A trigger such as `10MB` becomes a number of kilobytes (`ParseFileSize`), and the rotation compares
the size of the log file with a thousand times that number. All of this is computed in 32 bits, so
the trigger means what it says exactly when the number of bytes fits in 32 bits.
-/

namespace SampLogCore.Rotation.SizeTrigger

open SampLogCore.Lib.Number SampLogCore.Config.Settings SampLogCore.Config.FileSize
  SampLogCore.Rotation.LogDirectory SampLogCore.Rotation.SizeRotation SampLogCore.Rotation.History

/-- The bytes of a unit: the letters `k`, `m` and `g`, in any case. -/
def unitBytes (unit : Char) : Option ℕ :=
  if unit.toLower = 'k' then some 1000
  else if unit.toLower = 'm' then some (1000 * 1000)
  else if unit.toLower = 'g' then some (1000 * 1000 * 1000)
  else none

/-- `CheckSizeRotation` goes on to the files. -/
def Rotates (td : Tinydir) (F : LogFile) (s : State) (max_size : UInt32) (backup_count : Int32) :
    Prop :=
  ∃ t, step td F s (.checkSize max_size backup_count) = some t ∧ t.rotator ≠ .idle

/-- A trigger gives a setting with which every log file is rotated from `bytes` bytes on. -/
def Means (trigger : String) (bytes : ℕ) : Prop :=
  ∃ max_size, ParseFileSize trigger = .ok (some max_size) ∧
    ∀ (td : Tinydir) (F : LogFile) (s : State) (backup_count : Int32) (i : ℕ),
      s.rotator = .idle → s.dir.find F.file_path = some i →
      (Rotates td F s max_size backup_count ↔ bytes ≤ fileSize (s.dir.inodes i).records)

/-- **When a log file is rotated.** -/
theorem rotates_iff {td : Tinydir} {F : LogFile} {s : State} {max_size : UInt32}
    {backup_count : Int32} {i : ℕ} (hidle : s.rotator = .idle)
    (hfind : s.dir.find F.file_path = some i) :
    Rotates td F s max_size backup_count ↔
      (max_size * 1000).toNat ≤ fileSize (s.dir.inodes i).records := by
  unfold Rotates
  by_cases hsmall : fileSize (s.dir.inodes i).records < (max_size * 1000).toNat
  · simp only [step, hidle, hfind, if_pos hsmall, Option.some.injEq]
    constructor
    · rintro ⟨t, rfl, hmoving⟩
      exact absurd hidle hmoving
    · intro hlarge
      omega
  · simp only [step, hidle, hfind, if_neg hsmall]
    constructor
    · intro _
      omega
    · intro _
      split_ifs
      · exact ⟨_, rfl, by simp⟩
      · exact ⟨_, rfl, by simp⟩

/-! ### Parsing -/

/-- A letter with bytes is that of a unit. -/
theorem exists_sizeUnit {unit : Char} {bytes : ℕ} (h : unitBytes unit = some bytes) :
    ∃ u : SizeUnit, unit.toLower = u.letter ∧ bytes / 1000 = u.factor := by
  unfold unitBytes at h
  split_ifs at h with hk hm hg
  · exact ⟨.k, hk, by rw [← Option.some.inj h]; rfl⟩
  · exact ⟨.m, hm, by rw [← Option.some.inj h]; rfl⟩
  · exact ⟨.g, hg, by rw [← Option.some.inj h]; rfl⟩

variable {digits : List Char} {unit b : Char} {bytes : ℕ}

/-- What is parsed: the number of kilobytes, modulo `2 ^ 32`. -/
theorem ParseFileSize_eq (hne : digits ≠ []) (hdigits : ∀ c ∈ digits, c.isDigit = true)
    (hunit : unitBytes unit = some bytes) (hb : b.toLower = 'b') :
    ParseFileSize (String.ofList (digits ++ [unit, b])) =
      if (Nat.ofDigitChars 10 digits 0 : ℤ) > INT_MAX then .error .outOfRange
      else .ok (some (UInt32.ofNat (Nat.ofDigitChars 10 digits 0) *
        UInt32.ofNat (bytes / 1000))) := by
  obtain ⟨u, hu, hfactor⟩ := exists_sizeUnit hunit
  rw [hfactor]
  exact SizeText.parse_text ⟨digits, u, unit, b, hne, hdigits, hu, hb⟩

/-- The threshold of the comparison: the bytes, modulo `2 ^ 32`. -/
theorem toNat_threshold (v : ℕ) (hunit : unitBytes unit = some bytes) :
    (UInt32.ofNat v * UInt32.ofNat (bytes / 1000) * 1000).toNat = v * bytes % 2 ^ 32 := by
  have hbytes : bytes / 1000 * 1000 = bytes := by
    unfold unitBytes at hunit
    split_ifs at hunit
    all_goals
      obtain rfl := Option.some.inj hunit
      rfl
  have h1000 : (1000 : UInt32).toNat = 1000 := rfl
  rw [UInt32.toNat_mul, UInt32.toNat_mul, UInt32.toNat_ofNat', UInt32.toNat_ofNat', h1000,
    ← Nat.mul_mod, Nat.mod_mul_mod, Nat.mul_assoc, hbytes]

/-- A log file of `n` bytes. -/
def sized (n : ℕ) : State :=
  { start with dir := (start.dir.create logA.file_name).append 0 (List.replicate n 65) }

theorem fileSize_sized (n : ℕ) : fileSize ((sized n).dir.inodes 0).records = n := by
  simp [sized, start, Directory.create, Directory.append, fileSize]

theorem find_sized (n : ℕ) : (sized n).dir.find logA.file_path = some 0 := rfl

/-- **When the trigger means what it says**: when its bytes fit in 32 bits. -/
theorem size_trigger_iff (hne : digits ≠ []) (hdigits : ∀ c ∈ digits, c.isDigit = true)
    (hunit : unitBytes unit = some bytes) (hb : b.toLower = 'b') :
    Means (String.ofList (digits ++ [unit, b])) (Nat.ofDigitChars 10 digits 0 * bytes) ↔
      Nat.ofDigitChars 10 digits 0 * bytes < 2 ^ 32 := by
  set v := Nat.ofDigitChars 10 digits 0 with hv
  have hparse := ParseFileSize_eq hne hdigits hunit hb
  have hthreshold := toNat_threshold v hunit
  constructor
  · rintro ⟨max_size, hok, hmeans⟩
    rw [hparse] at hok
    split_ifs at hok with hmax
    obtain rfl : _ = max_size := Option.some.inj (Except.ok.inj hok)
    -- a file as long as the threshold is rotated
    have hrotates := (hmeans Tinydir.strrchr logA (sized (v * bytes % 2 ^ 32)) 0 0 rfl
      (find_sized _)).mp ((rotates_iff rfl (find_sized _)).mpr (by rw [fileSize_sized, hthreshold]))
    rw [fileSize_sized] at hrotates
    have := Nat.mod_lt (v * bytes) (show 0 < 2 ^ 32 by decide)
    omega
  · intro hlt
    have hbytes : 1000 ≤ bytes := by
      unfold unitBytes at hunit
      split_ifs at hunit
      all_goals
        obtain rfl := Option.some.inj hunit
        decide
    have hmax : ¬ (v : ℤ) > INT_MAX := by
      have : v * 1000 ≤ v * bytes := Nat.mul_le_mul_left v hbytes
      simp only [INT_MAX]
      omega
    rw [if_neg hmax] at hparse
    refine ⟨_, hparse, fun td F s backup_count i hidle hfind => ?_⟩
    rw [rotates_iff hidle hfind, hthreshold, Nat.mod_eq_of_lt hlt]

/-- Ten megabytes. -/
theorem size_trigger_tenMB : Means "10MB" 10000000 :=
  (@size_trigger_iff ['1', '0'] 'M' 'B' 1000000 (by simp) (by simp) rfl rfl).mpr (by decide)

/-- Five gigabytes: a file of 705 MB is rotated already. -/
theorem fiveGB_rotates_early :
    ParseFileSize "5GB" = .ok (some 5000000) ∧
      Rotates Tinydir.strrchr logA (sized 705032704) 5000000 10 ∧
      fileSize ((sized 705032704).dir.inodes 0).records < 5 * (1000 * 1000 * 1000) := by
  refine ⟨by rfl, (rotates_iff rfl (find_sized _)).mpr ?_, ?_⟩
  · rw [fileSize_sized]
    decide
  · rw [fileSize_sized]
    decide

end SampLogCore.Rotation.SizeTrigger
