import SampLogCore.Config.Settings

/-!
# File sizes

A size is digits, a unit (`k`, `m` or `g`) and a `b`, the letters in any case (`SizeText`), and
`ParseFileSize` makes a number of kilobytes of it. `std::stoi` reads the digits as soon as anything
follows them, and throws when they are no `int`; the product with the unit is computed in 32 bits,
in which an overflow wraps around. Apart from these two overflows the parser accepts the grammar and
is exact on it (`parseFileSize_exact_iff`).
-/

namespace SampLogCore.Config.FileSize

open SampLogCore.Lib.Number SampLogCore.Config.Yaml SampLogCore.Config.Settings

inductive SizeUnit
  | k
  | m
  | g

def SizeUnit.letter : SizeUnit → Char
  | k => 'k'
  | m => 'm'
  | g => 'g'

/-- The kilobytes of a unit. -/
def SizeUnit.factor : SizeUnit → ℕ
  | k => 1
  | m => 1000
  | g => 1000000

/-- A size, as it is written. -/
structure SizeText where
  digits : List Char
  unit : SizeUnit
  unitChar : Char
  b : Char
  digits_ne : digits ≠ []
  isDigit : ∀ c ∈ digits, c.isDigit = true
  unit_eq : unitChar.toLower = unit.letter
  b_eq : b.toLower = 'b'

namespace SizeText

variable (z : SizeText)

def text : List Char := z.digits ++ [z.unitChar, z.b]

/-- The number in front of the unit. -/
def value : ℕ := Nat.ofDigitChars 10 z.digits 0

def kilobytes : ℕ := z.value * z.unit.factor

end SizeText

/-- `ParseFileSize`, with `dest_in_kb`. -/
def ParseFileSizeTo (size : String) (dest_in_kb : UInt32) : Except Fault (Bool × UInt32) :=
  match ParseFileSize size with
  | .ok (some kilobytes) => .ok (true, kilobytes)
  | .ok none => .ok (false, dest_in_kb)
  | .error e => .error e

/-- Nothing is thrown, the sizes whose kilobytes fit are accepted and no other strings, and the
destination is the kilobytes of an accepted size and unchanged otherwise. -/
def Exact (size : String) (dest_in_kb : UInt32) : Prop :=
  ∃ accepted dest, ParseFileSizeTo size dest_in_kb = .ok (accepted, dest) ∧
    (accepted = true ↔ ∃ z : SizeText, size.toList = z.text ∧ z.kilobytes < 2 ^ 32) ∧
    (accepted = true → ∀ z : SizeText, size.toList = z.text → dest.toNat = z.kilobytes) ∧
    (accepted = false → dest = dest_in_kb)

/-- The string starts with a number that is no `int`, and something follows it. -/
def StartsBeyondInt (size : String) : Prop :=
  size.toList.dropWhile Char.isDigit ≠ [] ∧
    INT_MAX < Nat.ofDigitChars 10 (size.toList.takeWhile Char.isDigit) 0

instance (size : String) : Decidable (StartsBeyondInt size) := inferInstanceAs (Decidable (_ ∧ _))

/-- The string is a size of `2 ^ 32` kilobytes or more. -/
def TooLarge (size : String) : Prop := ∃ z : SizeText, size.toList = z.text ∧ 2 ^ 32 ≤ z.kilobytes

/-! ### The grammar -/

theorem toLower_of_isDigit {c : Char} (h : c.isDigit = true) : c.toLower = c := by
  simp only [Char.isDigit, Bool.and_eq_true, decide_eq_true_eq, UInt32.le_iff_toNat_le] at h
  have h9 : ('9' : Char).val.toNat = 57 := rfl
  have hA : ('A' : Char).val.toNat = 65 := rfl
  unfold Char.toLower
  rw [dif_neg]
  simp only [UInt32.le_iff_toNat_le, ge_iff_le]
  omega

theorem SizeUnit.letter_injective {u v : SizeUnit} (h : u.letter = v.letter) : u = v := by
  cases u <;> cases v <;> first | rfl | exact absurd h (by decide)

namespace SizeText

variable {z z' : SizeText}

theorem not_isDigit_unitChar (z : SizeText) : z.unitChar.isDigit = false := by
  by_contra hdigit
  have hdigit : z.unitChar.isDigit = true := by simpa using hdigit
  have hunit := z.unit_eq
  rw [toLower_of_isDigit hdigit] at hunit
  rw [hunit] at hdigit
  cases hu : z.unit <;> exact absurd hdigit (by rw [hu]; decide)

theorem takeWhile_text (z : SizeText) : z.text.takeWhile Char.isDigit = z.digits := by
  rw [text, List.takeWhile_append_of_pos z.isDigit,
    List.takeWhile_cons_of_neg (by simp [z.not_isDigit_unitChar]), List.append_nil]

theorem dropWhile_text (z : SizeText) : z.text.dropWhile Char.isDigit = [z.unitChar, z.b] := by
  rw [text, List.dropWhile_append_of_pos z.isDigit,
    List.dropWhile_cons_of_neg (by simp [z.not_isDigit_unitChar])]

/-- A string is one size at most. -/
theorem kilobytes_eq (h : z.text = z'.text) : z.kilobytes = z'.kilobytes := by
  have hdigits : z.digits = z'.digits := by rw [← takeWhile_text, h, takeWhile_text]
  have hdrop : [z.unitChar, z.b] = [z'.unitChar, z'.b] := by
    rw [← dropWhile_text, h, dropWhile_text]
  have hunit : z.unit = z'.unit := by
    apply SizeUnit.letter_injective
    rw [← z.unit_eq, ← z'.unit_eq, (List.cons.inj hdrop).1]
  rw [kilobytes, kilobytes, value, value, hdigits, hunit]

/-- What is parsed: the number of kilobytes, modulo `2 ^ 32`. -/
theorem parse_text (z : SizeText) :
    ParseFileSize (String.ofList z.text) =
      if (z.value : ℤ) > INT_MAX then .error .outOfRange
      else .ok (some (UInt32.ofNat z.value * UInt32.ofNat z.unit.factor)) := by
  unfold ParseFileSize
  simp only [String.toList_ofList, takeWhile_text, dropWhile_text, z.digits_ne, or_false,
    reduceCtorEq, if_false, z.b_eq, z.unit_eq, not_true, ne_eq]
  rw [value]
  congr 1
  cases z.unit with
  | k => simp [SizeUnit.letter, SizeUnit.factor]
  | m => simp [SizeUnit.letter, SizeUnit.factor]
  | g => simp [SizeUnit.letter, SizeUnit.factor, UInt32.mul_assoc]

end SizeText

/-! ### The parser -/

variable {size : String}

/-- A string of digits with a unit and a `b` behind them is a size. -/
theorem exists_sizeText {digits : List Char} {unit b : Char} (hne : digits ≠ [])
    (hdigits : ∀ c ∈ digits, c.isDigit = true) (hb : b.toLower = 'b')
    (hunit : unit.toLower = 'k' ∨ unit.toLower = 'm' ∨ unit.toLower = 'g') :
    ∃ z : SizeText, digits ++ [unit, b] = z.text := by
  rcases hunit with hunit | hunit | hunit
  · exact ⟨⟨digits, .k, unit, b, hne, hdigits, hunit, hb⟩, rfl⟩
  · exact ⟨⟨digits, .m, unit, b, hne, hdigits, hunit, hb⟩, rfl⟩
  · exact ⟨⟨digits, .g, unit, b, hne, hdigits, hunit, hb⟩, rfl⟩

/-- What the parser does with a string that is no size. -/
theorem parse_of_not_sizeText (h : ∀ z : SizeText, size.toList ≠ z.text) :
    ParseFileSize size = if StartsBeyondInt size then .error .outOfRange else .ok none := by
  by_cases hbeyond : StartsBeyondInt size
  · have hdigits : size.toList.takeWhile Char.isDigit ≠ [] := by
      intro hnil
      rw [StartsBeyondInt, hnil] at hbeyond
      exact absurd hbeyond.2 (by decide)
    rw [if_pos hbeyond, ParseFileSize]
    simp only [hbeyond.1, hdigits, or_self, if_false, gt_iff_lt, if_pos hbeyond.2]
  · have hsplit : size.toList.takeWhile Char.isDigit ++ size.toList.dropWhile Char.isDigit =
        size.toList := List.takeWhile_append_dropWhile
    have hdigits : ∀ c ∈ size.toList.takeWhile Char.isDigit, c.isDigit = true :=
      fun c hc => List.mem_takeWhile_imp hc
    rw [if_neg hbeyond, ParseFileSize]
    dsimp only
    split_ifs with hguard hmax
    · rfl
    · exact absurd ⟨(not_or.mp hguard).1, hmax⟩ hbeyond
    · split
      · rename_i unit b htwo
        -- with a `b` at the end the unit is none of the three
        by_cases hb : b.toLower = 'b'
        · have hunit : ¬ (unit.toLower = 'k' ∨ unit.toLower = 'm' ∨ unit.toLower = 'g') := by
            intro hunit
            obtain ⟨z, hz⟩ := exists_sizeText (not_or.mp hguard).2 hdigits hb hunit
            exact h z (by rw [← hz, ← htwo, hsplit])
          simp only [not_or] at hunit
          simp [hunit]
        · simp [hb]
      · rfl

/-- What the parser does with a size. -/
theorem parse_of_sizeText {z : SizeText} (h : size.toList = z.text) :
    ParseFileSize size =
      if StartsBeyondInt size then .error .outOfRange
      else .ok (some (UInt32.ofNat z.kilobytes)) := by
  have hsize : size = String.ofList z.text := by rw [← h, String.ofList_toList]
  have hbeyond : StartsBeyondInt size ↔ INT_MAX < z.value := by
    rw [StartsBeyondInt, h, z.takeWhile_text, z.dropWhile_text, SizeText.value]
    simp
  rw [hsize, z.parse_text, ← hsize, SizeText.kilobytes, ← UInt32.ofNat_mul]
  simp only [hbeyond, gt_iff_lt]

/-- **The parser is exact on its grammar, apart from the two overflows.** -/
theorem parseFileSize_exact_iff (size : String) (dest_in_kb : UInt32) :
    Exact size dest_in_kb ↔ ¬ StartsBeyondInt size ∧ ¬ TooLarge size := by
  unfold Exact ParseFileSizeTo
  by_cases hbeyond : StartsBeyondInt size
  · have hthrows : ParseFileSize size = .error .outOfRange := by
      by_cases hz : ∃ z : SizeText, size.toList = z.text
      · obtain ⟨z, hz⟩ := hz
        rw [parse_of_sizeText hz, if_pos hbeyond]
      · rw [parse_of_not_sizeText (not_exists.mp hz), if_pos hbeyond]
    simp [hthrows, hbeyond]
  rw [and_iff_right hbeyond]
  by_cases hz : ∃ z : SizeText, size.toList = z.text
  · obtain ⟨z, hz⟩ := hz
    have hunique : ∀ z' : SizeText, size.toList = z'.text → z'.kilobytes = z.kilobytes :=
      fun z' hz' => SizeText.kilobytes_eq (hz'.symm.trans hz)
    have hlarge : TooLarge size ↔ 2 ^ 32 ≤ z.kilobytes := by
      constructor
      · rintro ⟨z', hz', hle⟩
        rwa [hunique z' hz'] at hle
      · exact fun hle => ⟨z, hz, hle⟩
    simp only [parse_of_sizeText hz, if_neg hbeyond, Except.ok.injEq, Prod.mk.injEq, hlarge,
      not_le]
    constructor
    · rintro ⟨accepted, dest, ⟨rfl, rfl⟩, hfits, -, -⟩
      obtain ⟨z', hz', hlt⟩ := hfits.mp rfl
      rwa [hunique z' hz'] at hlt
    · intro hlt
      refine ⟨true, _, ⟨rfl, rfl⟩, ⟨fun _ => ⟨z, hz, hlt⟩, fun _ => rfl⟩, fun _ z' hz' => ?_,
        by simp⟩
      rw [hunique z' hz', UInt32.toNat_ofNat', Nat.mod_eq_of_lt hlt]
  · have hnone : ∀ z : SizeText, size.toList ≠ z.text := not_exists.mp hz
    simp only [parse_of_not_sizeText hnone, if_neg hbeyond, Except.ok.injEq, Prod.mk.injEq]
    constructor
    · exact fun _ ⟨z, hz, _⟩ => hnone z hz
    · intro _
      refine ⟨false, dest_in_kb, ⟨rfl, rfl⟩, ⟨by simp, fun ⟨z, hz, _⟩ => absurd hz (hnone z)⟩, ?_,
        fun _ => rfl⟩
      exact fun h => absurd h (by simp)

/-- Five thousand gigabytes. -/
def fiveThousandGB : SizeText where
  digits := ['5', '0', '0', '0']
  unit := .g
  unitChar := 'G'
  b := 'B'
  digits_ne := by simp
  isDigit := by simp
  unit_eq := rfl
  b_eq := rfl

/-- They are accepted, as less than a thousand. -/
theorem not_exact_fiveThousandGB :
    ParseFileSizeTo "5000GB" 0 = .ok (true, 705032704) ∧ ¬ Exact "5000GB" 0 := by
  have hparse : ParseFileSizeTo "5000GB" 0 = .ok (true, 705032704) := by rfl
  refine ⟨hparse, ?_⟩
  rintro ⟨accepted, dest, heq, -, hdest, -⟩
  rw [hparse, Except.ok.injEq, Prod.mk.injEq] at heq
  have hkb := hdest heq.1.symm fiveThousandGB rfl
  rw [← heq.2] at hkb
  exact absurd hkb (by decide)

end SampLogCore.Config.FileSize
