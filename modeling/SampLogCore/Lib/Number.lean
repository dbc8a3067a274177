import Mathlib.Data.Int.Basic
import Mathlib.Data.List.TakeWhile
import Mathlib.Tactic.Common
import Mathlib.Tactic.IntervalCases

/-!
# C integers and decimal numerals

An `int` has 32 bits, and so has a `long` where the code is built for 32-bit processes. `cint` wraps
an integer into the range of `int`, `formatD` writes one as the format `{:d}` does, and `strtol`
reads one as the C function does with base 10: blanks and a sign are skipped, the digits are read
and the value is clamped; the second component is what `end` points to, the whole string when
there is no digit.
-/

namespace SampLogCore.Lib.Number

/-- The largest `int`. -/
def INT_MAX : ℤ := 2147483647

/-- The smallest `int`. -/
def INT_MIN : ℤ := -2147483648

/-- An integer wrapped into the range of `int`. -/
def cint (x : ℤ) : ℤ := Int.bmod x (2 ^ 32)

theorem cint_eq {x : ℤ} (h0 : INT_MIN ≤ x) (h1 : x ≤ INT_MAX) : cint x = x := by
  simp only [INT_MIN, INT_MAX] at h0 h1
  exact Int.bmod_eq_of_le (by omega) (by omega)

theorem INT_MIN_le {x : ℤ} (h : 0 ≤ x) : INT_MIN ≤ x := by
  simp only [INT_MIN]
  omega

/-- A count that is an `int`. -/
theorem cint_natCast {n : ℕ} (h : (n : ℤ) ≤ INT_MAX) : cint n = n :=
  cint_eq (INT_MIN_le (by omega)) h

/-- The format `{:d}`. -/
def formatD (n : ℤ) : List Char :=
  if n < 0 then '-' :: Nat.toDigits 10 n.natAbs else Nat.toDigits 10 n.natAbs

/-- `std::isspace` in the C locale. -/
def isspace (c : Char) : Bool := c = ' ' || ('\t' ≤ c && c ≤ '\r')

/-- The sign of a numeral, and what follows it. -/
def sign : List Char → Bool × List Char
  | '-' :: s => (true, s)
  | '+' :: s => (false, s)
  | s => (false, s)

/-- A value clamped to the range of `long`. -/
def clamp (x : ℤ) : ℤ := max INT_MIN (min INT_MAX x)

/-- `strtol(s, &end, 10)`: the value, and the characters from `end` on. -/
def strtol (s : List Char) : ℤ × List Char :=
  let (negative, t) := sign (s.dropWhile isspace)
  let digits := t.takeWhile Char.isDigit
  if digits = [] then (0, s)
  else
    let n : ℤ := Nat.ofDigitChars 10 digits 0
    (clamp (if negative then -n else n), t.dropWhile Char.isDigit)

/-- The digit that a character stands for. -/
def digitValue (c : Char) : Option ℕ := (List.range 16).find? fun d => Nat.digitChar d = c

/-- Reads a natural number in a base up to 16. -/
def readDigits (base : ℕ) (s : List Char) : Option ℕ :=
  if s = [] then none
  else s.foldlM (fun n c => ((digitValue c).filter (· < base)).map (base * n + ·)) 0

/-! ### Numerals -/

theorem isDigit_digitChar {d : ℕ} (h : d < 10) : (Nat.digitChar d).isDigit = true := by
  interval_cases d <;> decide

theorem isDigit_toDigits (n : ℕ) : ∀ c ∈ Nat.toDigits 10 n, c.isDigit = true := by
  induction n using Nat.strongRecOn with
  | ind n ih =>
    intro c hc
    rw [Nat.toDigits_eq_if (by omega)] at hc
    split_ifs at hc with h
    · rw [List.mem_singleton.mp hc]
      exact isDigit_digitChar h
    · rcases List.mem_append.mp hc with hc | hc
      · exact ih (n / 10) (by omega) c hc
      · rw [List.mem_singleton.mp hc]
        exact isDigit_digitChar (Nat.mod_lt n (by omega))

theorem formatD_natCast (n : ℕ) : formatD n = Nat.toDigits 10 n := by
  simp [formatD]

theorem formatD_injective {m n : ℕ} (h : formatD m = formatD n) : m = n := by
  rw [formatD_natCast, formatD_natCast] at h
  rw [← Nat.ofDigitChars_ten_toDigits (n := m), h, Nat.ofDigitChars_ten_toDigits]

/-- The numeral of a natural number is made of digits. -/
theorem notMem_formatD {n : ℕ} {c : Char} (hc : c.isDigit = false) : c ∉ formatD n := by
  intro h
  rw [formatD_natCast] at h
  rw [isDigit_toDigits n c h] at hc
  exact absurd hc (by decide)

/-- The numeral of an integer is made of digits and a minus sign. -/
theorem notMem_formatD_int {n : ℤ} {c : Char} (hc : c.isDigit = false) (hminus : c ≠ '-') :
    c ∉ formatD n := by
  have hdigits : c ∉ Nat.toDigits 10 n.natAbs := fun h => by
    rw [isDigit_toDigits _ c h] at hc
    exact absurd hc (by decide)
  unfold formatD
  split_ifs
  · exact fun h => (List.mem_cons.mp h).elim hminus hdigits
  · exact hdigits

theorem formatD_int_injective {m n : ℤ} (h : formatD m = formatD n) : m = n := by
  have hnat : ∀ {a b : ℤ}, Nat.toDigits 10 a.natAbs = Nat.toDigits 10 b.natAbs →
      a.natAbs = b.natAbs := fun {a b} h => by
    rw [← formatD_natCast, ← formatD_natCast] at h
    exact formatD_injective h
  have hsign : ∀ {a b : ℤ}, ¬ '-' :: Nat.toDigits 10 a.natAbs = Nat.toDigits 10 b.natAbs :=
    fun {a b} h => by
      have := isDigit_toDigits b.natAbs '-' (h ▸ List.mem_cons_self)
      exact absurd this (by decide)
  unfold formatD at h
  split_ifs at h
  · have := hnat (List.cons.inj h).2
    omega
  · exact absurd h hsign
  · exact absurd h.symm hsign
  · have := hnat h
    omega

theorem not_isspace_of_isDigit {c : Char} (h : c.isDigit = true) : isspace c = false := by
  simp only [Char.isDigit, Bool.and_eq_true, decide_eq_true_eq, UInt32.le_iff_toNat_le] at h
  have h9 : ¬ c ≤ '\r' := by
    rw [Char.le_def, UInt32.le_iff_toNat_le]
    have h13 : ('\r' : Char).val.toNat = 13 := rfl
    have h48 : ('0' : Char).val.toNat = 48 := rfl
    omega
  have hs : c ≠ ' ' := by
    rintro rfl
    exact absurd h.1 (by decide)
  simp [isspace, h9, hs]

theorem sign_of_isDigit {c : Char} {s : List Char} (h : c.isDigit = true) :
    sign (c :: s) = (false, c :: s) := by
  unfold sign
  split
  · rename_i heq
    rw [(List.cons.inj heq).1] at h
    exact absurd h (by decide)
  · rename_i heq
    rw [(List.cons.inj heq).1] at h
    exact absurd h (by decide)
  · rfl

/-- **What `{:d}` writes, `strtol` reads back.** -/
theorem strtol_formatD {n : ℕ} (h : (n : ℤ) ≤ INT_MAX) : strtol (formatD n) = ((n : ℤ), []) := by
  have hdig := isDigit_toDigits n
  rw [formatD_natCast]
  obtain ⟨c, cs, hcs⟩ := List.exists_cons_of_ne_nil (Nat.toDigits_ne_nil (n := n) (b := 10))
  have hc : c.isDigit = true := hdig c (by simp [hcs])
  have hval : Nat.ofDigitChars 10 (c :: cs) 0 = n := by rw [← hcs, Nat.ofDigitChars_ten_toDigits]
  have htake : (c :: cs).takeWhile Char.isDigit = c :: cs :=
    List.takeWhile_eq_self_iff.mpr (hcs ▸ hdig)
  have hdrop : (c :: cs).dropWhile Char.isDigit = [] :=
    List.dropWhile_eq_nil_iff.mpr (hcs ▸ hdig)
  have hclamp : clamp n = n := by
    simp only [clamp, INT_MAX, INT_MIN] at h ⊢
    omega
  rw [hcs, strtol, List.dropWhile_cons_of_neg (by simp [not_isspace_of_isDigit hc]),
    sign_of_isDigit hc]
  simp only [htake, hdrop, hval, reduceCtorEq, Bool.false_eq_true, if_false, hclamp]

theorem not_isspace_minus : isspace '-' = false := by decide

/-- The same for a negative number. -/
theorem strtol_formatD_of_neg {n : ℤ} (h0 : INT_MIN ≤ n) (h : n < 0) :
    strtol (formatD n) = (n, []) := by
  have hdig := isDigit_toDigits n.natAbs
  have htake : (Nat.toDigits 10 n.natAbs).takeWhile Char.isDigit = Nat.toDigits 10 n.natAbs :=
    List.takeWhile_eq_self_iff.mpr hdig
  have hdrop : (Nat.toDigits 10 n.natAbs).dropWhile Char.isDigit = [] :=
    List.dropWhile_eq_nil_iff.mpr hdig
  have hclamp : clamp (-(n.natAbs : ℤ)) = n := by
    simp only [clamp, INT_MAX, INT_MIN] at h0 ⊢
    omega
  rw [formatD, if_pos h, strtol, List.dropWhile_cons_of_neg (by simp [not_isspace_minus])]
  simp only [sign, htake, hdrop, Nat.toDigits_ne_nil, if_false, Nat.ofDigitChars_ten_toDigits,
    if_true, hclamp]

theorem strtol_formatD_int {n : ℤ} (h0 : INT_MIN ≤ n) (h1 : n ≤ INT_MAX) :
    strtol (formatD n) = (n, []) := by
  by_cases hneg : n < 0
  · exact strtol_formatD_of_neg h0 hneg
  · obtain ⟨k, rfl⟩ := Int.eq_ofNat_of_zero_le (not_lt.mp hneg)
    exact strtol_formatD h1

/-- What is read is an `int`. -/
theorem strtol_range (s : List Char) : INT_MIN ≤ (strtol s).1 ∧ (strtol s).1 ≤ INT_MAX := by
  have hclamp : ∀ x, INT_MIN ≤ clamp x ∧ clamp x ≤ INT_MAX := by
    intro x
    simp only [clamp, INT_MIN, INT_MAX]
    omega
  unfold strtol
  dsimp only
  split_ifs
  · simp [INT_MIN, INT_MAX]
  · exact hclamp _
  · exact hclamp _

/-! ### Digits in a base -/

theorem digitValue_digitChar : ∀ d < 16, digitValue (Nat.digitChar d) = some d := by decide

/-- The digits of a natural number are digits. -/
theorem exists_digit_of_mem {base n : ℕ} {c : Char} (h1 : 1 < base) (h : c ∈ Nat.toDigits base n) :
    ∃ d < base, c = Nat.digitChar d := by
  induction n using Nat.strongRecOn with
  | ind n ih =>
    rw [Nat.toDigits_eq_if h1] at h
    split_ifs at h with hn
    · exact ⟨n, hn, List.mem_singleton.mp h⟩
    · rcases List.mem_append.mp h with h | h
      · exact ih (n / base) (Nat.div_lt_self (by omega) h1) h
      · exact ⟨n % base, Nat.mod_lt n (by omega), List.mem_singleton.mp h⟩

theorem digitChar_ne_minus : ∀ d < 16, Nat.digitChar d ≠ '-' := by decide

/-- **The digits of a natural number are read back.** -/
theorem readDigits_toDigits {base : ℕ} (h1 : 1 < base) (h16 : base ≤ 16) (n : ℕ) :
    readDigits base (Nat.toDigits base n) = some n := by
  rw [readDigits, if_neg Nat.toDigits_ne_nil]
  induction n using Nat.strongRecOn with
  | ind n ih =>
    rw [Nat.toDigits_eq_if h1]
    split_ifs with hn
    · simp [digitValue_digitChar n (by omega), hn]
    · have hmod := Nat.mod_lt n (by omega : base > 0)
      rw [List.foldlM_append, ih (n / base) (Nat.div_lt_self (by omega) h1)]
      simp [digitValue_digitChar (n % base) (by omega), hmod, Nat.div_add_mod]

end SampLogCore.Lib.Number
