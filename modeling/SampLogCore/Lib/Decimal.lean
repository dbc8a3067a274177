import Mathlib.Data.Char
import Mathlib.Data.List.Basic
import Mathlib.Tactic.Common
import Mathlib.Tactic.IntervalCases
import SampLogCore.Lib.Number

/-!
# Numerals of a fixed width

`pad w n` is the numeral of `n` in `w` digits, as the conversions of `strftime` write it. Between
strings of one length the order of strings is the order of the parts they are made of
(`append_lt_append_iff`), so between numerals of one width it is the order of the numbers
(`pad_lt_pad_iff`).
-/

namespace SampLogCore.Lib.Decimal

open SampLogCore.Lib.Number

/-- The last `w` digits of `n`. -/
def pad : ℕ → ℕ → List Char
  | 0, _ => []
  | w + 1, n => pad w (n / 10) ++ [Nat.digitChar (n % 10)]

@[simp] theorem length_pad : ∀ w n, (pad w n).length = w
  | 0, _ => rfl
  | w + 1, n => by simp [pad, length_pad w]

theorem isDigit_pad : ∀ {w n : ℕ}, ∀ c ∈ pad w n, c.isDigit = true
  | 0, _, c, hc => absurd hc (by simp [pad])
  | w + 1, n, c, hc => by
    rcases List.mem_append.mp hc with hc | hc
    · exact isDigit_pad c hc
    · rw [List.mem_singleton.mp hc]
      exact isDigit_digitChar (Nat.mod_lt n (by omega))

/-- Where the numeral has no leading zeros it is the usual one. -/
theorem toDigits_eq_pad : ∀ {w n : ℕ}, 10 ^ w ≤ n → n < 10 ^ (w + 1) →
    Nat.toDigits 10 n = pad (w + 1) n
  | 0, n, _, hlt => by
    have hlt : n < 10 := by simpa using hlt
    rw [Nat.toDigits_of_lt_base hlt, pad, pad, Nat.mod_eq_of_lt hlt, List.nil_append]
  | w + 1, n, hle, hlt => by
    have hpow : 10 ^ (w + 1) = 10 * 10 ^ w := Nat.pow_succ'
    have hpow' : 10 ^ (w + 1 + 1) = 10 * 10 ^ (w + 1) := Nat.pow_succ'
    have hpos : 0 < 10 ^ w := Nat.pow_pos (by omega)
    rw [Nat.toDigits_eq_if (by omega), if_neg (by omega),
      toDigits_eq_pad (w := w) (by omega) (by omega)]
    rfl

/-! ### The order of strings -/

section Strings

variable {α : Type*} [LinearOrder α]

/-- Strings of one length are compared first. -/
theorem append_lt_append_iff : ∀ {xs ys us vs : List α}, xs.length = ys.length →
    (xs ++ us < ys ++ vs ↔ xs < ys ∨ xs = ys ∧ us < vs)
  | [], [], us, vs, _ => by simp
  | x :: xs, y :: ys, us, vs, h => by
    have h : xs.length = ys.length := by simpa using h
    simp only [List.cons_append, List.cons_lt_cons_iff, append_lt_append_iff h, List.cons.injEq]
    constructor
    · rintro (hxy | ⟨rfl, hlt | ⟨rfl, hlt⟩⟩)
      · exact .inl (.inl hxy)
      · exact .inl (.inr ⟨rfl, hlt⟩)
      · exact .inr ⟨⟨rfl, rfl⟩, hlt⟩
    · rintro ((hxy | ⟨rfl, hlt⟩) | ⟨⟨rfl, rfl⟩, hlt⟩)
      · exact .inl hxy
      · exact .inr ⟨rfl, .inl hlt⟩
      · exact .inr ⟨rfl, .inr ⟨rfl, hlt⟩⟩

end Strings

theorem digitChar_lt_digitChar_iff {m n : ℕ} (hm : m < 10) (hn : n < 10) :
    Nat.digitChar m < Nat.digitChar n ↔ m < n := by
  have hall : ∀ m < 10, ∀ n < 10, (Nat.digitChar m < Nat.digitChar n ↔ m < n) := by decide
  exact hall m hm n hn

theorem digitChar_inj {m n : ℕ} (hm : m < 10) (hn : n < 10)
    (h : Nat.digitChar m = Nat.digitChar n) : m = n := by
  have hmn := digitChar_lt_digitChar_iff hm hn
  have hnm := digitChar_lt_digitChar_iff hn hm
  simp only [h, lt_self_iff_false, false_iff] at hmn hnm
  omega

theorem pad_inj : ∀ {w m n : ℕ}, m < 10 ^ w → n < 10 ^ w → pad w m = pad w n → m = n
  | 0, m, n, hm, hn, _ => by
    rw [Nat.pow_zero] at hm hn
    omega
  | w + 1, m, n, hm, hn, h => by
    obtain ⟨hhead, hlast⟩ := List.append_inj h (by simp)
    have hpow : 10 ^ (w + 1) = 10 * 10 ^ w := Nat.pow_succ'
    have hdiv := pad_inj (w := w) (by omega) (by omega) hhead
    have hmod := digitChar_inj (Nat.mod_lt m (by omega)) (Nat.mod_lt n (by omega))
      (List.cons.inj hlast).1
    omega

/-- **The order of numerals of one width is the order of the numbers.** -/
theorem pad_lt_pad_iff : ∀ {w m n : ℕ}, m < 10 ^ w → n < 10 ^ w → (pad w m < pad w n ↔ m < n)
  | 0, m, n, hm, hn => by
    rw [Nat.pow_zero] at hm hn
    obtain rfl : m = n := by omega
    simp
  | w + 1, m, n, hm, hn => by
    have hpow : 10 ^ (w + 1) = 10 * 10 ^ w := Nat.pow_succ'
    have hm' : m / 10 < 10 ^ w := by omega
    have hn' : n / 10 < 10 ^ w := by omega
    have hdigit : ([Nat.digitChar (m % 10)] < [Nat.digitChar (n % 10)]) ↔ m % 10 < n % 10 := by
      rw [List.cons_lt_cons_iff,
        digitChar_lt_digitChar_iff (Nat.mod_lt m (by omega)) (Nat.mod_lt n (by omega))]
      simp
    rw [pad, pad, append_lt_append_iff (by simp), pad_lt_pad_iff hm' hn', hdigit]
    constructor
    · rintro (hlt | ⟨heq, hlt⟩)
      · omega
      · have := pad_inj hm' hn' heq
        omega
    · intro hlt
      by_cases heq : m / 10 = n / 10
      · exact .inr ⟨by rw [heq], by omega⟩
      · exact .inl (by omega)

end SampLogCore.Lib.Decimal
