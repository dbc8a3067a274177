import Mathlib.Data.List.Lex
import Mathlib.Data.Prod.Lex
import Mathlib.Order.Hom.Basic
import SampLogCore.Lib.Decimal

/-!
# Local time and time stamps

`Tm` is `std::tm` with the fields the rotation reads, in the ranges in which `localtime` leaves
them. A date rotation names its backup after the log file and the local time, `{:%Y%m%d-%H%M}`.

A `Stamp` is a minute of a calendar with years of four digits, and the calendar order compares the
year, the month, the day, the hour and the minute, in this order. The text of a stamp has a fixed
width in every part, so the order of the texts is the calendar order (`Stamp.text_lt_text_iff`).
-/

namespace SampLogCore.Rotation.LocalTime

open SampLogCore.Lib.Number SampLogCore.Lib.Decimal

/-- `std::tm`. -/
structure Tm where
  tm_min : ℕ
  tm_hour : ℕ
  tm_mday : ℕ
  /-- months since January -/
  tm_mon : ℕ
  /-- years since 1900 -/
  tm_year : ℤ
  /-- days since Sunday -/
  tm_wday : ℕ
  min_lt : tm_min < 60
  hour_lt : tm_hour < 24
  mday_pos : 1 ≤ tm_mday
  mday_le : tm_mday ≤ 31
  mon_lt : tm_mon < 12
  wday_lt : tm_wday < 7

/-- The format `{:%Y%m%d-%H%M}`. -/
def Tm.format (tm : Tm) : List Char :=
  formatD (tm.tm_year + 1900) ++ (pad 2 (tm.tm_mon + 1) ++ (pad 2 tm.tm_mday ++
    '-' :: (pad 2 tm.tm_hour ++ pad 2 tm.tm_min)))

/-- A minute of the calendar. -/
@[ext] structure Stamp where
  year : ℕ
  month : ℕ
  day : ℕ
  hour : ℕ
  minute : ℕ
  year_lt : year < 10000
  month_pos : 1 ≤ month
  month_le : month ≤ 12
  day_pos : 1 ≤ day
  day_le : day ≤ 31
  hour_lt : hour < 24
  minute_lt : minute < 60

namespace Stamp

/-- `YYYYMMDD-HHMM`. -/
def text (s : Stamp) : List Char :=
  pad 4 s.year ++ (pad 2 s.month ++ (pad 2 s.day ++ '-' :: (pad 2 s.hour ++ pad 2 s.minute)))

/-- What the calendar order compares. -/
def key (s : Stamp) : ℕ ×ₗ ℕ ×ₗ ℕ ×ₗ ℕ ×ₗ ℕ :=
  toLex (s.year, toLex (s.month, toLex (s.day, toLex (s.hour, s.minute))))

theorem key_injective : Function.Injective key := by
  intro a b h
  simp only [key, EmbeddingLike.apply_eq_iff_eq, Prod.mk.injEq] at h
  exact Stamp.ext h.1 h.2.1 h.2.2.1 h.2.2.2.1 h.2.2.2.2

/-- The calendar order. -/
instance : LinearOrder Stamp := LinearOrder.lift' key key_injective

theorem lt_def {a b : Stamp} : a < b ↔ key a < key b := Iff.rfl

/-- **The order of the texts is the calendar order.** -/
theorem text_lt_text_iff {a b : Stamp} : a.text < b.text ↔ a < b := by
  have hyear := pad_lt_pad_iff (w := 4) (m := a.year) (n := b.year) a.year_lt b.year_lt
  have hmonth := pad_lt_pad_iff (w := 2) (m := a.month) (n := b.month)
    (by have := a.month_le; omega) (by have := b.month_le; omega)
  have hday := pad_lt_pad_iff (w := 2) (m := a.day) (n := b.day)
    (by have := a.day_le; omega) (by have := b.day_le; omega)
  have hhour := pad_lt_pad_iff (w := 2) (m := a.hour) (n := b.hour)
    (by have := a.hour_lt; omega) (by have := b.hour_lt; omega)
  have hminute := pad_lt_pad_iff (w := 2) (m := a.minute) (n := b.minute)
    (by have := a.minute_lt; omega) (by have := b.minute_lt; omega)
  have hyear' : pad 4 a.year = pad 4 b.year ↔ a.year = b.year :=
    ⟨pad_inj a.year_lt b.year_lt, fun h => by rw [h]⟩
  have htwo : ∀ {m n : ℕ}, m < 100 → n < 100 → (pad 2 m = pad 2 n ↔ m = n) :=
    fun hm hn => ⟨pad_inj hm hn, fun h => by rw [h]⟩
  have hmonth' := htwo (m := a.month) (n := b.month)
    (by have := a.month_le; omega) (by have := b.month_le; omega)
  have hday' := htwo (m := a.day) (n := b.day)
    (by have := a.day_le; omega) (by have := b.day_le; omega)
  have hhour' := htwo (m := a.hour) (n := b.hour)
    (by have := a.hour_lt; omega) (by have := b.hour_lt; omega)
  simp only [lt_def, key, text, Prod.Lex.toLex_lt_toLex,
    append_lt_append_iff (show (pad 4 a.year).length = (pad 4 b.year).length by simp),
    append_lt_append_iff (show (pad 2 a.month).length = (pad 2 b.month).length by simp),
    append_lt_append_iff (show (pad 2 a.day).length = (pad 2 b.day).length by simp),
    append_lt_append_iff (show (pad 2 a.hour).length = (pad 2 b.hour).length by simp),
    List.cons_lt_cons_iff, lt_irrefl, false_or, true_and,
    hyear, hyear', hmonth, hmonth', hday, hday', hhour, hhour', hminute]

/-- The texts of stamps, in the order of stamps. -/
def textEmbedding : Stamp ↪o List Char :=
  OrderEmbedding.ofStrictMono text fun _ _ h => text_lt_text_iff.mpr h

@[simp] theorem textEmbedding_apply (s : Stamp) : textEmbedding s = s.text := rfl

theorem text_injective : Function.Injective text := textEmbedding.injective

end Stamp

/-! ### The stamp of a local time -/

theorem notMem_pad {w n : ℕ} {c : Char} (hc : c.isDigit = false) : c ∉ pad w n := by
  intro h
  rw [isDigit_pad c h] at hc
  exact absurd hc (by decide)

theorem notMem_stamp {s : Stamp} {c : Char} (hc : c.isDigit = false) (h : c ≠ '-') :
    c ∉ s.text := by
  simp [Stamp.text, notMem_pad hc, h]

theorem notMem_format {tm : Tm} {c : Char} (hc : c.isDigit = false) (h : c ≠ '-') :
    c ∉ tm.format := by
  have hyear : c ∉ formatD (tm.tm_year + 1900) := notMem_formatD_int hc h
  simp [Tm.format, hyear, notMem_pad hc, h]

/-- The stamp of a local time whose year has four digits. -/
def Tm.stamp (tm : Tm) (hyear : 1000 ≤ tm.tm_year + 1900 ∧ tm.tm_year + 1900 < 10000) : Stamp where
  year := (tm.tm_year + 1900).toNat
  month := tm.tm_mon + 1
  day := tm.tm_mday
  hour := tm.tm_hour
  minute := tm.tm_min
  year_lt := by omega
  month_pos := by omega
  month_le := by have := tm.mon_lt; omega
  day_pos := tm.mday_pos
  day_le := tm.mday_le
  hour_lt := tm.hour_lt
  minute_lt := tm.min_lt

theorem Tm.format_eq_text (tm : Tm)
    (hyear : 1000 ≤ tm.tm_year + 1900 ∧ tm.tm_year + 1900 < 10000) :
    tm.format = (tm.stamp hyear).text := by
  have hnat : tm.tm_year + 1900 = ((tm.tm_year + 1900).toNat : ℕ) := by omega
  have hfour : formatD (tm.tm_year + 1900) = pad 4 (tm.tm_year + 1900).toNat := by
    rw [hnat, formatD_natCast, Int.toNat_natCast]
    exact toDigits_eq_pad (w := 3) (by omega) (by omega)
  rw [Tm.format, Stamp.text, hfour]
  rfl

end SampLogCore.Rotation.LocalTime
