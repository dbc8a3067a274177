import SampLogCore.Config.Settings
import SampLogCore.Lib.Loop

/-!
# The validator of time formats

`ValidateTimeFormat` scans the format with one index, which it advances inside the two calls of
`at`. A round of its loop starts in front of a character or of a conversion, and what the loop does
from there on is what `Settings.ValidateTimeFormat` does with the rest of the format
(`ends_validate`).

The grammar: a format is a sequence of items, each of them a character other than `%` or a
conversion (`Grammatical`). The scanner decides the grammar, except that it runs off the end of a
format that is such a sequence followed by a lone `%` (`validate_decides_iff`).
-/

namespace SampLogCore.Config.TimeFormat

open SampLogCore.Lib.Loop SampLogCore.Config.Yaml SampLogCore.Config.Settings

/-- `format.at(idx)`. -/
def charAt (format : List Char) (idx : ℕ) : Except Fault Char :=
  match format[idx]? with
  | some c => .ok c
  | none => .error .outOfRange

/-- One round of the loop of `ValidateTimeFormat`. -/
def validateRound (format : List Char) (idx : ℕ) : Round ℕ (Except Fault Bool) :=
  if ¬ idx < format.length then .leave (.ok true)
  else
    match charAt format idx with
    | .error e => .leave (.error e)
    | .ok c =>
      if c ≠ '%' then .again (idx + 1)
      else
        match charAt format (idx + 1) with
        | .error e => .leave (.error e)
        | .ok d => if d ∈ timeConversions then .again (idx + 2) else .leave (.ok false)

/-! ### The grammar -/

/-- An item of a format. -/
inductive Item
  | plain (c : Char) (h : c ≠ '%')
  | conversion (c : Char) (h : c ∈ timeConversions)

/-- How an item is written. -/
def Item.text : Item → List Char
  | plain c _ => [c]
  | conversion c _ => ['%', c]

/-- The format is a sequence of items. -/
def Grammatical (format : List Char) : Prop := ∃ items : List Item, format = items.flatMap Item.text

/-- The format is a sequence of items with a lone `%` behind it. -/
def EndsInPercent (format : List Char) : Prop :=
  ∃ items, Grammatical items ∧ format = items ++ ['%']

/-- The scanner returns, and returns true exactly on the grammar. -/
def Decides (format : List Char) : Prop :=
  ∃ accepted, Ends (validateRound format) 0 (.ok accepted) ∧ (accepted = true ↔ Grammatical format)

variable {format cs : List Char} {c d : Char}

theorem grammatical_nil : Grammatical [] := ⟨[], rfl⟩

theorem grammatical_plain (hc : c ≠ '%') : Grammatical (c :: cs) ↔ Grammatical cs := by
  constructor
  · rintro ⟨items, h⟩
    cases items with
    | nil => exact absurd h (by simp)
    | cons item items =>
      cases item with
      | plain c' hc' => exact ⟨items, (List.cons.inj h).2⟩
      | conversion d hd => exact absurd (List.cons.inj h).1 hc
  · rintro ⟨items, rfl⟩
    exact ⟨.plain c hc :: items, rfl⟩

theorem grammatical_conversion :
    Grammatical ('%' :: d :: cs) ↔ d ∈ timeConversions ∧ Grammatical cs := by
  constructor
  · rintro ⟨items, h⟩
    cases items with
    | nil => exact absurd h (by simp)
    | cons item items =>
      cases item with
      | plain c' hc' => exact absurd (List.cons.inj h).1.symm hc'
      | conversion d' hd =>
        simp only [List.flatMap_cons, Item.text, List.cons_append, List.nil_append,
          List.cons.injEq, true_and] at h
        obtain ⟨rfl, h⟩ := h
        exact ⟨hd, items, h⟩
  · rintro ⟨hd, items, rfl⟩
    exact ⟨.conversion d hd :: items, rfl⟩

theorem not_grammatical_percent : ¬ Grammatical ['%'] := by
  rintro ⟨items, h⟩
  cases items with
  | nil => exact absurd h (by simp)
  | cons item items =>
    cases item with
    | plain c hc => exact hc (List.cons.inj h).1.symm
    | conversion d hd => exact absurd (List.cons.inj h).2 (by simp)

/-- What is in front of the lone `%` may be shortened. -/
theorem endsInPercent_plain (hc : c ≠ '%') : EndsInPercent (c :: cs) ↔ EndsInPercent cs := by
  constructor
  · rintro ⟨items, hitems, h⟩
    cases items with
    | nil => exact absurd (List.cons.inj h).1 hc
    | cons c' items =>
      obtain ⟨rfl, rfl⟩ := List.cons.inj h
      exact ⟨items, (grammatical_plain hc).mp hitems, rfl⟩
  · rintro ⟨items, hitems, rfl⟩
    exact ⟨c :: items, (grammatical_plain hc).mpr hitems, rfl⟩

theorem endsInPercent_conversion :
    EndsInPercent ('%' :: d :: cs) ↔ d ∈ timeConversions ∧ EndsInPercent cs := by
  constructor
  · rintro ⟨items, hitems, h⟩
    match items with
    | [] => exact absurd (List.cons.inj h).2 (by simp)
    | [c'] =>
      obtain ⟨rfl, -⟩ := List.cons.inj h
      exact absurd hitems not_grammatical_percent
    | c' :: d' :: items =>
      simp only [List.cons_append, List.cons.injEq] at h
      obtain ⟨rfl, rfl, rfl⟩ := h
      obtain ⟨hd, hitems⟩ := grammatical_conversion.mp hitems
      exact ⟨hd, items, hitems, rfl⟩
  · rintro ⟨hd, items, hitems, rfl⟩
    exact ⟨'%' :: d :: items, grammatical_conversion.mpr ⟨hd, hitems⟩, rfl⟩

theorem endsInPercent_percent : EndsInPercent ['%'] := ⟨[], grammatical_nil, rfl⟩

theorem not_endsInPercent_nil : ¬ EndsInPercent [] := by
  rintro ⟨items, -, h⟩
  exact absurd h (by simp)

/-! ### The scanner -/

theorem validate_plain (hc : c ≠ '%') : ValidateTimeFormat (c :: cs) = ValidateTimeFormat cs := by
  rw [ValidateTimeFormat.eq_def]
  exact if_pos hc

theorem validate_conversion :
    ValidateTimeFormat ('%' :: d :: cs) =
      if d ∈ timeConversions then ValidateTimeFormat cs else .ok false := by
  rw [ValidateTimeFormat.eq_def]
  exact if_neg (by simp)

theorem validate_percent : ValidateTimeFormat ['%'] = .error .outOfRange := rfl

/-- **From any index on the loop does what the scanner of the rest does.** -/
theorem ends_validate (format : List Char) (idx : ℕ) :
    Ends (validateRound format) idx (ValidateTimeFormat (format.drop idx)) := by
  induction h : format.length - idx using Nat.strongRecOn generalizing idx with
  | ind n ih =>
    by_cases hidx : idx < format.length
    · have hdrop := List.drop_eq_getElem_cons hidx
      have hc : charAt format idx = .ok format[idx] := by
        simp [charAt, List.getElem?_eq_getElem hidx]
      by_cases hplain : format[idx] ≠ '%'
      · have hround : validateRound format idx = .again (idx + 1) := by
          simp [validateRound, hidx, hc, hplain]
        rw [ends_of_again hround, hdrop, validate_plain hplain]
        exact ih _ (by omega) _ rfl
      · have hpercent : format[idx] = '%' := not_not.mp hplain
        by_cases hnext : idx + 1 < format.length
        · have hdrop' := List.drop_eq_getElem_cons hnext
          have hd : charAt format (idx + 1) = .ok format[idx + 1] := by
            simp [charAt, List.getElem?_eq_getElem hnext]
          rw [hdrop, hpercent, hdrop', validate_conversion]
          by_cases hmem : format[idx + 1] ∈ timeConversions
          · have hround : validateRound format idx = .again (idx + 2) := by
              simp [validateRound, hidx, hc, hpercent, hd, hmem]
            rw [ends_of_again hround, if_pos hmem]
            exact ih _ (by omega) _ rfl
          · rw [if_neg hmem]
            exact ends_of_leave (by simp [validateRound, hidx, hc, hpercent, hd, hmem])
        · have hnil : format.drop (idx + 1) = [] := List.drop_eq_nil_of_le (by omega)
          have hd : charAt format (idx + 1) = .error .outOfRange := by
            simp [charAt, List.getElem?_eq_none (show format.length ≤ idx + 1 by omega)]
          rw [hdrop, hpercent, hnil, validate_percent]
          exact ends_of_leave (by simp [validateRound, hidx, hc, hpercent, hd])
    · rw [List.drop_eq_nil_of_le (by omega)]
      exact ends_of_leave (by simp [validateRound, hidx, ValidateTimeFormat])

/-- The scanner accepts the grammar. -/
theorem validate_eq_true : ValidateTimeFormat cs = .ok true ↔ Grammatical cs := by
  fun_induction ValidateTimeFormat cs with
  | case1 => simp [grammatical_nil]
  | case2 c cs hc ih => rw [ih, grammatical_plain hc]
  | case3 c hc =>
    rw [not_not] at hc
    simp [hc, not_grammatical_percent]
  | case4 c hc d ds hd ih =>
    rw [not_not] at hc
    rw [ih, hc, grammatical_conversion, and_iff_right hd]
  | case5 c hc d ds hd =>
    rw [not_not] at hc
    simp [hc, grammatical_conversion, hd]

/-- The scanner throws where a lone `%` follows the grammar. -/
theorem validate_eq_error : ValidateTimeFormat cs = .error .outOfRange ↔ EndsInPercent cs := by
  fun_induction ValidateTimeFormat cs with
  | case1 => simp [not_endsInPercent_nil]
  | case2 c cs hc ih => rw [ih, endsInPercent_plain hc]
  | case3 c hc =>
    rw [not_not] at hc
    simp [hc, endsInPercent_percent]
  | case4 c hc d ds hd ih =>
    rw [not_not] at hc
    rw [ih, hc, endsInPercent_conversion, and_iff_right hd]
  | case5 c hc d ds hd =>
    rw [not_not] at hc
    simp [hc, endsInPercent_conversion, hd]

theorem validateTimeFormat_error {cs : List Char} {e : Fault}
    (h : ValidateTimeFormat cs = .error e) : e = .outOfRange := by
  fun_induction ValidateTimeFormat cs with
  | case1 => exact absurd h (by simp)
  | case2 c cs hc ih => exact ih h
  | case3 c hc => exact (Except.error.inj h).symm
  | case4 c hc d ds hd ih => exact ih h
  | case5 c hc d ds hd => exact absurd h (by simp)

/-- **The scanner decides the grammar, unless it runs off the end.** -/
theorem validate_decides_iff (format : List Char) : Decides format ↔ ¬ EndsInPercent format := by
  have hends := ends_validate format 0
  rw [List.drop_zero] at hends
  rw [← validate_eq_error]
  constructor
  · rintro ⟨accepted, haccepted, -⟩ herror
    rw [herror] at hends
    exact absurd (haccepted.unique hends) (by simp)
  · intro hok
    cases hv : ValidateTimeFormat format with
    | ok accepted =>
      rw [hv] at hends
      refine ⟨accepted, hends, ?_⟩
      rw [← validate_eq_true, hv, Except.ok.injEq]
    | error e =>
      rw [validateTimeFormat_error hv] at hv
      exact absurd hv hok

/-- A format that is a lone `%`. -/
theorem not_decides_percent : ¬ Decides ['%'] := by
  rintro ⟨accepted, haccepted, -⟩
  have hends := ends_validate ['%'] 0
  exact absurd (haccepted.unique hends) (by simp [validate_percent])

end SampLogCore.Config.TimeFormat
