import SampLogCore.Config.TimeFormat
import SampLogCore.Lib.FormatString

/-!
# Time stamps

`Logger::FormatTimestamp` puts the configured time format between `{:` and `}` and hands the result
to `fmt::format`, with the local time as the argument. The validator of the configuration knows
nothing about braces, but the field ends at the first `}`: what the format has behind it is literal
text, in which the `}` at the very end has no partner. So an accepted format can be used exactly
when it has no `}` (`formatTimestamp_iff`).

The conversions of `strftime` are a parameter: what a letter stands for at a point in time.
-/

namespace SampLogCore.Logger.Timestamp

open SampLogCore.Lib.FormatString SampLogCore.Config.Settings SampLogCore.Config.TimeFormat

/-- The character that ends a C string. -/
def NUL : Char := '\x00'

/-- `strftime`, with the text of each conversion. -/
def strftime (conversion : Char → List Char) : List Char → List Char
  | [] => []
  | c :: s =>
    if c = NUL then []
    else if c ≠ '%' then c :: strftime conversion s
    else
      match s with
      | [] => []
      | d :: s => conversion d ++ strftime conversion s

variable {Time : Type*} (conversion : Time → Char → List Char)

/-- A time as an argument: its specification is a format for `strftime`. -/
def tm (time : Time) : Arg := fun spec => .ok (strftime (conversion time) spec)

/-- `Logger::FormatTimestamp`. -/
def FormatTimestamp (time_format : List Char) (time : Time) : Except FormatError (List Char) :=
  format (['{', ':'] ++ time_format ++ ['}']) [tm conversion time]

/-- The time stamp is what the whole format stands for. -/
def Usable (time_format : List Char) (time : Time) : Prop :=
  FormatTimestamp conversion time_format time = .ok (strftime (conversion time) time_format)

/-! ### Expansions -/

variable {p q s : List Char} {c d : Char} {conv : Char → List Char}

theorem strftime_nul : strftime conv (NUL :: s) = [] := by
  rw [strftime.eq_def]
  exact if_pos rfl

theorem strftime_plain (hnul : c ≠ NUL) (hc : c ≠ '%') :
    strftime conv (c :: s) = c :: strftime conv s := by
  rw [strftime.eq_def]
  simp only [if_neg hnul, if_pos hc]

theorem strftime_conversion : strftime conv ('%' :: d :: s) = conv d ++ strftime conv s := by
  rw [strftime.eq_def]
  simp [NUL]

/-- The expansion goes through the items, up to a `NUL`. -/
theorem strftime_append (hp : Grammatical p) :
    strftime conv (p ++ q) = strftime conv p ++ strftime conv q ∨
      strftime conv (p ++ q) = strftime conv p := by
  obtain ⟨items, rfl⟩ := hp
  induction items with
  | nil => exact .inl rfl
  | cons item items ih =>
    cases item with
    | plain c hc =>
      by_cases hnul : c = NUL
      · exact .inr (by simp [Item.text, hnul, strftime_nul])
      · simpa [Item.text, strftime_plain hnul hc] using ih
    | conversion d hd => simpa [Item.text, strftime_conversion] using ih

/-- What an accepted format has in front of a character that is no letter is accepted. -/
theorem grammatical_of_append (hc : c ∉ timeConversions) (h : Grammatical (p ++ c :: q)) :
    Grammatical p := by
  induction hn : p.length using Nat.strongRecOn generalizing p with
  | ind n ih =>
    match p with
    | [] => exact grammatical_nil
    | d :: p =>
      by_cases hd : d = '%'
      · subst hd
        match p with
        | [] => exact absurd (grammatical_conversion.mp h).1 hc
        | e :: p =>
          obtain ⟨he, h⟩ := grammatical_conversion.mp h
          refine grammatical_conversion.mpr ⟨he, ih p.length ?_ h rfl⟩
          simp only [← hn, List.length_cons]
          omega
      · refine (grammatical_plain hd).mpr (ih p.length ?_ ((grammatical_plain hd).mp h) rfl)
        simp [← hn]

/-! ### The first brace -/

/-- What is behind the first brace does not stand for itself: each round of the induction takes a
pair of braces away, and puts one of them on top of those that are missing. -/
theorem not_literal_rest (k : ℕ) :
    ¬ Literal (q ++ ['}']) (List.replicate (k + 1) '}' ++ strftime conv q) := by
  induction hn : q.length using Nat.strongRecOn generalizing q k with
  | ind n ih =>
    intro h
    rw [List.replicate_succ, List.cons_append] at h
    match q with
    | [] =>
      obtain ⟨s, t, hs, -⟩ := h.of_brace (.inr rfl)
      exact absurd hs (by simp)
    | c :: q =>
      obtain rfl : c = '}' := h.head_eq
      obtain ⟨s, t, hs, ht, h⟩ := h.of_brace (.inr rfl)
      rw [strftime_plain (by decide) (by decide)] at ht
      match q with
      | [] =>
        obtain rfl : [] = s := (List.cons.inj hs).2
        have hlen := h.length_le
        rw [← (List.cons.inj ht).2] at hlen
        exact absurd hlen (by simp)
      | d :: q =>
        obtain ⟨rfl, rfl⟩ := List.cons.inj hs
        rw [strftime_plain (by decide) (by decide)] at ht
        refine ih q.length ?_ (k + 1) rfl ?_
        · simp only [← hn, List.length_cons]
          omega
        · have hshift : List.replicate (k + 1 + 1) '}' ++ strftime conv q = t := by
            rw [← (List.cons.inj ht).2]
            simp [List.replicate_succ']
          rw [hshift]
          exact h

variable {conversion} {time_format : List Char} {time : Time}

/-- Without a `}` the field is the whole format. -/
theorem usable_of_notMem (h : '}' ∉ time_format) : Usable conversion time_format time := by
  have hfield := @format_field [] time_format (tm conversion time) [] h
  simp only [Usable, FormatTimestamp, List.cons_append, List.nil_append, hfield]
  simp [field, format, vformat, tm]

/-- **When an accepted format can be used**: when it has no `}`. -/
theorem formatTimestamp_iff (h : ValidateTimeFormat time_format = .ok true) (time : Time) :
    Usable conversion time_format time ↔ '}' ∉ time_format := by
  refine ⟨fun husable hmem => ?_, usable_of_notMem⟩
  obtain ⟨p, q, rfl, hp⟩ := List.eq_append_cons_of_mem hmem
  have hgram := grammatical_of_append (by decide) (validate_eq_true.mp h)
  have hfield := @format_field (q ++ ['}']) p (tm conversion time) [] hp
  simp only [Usable, FormatTimestamp, List.cons_append, List.nil_append, List.append_assoc,
    hfield, tm] at husable
  cases hrest : format (q ++ ['}']) [] with
  | error e => exact absurd husable (by simp [field, hrest])
  | ok t =>
    have hliteral := format_nil_iff.mp hrest
    rw [hrest, field, Except.ok.injEq] at husable
    rcases @strftime_append p ('}' :: q) (conversion time) hgram with happ | happ
    · rw [happ, List.append_cancel_left_eq, strftime_plain (by decide) (by decide)] at husable
      subst husable
      exact @not_literal_rest q (conversion time) 0 hliteral
    · rw [happ, List.append_right_eq_self] at husable
      subst husable
      exact absurd hliteral.eq_nil (by simp)

/-- The first of January. -/
def newYear (_ : Unit) (_ : Char) : List Char := ['2', '0', '2', '4', '-', '0', '1', '-', '0', '1']

/-- Year, month and day. -/
theorem formatTimestamp_newYear : Usable newYear ['%', 'F'] () :=
  (formatTimestamp_iff (by decide) ()).mpr (by decide)

/-- A format in braces is accepted, and throws. -/
theorem not_usable_braces :
    ValidateTimeFormat ['{', '%', 'F', '}'] = .ok true ∧
      FormatTimestamp newYear ['{', '%', 'F', '}'] () = .error .format_error := by
  decide

end SampLogCore.Logger.Timestamp
