import Mathlib.Data.List.Basic
import Mathlib.Tactic.Common
import SampLogCore.Lib.Number

/-!
# Format strings

A format string is literal text with replacement fields `{}` and `{:spec}`, which take the arguments
in their order. In literal text a doubled brace stands for one, and any other brace is an error. An
argument is a function of the specification in its field.

`vformat` reads the string character by character; its `Mode` says where it is. A field ends at the
first `}` (`vformat_spec`). Without arguments nothing but literal text is left (`format_nil_iff`),
and such a string is printed as it is exactly when it has no braces (`format_eq_self_iff`).
-/

namespace SampLogCore.Lib.FormatString

open SampLogCore.Lib.Number

inductive FormatError
  /-- `fmt::format_error` -/
  | format_error
  deriving DecidableEq

/-- An argument: what it is for a specification. -/
abbrev Arg := List Char → Except FormatError (List Char)

/-- Where the reader of a format string is. -/
inductive Mode
  /-- in literal text -/
  | text
  /-- behind a `{` -/
  | opened
  /-- behind a `}` -/
  | closed
  /-- behind the colon of a field and these characters -/
  | spec (read : List Char)

/-- What a field gives, and then what the rest gives. -/
def field (t rest : Except FormatError (List Char)) : Except FormatError (List Char) :=
  match t, rest with
  | .ok t, .ok u => .ok (t ++ u)
  | _, _ => .error .format_error

/-- The text of a format string, from a point in it on. -/
def vformat : Mode → List Char → List Arg → Except FormatError (List Char)
  | .text, [], _ => .ok []
  | _, [], _ => .error .format_error
  | .text, c :: s, args =>
    if c = '{' then vformat .opened s args
    else if c = '}' then vformat .closed s args
    else (vformat .text s args).map (c :: ·)
  | .closed, c :: s, args =>
    if c = '}' then (vformat .text s args).map (c :: ·) else .error .format_error
  | .opened, c :: s, args =>
    if c = '{' then (vformat .text s args).map (c :: ·)
    else
      match args with
      | [] => .error .format_error
      | arg :: args =>
        if c = '}' then field (arg []) (vformat .text s args)
        else if c = ':' then vformat (.spec []) s (arg :: args)
        else .error .format_error
  | .spec _, _ :: _, [] => .error .format_error
  | .spec read, c :: s, arg :: args =>
    if c = '}' then field (arg read) (vformat .text s args)
    else vformat (.spec (read ++ [c])) s (arg :: args)

/-- `fmt::format`. -/
def format (format_str : List Char) (args : List Arg) : Except FormatError (List Char) :=
  vformat .text format_str args

/-! ### Arguments -/

/-- A string. -/
def str (s : List Char) : Arg
  | [] => .ok s
  | ['s'] => .ok s
  | _ => .error .format_error

/-- The digits of an integer in a base, with a minus sign in front of those of a negative one. -/
def formatBase (base : ℕ) (n : ℤ) : List Char :=
  (if n < 0 then ['-'] else []) ++ Nat.toDigits base n.natAbs

/-- The format `{:#08x}`: the sign, the prefix `0x`, and as many zeros in front of the digits as
make eight characters in all. -/
def formatPointer (n : ℤ) : List Char :=
  let digits := Nat.toDigits 16 n.natAbs
  let head := (if n < 0 then ['-'] else []) ++ ['0', 'x']
  head ++ List.replicate (8 - (head.length + digits.length)) '0' ++ digits

/-- An integer. -/
def int (n : ℤ) : Arg
  | [] => .ok (formatD n)
  | ['d'] => .ok (formatD n)
  | ['x'] => .ok (formatBase 16 n)
  | ['b'] => .ok (formatBase 2 n)
  | ['#', '0', '8', 'x'] => .ok (formatPointer n)
  | _ => .error .format_error

/-! ### Fields -/

variable {s t p read : List Char} {c : Char} {arg : Arg} {args : List Arg}

/-- **A field ends at the first `}`.** -/
theorem vformat_spec (hp : '}' ∉ p) :
    vformat (.spec read) (p ++ '}' :: s) (arg :: args) =
      field (arg (read ++ p)) (vformat .text s args) := by
  induction p generalizing read with
  | nil => simp [vformat]
  | cons c p ih =>
    simp only [List.mem_cons, not_or] at hp
    rw [List.cons_append, vformat, if_neg (Ne.symm hp.1), ih hp.2]
    simp

/-- One field and what is behind it. -/
theorem format_field (hp : '}' ∉ p) :
    format ('{' :: ':' :: (p ++ '}' :: s)) (arg :: args) = field (arg p) (format s args) := by
  simp [format, vformat, vformat_spec hp]

theorem format_text (hopen : c ≠ '{') (hclose : c ≠ '}') :
    format (c :: s) args = (format s args).map (c :: ·) := by
  simp [format, vformat, hopen, hclose]

/-! ### Literal text -/

/-- A character that is special in a format string. -/
def IsBrace (c : Char) : Prop := c = '{' ∨ c = '}'

theorem format_brace (hc : IsBrace c) :
    format (c :: c :: s) args = (format s args).map (c :: ·) := by
  rcases hc with rfl | rfl <;> simp [format, vformat]

/-- Literal text and what it stands for. -/
inductive Literal : List Char → List Char → Prop
  | nil : Literal [] []
  | plain {c : Char} {s t : List Char} (hc : ¬ IsBrace c) (h : Literal s t) :
    Literal (c :: s) (c :: t)
  | brace {c : Char} {s t : List Char} (hc : IsBrace c) (h : Literal s t) :
    Literal (c :: c :: s) (c :: t)

theorem Literal.format_eq (h : Literal s t) : format s args = .ok t := by
  induction h with
  | nil => rfl
  | plain hc _ ih =>
    rw [format_text (fun h => hc (.inl h)) (fun h => hc (.inr h)), ih]
    rfl
  | brace hc _ ih =>
    rw [format_brace hc, ih]
    rfl

theorem Literal.head_eq {d : Char} (h : Literal (c :: s) (d :: t)) : c = d := by
  cases h with
  | plain => rfl
  | brace => rfl

theorem Literal.eq_nil (h : Literal s []) : s = [] := by
  cases h with
  | nil => rfl

/-- A brace has a partner. -/
theorem Literal.of_brace (hc : IsBrace c) (h : Literal (c :: s) t) :
    ∃ s' t', s = c :: s' ∧ t = c :: t' ∧ Literal s' t' := by
  cases h with
  | plain hc' _ => exact absurd hc hc'
  | brace _ h => exact ⟨_, _, rfl, rfl, h⟩

/-- A computation that is mapped to a result has one. -/
theorem map_eq_ok {α β ε : Type} {f : α → β} {x : Except ε α} {b : β} (h : x.map f = .ok b) :
    ∃ a, x = .ok a ∧ f a = b := by
  cases x with
  | error e => exact absurd h (by simp [Except.map])
  | ok a => exact ⟨a, rfl, Except.ok.inj h⟩

/-- **Without arguments a format string is literal text.** -/
theorem format_nil_iff : format s [] = .ok t ↔ Literal s t := by
  refine ⟨fun h => ?_, Literal.format_eq⟩
  induction hn : s.length using Nat.strongRecOn generalizing s t with
  | ind n ih =>
    cases s with
    | nil =>
      obtain rfl : [] = t := Except.ok.inj h
      exact .nil
    | cons c s =>
      by_cases hc : IsBrace c
      · cases s with
        | nil => rcases hc with rfl | rfl <;> exact absurd h (by simp [format, vformat])
        | cons d s =>
          by_cases hd : d = c
          · subst hd
            rw [format_brace hc] at h
            obtain ⟨u, hu, rfl⟩ := map_eq_ok h
            exact .brace hc (ih _ (by simp only [← hn, List.length_cons]; omega) hu rfl)
          · rcases hc with rfl | rfl <;> exact absurd h (by simp [format, vformat, hd])
      · rw [format_text (fun h => hc (.inl h)) (fun h => hc (.inr h))] at h
        obtain ⟨u, hu, rfl⟩ := map_eq_ok h
        exact .plain hc (ih _ (by rw [← hn]; simp) hu rfl)

/-- Literal text stands for no more characters than it has. -/
theorem Literal.length_le (h : Literal s t) : t.length ≤ s.length := by
  induction h with
  | nil => exact le_refl 0
  | plain _ _ ih => simpa using ih
  | brace _ _ ih =>
    simp only [List.length_cons]
    omega

/-- It stands for as many only where it has no braces. -/
theorem Literal.eq_of_length (h : Literal s t) (hlen : t.length = s.length) :
    t = s ∧ ∀ c ∈ s, ¬ IsBrace c := by
  induction h with
  | nil => exact ⟨rfl, by simp⟩
  | plain hc _ ih =>
    obtain ⟨rfl, hs⟩ := ih (by simpa using hlen)
    exact ⟨rfl, List.forall_mem_cons.mpr ⟨hc, hs⟩⟩
  | brace _ h _ =>
    have := h.length_le
    simp only [List.length_cons] at hlen
    omega

theorem literal_self (h : ∀ c ∈ s, ¬ IsBrace c) : Literal s s := by
  induction s with
  | nil => exact .nil
  | cons c s ih =>
    obtain ⟨hc, hs⟩ := List.forall_mem_cons.mp h
    exact .plain hc (ih hs)

/-- **What is printed as it is**: text without braces. -/
theorem format_eq_self_iff : format s [] = .ok s ↔ ∀ c ∈ s, ¬ IsBrace c := by
  rw [format_nil_iff]
  exact ⟨fun h => (h.eq_of_length rfl).2, literal_self⟩

end SampLogCore.Lib.FormatString
