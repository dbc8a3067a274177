import SampLogCore.Logger.NativeCall

/-!
# The text of a native call

Where the arguments of a native call can be read, `Logger::LogNativeCall` queues one message with
the text of each argument, or none where a character of the format is not known (`formatParams_eq`).
The text of a cell is to be read back: as a signed decimal, or as the digits of its bit pattern in
base 16 or 2. The code hands a signed cell to the formats `{:x}` and `{:b}`, which write the
magnitude of a negative one behind a minus sign. So the message is the right one exactly when no
argument in base 16 or 2 is negative (`logNativeCall_faithful_iff`).
-/

namespace SampLogCore.Logger.Rendering

open SampLogCore.Amx.Strings SampLogCore.Levels SampLogCore.Debug.PluginLogger
open SampLogCore.Lib.FormatString SampLogCore.Lib.Number SampLogCore.Logger.NativeCall
open SampLogCore.Debug.AmxDebugManager (Cell Manager)

instance (params_format : List Char) : Decidable (∃ c ∈ params_format, c ∉ specifiers) :=
  List.decidableBEx _ _

/-- What a text has to be for an argument: for a number it is the numeral that it is read back
from. -/
def Renders (amx : AMX) (ctof : Cell → List Char) (c : Char) (a : Cell) (r : List Char) : Prop :=
  if c = 'd' ∨ c = 'i' then r = formatD (signed a) ∧ strtol r = (signed a, [])
  else if c = 'h' ∨ c = 'x' then r = Nat.toDigits 16 a.toNat ∧ readDigits 16 r = some a.toNat
  else if c = 'b' then r = Nat.toDigits 2 a.toNat ∧ readDigits 2 r = some a.toNat
  else r = rendering amx ctof c a

variable {P : Type*} (ctof : Cell → List Char) (m : Manager P) (Level : LogLevel)

/-- Nothing is queued where a character is not known, else one message with the texts of the
arguments. -/
def Faithful (ptr : P) (amx : AMX) (params : Params) (name params_format : List Char)
    (queue : List Message) (rounds : ℕ) : Prop :=
  let call :=
    LogNativeCall ctof m Level (some (ptr, amx)) (some params) name params_format queue rounds
  if ∃ c ∈ params_format, c ∉ specifiers then call = .ok (false, queue)
  else
    ∃ renderings : List (List Char), renderings.length = params_format.length ∧
      (∀ (k : ℕ) c a r, params_format[k]? = some c → params.args[k]? = some a →
        renderings[k]? = some r → Renders amx ctof c a r) ∧
      call = .ok (true, queue ++ [⟨DEBUG, String.ofList
        (name ++ ['('] ++ [',', ' '].intercalate renderings ++ [')']), []⟩])

/-- The arguments whose text is their bit pattern are not negative. -/
def NoneNegative (args : List Cell) (params_format : List Char) : Prop :=
  ∀ (k : ℕ) c a, params_format[k]? = some c → args[k]? = some a → c ∈ ['h', 'x', 'b'] → 0 ≤ signed a

variable {amx : AMX} {ctof m Level} {c : Char} {a : Cell} {params : Params} {ptr : P} {i : ℕ}
  {name params_format fmt_msg s r r' : List Char} {queue : List Message} {rounds : ℕ}

/-! ### Cells -/

theorem signed_eq (a : Cell) :
    signed a = if a.toNat < 2147483648 then (a.toNat : ℤ) else a.toNat - 4294967296 := by
  have h := BitVec.toInt_eq_toNat_cond a.toBitVec
  simp only [UInt32.toNat_toBitVec] at h
  rw [signed, h]
  split_ifs <;> omega

theorem signed_range (a : Cell) : INT_MIN ≤ signed a ∧ signed a ≤ INT_MAX := by
  have := a.toNat_lt
  rw [signed_eq]
  simp only [INT_MIN, INT_MAX]
  split_ifs <;> omega

theorem formatBase_signed (base : ℕ) (h : 0 ≤ signed a) :
    formatBase base (signed a) = Nat.toDigits base a.toNat := by
  have hnat : (signed a).natAbs = a.toNat := by
    have := a.toNat_lt
    rw [signed_eq] at h ⊢
    split_ifs at h ⊢ <;> omega
  rw [formatBase, if_neg (by omega), List.nil_append, hnat]

theorem strtol_signed (a : Cell) : strtol (formatD (signed a)) = (signed a, []) :=
  strtol_formatD_int (signed_range a).1 (signed_range a).2

/-! ### One argument -/

/-- The text that an argument has to have. -/
def expected (amx : AMX) (ctof : Cell → List Char) (c : Char) (a : Cell) : List Char :=
  if c = 'h' ∨ c = 'x' then Nat.toDigits 16 a.toNat
  else if c = 'b' then Nat.toDigits 2 a.toNat
  else rendering amx ctof c a

theorem renders_iff : Renders amx ctof c a r ↔ r = expected amx ctof c a := by
  unfold Renders expected
  by_cases hd : c = 'd' ∨ c = 'i'
  · have hh : ¬ (c = 'h' ∨ c = 'x') := by rcases hd with rfl | rfl <;> decide
    have hb : c ≠ 'b' := by rcases hd with rfl | rfl <;> decide
    simp only [if_pos hd, if_neg hh, if_neg hb, rendering]
    exact ⟨fun h => h.1, fun h => ⟨h, h ▸ strtol_signed a⟩⟩
  · rw [if_neg hd]
    split_ifs with hh hb
    · exact ⟨fun h => h.1, fun h => ⟨h, h ▸ readDigits_toDigits (by omega) (by omega) _⟩⟩
    · exact ⟨fun h => h.1, fun h => ⟨h, h ▸ readDigits_toDigits (by omega) (by omega) _⟩⟩
    · exact Iff.rfl

/-- The text of an argument that is not a negative bit pattern. -/
theorem rendering_eq (h : c ∈ ['h', 'x', 'b'] → 0 ≤ signed a) :
    rendering amx ctof c a = expected amx ctof c a := by
  unfold expected
  split_ifs with hh hb
  · have hsigned := h (by rcases hh with rfl | rfl <;> simp)
    rw [← formatBase_signed 16 hsigned]
    rcases hh with rfl | rfl <;> rfl
  · subst hb
    rw [← formatBase_signed 2 (h (by simp))]
    rfl
  · rfl

/-- The text of a negative bit pattern begins with a minus sign, and has to begin with a digit. -/
theorem rendering_of_neg (amx : AMX) (ctof : Cell → List Char) (hc : c ∈ ['h', 'x', 'b'])
    (h : signed a < 0) :
    ∃ s d t, rendering amx ctof c a = '-' :: s ∧ expected amx ctof c a = d :: t ∧ d ≠ '-' := by
  have hdigits : ∀ base, 1 < base → base ≤ 16 →
      ∃ s d t, formatBase base (signed a) = '-' :: s ∧ Nat.toDigits base a.toNat = d :: t ∧
        d ≠ '-' := by
    intro base h1 h16
    obtain ⟨d, t, ht⟩ :=
      List.exists_cons_of_ne_nil (Nat.toDigits_ne_nil (n := a.toNat) (b := base))
    obtain ⟨k, hk, hd⟩ := exists_digit_of_mem h1 (ht ▸ List.mem_cons_self)
    exact ⟨_, d, t, by rw [formatBase, if_pos h]; rfl, ht, hd ▸ digitChar_ne_minus k (by omega)⟩
  simp only [List.mem_cons, List.not_mem_nil, or_false] at hc
  rcases hc with rfl | rfl | rfl
  · exact hdigits 16 (by omega) (by omega)
  · exact hdigits 16 (by omega) (by omega)
  · exact hdigits 2 (by omega) (by omega)

/-! ### The loop -/

/-- The texts with their separators, from the one at index `i` on. -/
def joined : ℕ → List (List Char) → List Char
  | _, [] => []
  | i, r :: renderings => separator i ++ r ++ joined (i + 1) renderings

theorem joined_succ (i : ℕ) (renderings : List (List Char)) :
    joined (i + 1) renderings = renderings.flatMap ([',', ' '] ++ ·) := by
  induction renderings generalizing i with
  | nil => rfl
  | cons r renderings ih => simp [joined, separator, ih (i + 1)]

theorem intercalate_cons (sep r : List Char) (renderings : List (List Char)) :
    sep.intercalate (r :: renderings) = r ++ renderings.flatMap (sep ++ ·) := by
  induction renderings generalizing r with
  | nil => simp
  | cons r' renderings ih => rw [List.intercalate_cons_cons, ih]; simp

theorem joined_zero (renderings : List (List Char)) :
    joined 0 renderings = [',', ' '].intercalate renderings := by
  cases renderings with
  | nil => rfl
  | cons r renderings =>
    rw [joined, joined_succ, intercalate_cons]
    rfl

/-- **What the loop makes** of arguments that can be read. -/
theorem formatParams_eq (hargs : params_format.length + i ≤ params.args.length)
    (hstrings : ∀ (k : ℕ) a, params_format[k]? = some 's' → params.args[i + k]? = some a →
      StringAt amx a) :
    formatParams amx ctof params i params_format fmt_msg =
      if ∃ c ∈ params_format, c ∉ specifiers then .ok none
      else .ok (some (fmt_msg ++ joined i
        (List.zipWith (rendering amx ctof) params_format (params.args.drop i)))) := by
  induction params_format generalizing i fmt_msg with
  | nil => simp [formatParams, joined, pure, Except.pure]
  | cons c params_format ih =>
    simp only [List.length_cons] at hargs
    have hi : i < params.args.length := by omega
    obtain ⟨a, ha, hdrop⟩ : ∃ a, params.args[i]? = some a ∧
        params.args.drop i = a :: params.args.drop (i + 1) :=
      ⟨_, List.getElem?_eq_getElem hi, List.drop_eq_getElem_cons hi⟩
    have hnext := @ih (i + 1) (fmt_msg ++ separator i ++ rendering amx ctof c a) (by omega)
      fun k b hk hb => hstrings (k + 1) b hk (by rwa [Nat.add_right_comm] at hb)
    rw [formatParams_cons ha]
    by_cases hc : c ∈ specifiers
    · rw [formatParam_eq hc fun hs => hstrings 0 a (by simp [hs]) ha]
      simp only [hnext]
      simp only [hdrop, List.zipWith_cons_cons, joined, List.exists_mem_cons_iff,
        not_true_eq_false, hc, false_or, List.append_assoc]
    · simp [formatParam_unknown hc, hc]

/-! ### The message -/

/-- Texts that are the same, or differ in their first character. -/
def SameOrApart (r r' : List Char) : Prop :=
  r = r' ∨ ∃ d e s t, r = d :: s ∧ r' = e :: t ∧ d ≠ e

/-- **Where the joined texts are the same, each text is.** -/
theorem eq_of_joined_eq {renderings renderings' : List (List Char)}
    (h : List.Forall₂ SameOrApart renderings renderings')
    (heq : joined i renderings = joined i renderings') : renderings = renderings' := by
  induction h generalizing i with
  | nil => rfl
  | cons hr _ ih =>
    simp only [joined, List.append_assoc, List.append_cancel_left_eq] at heq
    rcases hr with rfl | ⟨d, e, s, t, rfl, rfl, hne⟩
    · rw [ih (List.append_cancel_left heq)]
    · exact absurd (List.cons.inj heq).1 hne

theorem sameOrApart (amx : AMX) (ctof : Cell → List Char) (c : Char) (a : Cell) :
    SameOrApart (rendering amx ctof c a) (expected amx ctof c a) := by
  by_cases hneg : c ∈ ['h', 'x', 'b'] ∧ signed a < 0
  · obtain ⟨s, d, t, hs, ht, hd⟩ := rendering_of_neg amx ctof hneg.1 hneg.2
    exact .inr ⟨'-', d, s, t, hs, ht, hd.symm⟩
  · exact .inl (rendering_eq fun hc => not_lt.mp fun h => hneg ⟨hc, h⟩)

theorem forall₂_zipWith {α β γ : Type} {R : γ → γ → Prop} {f g : α → β → γ}
    (h : ∀ x y, R (f x y) (g x y)) (xs : List α) (ys : List β) :
    List.Forall₂ R (List.zipWith f xs ys) (List.zipWith g xs ys) := by
  induction xs generalizing ys with
  | nil => exact .nil
  | cons x xs ih =>
    cases ys with
    | nil => exact .nil
    | cons y ys => exact .cons (h x y) (ih ys)

/-- The list of the texts is the only one with the right texts. -/
theorem eq_zipWith_of_renders {args : List Cell} {renderings : List (List Char)}
    (hargs : params_format.length ≤ args.length) (hlen : renderings.length = params_format.length)
    (h : ∀ (k : ℕ) c a r, params_format[k]? = some c → args[k]? = some a →
      renderings[k]? = some r → Renders amx ctof c a r) :
    renderings = List.zipWith (expected amx ctof) params_format args := by
  refine List.ext_getElem (by simp; omega) fun k hk hk' => ?_
  rw [List.getElem_zipWith]
  refine renders_iff.mp (h k _ _ _ ?_ ?_ (List.getElem?_eq_getElem hk))
  · exact List.getElem?_eq_getElem (by omega)
  · exact List.getElem?_eq_getElem (by omega)

/-- The texts of the code are the right ones where no bit pattern is negative. -/
theorem zipWith_eq_iff (amx : AMX) (ctof : Cell → List Char) {args : List Cell}
    (hargs : params_format.length ≤ args.length) :
    List.zipWith (rendering amx ctof) params_format args =
      List.zipWith (expected amx ctof) params_format args ↔ NoneNegative args params_format := by
  constructor
  · intro h k c a hc ha hbits
    by_contra hneg
    obtain ⟨s, d, t, hs, ht, hd⟩ := rendering_of_neg amx ctof hbits (not_le.mp hneg)
    have hk := congrArg (·[k]?) h
    simp only [List.getElem?_zipWith, hc, ha, Option.some.injEq] at hk
    rw [hs, ht] at hk
    exact hd (List.cons.inj hk).1.symm
  · intro h
    refine List.ext_getElem (by simp) fun k hk hk' => ?_
    rw [List.getElem_zipWith, List.getElem_zipWith]
    simp only [List.length_zipWith] at hk
    exact rendering_eq (h k _ _ (List.getElem?_eq_getElem (by omega))
      (List.getElem?_eq_getElem (by omega)))

section Arguments

variable (m ptr queue rounds) (hname : name ≠ []) (hlevel : IsLogLevel Level DEBUG = true)
  (hargs : params_format.length ≤ params.args.length)
  (hstrings : ∀ (k : ℕ) a, params_format[k]? = some 's' → params.args[k]? = some a → StringAt amx a)
include hname hlevel hargs hstrings

/-- A call with a character that is not known. -/
theorem logNativeCall_unknown (hunknown : ∃ c ∈ params_format, c ∉ specifiers) :
    LogNativeCall ctof m Level (some (ptr, amx)) (some params) name params_format queue rounds =
      .ok (false, queue) := by
  rw [logNativeCall_eq hname hlevel, formatParams_eq hargs (by simpa using hstrings),
    if_pos hunknown]

/-- A call in which every character is known. -/
theorem logNativeCall_known (hknown : ¬ ∃ c ∈ params_format, c ∉ specifiers) :
    LogNativeCall ctof m Level (some (ptr, amx)) (some params) name params_format queue rounds =
      .ok (true, queue ++ [⟨DEBUG, String.ofList (name ++ ['('] ++
        joined 0 (List.zipWith (rendering amx ctof) params_format params.args) ++
          [')']), []⟩]) := by
  rw [logNativeCall_eq hname hlevel, formatParams_eq hargs (by simpa using hstrings),
    if_neg hknown, List.drop_zero]

/-- The message of such a call. -/
theorem faithful_iff_of_known (hknown : ¬ ∃ c ∈ params_format, c ∉ specifiers) :
    Faithful ctof m Level ptr amx params name params_format queue rounds ↔
      NoneNegative params.args params_format := by
  have hcall := @logNativeCall_known P ctof m Level amx params ptr name params_format queue rounds
    hname hlevel hargs hstrings hknown
  unfold Faithful
  simp only [hcall, if_neg hknown]
  rw [← zipWith_eq_iff amx ctof hargs]
  constructor
  · rintro ⟨renderings, hlen, hrenders, hmessage⟩
    rw [eq_zipWith_of_renders hargs hlen hrenders, ← joined_zero] at hmessage
    simp only [Except.ok.injEq, Prod.mk.injEq, true_and, List.append_cancel_left_eq,
      List.cons.injEq, Message.mk.injEq, String.ofList_inj, List.append_assoc,
      List.append_cancel_right_eq, and_true] at hmessage
    exact eq_of_joined_eq (forall₂_zipWith (sameOrApart amx ctof) _ _) hmessage
  · intro h
    refine ⟨List.zipWith (expected amx ctof) params_format params.args, by simp; omega, ?_, ?_⟩
    · intro k c a r hc ha hr
      simp only [List.getElem?_zipWith, hc, ha, Option.some.injEq] at hr
      exact renders_iff.mpr hr.symm
    · rw [h, joined_zero]

end Arguments

/-- **When the message is the right one**: where a character is not known, or where no argument that
is written as a bit pattern is negative. -/
theorem logNativeCall_faithful_iff (ctof : Cell → List Char) (m : Manager P) (ptr : P)
    (queue : List Message) (rounds : ℕ) (hname : name ≠ [])
    (hlevel : IsLogLevel Level DEBUG = true) (hargs : params_format.length ≤ params.args.length)
    (hstrings : ∀ (k : ℕ) a, params_format[k]? = some 's' → params.args[k]? = some a →
      StringAt amx a) :
    Faithful ctof m Level ptr amx params name params_format queue rounds ↔
      (∃ c ∈ params_format, c ∉ specifiers) ∨ NoneNegative params.args params_format := by
  by_cases hunknown : ∃ c ∈ params_format, c ∉ specifiers
  · refine ⟨fun _ => .inl hunknown, fun _ => ?_⟩
    rw [Faithful]
    simp only [if_pos hunknown]
    exact logNativeCall_unknown m ptr queue rounds hname hlevel hargs hstrings hunknown
  · rw [faithful_iff_of_known m ptr queue rounds hname hlevel hargs hstrings hunknown]
    exact ⟨.inr, fun h => h.resolve_left hunknown⟩

/-- No string is read for these characters. -/
theorem no_strings {args : List Cell} (h : 's' ∉ params_format) (k : ℕ) (a : Cell)
    (hs : params_format[k]? = some 's') (_ : args[k]? = some a) : StringAt small a :=
  absurd (List.mem_of_getElem? hs) h

/-- The arguments -1 and a colour. -/
def colour : Params := ⟨8, [0xFFFFFFFF, 0x00FF00FF], rfl⟩

theorem noneNegative_colour : NoneNegative colour.args ['d', 'x'] := by
  intro k c a hc ha hbits
  match k with
  | 0 =>
    obtain rfl := Option.some.inj hc
    exact absurd hbits (by simp)
  | 1 =>
    obtain rfl := Option.some.inj ha
    decide
  | k + 2 => exact absurd hc (by simp)

/-- A decimal and a colour. -/
theorem logNativeCall_faithful_colour :
    Faithful (fun _ => []) (⟨false, [], fun _ => none⟩ : Manager Unit) DEBUG () small colour
      ['f'] ['d', 'x'] [] 0 := by
  rw [logNativeCall_faithful_iff]
  · exact .inr noneNegative_colour
  · simp
  · decide
  · simp [colour]
  · exact no_strings (by simp)

/-- A colour with the top bit set. -/
def red : Params := ⟨4, [0xFF0000FF], rfl⟩

/-- Its text is that of a negative number. -/
theorem not_faithful_negative :
    ¬ Faithful (fun _ => []) (⟨false, [], fun _ => none⟩ : Manager Unit) DEBUG () small red
      ['f'] ['x'] [] 0 := by
  rw [faithful_iff_of_known]
  · exact fun h => absurd (h 0 'x' 0xFF0000FF rfl rfl (by simp)) (by decide)
  · simp
  · decide
  · simp [red]
  · exact no_strings (by simp)
  · simp [specifiers]

end SampLogCore.Logger.Rendering
