import Mathlib.Data.List.Basic
import Mathlib.Data.List.Infix
import Mathlib.Logic.Function.Basic
import Mathlib.Tactic.Common
import Mathlib.Tactic.Ring
import Mathlib.Tactic.TypeStar

/-!
# Records in memory

A format says which records there are and how they are written, and what is written tells where it
ends. Formats are composed: two records one behind the other, where the second may depend on the
first (`seq`), `n` records one behind the other (`times`), a record through its parts (`comap`).

`F.At mem p q a` says that the record `a` is in `mem` from the position `p` to `q`. A scanner finds
the end of a record from its beginning (`Scans`), and a table of `n` records is found by letting it
run `n` times, which is exact when the scanner is (`table_eq_some_iff`).
-/

namespace SampLogCore.Lib.Records

/-- A format of records. -/
structure Format (β α : Type*) where
  Valid : α → Prop
  write : α → List β
  unambiguous : ∀ {a b : α} {r s : List β}, Valid a → Valid b → write a ++ r = write b ++ s → a = b

namespace Format

variable {β α γ : Type*}

/-- The record `a` is in `mem` from `p` to `q`. -/
def At (F : Format β α) (mem : List β) (p q : ℕ) (a : α) : Prop :=
  F.Valid a ∧ F.write a <+: mem.drop p ∧ q = p + (F.write a).length

/-! ### Formats of formats -/

/-- A single element. -/
def one : Format β β where
  Valid _ := True
  write a := [a]
  unambiguous _ _ h := (List.cons.inj h).1

/-- What is in front of the first `z`. -/
def terminated (z : β) : Format β (List β) where
  Valid l := z ∉ l
  write l := l ++ [z]
  unambiguous := by
    intro a b r s ha hb h
    simp only [List.append_assoc, List.singleton_append] at h
    rcases List.append_eq_append_iff.mp h with ⟨c, hb', hc⟩ | ⟨c, ha', hc⟩
    · rcases c with _ | ⟨y, c⟩
      · simpa using hb'.symm
      · obtain rfl : z = y := (List.cons.inj hc).1
        exact absurd (hb' ▸ by simp) hb
    · rcases c with _ | ⟨y, c⟩
      · simpa using ha'
      · obtain rfl : z = y := (List.cons.inj hc).1
        exact absurd (ha' ▸ by simp) ha

/-- A record through its parts. -/
def comap (f : γ → α) (hf : Function.Injective f) (F : Format β α) : Format β γ where
  Valid c := F.Valid (f c)
  write c := F.write (f c)
  unambiguous ha hb h := hf (F.unambiguous ha hb h)

/-- Two records, one behind the other. -/
def seq (F : Format β α) (G : α → Format β γ) : Format β (α × γ) where
  Valid x := F.Valid x.1 ∧ (G x.1).Valid x.2
  write x := F.write x.1 ++ (G x.1).write x.2
  unambiguous := by
    rintro ⟨a, c⟩ ⟨b, d⟩ r s ⟨ha, hc⟩ ⟨hb, hd⟩ h
    simp only [List.append_assoc] at h
    obtain rfl : a = b := F.unambiguous ha hb h
    obtain rfl : c = d := (G a).unambiguous hc hd (List.append_cancel_left h)
    rfl

theorem times_unambiguous (F : Format β α) : ∀ {k l : List α} {r s : List β},
    (∀ a ∈ k, F.Valid a) → (∀ a ∈ l, F.Valid a) → k.length = l.length →
      k.flatMap F.write ++ r = l.flatMap F.write ++ s → k = l
  | [], l, _, _, _, _, hlen, _ => (List.eq_nil_of_length_eq_zero hlen.symm).symm
  | a :: k, [], _, _, _, _, hlen, _ => by simp at hlen
  | a :: k, b :: l, r, s, hk, hl, hlen, h => by
    obtain ⟨ha, hk'⟩ := List.forall_mem_cons.mp hk
    obtain ⟨hb, hl'⟩ := List.forall_mem_cons.mp hl
    simp only [List.flatMap_cons, List.append_assoc] at h
    obtain rfl : a = b := F.unambiguous ha hb h
    have htail : k = l :=
      times_unambiguous F hk' hl' (by simpa using hlen) (List.append_cancel_left h)
    rw [htail]

/-- `n` records, one behind the other. -/
def times (n : ℕ) (F : Format β α) : Format β (List α) where
  Valid l := l.length = n ∧ ∀ a ∈ l, F.Valid a
  write l := l.flatMap F.write
  unambiguous ha hb h := times_unambiguous F ha.2 hb.2 (ha.1.trans hb.1.symm) h

/-! ### Where a record is -/

section At

variable {F : Format β α} {G : α → Format β γ} {mem ext : List β} {p q q' n : ℕ} {a b : α}

/-- **A position holds one record at most.** -/
theorem At.unique (ha : F.At mem p q a) (hb : F.At mem p q' b) : a = b := by
  obtain ⟨hva, ⟨r, hr⟩, -⟩ := ha
  obtain ⟨hvb, ⟨s, hs⟩, -⟩ := hb
  exact F.unambiguous hva hvb (hr.trans hs.symm)

theorem At.le (h : F.At mem p q a) : p ≤ q := by
  obtain ⟨-, -, rfl⟩ := h
  omega

/-- A record that is not empty ends in the memory. -/
theorem At.le_length (h : F.At mem p q a) (hlt : p < q) : q ≤ mem.length := by
  obtain ⟨-, hpre, rfl⟩ := h
  have hlen := hpre.length_le
  rw [List.length_drop] at hlen
  omega

/-- More memory changes nothing. -/
theorem At.append (h : F.At mem p q a) (hq : q ≤ mem.length) : F.At (mem ++ ext) p q a := by
  obtain ⟨hv, hpre, rfl⟩ := h
  refine ⟨hv, ?_, rfl⟩
  rw [List.drop_append_of_le_length (by omega)]
  exact hpre.trans (List.prefix_append _ _)

theorem prefix_append_iff {u v w : List β} : u ++ v <+: w ↔ u <+: w ∧ v <+: w.drop u.length := by
  constructor
  · rintro ⟨r, rfl⟩
    simp [List.append_assoc]
  · rintro ⟨⟨r, rfl⟩, hv⟩
    rw [List.drop_left] at hv
    exact (List.prefix_append_right_inj u).mpr hv

theorem at_one {x : β} : (one : Format β β).At mem p q x ↔ mem[p]? = some x ∧ q = p + 1 := by
  have hpre : [x] <+: mem.drop p ↔ mem[p]? = some x := by
    rw [List.singleton_prefix_iff_head?_eq_some, List.head?_drop]
  simp [At, one, hpre]

theorem at_comap {f : γ → α} {hf : Function.Injective f} {c : γ} :
    (F.comap f hf).At mem p q c ↔ F.At mem p q (f c) :=
  Iff.rfl

theorem at_seq {c : γ} :
    (F.seq G).At mem p q (a, c) ↔ ∃ m, F.At mem p m a ∧ (G a).At mem m q c := by
  simp only [At, seq, prefix_append_iff, List.drop_drop, List.length_append]
  constructor
  · rintro ⟨⟨ha, hc⟩, ⟨hwa, hwc⟩, rfl⟩
    exact ⟨_, ⟨ha, hwa, rfl⟩, hc, hwc, by omega⟩
  · rintro ⟨_, ⟨ha, hwa, rfl⟩, hc, hwc, rfl⟩
    exact ⟨⟨ha, hc⟩, ⟨hwa, hwc⟩, by omega⟩

theorem at_times_zero {l : List α} : (F.times 0).At mem p q l ↔ l = [] ∧ q = p := by
  constructor
  · rintro ⟨⟨hlen, -⟩, -, rfl⟩
    obtain rfl := List.eq_nil_of_length_eq_zero hlen
    exact ⟨rfl, rfl⟩
  · rintro ⟨rfl, rfl⟩
    exact ⟨⟨rfl, by simp⟩, List.nil_prefix, rfl⟩

theorem at_times_succ {l : List α} : (F.times (n + 1)).At mem p q (a :: l) ↔
    ∃ m, F.At mem p m a ∧ (F.times n).At mem m q l := by
  simp only [At, times, List.flatMap_cons, prefix_append_iff, List.drop_drop, List.length_append,
    List.forall_mem_cons, List.length_cons, Nat.add_right_cancel_iff]
  constructor
  · rintro ⟨⟨hlen, ha, hl⟩, ⟨hwa, hwl⟩, rfl⟩
    exact ⟨_, ⟨ha, hwa, rfl⟩, ⟨hlen, hl⟩, hwl, by omega⟩
  · rintro ⟨_, ⟨ha, hwa, rfl⟩, ⟨hlen, hl⟩, hwl, rfl⟩
    exact ⟨⟨hlen, ha, hl⟩, ⟨hwa, hwl⟩, by omega⟩

/-- Where every place of `k` elements holds a record, `n` places do. -/
theorem exists_at_times {k : ℕ} (h : ∀ p, p + k ≤ mem.length → ∃ a, F.At mem p (p + k) a) :
    ∀ {n p : ℕ}, p + n * k ≤ mem.length → ∃ l, (F.times n).At mem p (p + n * k) l
  | 0, p, _ => ⟨[], at_times_zero.mpr ⟨rfl, by omega⟩⟩
  | n + 1, p, hle => by
    have hsucc : p + (n + 1) * k = p + k + n * k := by ring
    rw [hsucc] at hle ⊢
    obtain ⟨a, ha⟩ := h p (by omega)
    obtain ⟨l, hl⟩ := exists_at_times h hle
    exact ⟨a :: l, at_times_succ.mpr ⟨p + k, ha, hl⟩⟩

theorem length_write_times {k : ℕ} (h : ∀ a, (F.write a).length = k) (l : List α) :
    (l.flatMap F.write).length = l.length * k := by
  induction l with
  | nil => simp
  | cons a l ih =>
    rw [List.flatMap_cons, List.length_append, ih, h, List.length_cons]
    ring

theorem at_of_getElem? {k : ℕ} (h : ∀ a, (F.write a).length = k) :
    ∀ {l : List α} {n p i : ℕ}, (F.times n).At mem p q l → l[i]? = some a →
      F.At mem (p + i * k) (p + i * k + k) a
  | [], _, _, _, _, hi => by simp at hi
  | b :: l, n, p, i, hl, hi => by
    obtain ⟨n, rfl⟩ : ∃ k, n = k + 1 := ⟨l.length, by rw [← hl.1.1]; simp⟩
    obtain ⟨m, hb, hl⟩ := at_times_succ.mp hl
    have hm : m = p + k := by rw [hb.2.2, h]
    rcases i with _ | i
    · obtain rfl : b = a := by simpa using hi
      rw [hm] at hb
      simpa using hb
    · have htail := at_of_getElem? h hl (i := i) (by simpa using hi)
      rw [hm] at htail
      convert htail using 1 <;> ring

end At

/-- Where the records of a table begin. -/
def starts (F : Format β α) : ℕ → List α → List ℕ
  | _, [] => []
  | p, a :: l => p :: F.starts (p + (F.write a).length) l

/-- Records of one size begin at regular distances. -/
theorem starts_eq_map {F : Format β α} {k : ℕ} (h : ∀ a, (F.write a).length = k) (l : List α)
    (p : ℕ) : F.starts p l = (List.range l.length).map (p + k * ·) := by
  induction l generalizing p with
  | nil => rfl
  | cons a l ih =>
    rw [starts, ih, h, List.length_cons, List.range_succ_eq_map, List.map_cons, List.map_map]
    congr 1
    refine List.map_congr_left fun i _ => ?_
    simp only [Function.comp_apply, Nat.succ_eq_add_one]
    ring

/-- **The records of a table are where they begin.** -/
theorem forall₂_starts {F : Format β α} {mem : List β} {q : ℕ} :
    ∀ {l : List α} {n p : ℕ}, (F.times n).At mem p q l →
      List.Forall₂ (fun x a => ∃ y, F.At mem x y a) (F.starts p l) l
  | [], _, _, _ => .nil
  | a :: l, n, p, h => by
    obtain ⟨n, rfl⟩ : ∃ k, n = k + 1 := ⟨l.length, by rw [← h.1.1]; simp⟩
    obtain ⟨m, ha, hl⟩ := at_times_succ.mp h
    refine .cons ⟨m, ha⟩ ?_
    rw [← ha.2.2]
    exact forall₂_starts hl

end Format

/-! ### The end of a string -/

section Skip

variable {β : Type*} [DecidableEq β] (z : β)

/-- The elements up to the first `z`, with it. -/
def behind : List β → Option ℕ
  | [] => none
  | x :: l => if x = z then some 1 else (behind l).map (· + 1)

/-- The position behind the first `z` from `p` on. -/
def skip (mem : List β) (p : ℕ) : Option ℕ := (behind z (mem.drop p)).map (p + ·)

variable {z}

theorem behind_eq_some_iff {l : List β} {n : ℕ} :
    behind z l = some n ↔ ∃ s, z ∉ s ∧ s ++ [z] <+: l ∧ n = s.length + 1 := by
  induction l generalizing n with
  | nil => simp [behind]
  | cons x l ih =>
    rw [behind]
    split_ifs with hx
    · subst hx
      constructor
      · intro h
        obtain rfl := Option.some.inj h
        exact ⟨[], by simp, by simp, rfl⟩
      · rintro ⟨s, hs, hpre, rfl⟩
        rcases s with _ | ⟨y, s⟩
        · rfl
        · obtain ⟨rfl, -⟩ := List.cons_prefix_cons.mp hpre
          exact absurd List.mem_cons_self hs
    · simp only [Option.map_eq_some_iff, ih]
      constructor
      · rintro ⟨_, ⟨s, hs, hpre, rfl⟩, rfl⟩
        refine ⟨x :: s, ?_, List.cons_prefix_cons.mpr ⟨rfl, hpre⟩, rfl⟩
        rintro (_ | ⟨_, hmem⟩)
        · exact hx rfl
        · exact hs hmem
      · rintro ⟨s, hs, hpre, rfl⟩
        rcases s with _ | ⟨y, s⟩
        · obtain ⟨rfl, -⟩ := List.cons_prefix_cons.mp hpre
          exact absurd rfl hx
        · obtain ⟨rfl, htail⟩ := List.cons_prefix_cons.mp hpre
          exact ⟨_, ⟨s, fun hmem => hs (List.mem_cons_of_mem _ hmem), htail, rfl⟩, rfl⟩

/-- **Skipping a string finds its end.** -/
theorem skip_eq_some_iff {mem : List β} {p q : ℕ} :
    skip z mem p = some q ↔ ∃ s, (Format.terminated z).At mem p q s := by
  simp only [skip, Option.map_eq_some_iff, behind_eq_some_iff, Format.At, Format.terminated,
    List.length_append, List.length_singleton]
  constructor
  · rintro ⟨_, ⟨s, hs, hpre, rfl⟩, rfl⟩
    exact ⟨s, hs, hpre, rfl⟩
  · rintro ⟨s, hs, hpre, rfl⟩
    exact ⟨_, ⟨s, hs, hpre, rfl⟩, rfl⟩

theorem lt_of_skip {mem : List β} {p q : ℕ} (h : skip z mem p = some q) :
    p < q ∧ q ≤ mem.length := by
  obtain ⟨s, hs⟩ := skip_eq_some_iff.mp h
  have hlt : p < q := by
    obtain ⟨-, -, rfl⟩ := hs
    simp [Format.terminated]
  exact ⟨hlt, hs.le_length hlt⟩

theorem skip_append {mem ext : List β} {p q : ℕ} (h : skip z mem p = some q) :
    skip z (mem ++ ext) p = some q := by
  obtain ⟨s, hs⟩ := skip_eq_some_iff.mp h
  exact skip_eq_some_iff.mpr ⟨s, hs.append (lt_of_skip h).2⟩

end Skip

/-! ### Tables of records -/

variable {β α : Type*}

/-- `n` records found by running `next` from the beginning of one to its end: where they begin, and
where the last one ends. -/
def table (next : ℕ → Option ℕ) : ℕ → ℕ → Option (List ℕ × ℕ)
  | 0, p => some ([], p)
  | n + 1, p => do
    let m ← next p
    let (ps, q) ← table next n m
    return (p :: ps, q)

/-- `next` finds the end of every record that is in `mem`, and of nothing else. -/
structure Scans (next : ℕ → Option ℕ) (F : Format β α) (mem : List β) : Prop where
  le : ∀ {p q}, next p = some q → p ≤ q
  iff : ∀ {p q}, q ≤ mem.length → (next p = some q ↔ ∃ a, F.At mem p q a)

variable {next next' : ℕ → Option ℕ} {F : Format β α} {mem : List β} {n p q : ℕ} {ps : List ℕ}

theorem table_succ : table next (n + 1) p = some (ps, q) ↔
    ∃ m ps', next p = some m ∧ table next n m = some (ps', q) ∧ ps = p :: ps' := by
  simp only [table, Option.bind_eq_bind, Option.bind_eq_some_iff, Prod.exists, Option.pure_def,
    Option.some.injEq, Prod.mk.injEq]
  constructor
  · rintro ⟨m, hm, ps', q', ht, rfl, rfl⟩
    exact ⟨m, ps', hm, ht, rfl⟩
  · rintro ⟨m, ps', hm, ht, rfl⟩
    exact ⟨m, hm, ps', q, ht, rfl, rfl⟩

theorem le_of_table (hle : ∀ {p q}, next p = some q → p ≤ q) :
    ∀ {n p : ℕ} {ps : List ℕ}, table next n p = some (ps, q) → p ≤ q
  | 0, p, ps, h => by
    obtain ⟨-, rfl⟩ := Prod.mk.inj (Option.some.inj h)
    exact le_rfl
  | n + 1, p, ps, h => by
    obtain ⟨m, ps', hm, ht, -⟩ := table_succ.mp h
    exact (hle hm).trans (le_of_table hle ht)

/-- A table that is not empty ends where the scanner has ended. -/
theorem end_of_table {P : ℕ → Prop} (h : ∀ {p q}, next p = some q → P q) :
    ∀ {n p : ℕ} {ps : List ℕ}, table next n p = some (ps, q) → (n = 0 ∧ q = p) ∨ P q
  | 0, p, ps, ht => by
    obtain ⟨-, rfl⟩ := Prod.mk.inj (Option.some.inj ht)
    exact .inl ⟨rfl, rfl⟩
  | n + 1, p, ps, ht => by
    obtain ⟨m, ps', hm, htail, -⟩ := table_succ.mp ht
    rcases end_of_table h htail with ⟨-, rfl⟩ | hP
    · exact .inr (h hm)
    · exact .inr hP

/-- The scanner has run from every position of the table. -/
theorem exists_of_mem_table : ∀ {n p : ℕ} {ps : List ℕ}, table next n p = some (ps, q) →
    ∀ x ∈ ps, ∃ y, next x = some y
  | 0, p, ps, h, x, hx => by
    obtain ⟨rfl, -⟩ := Prod.mk.inj (Option.some.inj h)
    exact absurd hx List.not_mem_nil
  | n + 1, p, ps, h, x, hx => by
    obtain ⟨m, ps', hm, ht, rfl⟩ := table_succ.mp h
    rcases List.mem_cons.mp hx with rfl | hx
    · exact ⟨m, hm⟩
    · exact exists_of_mem_table ht x hx

/-- A scanner that finds at least as much finds the same table. -/
theorem table_mono (h : ∀ {p q}, next p = some q → next' p = some q) :
    ∀ {n p : ℕ} {ps : List ℕ}, table next n p = some (ps, q) → table next' n p = some (ps, q)
  | 0, p, ps, ht => ht
  | n + 1, p, ps, ht => by
    obtain ⟨m, ps', hm, htail, rfl⟩ := table_succ.mp ht
    exact table_succ.mpr ⟨m, ps', h hm, table_mono h htail, rfl⟩

/-- The scanner has found the end of the last record of a table. -/
theorem exists_last_of_table (h : Scans next' F mem)
    (hnext : ∀ {p q}, next p = some q → next' p = some q) (hq : q ≤ mem.length) :
    ∀ {n p : ℕ} {ps : List ℕ} {l : List α}, table next n p = some (ps, q) →
      (F.times n).At mem p q l → l ≠ [] →
        ∃ x a, next x = some q ∧ F.At mem x q a ∧ l.getLast? = some a
  | 0, p, ps, l, _, hl, hne => absurd (Format.at_times_zero.mp hl).1 hne
  | n + 1, p, ps, [], _, _, hne => absurd rfl hne
  | n + 1, p, ps, a :: l, ht, hl, _ => by
    obtain ⟨m, ps', hm, htail, rfl⟩ := table_succ.mp ht
    obtain ⟨m', ha, hrest⟩ := Format.at_times_succ.mp hl
    have hmq : m ≤ q := le_of_table (fun hx => h.le (hnext hx)) htail
    obtain ⟨b, hb⟩ := (h.iff (hmq.trans hq)).mp (hnext hm)
    -- both are the record at `p`
    obtain rfl : a = b := ha.unique hb
    obtain rfl : m' = m := ha.2.2.trans hb.2.2.symm
    rcases l with _ | ⟨b, l⟩
    · obtain rfl : q = m' := by simpa [Format.times, Format.At] using hrest.2.2
      exact ⟨p, a, hm, hb, rfl⟩
    · obtain ⟨x, c, hx, hc, hlast⟩ :=
        exists_last_of_table h hnext hq htail hrest (List.cons_ne_nil b l)
      exact ⟨x, c, hx, hc, by rw [List.getLast?_cons_cons, hlast]⟩

/-- **A table is found exactly where its records are.** -/
theorem table_eq_some_iff (h : Scans next F mem) : ∀ {n p : ℕ} {ps : List ℕ}, q ≤ mem.length →
    (table next n p = some (ps, q) ↔ ∃ l, (F.times n).At mem p q l ∧ ps = F.starts p l)
  | 0, p, ps, hq => by
    simp only [table, Option.some.injEq, Prod.mk.injEq, Format.at_times_zero]
    constructor
    · rintro ⟨rfl, rfl⟩
      exact ⟨[], ⟨rfl, rfl⟩, rfl⟩
    · rintro ⟨_, ⟨rfl, rfl⟩, rfl⟩
      exact ⟨rfl, rfl⟩
  | n + 1, p, ps, hq => by
    rw [table_succ]
    constructor
    · rintro ⟨m, ps', hm, ht, rfl⟩
      have hmq : m ≤ q := le_of_table h.le ht
      obtain ⟨a, ha⟩ := (h.iff (hmq.trans hq)).mp hm
      obtain ⟨l, hl, rfl⟩ := (table_eq_some_iff h hq).mp ht
      refine ⟨a :: l, Format.at_times_succ.mpr ⟨m, ha, hl⟩, ?_⟩
      rw [ha.2.2, Format.starts]
    · rintro ⟨l, hl, rfl⟩
      rcases l with _ | ⟨a, l⟩
      · exact absurd hl.1.1 (by simp)
      · obtain ⟨m, ha, hl⟩ := Format.at_times_succ.mp hl
        have hmq : m ≤ q := hl.le
        refine ⟨m, F.starts m l, (h.iff (hmq.trans hq)).mpr ⟨a, ha⟩,
          (table_eq_some_iff h hq).mpr ⟨l, hl, rfl⟩, ?_⟩
        rw [ha.2.2, Format.starts]

end SampLogCore.Lib.Records
