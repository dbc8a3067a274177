import Mathlib.Data.List.Nodup
import Mathlib.Data.List.Perm.Subperm
import Mathlib.Order.Bounds.Defs
import SampLogCore.Config.SampConfigReader
import SampLogCore.Lib.Number

/-!
# The list of gamemodes

The fields of a line of `server.cfg` are separated by spaces, and the first one is its key if there
is another one. A file lists the gamemodes of the keys `gamemode0`, `gamemode1`, … up to the first
key that no line has, each under the first non-empty field behind its key on the first such line
(`Lists`).

The constructor of `SampConfigReader` keeps what stands behind the first space of a line, and
`GetGamemodeList` takes from there what stands in front of the next space. So the list is the right
one when the field right behind each key is not empty (`readsFaithfully_iff`). Its counter is an
`unsigned int`, but a file with fewer than `2 ^ 32` lines does not bring it around
(`halts_of_length_lt`).
-/

namespace SampLogCore.Config.Gamemodes

open SampLogCore.Lib.Fields SampLogCore.Lib.Loop SampLogCore.Lib.Number
  SampLogCore.Config.SampConfigReader SampLogCore.Config.Yaml

/-! ### The code -/

/-- `std::getline(config_file, line_buffer)`: the line, and what is left to read if the stream is
still good. -/
def getline (text : List Char) : List Char × Option (List Char) :=
  match text.dropWhile (· ≠ '\n') with
  | [] => (text, none)
  | _ :: rest => (text.takeWhile (· ≠ '\n'), some rest)

/-- The variables of the loop in the constructor. A stream that is not good is `none`. -/
structure Reading where
  config_file : Option (List Char)
  settings : Settings

/-- One round of the loop in `SampConfigReader::SampConfigReader`. -/
def readRound (s : Reading) : Round Reading Settings :=
  match s.config_file with
  | none => .leave s.settings
  | some text => .again ⟨(getline text).2, readLine s.settings (getline text).1⟩

/-- `fmt::format("gamemode{}", counter)`. -/
def gamemode (counter : ℕ) : List Char :=
  ['g', 'a', 'm', 'e', 'm', 'o', 'd', 'e'] ++ formatD counter

/-- The variables of the loop in `GetGamemodeList`. -/
structure Counting where
  counter : UInt32
  dest : List (List Char)

/-- One round of the loop in `GetGamemodeList`. -/
def gamemodeRound (settings : Settings) (s : Counting) :
    Round Counting (Except Fault (Bool × List (List Char))) :=
  match GetVar settings (gamemode s.counter.toNat) with
  | none => .leave (.ok (s.counter ≠ 0, s.dest))
  | some value =>
    match substr value 0 (find value 0) with
    | .error e => .leave (.error e)
    | .ok name => .again ⟨s.counter + 1, s.dest ++ [name]⟩

/-- `SampConfigReader::GetGamemodeList`: the result and `dest`, which is cleared first, if the loop
ends within these rounds. -/
def GetGamemodeList (settings : Settings) (rounds : ℕ) :
    Option (Except Fault (Bool × List (List Char))) :=
  iter (gamemodeRound settings) rounds ⟨0, []⟩

/-! ### The specification -/

/-- The fields of a line; a carriage return ends its text. -/
def fields (line : List Char) : List (List Char) := (line.takeWhile (· ≠ '\r')).splitOn ' '

/-- The key of a line and the fields behind it. -/
def entry (line : List Char) : Option (List Char × List (List Char)) :=
  match fields line with
  | key :: word :: words => some (key, word :: words)
  | _ => none

/-- The entries of a file. -/
def entries (content : List Char) : List (List Char × List (List Char)) :=
  (content.splitOn '\n').filterMap entry

/-- The fields behind the key of the gamemode on the first line that has it. -/
def behind (content : List Char) (i : ℕ) : Option (List (List Char)) :=
  (entries content).lookup (gamemode i)

/-- The file lists these gamemodes. -/
structure Lists (content : List Char) (names : List (List Char)) : Prop where
  least : IsLeast {n | behind content n = none} names.length
  word : ∀ i < names.length, ∃ words, behind content i = some words ∧
    words.find? (· ≠ []) = names[i]?

/-- The code reads the gamemodes that the file lists, and returns whether there is one. -/
def ReadsFaithfully (content : List Char) : Prop :=
  ∃ settings names rounds, Ends readRound ⟨some content, fun _ => none⟩ settings ∧
    GetGamemodeList settings rounds = some (.ok (decide (0 < names.length), names)) ∧
    Lists content names

variable {content line text key value : List Char} {settings : Settings}

/-! ### The lines -/

theorem getline_of_notMem (h : '\n' ∉ text) : getline text = (text, none) := by
  simp only [getline, dropWhile_ne_eq_nil h]

theorem getline_append (h : '\n' ∉ line) : getline (line ++ '\n' :: text) = (line, some text) := by
  simp only [getline, dropWhile_ne_append h, takeWhile_ne_append h]

/-- The constructor reads one line after the other, whether or not the last one is ended. -/
theorem ends_read (text : List Char) (settings : Settings) :
    Ends readRound ⟨some text, settings⟩ ((text.splitOn '\n').foldl readLine settings) := by
  induction hn : text.length using Nat.strongRecOn generalizing text settings with
  | ind n ih =>
    by_cases hmem : '\n' ∈ text
    · obtain ⟨line, rest, rfl, hline⟩ := List.eq_append_cons_of_mem hmem
      have hround : readRound ⟨some (line ++ '\n' :: rest), settings⟩ =
          .again ⟨some rest, readLine settings line⟩ := by
        simp only [readRound, getline_append hline]
      rw [ends_of_again hround, List.splitOn_append_cons_self_of_not_mem hline, List.foldl_cons]
      simp only [List.length_append, List.length_cons] at hn
      exact ih rest.length (by omega) rest _ rfl
    · have hround : readRound ⟨some text, settings⟩ = .again ⟨none, readLine settings text⟩ := by
        simp only [readRound, getline_of_notMem hmem]
      rw [ends_of_again hround, List.splitOn_eq_singleton hmem]
      exact ends_of_leave rfl

/-- A name keeps its first value. -/
theorem emplace_apply (settings : Settings) (name value key : List Char) :
    emplace settings name value key =
      (settings key).or (if key == name then some value else none) := by
  unfold emplace
  by_cases hkey : key = name
  · subst hkey
    cases hs : settings key <;> simp [hs]
  · cases hs : settings name <;> simp [hkey]

/-- A line has no space, or an entry with what is in front of the first one and the fields behind
it. -/
theorem entry_cases (line : List Char) :
    ' ' ∉ line.takeWhile (· ≠ '\r') ∧ entry line = none ∨
      ∃ key value, line.takeWhile (· ≠ '\r') = key ++ ' ' :: value ∧ ' ' ∉ key ∧
        entry line = some (key, value.splitOn ' ') := by
  unfold entry fields
  by_cases hmem : ' ' ∈ line.takeWhile (· ≠ '\r')
  · obtain ⟨key, value, htext, hkey⟩ := List.eq_append_cons_of_mem hmem
    refine .inr ⟨key, value, htext, hkey, ?_⟩
    rw [htext, List.splitOn_append_cons_self_of_not_mem hkey]
    cases hsplit : value.splitOn ' ' with
    | nil => exact absurd hsplit (List.splitOn_ne_nil ' ' value)
    | cons word words => rfl
  · refine .inl ⟨hmem, ?_⟩
    rw [List.splitOn_eq_singleton hmem]

/-- A line is read as its entry says. -/
theorem readLine_eq (h : '\n' ∉ line) (settings : Settings) :
    readLine settings line = (entry line).elim settings fun e =>
      emplace settings e.1 ([' '].intercalate e.2) := by
  have htext : (line.takeWhile fun c => c ≠ '\r' ∧ c ≠ '\n') = line.takeWhile (· ≠ '\r') := by
    rw [← takeWhile_ne_eq_self h, List.takeWhile_takeWhile, List.takeWhile_takeWhile]
    congr 1
    ext c
    simp
  unfold readLine
  rw [htext]
  rcases entry_cases line with ⟨hmem, hentry⟩ | ⟨key, value, hline, hkey, hentry⟩
  · rw [hentry, if_neg hmem, Option.elim_none]
  · rw [hentry, hline, if_pos (by simp), takeWhile_ne_append hkey, dropWhile_ne_append hkey,
      List.tail_cons, Option.elim_some, List.intercalate_splitOn]

/-- **The first line with a key sets its value.** -/
theorem foldl_readLine_apply {lines : List (List Char)} (h : ∀ line ∈ lines, '\n' ∉ line)
    (settings : Settings) (key : List Char) :
    lines.foldl readLine settings key = (settings key).or
      (((lines.filterMap entry).lookup key).map [' '].intercalate) := by
  induction lines generalizing settings with
  | nil => simp
  | cons line lines ih =>
    rw [List.foldl_cons, ih (fun l hl => h l (List.mem_cons_of_mem _ hl)),
      readLine_eq (h line List.mem_cons_self)]
    cases he : entry line with
    | none => rw [Option.elim_none, List.filterMap_cons_none he]
    | some e =>
      rw [Option.elim_some, emplace_apply, List.filterMap_cons_some he, List.lookup_cons,
        Option.or_assoc]
      by_cases hkey : key = e.1
      · simp [hkey]
      · have hbeq : (key == e.1) = false := beq_eq_false_iff_ne.mpr hkey
        simp [hbeq]

/-- What the constructor makes of a file. -/
theorem construct_apply (content key : List Char) :
    construct (content.splitOn '\n') key =
      ((entries content).lookup key).map [' '].intercalate := by
  unfold construct entries
  rw [foldl_readLine_apply notMem_of_mem_splitOn, Option.none_or]

/-! ### The loop over the gamemodes -/

theorem gamemode_injective : Function.Injective gamemode := fun _ _ h =>
  formatD_injective (List.append_cancel_left h)

theorem behind_eq_some {words : List (List Char)} {i : ℕ} (h : behind content i = some words) :
    ∃ value : List Char, words = value.splitOn ' ' := by
  obtain ⟨l₁, l₂, hsplit, -⟩ := List.lookup_eq_some_iff.mp h
  have hmem : (gamemode i, words) ∈ entries content := by simp [hsplit]
  obtain ⟨line, -, hline⟩ := List.mem_filterMap.mp hmem
  rcases entry_cases line with ⟨-, hentry⟩ | ⟨key, value, -, -, hentry⟩
  · exact absurd (hentry.symm.trans hline) (by simp)
  · exact ⟨value, (Prod.ext_iff.mp (Option.some.inj (hentry.symm.trans hline))).2.symm⟩

/-- **A file does not have more gamemodes than lines.** -/
theorem exists_behind_eq_none (content : List Char) :
    ∃ n ≤ (content.splitOn '\n').length, behind content n = none := by
  by_contra hsome
  push Not at hsome
  have hnodup : ((List.range ((content.splitOn '\n').length + 1)).map gamemode).Nodup :=
    List.Nodup.map gamemode_injective List.nodup_range
  have hsubset : (List.range ((content.splitOn '\n').length + 1)).map gamemode ⊆
      (entries content).map Prod.fst := by
    intro key hkey
    obtain ⟨i, hi, rfl⟩ := List.mem_map.mp hkey
    rw [List.mem_range] at hi
    obtain ⟨words, hwords⟩ := Option.ne_none_iff_exists'.mp (hsome i (by omega))
    obtain ⟨l₁, l₂, hsplit, -⟩ := List.lookup_eq_some_iff.mp hwords
    simp [hsplit]
  have hlen := (List.subperm_of_subset hnodup hsubset).length_le
  have hentries : (entries content).length ≤ (content.splitOn '\n').length :=
    List.length_filterMap_le _ _
  simp only [List.length_map, List.length_range] at hlen
  omega

/-- The field right behind the key. -/
def first (content : List Char) (i : ℕ) : Option (List Char) := (behind content i).bind List.head?

theorem first_eq_none {i : ℕ} : first content i = none ↔ behind content i = none := by
  unfold first
  cases h : behind content i with
  | none => simp
  | some words =>
    obtain ⟨value, rfl⟩ := behind_eq_some h
    simp [head?_splitOn]

/-- The name is the value up to its first space. -/
theorem substr_find (value : List Char) :
    substr value 0 (find value 0) = .ok (value.takeWhile (· ≠ ' ')) := by
  by_cases hmem : ' ' ∈ value
  · obtain ⟨name, rest, rfl, hname⟩ := List.eq_append_cons_of_mem hmem
    rw [find_of_space rfl hname, takeWhile_ne_append hname]
    simp [substr]
  · rw [@find_of_notMem value 0 hmem, takeWhile_ne_eq_self hmem]
    simp [substr]

/-- A round takes the field right behind the key. -/
theorem gamemodeRound_eq (content : List Char) (s : Counting) :
    gamemodeRound (construct (content.splitOn '\n')) s =
      match first content s.counter.toNat with
      | some name => .again ⟨s.counter + 1, s.dest ++ [name]⟩
      | none => .leave (.ok (s.counter ≠ 0, s.dest)) := by
  have hvalue : GetVar (construct (content.splitOn '\n')) (gamemode s.counter.toNat) =
      (behind content s.counter.toNat).map [' '].intercalate := construct_apply _ _
  unfold gamemodeRound first
  rw [hvalue]
  cases h : behind content s.counter.toNat with
  | none => rfl
  | some words =>
    obtain ⟨value, rfl⟩ := behind_eq_some h
    simp only [Option.map_some, List.intercalate_splitOn, Option.bind_some, head?_splitOn,
      substr_find]

/-- The first rounds, as long as there are gamemodes. -/
theorem exists_rounds {n : ℕ} (hn : n < 2 ^ 32) (h : ∀ i < n, behind content i ≠ none) :
    ∃ names, names.length = n ∧ (∀ i < n, names[i]? = first content i) ∧
      ∀ r, Ends (gamemodeRound (construct (content.splitOn '\n'))) ⟨0, []⟩ r ↔
        Ends (gamemodeRound (construct (content.splitOn '\n'))) ⟨UInt32.ofNat n, names⟩ r := by
  induction n with
  | zero => exact ⟨[], rfl, by simp, fun r => Iff.rfl⟩
  | succ n ih =>
    obtain ⟨names, hlen, hnames, hends⟩ := ih (by omega) fun i hi => h i (by omega)
    obtain ⟨name, hname⟩ := Option.ne_none_iff_exists'.mp (mt first_eq_none.mp (h n (by omega)))
    have hcounter : (UInt32.ofNat n).toNat = n := UInt32.toNat_ofNat_of_lt' (Nat.lt_of_succ_lt hn)
    have hround : gamemodeRound (construct (content.splitOn '\n')) ⟨UInt32.ofNat n, names⟩ =
        .again ⟨UInt32.ofNat (n + 1), names ++ [name]⟩ := by
      rw [gamemodeRound_eq]
      simp only [hcounter, hname, UInt32.ofNat_add]
      rfl
    refine ⟨names ++ [name], by simp [hlen], fun i hi => ?_, fun r => ?_⟩
    · rcases Nat.lt_succ_iff_lt_or_eq.mp hi with hi | rfl
      · rw [List.getElem?_append_left (by omega)]
        exact hnames i hi
      · rw [← hlen, List.getElem?_concat_length, hlen, hname]
    · rw [hends, ends_of_again hround]

/-- The loop ends at a gamemode that no line has, which its counter has to come to. -/
theorem exists_of_halts
    (h : Halts (gamemodeRound (construct (content.splitOn '\n'))) ⟨0, []⟩) :
    ∃ n < 2 ^ 32, behind content n = none := by
  by_contra hsome
  push Not at hsome
  refine not_halts_of_invariant (fun _ => True) (fun s _ => ?_) trivial h
  have hne := hsome s.counter.toNat s.counter.toNat_lt
  obtain ⟨name, hname⟩ := Option.ne_none_iff_exists'.mp (mt first_eq_none.mp hne)
  rw [gamemodeRound_eq, hname]
  exact ⟨_, rfl, trivial⟩

/-- What the loop ends with. -/
theorem ends_gamemodes {n : ℕ} (hn : n < 2 ^ 32)
    (hleast : IsLeast {n | behind content n = none} n) :
    ∃ names, names.length = n ∧ (∀ i < n, names[i]? = first content i) ∧
      Ends (gamemodeRound (construct (content.splitOn '\n'))) ⟨0, []⟩
        (.ok (decide (0 < n), names)) := by
  have hsome : ∀ i < n, behind content i ≠ none := fun i hi h => absurd (hleast.2 h) (by omega)
  obtain ⟨names, hlen, hnames, hends⟩ := exists_rounds hn hsome
  refine ⟨names, hlen, hnames, (hends _).mpr (ends_of_leave ?_)⟩
  have hcounter : (UInt32.ofNat n).toNat = n := UInt32.toNat_ofNat_of_lt' hn
  have hresult : decide (UInt32.ofNat n ≠ 0) = decide (0 < n) := by
    rw [decide_eq_decide, ne_eq, ← UInt32.toNat_inj, hcounter]
    exact Nat.pos_iff_ne_zero.symm
  rw [gamemodeRound_eq, hcounter, first_eq_none.mpr hleast.1]
  simp only [hresult]

/-- **`GetGamemodeList` returns** for a file with fewer than `2 ^ 32` lines. -/
theorem halts_of_length_lt (h : (content.splitOn '\n').length < 2 ^ 32) :
    Halts (gamemodeRound (construct (content.splitOn '\n'))) ⟨0, []⟩ := by
  obtain ⟨m, hm, hnone⟩ := exists_behind_eq_none content
  have hex : ∃ n, behind content n = none := ⟨m, hnone⟩
  have hlt : Nat.find hex < 2 ^ 32 := by
    have := Nat.find_min' hex hnone
    omega
  obtain ⟨names, -, -, hends⟩ :=
    ends_gamemodes hlt ⟨Nat.find_spec hex, fun _ hi => Nat.find_min' hex hi⟩
  exact ⟨_, hends⟩

/-- Whatever is read faithfully has a field right behind each key. -/
theorem exists_of_readsFaithfully (h : ReadsFaithfully content) :
    ∃ n < 2 ^ 32, behind content n = none ∧
      ∀ i < n, ∃ word words, behind content i = some (word :: words) ∧ word ≠ [] := by
  obtain ⟨settings, names, rounds, hread, hlist, hleast, hword⟩ := h
  obtain rfl := hread.unique (ends_read content fun _ => none)
  obtain ⟨m, hm, hnone⟩ := exists_of_halts ⟨_, rounds, hlist⟩
  have hlt : names.length < 2 ^ 32 := lt_of_le_of_lt (hleast.2 hnone) hm
  obtain ⟨names', hlen, hnames, hends⟩ := ends_gamemodes hlt hleast
  have hsame := Except.ok.inj (Ends.unique ⟨rounds, hlist⟩ hends)
  obtain rfl : names = names' := (Prod.ext_iff.mp hsame).2
  refine ⟨names.length, hlt, hleast.1, fun i hi => ?_⟩
  obtain ⟨words, hwords, hfind⟩ := hword i hi
  rw [hnames i hi, first, hwords, Option.bind_some] at hfind
  cases words with
  | nil => exact absurd (hnames i hi) (by simp [first, hwords, hi])
  | cons word words => exact ⟨word, words, hwords, by simpa using List.find?_some hfind⟩

/-- **When the gamemodes are read faithfully**: when the counter comes to one that no line has, and
behind the keys of those in front of it there is a field right away. -/
theorem readsFaithfully_iff (content : List Char) :
    ReadsFaithfully content ↔ ∃ n < 2 ^ 32, behind content n = none ∧
      ∀ i < n, ∃ word words, behind content i = some (word :: words) ∧ word ≠ [] := by
  refine ⟨exists_of_readsFaithfully, ?_⟩
  rintro ⟨n, hn, hnone, hsome⟩
  have hleast : IsLeast {n | behind content n = none} n := by
    refine ⟨hnone, fun i hi => ?_⟩
    by_contra hlt
    obtain ⟨word, words, hwords, -⟩ := hsome i (by omega)
    exact absurd (hwords.symm.trans hi) (by simp)
  obtain ⟨names, rfl, hnames, rounds, hrounds⟩ := ends_gamemodes hn hleast
  refine ⟨_, names, rounds, ends_read content _, hrounds, hleast, fun i hi => ?_⟩
  obtain ⟨word, words, hwords, hne⟩ := hsome i hi
  refine ⟨_, hwords, ?_⟩
  rw [hnames i hi, first, hwords, Option.bind_some, List.head?_cons,
    List.find?_cons_of_pos (by simpa using hne)]

/-- With two spaces behind the key the gamemode is read without its name. -/
theorem not_readsFaithfully_two_spaces :
    ¬ ReadsFaithfully
      ['g', 'a', 'm', 'e', 'm', 'o', 'd', 'e', '0', ' ', ' ', 'd', 'm', ' ', '1'] := by
  intro h
  obtain ⟨n, -, hnone, hsome⟩ := exists_of_readsFaithfully h
  have hbehind :
      behind ['g', 'a', 'm', 'e', 'm', 'o', 'd', 'e', '0', ' ', ' ', 'd', 'm', ' ', '1'] 0 =
        some [[], ['d', 'm'], ['1']] := by decide
  have hpos : 0 < n := by
    by_contra hzero
    obtain rfl : n = 0 := by omega
    exact absurd (hbehind.symm.trans hnone) (by simp)
  obtain ⟨word, words, hwords, hne⟩ := hsome 0 hpos
  rw [hbehind] at hwords
  exact hne (List.cons.inj (Option.some.inj hwords)).1.symm

end SampLogCore.Config.Gamemodes
