import Mathlib.Logic.Function.Basic
import SampLogCore.Config.Yaml
import SampLogCore.Lib.Fields
import SampLogCore.Lib.Loop

/-!
# The server configuration

`SampConfigReader` reads the lines of `server.cfg`, each a name and a value with a space between
them, and `GetVarList` splits a value at its spaces. The loop of `GetVarList` marks its first round
by the position `0`, which is also where a space at the beginning of the value is found: then every
round is the first one, and the loop never ends. Any other value is split as it should
(`getVarList_splits_iff`).

A position is a number, and `std::string::npos` is `none`.
-/

namespace SampLogCore.Config.SampConfigReader

open SampLogCore.Lib.Fields SampLogCore.Lib.Loop SampLogCore.Config.Yaml

/-- `_settings`. -/
abbrev Settings := List Char → Option (List Char)

/-- `_settings.emplace(name, value)`: a name keeps its first value. -/
def emplace (settings : Settings) (name value : List Char) : Settings :=
  match settings name with
  | some _ => settings
  | none => Function.update settings name (some value)

/-- One round of the loop over the lines of the file. -/
def readLine (settings : Settings) (line_buffer : List Char) : Settings :=
  let line := line_buffer.takeWhile fun c => c ≠ '\r' ∧ c ≠ '\n'
  if ' ' ∈ line then
    emplace settings (line.takeWhile (· ≠ ' ')) (line.dropWhile (· ≠ ' ')).tail
  else settings

/-- `SampConfigReader::SampConfigReader`, for a `server.cfg` with these lines. -/
def construct (lines : List (List Char)) : Settings := lines.foldl readLine fun _ => none

/-- `SampConfigReader::GetVar`. -/
def GetVar (settings : Settings) (varname : List Char) : Option (List Char) := settings varname

/-- `data.find(' ', pos)`. -/
def find (data : List Char) (pos : ℕ) : Option ℕ := findFrom ' ' data pos

/-- `data.substr(pos, stop - pos)`. -/
def substr (data : List Char) (pos : ℕ) (stop : Option ℕ) : Except Fault (List Char) :=
  if pos > data.length then .error .outOfRange
  else
    match stop with
    | some stop => .ok ((data.drop pos).take (stop - pos))
    | none => .ok (data.drop pos)

/-- The variables of the loop in `GetVarList`. -/
structure Split where
  last_pos : Option ℕ
  dest : List (List Char)

/-- One round of the loop in `GetVarList`. -/
def splitRound (data : List Char) (s : Split) : Round Split (Except Fault (List (List Char))) :=
  match s.last_pos with
  | none => .leave (.ok s.dest)
  | some last_pos =>
    let last_pos := if last_pos ≠ 0 then last_pos + 1 else last_pos
    let current_pos := find data last_pos
    match substr data last_pos current_pos with
    | .error e => .leave (.error e)
    | .ok part => .again ⟨current_pos, s.dest ++ [part]⟩

/-- `SampConfigReader::GetVarList`: the result and `dest`, if the loop ends within these rounds. -/
def GetVarList (settings : Settings) (varname : List Char) (dest : List (List Char)) (rounds : ℕ) :
    Option (Except Fault (Bool × List (List Char))) :=
  match GetVar settings varname with
  | none => some (.ok (false, dest))
  | some data => (iter (splitRound data) rounds ⟨some 0, []⟩).map (Except.map (true, ·))

/-- `GetVarList` returns the split of the value at its spaces. -/
def Splits (settings : Settings) (varname : List Char) (dest : List (List Char))
    (value : List Char) : Prop :=
  ∃ rounds parts, GetVarList settings varname dest rounds = some (.ok (true, parts)) ∧
    parts = value.splitOn ' ' ∧ (∀ part ∈ parts, ' ' ∉ part) ∧ [' '].intercalate parts = value

/-! ### One round -/

/-- Where a round begins to search. -/
def start (last_pos : ℕ) : ℕ := if last_pos ≠ 0 then last_pos + 1 else last_pos

variable {data part rest : List Char} {pos last_pos : ℕ} {dest : List (List Char)}

theorem find_of_space (h : data.drop pos = part ++ ' ' :: rest) (hpart : ' ' ∉ part) :
    find data pos = some (pos + part.length) :=
  findFrom_of_drop h hpart

theorem find_of_notMem (h : ' ' ∉ data.drop pos) : find data pos = none :=
  findFrom_of_notMem h

/-- A round that finds a space. -/
theorem splitRound_of_space (h : data.drop (start last_pos) = part ++ ' ' :: rest)
    (hpart : ' ' ∉ part) :
    splitRound data ⟨some last_pos, dest⟩ =
      .again ⟨some (start last_pos + part.length), dest ++ [part]⟩ := by
  have hle : ¬ start last_pos > data.length := by
    intro hgt
    rw [List.drop_eq_nil_of_le (by omega)] at h
    exact absurd h (by simp)
  have hsub : substr data (start last_pos) (some (start last_pos + part.length)) = .ok part := by
    simp [substr, hle, h]
  have hfind := find_of_space h hpart
  unfold start at hfind hsub ⊢
  simp only [splitRound, hfind, hsub]

/-- The last round that reads a part. -/
theorem splitRound_of_notMem (h : ' ' ∉ data.drop (start last_pos))
    (hle : start last_pos ≤ data.length) :
    splitRound data ⟨some last_pos, dest⟩ =
      .again ⟨none, dest ++ [data.drop (start last_pos)]⟩ := by
  have hsub : substr data (start last_pos) none = .ok (data.drop (start last_pos)) := by
    simp [substr, Nat.not_lt.mpr hle]
  have hfind := find_of_notMem h
  unfold start at hfind hsub ⊢
  simp only [splitRound, hfind, hsub]

/-! ### The whole loop -/

/-- From any round but a first one in front of a space the loop ends with the split of the rest. -/
theorem ends_split (hle : start last_pos ≤ data.length)
    (hfirst : start last_pos = 0 → data.head? ≠ some ' ') :
    Ends (splitRound data) ⟨some last_pos, dest⟩
      (.ok (dest ++ (data.drop (start last_pos)).splitOn ' ')) := by
  induction hn : data.length - start last_pos using Nat.strongRecOn generalizing last_pos dest with
  | ind n ih =>
    by_cases hmem : ' ' ∈ data.drop (start last_pos)
    · obtain ⟨part, rest, hdrop, hpart⟩ := List.eq_append_cons_of_mem hmem
      have hlen := congrArg List.length hdrop
      simp only [List.length_drop, List.length_append, List.length_cons] at hlen
      -- the space is not at the beginning of the value
      have hne : start last_pos + part.length ≠ 0 := by
        intro hzero
        have hstart : start last_pos = 0 := by omega
        have hnil : part = [] := List.length_eq_zero_iff.mp (by omega)
        rw [hstart, List.drop_zero, hnil, List.nil_append] at hdrop
        exact hfirst hstart (by rw [hdrop]; rfl)
      have hnext : start (start last_pos + part.length) = start last_pos + part.length + 1 :=
        if_pos hne
      have hrest : data.drop (start (start last_pos + part.length)) = rest := by
        rw [hnext, Nat.add_assoc, ← List.drop_drop, hdrop]
        simp
      rw [ends_of_again (splitRound_of_space hdrop hpart), hdrop,
        List.splitOn_append_cons_self_of_not_mem hpart]
      have hends := @ih (data.length - start (start last_pos + part.length)) (by omega)
        (start last_pos + part.length) (dest ++ [part]) (by omega) (by omega) rfl
      rw [hrest] at hends
      simpa using hends
    · rw [ends_of_again (splitRound_of_notMem hmem hle), List.splitOn_eq_singleton hmem]
      exact ends_of_leave rfl

/-- In front of a space every round is the first one. -/
theorem not_halts_of_space (h : data.head? = some ' ') :
    ¬ Halts (splitRound data) ⟨some 0, []⟩ := by
  obtain ⟨rest, rfl⟩ := List.head?_eq_some_iff.mp h
  refine not_halts_of_invariant (fun s => s.last_pos = some 0) ?_ rfl
  rintro ⟨last_pos, dest⟩ rfl
  exact ⟨_, @splitRound_of_space _ [] rest 0 dest rfl (by simp), rfl⟩

/-- `GetVarList` returns when its loop ends. -/
theorem halts_of_getVarList {settings : Settings} {varname : List Char} {rounds : ℕ}
    {r : Except Fault (Bool × List (List Char))} (h : GetVar settings varname = some data)
    (hlist : GetVarList settings varname dest rounds = some r) :
    Halts (splitRound data) ⟨some 0, []⟩ := by
  simp only [GetVarList, h] at hlist
  obtain ⟨r', hr', -⟩ := Option.map_eq_some_iff.mp hlist
  exact ⟨r', rounds, hr'⟩

/-- **When a value is split**: when it does not begin with a space. -/
theorem getVarList_splits_iff {settings : Settings} {varname value : List Char}
    (h : GetVar settings varname = some value) (dest : List (List Char)) :
    Splits settings varname dest value ↔ value.head? ≠ some ' ' := by
  constructor
  · rintro ⟨rounds, parts, hlist, -⟩ hspace
    exact not_halts_of_space hspace (halts_of_getVarList h hlist)
  · intro hfirst
    obtain ⟨rounds, hrounds⟩ := @ends_split value 0 [] (Nat.zero_le _) fun _ => hfirst
    have hstart : start 0 = 0 := rfl
    rw [hstart, List.drop_zero, List.nil_append] at hrounds
    refine ⟨rounds, value.splitOn ' ', ?_, rfl, notMem_of_mem_splitOn,
      List.intercalate_splitOn ' '⟩
    simp [GetVarList, h, hrounds, Except.map]

/-- Two plugins. -/
theorem getVarList_splits_plugins :
    Splits (construct [['p', ' ', 'a', ' ', 'b', '\r']]) ['p'] [] ['a', ' ', 'b'] :=
  (getVarList_splits_iff (by rfl) []).mpr (by decide)

/-- With two spaces behind the name the value begins with a space, and is never split. -/
theorem not_splits_two_spaces :
    GetVar (construct [['p', ' ', ' ', 'a']]) ['p'] = some [' ', 'a'] ∧
      ¬ Splits (construct [['p', ' ', ' ', 'a']]) ['p'] [] [' ', 'a'] := by
  have hvalue : GetVar (construct [['p', ' ', ' ', 'a']]) ['p'] = some [' ', 'a'] := by rfl
  refine ⟨hvalue, ?_⟩
  rintro ⟨rounds, parts, hlist, -⟩
  exact not_halts_of_space rfl (halts_of_getVarList hvalue hlist)

end SampLogCore.Config.SampConfigReader
