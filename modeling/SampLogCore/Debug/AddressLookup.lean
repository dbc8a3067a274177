import SampLogCore.Debug.PluginLogger
import SampLogCore.Lib.Lookup

/-!
# Address lookup

`GetFunctionCall` searches the line table, the file table and the symbols. Its search of the line
table runs to the end that the position of the first symbol gives, for the count in the header of
the tables has 16 bits only; and where `dbg_LookupLine` takes the last entry when the search runs
off the end, `GetFunctionCall` gives up. So an address in a function resolves exactly when some line
entry is above it (`resolves_iff`): those from the last entry on do not.
-/

namespace SampLogCore.Debug.AddressLookup

open SampLogCore.Lib.Loop SampLogCore.Lib.Lookup SampLogCore.Debug.AmxDebugManager
  SampLogCore.Debug.PluginLogger

/-- `sizeof(AMX_DBG_LINE)`. -/
def sizeof_AMX_DBG_LINE : ℕ := 8

/-- `num_lines`, from the positions of the line table and of the first symbol. -/
def num_lines (linetbl symbol : ℕ) : ℕ := (symbol - linetbl) / sizeof_AMX_DBG_LINE

/-- One round of the search of the line table. -/
def lineRound (linetbl : List AMX_DBG_LINE) (num_lines : ℕ) (address : Cell) (index : ℕ) :
    Round ℕ ℕ :=
  if index < num_lines then
    match linetbl[index]? with
    | some l => if l.address ≤ address then .again (index + 1) else .leave index
    | none => .leave index
  else .leave index

/-- The extent does not depend on how long the table is. -/
theorem num_lines_eq (linetbl lines : ℕ) :
    num_lines linetbl (linetbl + sizeof_AMX_DBG_LINE * lines) = lines := by
  rw [num_lines, Nat.add_sub_cancel_left]
  exact Nat.mul_div_cancel_left lines (by decide)

/-- The search stops where `AmxDebugManager.lookup` takes the table apart. -/
theorem ends_lineRound (linetbl : List AMX_DBG_LINE) (address : Cell) :
    Ends (lineRound linetbl linetbl.length address) 0
      (linetbl.takeWhile (·.address ≤ address)).length := by
  have hround : lineRound linetbl linetbl.length address =
      scanRound (·.address ≤ address) linetbl := by
    funext index
    unfold lineRound scanRound
    by_cases hindex : index < linetbl.length
    · simp [hindex]
    · simp [hindex]
  have hends := ends_scan (·.address ≤ address) linetbl 0
  rw [List.drop_zero, Nat.zero_add] at hends
  rw [hround]
  exact hends

/-- A function symbol that contains the address. -/
def Contains (address : Cell) (s : AMX_DBG_SYMBOL) : Prop :=
  s.ident = iFUNCTN ∧ s.codestart ≤ address ∧ address < s.codeend

variable {P : Type*} [DecidableEq P]

/-- The lookup gives the line, the file and a function of the address. -/
def Resolves (m : Manager P) (amx : P) (amx_dbg : AMX_DBG) (address : Cell)
    (dest : AmxFuncCallInfo) : Prop :=
  ∃ info, GetFunctionCall m amx address dest = some (true, info) ∧
    (∃ l, IsLastBelow (·.address.toNat) address.toNat amx_dbg.linetbl l ∧ info.line = 1 + l.line) ∧
    (∃ f, IsLastBelow (·.address.toNat) address.toNat amx_dbg.filetbl f ∧
      info.file = some f.name) ∧
    ∃ s ∈ amx_dbg.symboltbl, Contains address s ∧ info.function = some s.name

/-! ### The tables -/

variable {amx_dbg : AMX_DBG} {address : Cell} {dest : AmxFuncCallInfo}

/-- The keys of a search are the addresses as numbers. -/
theorem takeWhile_address {α : Type*} (key : α → Cell) (tbl : List α) :
    tbl.takeWhile (fun x => decide (key x ≤ address)) =
      tbl.takeWhile fun x => decide ((key x).toNat ≤ address.toNat) :=
  rfl

/-- A table that begins at or below the address has an entry for it. -/
theorem exists_entry {α : Type*} {key : α → Cell} {tbl : List α}
    (hfirst : ∃ x, tbl.head? = some x ∧ key x ≤ address) :
    ∃ x, (tbl.takeWhile fun x => decide (key x ≤ address)).getLast? = some x := by
  rw [takeWhile_address key]
  exact exists_getLast (by simpa only [UInt32.le_iff_toNat_le] using hfirst)

theorem isLastBelow_entry {α : Type*} {key : α → Cell} {tbl : List α} {x : α}
    (h : tbl.Pairwise fun x y => key x ≤ key y)
    (hx : (tbl.takeWhile fun x => decide (key x ≤ address)).getLast? = some x) :
    IsLastBelow (fun x => (key x).toNat) address.toNat tbl x := by
  rw [takeWhile_address key] at hx
  exact isLastBelow_getLast (h.imp fun h => UInt32.le_iff_toNat_le.mp h) hx

/-- A function that contains the address is found. -/
theorem exists_function (h : ∃ s ∈ amx_dbg.symboltbl, Contains address s) :
    ∃ s ∈ amx_dbg.symboltbl, Contains address s ∧
      dbg_LookupFunction amx_dbg address = some s.name := by
  obtain ⟨s, hs, hcontains⟩ := h
  unfold Contains at hcontains ⊢
  unfold dbg_LookupFunction
  cases hfind : amx_dbg.symboltbl.reverse.find? fun s =>
      s.ident = iFUNCTN ∧ s.codestart ≤ address ∧ address < s.codeend with
  | none =>
    rw [List.find?_eq_none] at hfind
    exact absurd (by simpa using hcontains) (hfind s (List.mem_reverse.mpr hs))
  | some t =>
    exact ⟨t, List.mem_reverse.mp (List.mem_of_find?_eq_some hfind),
      by simpa using List.find?_some hfind, rfl⟩

/-- What the lookup gives when every table has an entry. -/
theorem lookup_eq {l : AMX_DBG_LINE} {file function : String}
    (hl : (amx_dbg.linetbl.takeWhile (·.address ≤ address)).getLast? = some l)
    (hfile : dbg_LookupFile amx_dbg address = some file)
    (hfunction : dbg_LookupFunction amx_dbg address = some function) :
    lookup amx_dbg address dest =
      if (amx_dbg.linetbl.takeWhile (·.address ≤ address)).length ≥ amx_dbg.linetbl.length
      then (false, dest) else (true, ⟨l.line + 1, some file, some function⟩) := by
  unfold lookup
  simp only [hl, hfile, hfunction, reduceCtorEq, if_false]

/-! ### Registered scripts -/

variable {disableDebugInfo : Bool} {available : List (AMX_HEADER × AMX_DBG)} {amx : P}

/-- While debug information is disabled nothing is registered. -/
def Idle (m : Manager P) : Prop := m.disableDebugInfo = true → ∀ amx, m.amxDebugMap amx = none

theorem Idle.run {m : Manager P} (h : Idle m) (call : Call P) : Idle (Call.run m call) := by
  cases call with
  | RegisterAmx amx base =>
    change Idle (m.RegisterAmx amx base)
    unfold Manager.RegisterAmx
    split_ifs with hdisabled
    · exact h
    · exact h
    · split
      · exact fun hdisabled' => absurd hdisabled' hdisabled
      · exact h
  | EraseAmx amx =>
    change Idle (m.EraseAmx amx)
    unfold Manager.EraseAmx
    split_ifs with hdisabled
    · exact h
    · exact fun hdisabled' => absurd hdisabled' hdisabled

theorem idle_history (calls : List (Call P)) :
    Idle (history disableDebugInfo available calls) := by
  have hfold : ∀ (calls : List (Call P)) (m : Manager P), Idle m →
      Idle (calls.foldl Call.run m) := by
    intro calls
    induction calls with
    | nil => exact fun m h => h
    | cons call calls ih => exact fun m h => ih _ (h.run call)
  exact hfold calls _ fun _ _ => rfl

/-- **When an address of a function resolves**: when some line entry is above it. -/
theorem resolves_iff {calls : List (Call P)} {address : Cell}
    (hregistered : (history disableDebugInfo available calls).amxDebugMap amx = some amx_dbg)
    (hlines : amx_dbg.linetbl.Pairwise fun l m => l.address < m.address)
    (hfiles : amx_dbg.filetbl.Pairwise fun f g => f.address ≤ g.address)
    (hline : ∃ l, amx_dbg.linetbl.head? = some l ∧ l.address ≤ address)
    (hfile : ∃ f, amx_dbg.filetbl.head? = some f ∧ f.address ≤ address)
    (hfunction : ∃ s ∈ amx_dbg.symboltbl, Contains address s) (dest : AmxFuncCallInfo) :
    Resolves (history disableDebugInfo available calls) amx amx_dbg address dest ↔
      ∃ l ∈ amx_dbg.linetbl, address < l.address := by
  have henabled : (history disableDebugInfo available calls).disableDebugInfo = false := by
    by_contra hdisabled
    rw [idle_history calls (by simpa using hdisabled)] at hregistered
    exact absurd hregistered (by simp)
  have hsymbols : amx_dbg.symboltbl ≠ [] := by
    obtain ⟨s, hs, -⟩ := hfunction
    exact List.ne_nil_of_mem hs
  obtain ⟨l, hl⟩ := exists_entry hline
  obtain ⟨f, hf⟩ := exists_entry hfile
  obtain ⟨s, hs, hcontains, hname⟩ := exists_function hfunction
  have hfname : dbg_LookupFile amx_dbg address = some f.name := by
    rw [dbg_LookupFile, hf]
    rfl
  have hcall : GetFunctionCall (history disableDebugInfo available calls) amx address dest =
      some (lookup amx_dbg address dest) := by
    simp [GetFunctionCall, henabled, hregistered, hsymbols]
  have habove : (∃ l ∈ amx_dbg.linetbl, address < l.address) ↔
      (amx_dbg.linetbl.takeWhile (·.address ≤ address)).length < amx_dbg.linetbl.length := by
    rw [takeWhile_address AMX_DBG_LINE.address, takeWhile_lt_iff]
    simp only [UInt32.lt_iff_toNat_lt]
  rw [habove, Resolves, hcall, lookup_eq hl hfname hname]
  constructor
  · rintro ⟨info, hinfo, -⟩
    by_contra hend
    rw [if_pos (by omega)] at hinfo
    exact absurd hinfo (by simp)
  · intro hlt
    rw [if_neg (by omega)]
    refine ⟨_, rfl, ⟨l, isLastBelow_entry ?_ hl, Int32.add_comm _ _⟩,
      ⟨f, isLastBelow_entry hfiles hf, rfl⟩, s, hs, hcontains, rfl⟩
    exact hlines.imp fun h => UInt32.le_of_lt h

/-! ### A function of two lines -/

/-- The second line begins at address 8, and the function ends at 16. -/
def twoLines : AMX_DBG where
  filetbl := [⟨0, "test.pwn"⟩]
  linetbl := [⟨0, 0⟩, ⟨8, 1⟩]
  symboltbl := [⟨0, 16, iFUNCTN, "main"⟩]

/-- A script with this table has been registered. -/
def twoLinesManager : Manager Unit := history false [([], twoLines)] [.RegisterAmx () []]

theorem main_contains {address : Cell} (h : address < 16) :
    ∃ s ∈ twoLines.symboltbl, Contains address s :=
  ⟨_, List.mem_singleton.mpr rfl, rfl, UInt32.zero_le, h⟩

/-- An address in the first line resolves. -/
theorem resolves_firstLine : Resolves twoLinesManager () twoLines 4 ⟨0, none, none⟩ :=
  (resolves_iff (by rfl) (by decide) (by decide) ⟨_, rfl, by decide⟩ ⟨_, rfl, by decide⟩
    (main_contains (by decide)) ⟨0, none, none⟩).mpr ⟨⟨8, 1⟩, by simp [twoLines], by decide⟩

/-- An address in the last line does not. -/
theorem not_resolves_lastLine :
    (∃ s ∈ twoLines.symboltbl, Contains 12 s) ∧
      GetFunctionCall twoLinesManager () 12 ⟨0, none, none⟩ = some (false, ⟨0, none, none⟩) ∧
      ¬ Resolves twoLinesManager () twoLines 12 ⟨0, none, none⟩ := by
  have hcall : GetFunctionCall twoLinesManager () 12 ⟨0, none, none⟩ =
      some (false, ⟨0, none, none⟩) := by rfl
  refine ⟨main_contains (by decide), hcall, ?_⟩
  rintro ⟨info, hinfo, -⟩
  rw [hcall] at hinfo
  exact absurd hinfo (by simp)

end SampLogCore.Debug.AddressLookup
