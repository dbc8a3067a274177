import SampLogCore.Debug.DebugFile
import Mathlib.Data.List.Forall2

/-!
# Lookups in a loaded file

What `GetFunctionCall` and the lookups it calls read through the pointers of a loaded file is what
`AmxDebugManager.lookup` reads in the tables that the file was written from (`lookup_loaded`). With
a symbol no read leaves the block, also in a file that no compiler has written, and the end of the
lines is where the first symbol begins. Without one there is no such place: `symboltbl[0]` is read
through a null pointer, for every address.
-/

namespace SampLogCore.Debug.LoadedLookup

open SampLogCore.Lib.Records SampLogCore.Lib.Bytes SampLogCore.Amx.Strings
  SampLogCore.Debug.LoadInfo SampLogCore.Debug.Tables SampLogCore.Debug.DebugFile
open SampLogCore.Debug.AmxDebugManager (Cell AMX_DBG AmxFuncCallInfo iFUNCTN)
open SampLogCore.Debug.AddressLookup (num_lines num_lines_eq sizeof_AMX_DBG_LINE)

/-! ### Searches -/

section Search

variable {α β : Type*} {R : ℕ → α → Prop} {test : ℕ → Option Bool} {P : α → Bool}

/-- A search through pointers goes on as long as the one through the entries. -/
theorem searchWhile_eq (htest : ∀ p a, R p a → test p = some (P a)) :
    ∀ {ps : List ℕ} {l : List α}, List.Forall₂ R ps l →
      searchWhile test ps = some (l.takeWhile P).length
  | _, _, .nil => rfl
  | _, _, .cons (a := p) (b := a) hpa hrest => by
    rw [searchWhile, htest p a hpa, searchWhile_eq htest hrest]
    by_cases hp : P a = true
    · simp [hp]
    · simp [hp]

/-- The pointer in front of where it stops is that of the last entry passed. -/
theorem exists_pointer {ps : List ℕ} {l : List α} (h : List.Forall₂ R ps l) {a : α}
    (ha : (l.takeWhile P).getLast? = some a) :
    ∃ p, ps[(l.takeWhile P).length - 1]? = some p ∧ R p a := by
  obtain ⟨i, hi⟩ : ∃ i, i = (l.takeWhile P).length - 1 := ⟨_, rfl⟩
  have hget : l[i]? = some a := by
    rw [List.getLast?_eq_getElem?, ← hi] at ha
    obtain ⟨after, hafter⟩ := List.takeWhile_prefix P (l := l)
    rw [← hafter]
    exact List.getElem?_append_left (List.getElem?_eq_some_iff.mp ha).1 ▸ ha
  obtain ⟨hlt, hget⟩ := List.getElem?_eq_some_iff.mp hget
  have hltp : i < ps.length := by rwa [h.length_eq]
  refine ⟨ps[i], by rw [← hi, List.getElem?_eq_getElem hltp], ?_⟩
  have hR := h.get hltp hlt
  simpa [hget] using hR

/-- The first pointer that passes is that of the first entry that passes. -/
theorem searchFor_eq (htest : ∀ p a, R p a → test p = some (P a)) :
    ∀ {ps : List ℕ} {l : List α}, List.Forall₂ R ps l →
      (searchFor test ps = some none ∧ l.find? P = none) ∨
        ∃ p a, searchFor test ps = some (some p) ∧ l.find? P = some a ∧ R p a
  | _, _, .nil => .inl ⟨rfl, rfl⟩
  | _, _, .cons (a := p) (b := a) hpa hrest => by
    by_cases hp : P a = true
    · exact .inr ⟨p, a, by simp [searchFor, htest p a hpa, hp], by simp [hp], hpa⟩
    · have hsearch : ∀ ps, searchFor test (p :: ps) = searchFor test ps := fun ps => by
        simp [searchFor, htest p a hpa, hp]
      rw [hsearch, List.find?_cons_of_neg hp]
      exact searchFor_eq htest hrest

end Search

/-! ### What the pointers lead to -/

/-- The text of a name. -/
def nameText (n : Name) : String := LoadInfo.text (n.first :: n.rest)

/-- The tables as `GetFunctionCall` sees them. -/
def view (T : Tables) : AMX_DBG where
  filetbl := T.files.map fun f => ⟨f.address, nameText f.name⟩
  linetbl := T.lines
  symboltbl := T.symbols.map fun s => ⟨s.codestart, s.codeend, s.ident, nameText s.name⟩

variable {mem beyond : List UInt8} {p q q' : ℕ}

theorem read32_of_append {c : UInt32} (h : read32 (mem ++ beyond) p = some c)
    (hle : p + 4 ≤ mem.length) : read32 mem p = some c := by
  obtain ⟨d, hd⟩ := exists_read32 mem p hle
  rw [hd, ← h, ← read32_append hd]

theorem getElem?_of_append {b : UInt8} (h : (mem ++ beyond)[p]? = some b) (hle : p < mem.length) :
    mem[p]? = some b := by
  rwa [List.getElem?_append_left hle] at h

/-- A name that ends in the block is in the block. -/
theorem at_name_of_append {n : Name} (h : nameFormat.At (mem ++ beyond) p q n)
    (hskip : skip 0 mem (p + 1) = some q') : nameFormat.At mem p q n := by
  obtain ⟨hfirst, hrest⟩ := at_name.mp h
  obtain ⟨rest, hat⟩ := skip_eq_some_iff.mp hskip
  have hlt := lt_of_skip hskip
  obtain rfl : n.rest = rest := hrest.unique (hat.append hlt.2)
  have hq : q = q' := by rw [hrest.2.2, hat.2.2]
  rw [hq]
  exact at_name.mpr ⟨getElem?_of_append hfirst (by omega), hat⟩

/-- The string that a name is read as. -/
theorem stringAt_eq {img : Image} {n : Name} (h : nameFormat.At img.hdr p q n) :
    img.stringAt p = some (nameText n) := by
  obtain ⟨hfirst, hrest⟩ := at_name.mp h
  have hlt : p < img.hdr.length := (List.getElem?_eq_some_iff.mp hfirst).1
  have hcons : img.hdr.drop p = n.first :: img.hdr.drop (p + 1) := by
    rw [List.drop_eq_getElem_cons hlt, (List.getElem?_eq_some_iff.mp hfirst).2]
  by_cases hzero : n.first = 0
  · have hskip : skip 0 img.hdr p = some (p + 1) := by
      rw [skip, hcons, behind, if_pos hzero]
      rfl
    rw [Image.stringAt, hskip]
    simp [nameText, text, beforeZero, hzero]
  · have hat : (Format.terminated 0).At img.hdr p q (n.first :: n.rest) := by
      obtain ⟨hnot, hpre, rfl⟩ := hrest
      refine ⟨?_, ?_, ?_⟩
      · intro hmem
        rcases List.mem_cons.mp hmem with heq | hmem
        · exact hzero heq.symm
        · exact hnot hmem
      · rw [hcons]
        exact List.cons_prefix_cons.mpr ⟨rfl, hpre⟩
      · simp [Format.terminated]
        omega
    have hskip : skip 0 img.hdr p = some q := skip_eq_some_iff.mpr ⟨_, hat⟩
    obtain ⟨-, ⟨after, hafter⟩, hq⟩ := hat
    have hlen : q - p - 1 = (n.first :: n.rest).length := by
      simp only [Format.terminated, List.length_append, List.length_singleton] at hq
      omega
    have htake : (img.hdr.drop p).take (q - p - 1) = n.first :: n.rest := by
      rw [hlen, ← hafter, Format.terminated, List.append_assoc, List.take_left]
    rw [Image.stringAt, hskip]
    simp only [Option.bind_eq_bind, Option.bind_some, htake]
    rfl

/-- The pointer leads to the file. -/
def PointsToFile (img : Image) (p : ℕ) (f : File) : Prop :=
  read32 img.hdr p = some f.address ∧ img.stringAt (p + 4) = some (nameText f.name)

def PointsToLine (img : Image) (p : ℕ) (l : AmxDebugManager.AMX_DBG_LINE) : Prop :=
  read32 img.hdr p = some l.address ∧ read32 img.hdr (p + 4) = some l.line.toUInt32

structure PointsToSymbol (img : Image) (p : ℕ) (s : Symbol) : Prop where
  codestart : read32 img.hdr (p + 6) = some s.codestart
  codeend : read32 img.hdr (p + 10) = some s.codeend
  ident : img.hdr[p + 14]? = some s.ident
  name : img.stringAt (p + 18) = some (nameText s.name)

/-- A block whose lookups are those in the tables. -/
structure Holds (img : Image) (T : Tables) : Prop where
  files : List.Forall₂ (PointsToFile img) img.filetbl T.files
  lines : List.Forall₂ (PointsToLine img) ((List.range T.lines.length).map img.line) T.lines
  symbols : List.Forall₂ (PointsToSymbol img) img.symboltbl T.symbols
  extent : ∀ symbol ∈ img.symboltbl.head?, num_lines img.linetbl symbol = T.lines.length

/-! ### The lookups -/

section Lookup

variable {img : Image} {T : Tables} (h : Holds img T) (address : Cell)
include h

theorem dbg_LookupFile_eq :
    img.dbg_LookupFile address = some (AmxDebugManager.dbg_LookupFile (view T) address) := by
  have htest : ∀ p f, PointsToFile img p f →
      img.atOrBelow address p = some (decide (f.address ≤ address)) := fun p f hf => by
    rw [Image.atOrBelow, hf.1]
    rfl
  have hview : AmxDebugManager.dbg_LookupFile (view T) address =
      (T.files.takeWhile fun f => decide (f.address ≤ address)).getLast?.map
        fun f => nameText f.name := by
    simp only [AmxDebugManager.dbg_LookupFile, view, List.takeWhile_map, List.getLast?_map,
      Option.map_map]
    rfl
  rw [Image.dbg_LookupFile, searchWhile_eq htest h.files, hview]
  cases hlast : (T.files.takeWhile fun f => decide (f.address ≤ address)).getLast? with
  | none =>
    rw [List.getLast?_eq_none_iff] at hlast
    simp [hlast]
  | some f =>
    obtain ⟨p, hp, hpoints⟩ := exists_pointer h.files hlast
    have hne : (T.files.takeWhile fun f => decide (f.address ≤ address)).length ≠ 0 := by
      intro hzero
      rw [List.eq_nil_of_length_eq_zero hzero] at hlast
      simp at hlast
    simp only [Option.bind_eq_bind, Option.bind_some, if_neg hne, hp, hpoints.2]
    rfl

theorem dbg_LookupFunction_eq :
    img.dbg_LookupFunction address =
      some (AmxDebugManager.dbg_LookupFunction (view T) address) := by
  have htest : ∀ p s, PointsToSymbol img p s → img.isFunctionAt address p =
      some (decide (s.ident = iFUNCTN ∧ s.codestart ≤ address ∧ address < s.codeend)) := by
    intro p s hs
    rw [Image.isFunctionAt, hs.ident, hs.codestart, hs.codeend]
    by_cases hident : s.ident = iFUNCTN
    · by_cases hstart : s.codestart ≤ address
      · simp [hident, hstart]
      · simp [hident, hstart]
    · simp [hident]
  have hview : AmxDebugManager.dbg_LookupFunction (view T) address =
      (T.symbols.reverse.find? fun s =>
        decide (s.ident = iFUNCTN ∧ s.codestart ≤ address ∧ address < s.codeend)).map
          fun s => nameText s.name := by
    simp only [AmxDebugManager.dbg_LookupFunction, view, ← List.map_reverse, List.find?_map,
      Option.map_map]
    rfl
  rw [Image.dbg_LookupFunction, hview]
  rcases searchFor_eq htest (List.forall₂_reverse_iff.mpr h.symbols) with
    ⟨hsearch, hfind⟩ | ⟨p, s, hsearch, hfind, hpoints⟩
  · rw [hsearch, hfind]
    rfl
  · rw [hsearch, hfind]
    simp only [Option.bind_eq_bind, Option.bind_some, hpoints.name]
    rfl

theorem lookup_eq (hne : img.symboltbl ≠ []) (dest : AmxFuncCallInfo) :
    img.lookup address dest = some (AmxDebugManager.lookup (view T) address dest) := by
  obtain ⟨symbol, hsymbol⟩ : ∃ symbol, img.symboltbl.head? = some symbol :=
    ⟨img.symboltbl.head hne, List.head?_eq_some_head hne⟩
  have htest : ∀ p l, PointsToLine img p l →
      img.atOrBelow address p = some (decide (l.address ≤ address)) := fun p l hl => by
    rw [Image.atOrBelow, hl.1]
    rfl
  have hextent := h.extent symbol hsymbol
  have hsearch := searchWhile_eq htest h.lines
  have hlines : (view T).linetbl = T.lines := rfl
  rw [Image.lookup, AmxDebugManager.lookup, hlines]
  simp only [hsymbol, hextent, hsearch, Option.bind_eq_bind, Option.bind_some]
  by_cases hend : (T.lines.takeWhile fun l => decide (l.address ≤ address)).length ≥ T.lines.length
  · rw [if_pos hend, if_pos hend]
    rfl
  · rw [if_neg hend, if_neg hend]
    cases hlast : (T.lines.takeWhile fun l => decide (l.address ≤ address)).getLast? with
    | none =>
      have hnil := List.getLast?_eq_none_iff.mp hlast
      rw [if_pos (by rw [hnil]; rfl)]
      rfl
    | some l =>
      obtain ⟨p, hp, hpoints⟩ := exists_pointer h.lines hlast
      have hne : (T.lines.takeWhile fun l => decide (l.address ≤ address)).length ≠ 0 := by
        intro hzero
        rw [List.eq_nil_of_length_eq_zero hzero] at hlast
        simp at hlast
      have hpointer : img.line
          ((T.lines.takeWhile fun l => decide (l.address ≤ address)).length - 1) = p := by
        rw [List.getElem?_map, List.getElem?_range (by omega)] at hp
        exact Option.some.inj hp
      rw [if_neg hne, hpointer, hpoints.2, dbg_LookupFile_eq h, dbg_LookupFunction_eq h]
      simp only [Option.bind_some]
      split_ifs
      · rfl
      · rfl
      · rfl

end Lookup

/-! ### What is loaded holds its tables -/

section Loaded

variable {img : Image} {dbghdr : AMX_DBG_HDR} {T : Tables}
  (hload : loadTables mem dbghdr = some img) (hT : T.In (mem ++ beyond)) (himg : img = T.image mem)
include hload hT himg

theorem points_to_files : List.Forall₂ (PointsToFile img) img.filetbl T.files := by
  obtain ⟨_, _, _, _, _, hw⟩ := loadTables_eq_some_iff.mp hload
  have hstarts := Format.forall₂_starts hT.files
  have htbl : img.filetbl = fileFormat.starts sizeof_AMX_DBG_HDR T.files := by
    rw [himg, Tables.image]
  rw [← htbl] at hstarts
  refine ((List.forall₂_and_left _ _).mpr ⟨exists_of_mem_table hw.files, hstarts⟩).imp ?_
  rintro p f ⟨⟨y, hy⟩, q, hq⟩
  obtain ⟨haddress, hname⟩ := at_file.mp hq
  have hskip : skip 0 mem (p + 4 + 1) = some y := hy
  have hlt := lt_of_skip hskip
  have hhdr : img.hdr = mem := hw.hdr
  refine ⟨?_, stringAt_eq (hhdr ▸ at_name_of_append hname hskip)⟩
  rw [hhdr]
  exact read32_of_append haddress (by omega)

theorem points_to_symbols : List.Forall₂ (PointsToSymbol img) img.symboltbl T.symbols := by
  obtain ⟨_, _, _, _, _, hw⟩ := loadTables_eq_some_iff.mp hload
  have hstarts := Format.forall₂_starts hT.symbols
  have htbl : img.symboltbl = symbolFormat.starts T.symbolsAt T.symbols := by
    rw [himg, Tables.image]
  rw [← htbl] at hstarts
  refine ((List.forall₂_and_left _ _).mpr ⟨exists_of_mem_table hw.symbols, hstarts⟩).imp ?_
  rintro p s ⟨⟨y, hy⟩, q, hq⟩
  obtain ⟨hmembers, m, hname, -⟩ := at_symbol.mp hq
  obtain ⟨m', dim, hskip, -, -⟩ := symbolEnd_eq_some_iff.mp hy
  have hlt := lt_of_skip hskip
  have hhdr : img.hdr = mem := hw.hdr
  refine ⟨?_, ?_, ?_, stringAt_eq (hhdr ▸ at_name_of_append hname hskip)⟩
  · rw [hhdr]
    exact read32_of_append hmembers.codestart (by omega)
  · rw [hhdr]
    exact read32_of_append hmembers.codeend (by omega)
  · rw [hhdr]
    exact getElem?_of_append hmembers.ident (by omega)

/-- The lines are in the block, and the first symbol is behind them. -/
theorem points_to_lines (hne : T.symbols ≠ []) : List.Forall₂ (PointsToLine img)
    ((List.range T.lines.length).map img.line) T.lines := by
  obtain ⟨_, _, _, _, _, hw⟩ := loadTables_eq_some_iff.mp hload
  obtain ⟨s, rest, hs⟩ := List.exists_cons_of_ne_nil hne
  have hle : T.symbolsAt ≤ mem.length := by
    have hmem : T.symbolsAt ∈ img.symboltbl := by
      rw [himg, Tables.image, hs]
      exact List.mem_cons_self
    obtain ⟨y, hy⟩ := exists_of_mem_table hw.symbols _ hmem
    obtain ⟨m, dim, hskip, -, -⟩ := symbolEnd_eq_some_iff.mp hy
    have hlt := lt_of_skip hskip
    omega
  have hhdr : img.hdr = mem := hw.hdr
  have htbl : (List.range T.lines.length).map img.line = lineFormat.starts T.linetbl T.lines := by
    rw [Format.starts_eq_map length_write_line, himg]
    rfl
  rw [htbl]
  refine List.Forall₂.imp (R := fun p l => p + 8 ≤ mem.length ∧
    ∃ q, lineFormat.At (mem ++ beyond) p q l) ?_
      ((List.forall₂_and_left _ _).mpr ⟨?_, Format.forall₂_starts hT.lines⟩)
  · rintro p l ⟨hp, q, hq⟩
    obtain ⟨haddress, hline, -⟩ := at_line.mp hq
    refine ⟨?_, ?_⟩
    · rw [hhdr]
      exact read32_of_append haddress (by omega)
    · rw [hhdr]
      exact read32_of_append hline (by omega)
  · intro p hp
    rw [Format.starts_eq_map length_write_line] at hp
    obtain ⟨i, hi, rfl⟩ := List.mem_map.mp hp
    rw [List.mem_range] at hi
    rw [T.symbolsAt_eq] at hle
    omega

theorem holds_of_loaded (hne : T.symbols ≠ []) : Holds img T := by
  refine ⟨points_to_files hload hT himg, points_to_lines hload hT himg hne,
    points_to_symbols hload hT himg, ?_⟩
  intro symbol hsymbol
  obtain ⟨s, rest, hs⟩ := List.exists_cons_of_ne_nil hne
  have hhead : symbol = T.symbolsAt := by
    rw [himg, Tables.image, hs] at hsymbol
    simpa [Format.starts] using hsymbol.symm
  have hlinetbl : img.linetbl = T.linetbl := by rw [himg, Tables.image]
  rw [hhead, hlinetbl, T.symbolsAt_eq, Nat.mul_comm]
  exact num_lines_eq _ _

end Loaded

/-- The file has been read from these tables. -/
def ReadFrom (img : Image) (T : Tables) : Prop :=
  T.Valid ∧ img = T.image img.hdr ∧ ∃ beyond, T.Exceeds beyond ∧
    T.write <+: (img.hdr ++ beyond).drop sizeof_AMX_DBG_HDR

/-- What the pointers answer. Without a symbol `symboltbl[0]` is read through a null pointer. -/
def Answers (img : Image) (t : AMX_DBG) : Prop :=
  ∀ address dest, img.lookup address dest =
    if t.symboltbl = [] then none else some (AmxDebugManager.lookup t address dest)

/-- **What a block holds is what it answers.** -/
theorem answers_of_loaded {img : Image} {dbghdr : AMX_DBG_HDR} {T : Tables}
    (hload : loadTables mem dbghdr = some img) (hT : T.In (mem ++ beyond))
    (himg : img = T.image mem) : Answers img (view T) := by
  intro address dest
  by_cases hnil : T.symbols = []
  · have hview : (view T).symboltbl = [] := by rw [view, hnil, List.map_nil]
    have hempty : img.symboltbl = [] := by
      rw [himg, Tables.image, hnil]
      rfl
    rw [if_pos hview, Image.lookup, hempty]
    rfl
  · have hview : (view T).symboltbl ≠ [] := by simpa [view] using hnil
    have hholds := holds_of_loaded hload hT himg hnil
    have hne : img.symboltbl ≠ [] := by
      intro hempty
      have hlen := hholds.symbols.length_eq
      rw [hempty] at hlen
      exact hnil (List.eq_nil_of_length_eq_zero hlen.symm)
    rw [if_neg hview, lookup_eq hholds address hne dest]

/-- **What a loaded file answers is what its tables say.** -/
theorem lookup_loaded {fp : List UInt8} {img : Image} (h : dbg_LoadInfo fp = some (.ok img)) :
    ∃ T, ReadFrom img T ∧ Answers img (view T) := by
  obtain ⟨hload, -⟩ := walked_of_loaded h
  obtain ⟨T, beyond, hin, himg, hexceeds, -⟩ := exists_tables hload
  obtain ⟨hvalid, hwrite⟩ := Tables.in_iff.mp hin
  exact ⟨T, ⟨hvalid, himg, beyond, hexceeds, hwrite⟩, answers_of_loaded hload hin himg⟩

theorem lookup_small : ∃ T, ReadFrom (smallTables.image (smallTables.chunk smallVersion)) T ∧
    Answers (smallTables.image (smallTables.chunk smallVersion)) (view T) :=
  lookup_loaded loaded_small

end SampLogCore.Debug.LoadedLookup
