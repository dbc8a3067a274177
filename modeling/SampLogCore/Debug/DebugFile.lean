import SampLogCore.Debug.Tables

/-!
# What `dbg_LoadInfo` loads

The tables as values (`Tables`), how a compiler writes them into a file, and what `dbg_LoadInfo`
makes of a file.

* `loaded_tables`: whatever it accepts is the writing of some tables, and every pointer leads to the
  record it is for.
* `loads_iff`: tables that were written are found again exactly when the walk finds the end of the
  lines, which it does by comparing addresses (`LinesFound`).
-/

namespace SampLogCore.Debug.DebugFile

open SampLogCore.Lib.Records SampLogCore.Lib.Bytes SampLogCore.Amx.Strings
  SampLogCore.Debug.LoadInfo SampLogCore.Debug.Tables
open SampLogCore.Debug.AmxDebugManager (Cell AMX_DBG_LINE)
open SampLogCore.Debug.AddressLookup (sizeof_AMX_DBG_LINE)

/-- The six tables. -/
structure Tables where
  files : List File
  lines : List AMX_DBG_LINE
  symbols : List Symbol
  tags : List Tag
  automatons : List Machine
  states : List State

namespace Tables

variable (T : Tables)

/-- What can be written: the names end where they are meant to, and the dimensions can be
counted. -/
structure Valid : Prop where
  files : ∀ f ∈ T.files, 0 ∉ f.name.rest
  symbols : ∀ s ∈ T.symbols, 0 ∉ s.name.rest ∧ s.dims.length < 65536
  tags : ∀ t ∈ T.tags, 0 ∉ t.name
  automatons : ∀ m ∈ T.automatons, 0 ∉ m.name
  states : ∀ s ∈ T.states, 0 ∉ s.name

/-- The tables, one behind the other. -/
def write : List UInt8 :=
  T.files.flatMap fileFormat.write ++ (T.lines.flatMap lineFormat.write ++
    (T.symbols.flatMap symbolFormat.write ++ (T.tags.flatMap tagFormat.write ++
      (T.automatons.flatMap machineFormat.write ++ T.states.flatMap stateFormat.write))))

/-! Where the tables begin in a block. -/

def linetbl : ℕ := sizeof_AMX_DBG_HDR + (T.files.flatMap fileFormat.write).length
def symbolsAt : ℕ := T.linetbl + (T.lines.flatMap lineFormat.write).length
def tagsAt : ℕ := T.symbolsAt + (T.symbols.flatMap symbolFormat.write).length
def automatonsAt : ℕ := T.tagsAt + (T.tags.flatMap tagFormat.write).length
def statesAt : ℕ := T.automatonsAt + (T.automatons.flatMap machineFormat.write).length
def size : ℕ := T.statesAt + (T.states.flatMap stateFormat.write).length

/-- The block `mem` with all pointers as they should be. -/
def image (mem : List UInt8) : Image where
  hdr := mem
  filetbl := fileFormat.starts sizeof_AMX_DBG_HDR T.files
  linetbl := T.linetbl
  symboltbl := symbolFormat.starts T.symbolsAt T.symbols
  tagtbl := tagFormat.starts T.tagsAt T.tags
  automatontbl := machineFormat.starts T.automatonsAt T.automatons
  statetbl := stateFormat.starts T.statesAt T.states

/-- The tables are in `mem`, behind the header. -/
structure In (mem : List UInt8) : Prop where
  files : (fileFormat.times T.files.length).At mem sizeof_AMX_DBG_HDR T.linetbl T.files
  lines : (lineFormat.times T.lines.length).At mem T.linetbl T.symbolsAt T.lines
  symbols : (symbolFormat.times T.symbols.length).At mem T.symbolsAt T.tagsAt T.symbols
  tags : (tagFormat.times T.tags.length).At mem T.tagsAt T.automatonsAt T.tags
  automatons :
    (machineFormat.times T.automatons.length).At mem T.automatonsAt T.statesAt T.automatons
  states : (stateFormat.times T.states.length).At mem T.statesAt T.size T.states

variable {T} {mem : List UInt8}

theorem in_iff : T.In mem ↔ T.Valid ∧ T.write <+: mem.drop sizeof_AMX_DBG_HDR := by
  rw [write]
  simp only [Format.prefix_append_iff, List.drop_drop]
  constructor
  · intro h
    exact ⟨⟨fun f hf => fileFormat_valid.mp (h.files.1.2 f hf),
      fun s hs => symbolFormat_valid.mp (h.symbols.1.2 s hs),
      fun t ht => tagFormat_valid.mp (h.tags.1.2 t ht),
      fun m hm => machineFormat_valid.mp (h.automatons.1.2 m hm),
      fun s hs => stateFormat_valid.mp (h.states.1.2 s hs)⟩, h.files.2.1, h.lines.2.1,
      h.symbols.2.1, h.tags.2.1, h.automatons.2.1, h.states.2.1⟩
  · rintro ⟨hv, hf, hl, hs, ht, ha, hst⟩
    exact ⟨⟨⟨rfl, fun f hf => fileFormat_valid.mpr (hv.files f hf)⟩, hf, rfl⟩,
      ⟨⟨rfl, fun l _ => lineFormat_valid l⟩, hl, rfl⟩,
      ⟨⟨rfl, fun s hs => symbolFormat_valid.mpr (hv.symbols s hs)⟩, hs, rfl⟩,
      ⟨⟨rfl, fun t ht => tagFormat_valid.mpr (hv.tags t ht)⟩, ht, rfl⟩,
      ⟨⟨rfl, fun m hm => machineFormat_valid.mpr (hv.automatons m hm)⟩, ha, rfl⟩,
      ⟨⟨rfl, fun s hs => stateFormat_valid.mpr (hv.states s hs)⟩, hst, rfl⟩⟩

theorem symbolsAt_eq (T : Tables) : T.symbolsAt = T.linetbl + T.lines.length * 8 := by
  rw [symbolsAt, Format.length_write_times length_write_line]

end Tables

/-! ### The walk -/

variable {mem : List UInt8} {dbghdr : AMX_DBG_HDR} {img : Image} {p q : ℕ}

/-- The steps of the walk. -/
structure Walked (mem : List UInt8) (dbghdr : AMX_DBG_HDR) (img : Image) (s t a st e : ℕ) :
    Prop where
  hdr : img.hdr = mem
  files : table (fileEnd mem) dbghdr.files sizeof_AMX_DBG_HDR = some (img.filetbl, img.linetbl)
  lines : skipOverflow mem (img.linetbl + dbghdr.lines * sizeof_AMX_DBG_LINE) = some s
  symbols : table (symbolEnd mem) dbghdr.symbols s = some (img.symboltbl, t)
  tags : table (nameEnd mem sizeof_AMX_DBG_TAG) dbghdr.tags t = some (img.tagtbl, a)
  automatons :
    table (nameEnd mem sizeof_AMX_DBG_MACHINE) dbghdr.automatons a = some (img.automatontbl, st)
  states : table (nameEnd mem sizeof_AMX_DBG_STATE) dbghdr.states st = some (img.statetbl, e)

theorem loadTables_eq_some_iff :
    loadTables mem dbghdr = some img ↔ ∃ s t a st e, Walked mem dbghdr img s t a st e := by
  simp only [loadTables, Option.bind_eq_bind, Option.bind_eq_some_iff, Prod.exists, Option.pure_def,
    Option.some.injEq]
  constructor
  · rintro ⟨filetbl, linetbl, hf, s, hl, symboltbl, t, hs, tagtbl, a, ht, automatontbl, st, ha,
      statetbl, e, hst, rfl⟩
    exact ⟨s, t, a, st, e, rfl, hf, hl, hs, ht, ha, hst⟩
  · rintro ⟨s, t, a, st, e, h⟩
    refine ⟨_, _, h.files, s, h.lines, _, t, h.symbols, _, a, h.tags, _, st, h.automatons, _, e,
      h.states, ?_⟩
    rw [← h.hdr]

/-- How far the lines go on. -/
theorem skipOverflow_eq_some_iff : skipOverflow mem p = some q ↔ ∃ k, q = p + k * 524288 ∧
    (∀ i < k, linesGoOn mem (p + i * 524288) = some true) ∧ linesGoOn mem q = some false := by
  fun_induction skipOverflow mem p with
  | case1 p h =>
    simp only [reduceCtorEq, false_iff, not_exists]
    rintro k ⟨rfl, hgo, hend⟩
    rcases Nat.eq_zero_or_pos k with rfl | hk
    · simp [h] at hend
    · simpa [h] using hgo 0 hk
  | case2 p h =>
    simp only [Option.some.injEq]
    constructor
    · rintro rfl
      exact ⟨0, by omega, by simp, h⟩
    · rintro ⟨k, rfl, hgo, hend⟩
      rcases Nat.eq_zero_or_pos k with rfl | hk
      · omega
      · simpa [h] using hgo 0 hk
  | case3 p h ih =>
    rw [ih]
    simp only [sizeof_AMX_DBG_LINE]
    constructor
    · rintro ⟨k, rfl, hgo, hend⟩
      refine ⟨k + 1, by omega, fun i hi => ?_, hend⟩
      rcases Nat.eq_zero_or_pos i with rfl | hpos
      · simpa using h
      · have hprev := hgo (i - 1) (by omega)
        rw [← hprev]
        congr 1
        omega
    · rintro ⟨k, rfl, hgo, hend⟩
      rcases Nat.eq_zero_or_pos k with rfl | hk
      · simp [h] at hend
      · refine ⟨k - 1, by omega, fun i hi => ?_, hend⟩
        have hnext := hgo (i + 1) (by omega)
        rw [← hnext]
        congr 1
        omega

theorem fileEnd_append (ext : List UInt8) (h : fileEnd mem p = some q) :
    fileEnd (mem ++ ext) p = some q :=
  skip_append h

theorem symbolEnd_append (ext : List UInt8) (h : symbolEnd mem p = some q) :
    symbolEnd (mem ++ ext) p = some q := by
  obtain ⟨m, dim, hm, hdim, rfl⟩ := symbolEnd_eq_some_iff.mp h
  exact symbolEnd_eq_some_iff.mpr ⟨m, dim, skip_append hm, read16_append hdim, rfl⟩

theorem nameEnd_append (ext : List UInt8) {n : ℕ} (h : nameEnd mem n p = some q) :
    nameEnd (mem ++ ext) n p = some q :=
  skip_append h

theorem nameEnd_le {n : ℕ} (h : nameEnd mem n p = some q) : q ≤ mem.length :=
  (lt_of_skip h).2

/-- Tables that stand one behind the other are in the memory. -/
theorem in_of_at {l s t a st e f ln sy tg au sn : ℕ} {files : List File} {lines : List AMX_DBG_LINE}
    {symbols : List Symbol} {tags : List Tag} {automatons : List Machine} {states : List State}
    (hf : (fileFormat.times f).At mem sizeof_AMX_DBG_HDR l files)
    (hl : (lineFormat.times ln).At mem l s lines)
    (hs : (symbolFormat.times sy).At mem s t symbols)
    (ht : (tagFormat.times tg).At mem t a tags)
    (ha : (machineFormat.times au).At mem a st automatons)
    (hst : (stateFormat.times sn).At mem st e states) :
    let T : Tables := ⟨files, lines, symbols, tags, automatons, states⟩
    T.In mem ∧ T.linetbl = l ∧ T.symbolsAt = s ∧ T.tagsAt = t ∧ T.automatonsAt = a ∧
      T.statesAt = st := by
  obtain ⟨⟨rfl, hvf⟩, hf, rfl⟩ := hf
  obtain ⟨⟨rfl, hvl⟩, hl, rfl⟩ := hl
  obtain ⟨⟨rfl, hvs⟩, hs, rfl⟩ := hs
  obtain ⟨⟨rfl, hvt⟩, ht, rfl⟩ := ht
  obtain ⟨⟨rfl, hva⟩, ha, rfl⟩ := ha
  obtain ⟨⟨rfl, hvst⟩, hst, rfl⟩ := hst
  exact ⟨⟨⟨⟨rfl, hvf⟩, hf, rfl⟩, ⟨⟨rfl, hvl⟩, hl, rfl⟩, ⟨⟨rfl, hvs⟩, hs, rfl⟩,
    ⟨⟨rfl, hvt⟩, ht, rfl⟩, ⟨⟨rfl, hva⟩, ha, rfl⟩, ⟨⟨rfl, hvst⟩, hst, rfl⟩⟩, rfl, rfl, rfl, rfl, rfl⟩

/-- What the tables have behind the block: nothing, or dimensions of the last symbol, which are not
looked at, when no names follow. -/
def Tables.Exceeds (T : Tables) (ext : List UInt8) : Prop :=
  ext = [] ∨ T.tags = [] ∧ T.automatons = [] ∧ T.states = [] ∧
    ∃ s, T.symbols.getLast? = some s ∧ ext.length ≤ s.dims.length * sizeof_AMX_DBG_SYMDIM

/-- The last symbol of a table ends in the block, but for its dimensions. -/
theorem exceeds_symbols {ext : List UInt8} {n s t : ℕ} {tbl : List ℕ} {symbols : List Symbol}
    (htable : table (symbolEnd mem) n s = some (tbl, t))
    (hat : (symbolFormat.times n).At (mem ++ ext) s t symbols) (hs : s ≤ mem.length)
    (ht : t ≤ (mem ++ ext).length) (hlt : mem.length < t) :
    ∃ sym, symbols.getLast? = some sym ∧
      t - mem.length ≤ sym.dims.length * sizeof_AMX_DBG_SYMDIM := by
  have hne : symbols ≠ [] := by
    rintro rfl
    have hend : t = s := by simpa [Format.times] using hat.2.2
    omega
  obtain ⟨x, sym, hx, hsym, hlast⟩ :=
    exists_last_of_table scans_symbol (symbolEnd_append ext) ht htable hat hne
  refine ⟨sym, hlast, ?_⟩
  obtain ⟨m, dim, hm, hdim, rfl⟩ := symbolEnd_eq_some_iff.mp hx
  obtain ⟨hmembers, _, -, hdims⟩ := at_symbol.mp hsym
  have hsame : dim = sym.dim := Option.some.inj ((read16_append hdim).symm.trans hmembers.dim)
  have hcount : sym.dims.length = dim.toNat := by rw [hdims.1.1, hsame]
  have hle := (lt_of_skip hm).2
  rw [hcount, sizeof_AMX_DBG_SYMDIM]
  omega

/-- **What the walk goes through are tables.** -/
theorem exists_tables (h : loadTables mem dbghdr = some img) : ∃ T : Tables, ∃ ext,
    T.In (mem ++ ext) ∧ img = T.image mem ∧ T.Exceeds ext ∧
    T.files.length = dbghdr.files ∧ (∃ k, T.lines.length = dbghdr.lines + k * 65536) ∧
    T.symbols.length = dbghdr.symbols ∧ T.tags.length = dbghdr.tags ∧
    T.automatons.length = dbghdr.automatons ∧ T.states.length = dbghdr.states := by
  obtain ⟨s, t, a, st, e, hw⟩ := loadTables_eq_some_iff.mp h
  obtain ⟨k, hs, -, hend⟩ := skipOverflow_eq_some_iff.mp hw.lines
  have hslen : s + 4 ≤ mem.length := lt_of_linesGoOn hend
  have hst : s ≤ t := le_of_table scans_symbol.le hw.symbols
  have hta : t ≤ a := le_of_table scans_tag.le hw.tags
  have hast : a ≤ st := le_of_table scans_machine.le hw.automatons
  have hste : st ≤ e := le_of_table scans_state.le hw.states
  have hlines : s = img.linetbl + (dbghdr.lines + k * 65536) * 8 := by
    rw [hs, sizeof_AMX_DBG_LINE]
    omega
  -- the block, long enough for what the walk has skipped
  obtain ⟨ext, hext⟩ : ∃ ext : List UInt8, ext = List.replicate (e - mem.length) 0 := ⟨_, rfl⟩
  have hlen : e ≤ (mem ++ ext).length := by
    rw [List.length_append, hext, List.length_replicate]
    omega
  obtain ⟨files, hfiles, hfiletbl⟩ := (table_eq_some_iff scans_file (by omega)).mp
    (table_mono (fileEnd_append ext) hw.files)
  obtain ⟨lines, hlinetbl⟩ := Format.exists_at_times (exists_at_line (mem ++ ext))
    (n := dbghdr.lines + k * 65536) (p := img.linetbl) (by omega)
  obtain ⟨symbols, hsymbols, hsymboltbl⟩ := (table_eq_some_iff scans_symbol (by omega)).mp
    (table_mono (symbolEnd_append ext) hw.symbols)
  obtain ⟨tags, htags, htagtbl⟩ := (table_eq_some_iff scans_tag (by omega)).mp
    (table_mono (nameEnd_append ext) hw.tags)
  obtain ⟨automatons, hautomatons, hautomatontbl⟩ :=
    (table_eq_some_iff scans_machine (by omega)).mp
      (table_mono (nameEnd_append ext) hw.automatons)
  obtain ⟨states, hstates, hstatetbl⟩ := (table_eq_some_iff scans_state hlen).mp
    (table_mono (nameEnd_append ext) hw.states)
  rw [← hlines] at hlinetbl
  have hT := in_of_at hfiles hlinetbl hsymbols htags hautomatons hstates
  refine ⟨⟨files, lines, symbols, tags, automatons, states⟩, ext, hT.1, ?_, ?_, hfiles.1.1,
    ⟨k, hlinetbl.1.1⟩, hsymbols.1.1, htags.1.1, hautomatons.1.1, hstates.1.1⟩
  · obtain ⟨-, hl, hsy, ht, ha, hst⟩ := hT
    rw [Tables.image, hl, hsy, ht, ha, hst, ← hfiletbl, ← hsymboltbl, ← htagtbl, ← hautomatontbl,
      ← hstatetbl, ← hw.hdr]
  · by_cases he : e ≤ mem.length
    · rw [hext, Nat.sub_eq_zero_of_le he]
      exact .inl rfl
    · have hextlen : ext.length = e - mem.length := by rw [hext, List.length_replicate]
      -- a table of names that is not empty ends in the block
      refine .inr ?_
      rcases end_of_table nameEnd_le hw.states with ⟨hst0, rfl⟩ | hle
      · rcases end_of_table nameEnd_le hw.automatons with ⟨ha0, rfl⟩ | hle
        · rcases end_of_table nameEnd_le hw.tags with ⟨ht0, rfl⟩ | hle
          · rw [hextlen]
            exact ⟨List.eq_nil_of_length_eq_zero (htags.1.1.trans ht0),
              List.eq_nil_of_length_eq_zero (hautomatons.1.1.trans ha0),
              List.eq_nil_of_length_eq_zero (hstates.1.1.trans hst0),
              exceeds_symbols hw.symbols hsymbols (by omega) hlen (Nat.lt_of_not_le he)⟩
          · exact absurd hle he
        · exact absurd hle he
      · exact absurd hle he

/-! ### Where the lines end -/

section Lines

variable {T : Tables} {c : Cell} {s : Symbol} {rest : List Symbol} {l : AMX_DBG_LINE} {i : ℕ}

/-- The addresses that are compared: of what stands in front of the lines, of the lines, and of the
first symbol. -/
def addresses (T : Tables) (c : Cell) (s : Symbol) : List Cell :=
  c :: T.lines.map (·.address) ++ [s.address]

/-- The walk finds the end of the lines: the first symbol is not above the last line, and where the
count of the lines is zero, the first line is above what stands in front of it. -/
def LinesFound (T : Tables) (c : Cell) (s : Symbol) : Prop :=
  (65536 ∣ T.lines.length → ∀ l ∈ T.lines.head?, signed c < signed l.address) ∧
    signed s.address ≤ signed ((T.lines.getLast?.map (·.address)).getD c)

/-- Lines with ascending addresses. -/
def Ascending (T : Tables) : Prop :=
  T.lines.Pairwise fun l l' => signed l.address < signed l'.address

theorem read_addresses (hT : T.In mem) (hc : read32 mem (T.linetbl - 8) = some c)
    (hs : T.symbols = s :: rest) (hi : i ≤ T.lines.length + 1) :
    read32 mem (T.linetbl - 8 + i * 8) = (addresses T c s)[i]? := by
  have hlinetbl : 8 ≤ T.linetbl := by
    rw [Tables.linetbl, sizeof_AMX_DBG_HDR]
    omega
  rcases i with _ | i
  · simpa [addresses] using hc
  · have hpos : T.linetbl - 8 + (i + 1) * 8 = T.linetbl + i * 8 := by omega
    rw [hpos]
    rcases Nat.lt_or_ge i T.lines.length with hlt | hge
    · have hl := Format.at_of_getElem? length_write_line hT.lines (List.getElem?_eq_getElem hlt)
      rw [(at_line.mp hl).1]
      simp [addresses, List.getElem?_append, hlt]
    · obtain rfl : i = T.lines.length := by omega
      have hsymbols := hT.symbols
      rw [hs] at hsymbols
      obtain ⟨m, hsymbol, -⟩ := Format.at_times_succ.mp hsymbols
      rw [← T.symbolsAt_eq, (at_symbol.mp hsymbol).1.address]
      simp [addresses]

theorem linesGoOn_eq (hT : T.In mem) (hc : read32 mem (T.linetbl - 8) = some c)
    (hs : T.symbols = s :: rest) {x y : Cell} (hx : (addresses T c s)[i]? = some x)
    (hy : (addresses T c s)[i + 1]? = some y) :
    linesGoOn mem (T.linetbl + i * 8) = some (decide (signed x < signed y)) := by
  have hlen : (addresses T c s).length = T.lines.length + 2 := by simp [addresses]
  have hi : i + 1 < T.lines.length + 2 := by
    rw [← hlen]
    exact (List.getElem?_eq_some_iff.mp hy).1
  have hlinetbl : 8 ≤ T.linetbl := by
    rw [Tables.linetbl, sizeof_AMX_DBG_HDR]
    omega
  have hthis : T.linetbl + i * 8 = T.linetbl - 8 + (i + 1) * 8 := by omega
  have hbefore : T.linetbl + i * 8 - sizeof_AMX_DBG_LINE = T.linetbl - 8 + i * 8 := by
    rw [sizeof_AMX_DBG_LINE]
    omega
  rw [linesGoOn, hbefore, hthis, read_addresses hT hc hs (by omega), hy,
    read_addresses hT hc hs (by omega), hx]
  rfl

/-- Between two lines the walk goes on. -/
theorem lt_of_ascending (h : Ascending T) (hi : 0 < i) {x y : Cell} (hlt : i < T.lines.length)
    (hx : (addresses T c s)[i]? = some x) (hy : (addresses T c s)[i + 1]? = some y) :
    signed x < signed y := by
  obtain ⟨j, rfl⟩ : ∃ j, i = j + 1 := ⟨i - 1, by omega⟩
  have hxl : x = T.lines[j].address := by
    simpa [addresses, List.getElem?_append, Nat.lt_of_succ_lt hlt] using hx.symm
  have hyl : y = T.lines[j + 1].address := by
    simpa [addresses, List.getElem?_append, hlt] using hy.symm
  rw [hxl, hyl]
  exact List.pairwise_iff_getElem.mp h j (j + 1) (by omega) hlt (by omega)

/-- **The end of the lines is found exactly when `LinesFound`.** -/
theorem skipOverflow_iff (hT : T.In mem) (hc : read32 mem (T.linetbl - 8) = some c)
    (hs : T.symbols = s :: rest) (h : Ascending T) :
    skipOverflow mem (T.linetbl + T.lines.length % 65536 * 8) = some T.symbolsAt ↔
      LinesFound T c s := by
  have hget : ∀ i < (addresses T c s).length, ∃ x, (addresses T c s)[i]? = some x := fun i hi =>
    ⟨_, List.getElem?_eq_getElem hi⟩
  have hlen : (addresses T c s).length = T.lines.length + 2 := by simp [addresses]
  obtain ⟨x, hx⟩ := hget T.lines.length (by omega)
  obtain ⟨y, hy⟩ := hget (T.lines.length + 1) (by omega)
  have hxe : x = (T.lines.getLast?.map (·.address)).getD c := by
    rcases List.eq_nil_or_concat' T.lines with hnil | ⟨init, l, hl⟩
    · simpa [addresses, hnil] using hx.symm
    · simpa [addresses, hl, List.getElem?_append] using hx.symm
  have hye : y = s.address := by simpa [addresses] using hy.symm
  have hlast := linesGoOn_eq hT hc hs hx hy
  rw [← T.symbolsAt_eq] at hlast
  have hend : linesGoOn mem T.symbolsAt = some false ↔ signed y ≤ signed x := by
    rw [hlast]
    simp
  have hmod := Nat.mod_add_div T.lines.length 65536
  rw [skipOverflow_eq_some_iff, LinesFound, ← hxe, ← hye, hend]
  constructor
  · rintro ⟨k, hk, hgo, hle⟩
    refine ⟨fun hdvd l hl => ?_, hle⟩
    have hzero : T.lines.length % 65536 = 0 := Nat.mod_eq_zero_of_dvd hdvd
    have hpos : 0 < T.lines.length := by
      obtain ⟨tl, htl⟩ := List.head?_eq_some_iff.mp hl
      simp [htl]
    have hfirst : (addresses T c s)[0 + 1]? = some l.address := by
      obtain ⟨tl, htl⟩ := List.head?_eq_some_iff.mp hl
      simp [addresses, htl]
    have hkpos : 0 < k := by
      rw [T.symbolsAt_eq] at hk
      omega
    have hgo0 := hgo 0 hkpos
    rw [hzero, linesGoOn_eq hT hc hs (i := 0) (x := c) (by simp [addresses]) hfirst] at hgo0
    simpa using hgo0
  · rintro ⟨hhead, hle⟩
    refine ⟨T.lines.length / 65536, by rw [T.symbolsAt_eq]; omega, fun i hi => ?_, hle⟩
    obtain ⟨j, hj⟩ : ∃ j, j = T.lines.length % 65536 + i * 65536 := ⟨_, rfl⟩
    have hjlt : j < T.lines.length := by omega
    obtain ⟨u, hu⟩ := hget j (by omega)
    obtain ⟨v, hv⟩ := hget (j + 1) (by omega)
    have hptr : T.linetbl + T.lines.length % 65536 * 8 + i * 524288 = T.linetbl + j * 8 := by omega
    rw [hptr, linesGoOn_eq hT hc hs hu hv]
    have hlt : signed u < signed v := by
      rcases Nat.eq_zero_or_pos j with rfl | hpos
      · have huc : u = c := by simpa [addresses] using hu.symm
        have hvl : v = T.lines[0].address := by
          simpa [addresses, List.getElem?_append, hjlt] using hv.symm
        rw [huc, hvl]
        exact hhead (Nat.dvd_of_mod_eq_zero (by omega)) _ (by simp [List.head?_eq_getElem?, hjlt])
      · exact lt_of_ascending h hpos hjlt hu hv
    rw [decide_eq_true hlt]

end Lines

/-! ### Files -/

/-- What the header of the tables has besides their sizes. -/
structure Version where
  file_version : UInt8
  amx_version : UInt8
  flags : UInt16

/-- The `AMX_DBG_HDR` of the tables. A count has 16 bits. -/
def Tables.header (T : Tables) (v : Version) : List UInt8 :=
  bytes 4 T.size ++ bytes 2 AMX_DBG_MAGIC ++ [v.file_version, v.amx_version] ++
    bytes 2 v.flags.toNat ++ bytes 2 T.files.length ++ bytes 2 T.lines.length ++
    bytes 2 T.symbols.length ++ bytes 2 T.tags.length ++ bytes 2 T.automatons.length ++
    bytes 2 T.states.length

/-- The header and the tables. -/
def Tables.chunk (T : Tables) (v : Version) : List UInt8 := T.header v ++ T.write

/-- The counts fit into the header; only the lines may be more than it can say. -/
structure Fits (T : Tables) : Prop where
  valid : T.Valid
  files : T.files.length < 65536
  symbols : T.symbols.length < 65536
  tags : T.tags.length < 65536
  automatons : T.automatons.length < 65536
  states : T.states.length < 65536
  size : T.size < 256 ^ 4

/-- An AMX that says it has debug tables behind it. -/
structure HasDebug (code : List UInt8) : Prop where
  header : sizeof_AMX_HEADER ≤ code.length
  size : member 4 0 code = code.length
  positive : code.length < 2 ^ 31
  magic : member 2 4 code = AMX_MAGIC
  flag : member 2 8 code &&& AMX_FLAG_DEBUG ≠ 0

theorem length_header (T : Tables) (v : Version) : (T.header v).length = sizeof_AMX_DBG_HDR := by
  simp [Tables.header, sizeof_AMX_DBG_HDR]

theorem size_eq (T : Tables) : T.size = sizeof_AMX_DBG_HDR + T.write.length := by
  simp only [Tables.size, Tables.statesAt, Tables.automatonsAt, Tables.tagsAt, Tables.symbolsAt,
    Tables.linetbl, Tables.write, List.length_append]
  omega

theorem length_chunk (T : Tables) (v : Version) : (T.chunk v).length = T.size := by
  rw [Tables.chunk, List.length_append, length_header, size_eq]

theorem in_chunk {T : Tables} (h : T.Valid) (v : Version) : T.In (T.chunk v) := by
  rw [Tables.in_iff, Tables.chunk, ← length_header T v, List.drop_left]
  exact ⟨h, List.prefix_refl _⟩

/-- The header says how many records there are, of the lines what is left modulo 2 ^ 16. -/
theorem readHeader_header {T : Tables} (h : Fits T) (v : Version) : readHeader (T.header v) =
    ⟨T.size, AMX_DBG_MAGIC, T.files.length, T.lines.length % 65536, T.symbols.length,
      T.tags.length, T.automatons.length, T.states.length⟩ := by
  have hword : ∀ {x : ℕ}, x < 65536 → value (bytes 2 x) = x := fun hx => value_bytes hx
  simp only [readHeader, AMX_DBG_HDR.mk.injEq]
  refine ⟨?_, ?_, ?_, ?_, ?_, ?_, ?_, ?_⟩
  · show value (bytes 4 T.size) = _
    exact value_bytes h.size
  · show value (bytes 2 AMX_DBG_MAGIC) = _
    exact hword (by decide)
  · show value (bytes 2 T.files.length) = _
    exact hword h.files
  · show value (bytes 2 T.lines.length) = _
    exact value_bytes_eq_mod 2 _
  · show value (bytes 2 T.symbols.length) = _
    exact hword h.symbols
  · show value (bytes 2 T.tags.length) = _
    exact hword h.tags
  · show value (bytes 2 T.automatons.length) = _
    exact hword h.automatons
  · show value (bytes 2 T.states.length) = _
    exact hword h.states

theorem fread_of_le {fp : List UInt8} {pos n : ℕ} (h : pos + n ≤ fp.length) :
    fread fp pos n = (fp.drop pos).take n := by
  have hlen : ((fp.drop pos).take n).length = n := by
    rw [List.length_take, List.length_drop]
    omega
  rw [fread, hlen, Nat.sub_self, List.replicate_zero, List.append_nil]

theorem length_fread (fp : List UInt8) (pos n : ℕ) : (fread fp pos n).length = n := by
  rw [fread, List.length_append, List.length_replicate, List.length_take]
  omega

theorem member_append {n offset : ℕ} {a : List UInt8} (b : List UInt8) (h : offset + n ≤ a.length) :
    member n offset (a ++ b) = member n offset a := by
  rw [member, member, List.drop_append_of_le_length (by omega), List.take_append_of_le_length]
  rw [List.length_drop]
  omega

/-- Where there are tables behind the code, these are what is loaded. -/
theorem dbg_LoadInfo_append {code : List UInt8} (hcode : HasDebug code) {T : Tables} (hT : Fits T)
    (v : Version) : dbg_LoadInfo (code ++ T.chunk v) =
      (loadTables (T.chunk v) (readHeader (T.header v))).map .ok := by
  have hlen := hcode.header
  have hsize : sizeof_AMX_DBG_HDR ≤ T.size := by
    rw [size_eq]
    omega
  have hamxhdr : fread (code ++ T.chunk v) 0 sizeof_AMX_HEADER = code.take sizeof_AMX_HEADER := by
    rw [fread_of_le (by rw [List.length_append]; omega), List.drop_zero,
      List.take_append_of_le_length hlen]
  have hmember : ∀ n offset, offset + n ≤ sizeof_AMX_HEADER →
      member n offset (code.take sizeof_AMX_HEADER) = member n offset code := by
    intro n offset hle
    conv_rhs => rw [← List.take_append_drop sizeof_AMX_HEADER code]
    rw [member_append _ (by rwa [List.length_take_of_le hlen])]
  have hpos : tablesAt (code ++ T.chunk v) (code.take sizeof_AMX_HEADER) = code.length := by
    have hsigned : signed (UInt32.ofNat code.length) = code.length := by
      have hlt := hcode.positive
      have hnat : (UInt32.ofNat code.length).toNat = code.length := by
        rw [UInt32.toNat_ofNat', Nat.mod_eq_of_lt (by omega)]
      rw [signed, BitVec.toInt_eq_toNat_of_lt]
      · exact congrArg Int.ofNat hnat
      · show 2 * (UInt32.ofNat code.length).toNat < 2 ^ 32
        omega
    rw [tablesAt, hmember 4 0 (by decide), hcode.size, hsigned, fseek, if_neg (by omega)]
    rfl
  have hdbghdr : fread (code ++ T.chunk v) code.length sizeof_AMX_DBG_HDR = T.header v := by
    rw [fread_of_le (by rw [List.length_append, length_chunk]; omega), List.drop_left, Tables.chunk,
      ← length_header T v, List.take_left]
  have hblock : block (code ++ T.chunk v) code.length = T.chunk v := by
    rw [block, hdbghdr, readHeader_header hT, ← List.drop_drop, List.drop_left, Tables.chunk,
      ← length_header T v, List.drop_left, List.take_of_length_le]
    rw [length_header, size_eq]
    show T.write.length ≤ sizeof_AMX_DBG_HDR + T.write.length - sizeof_AMX_DBG_HDR
    omega
  simp only [dbg_LoadInfo, hamxhdr, hpos, hdbghdr, hblock, hmember 2 4 (by decide),
    hmember 2 8 (by decide), hcode.magic, ne_eq, not_true_eq_false, if_false, hcode.flag]
  rw [if_neg, if_neg]
  · rw [readHeader_header hT]
    exact Nat.not_lt.mpr hsize
  · rw [readHeader_header hT]
    exact not_not_intro rfl

/-- Tables with a symbol are walked through as they are exactly when the end of the lines is
found. -/
theorem loadTables_iff {T : Tables} (hT : T.In mem) (hmem : T.size ≤ mem.length) {s : Symbol}
    {rest : List Symbol} (hs : T.symbols = s :: rest) (hfiles : dbghdr.files = T.files.length)
    (hlines : dbghdr.lines = T.lines.length % 65536) (hsymbols : dbghdr.symbols = T.symbols.length)
    (htags : dbghdr.tags = T.tags.length) (hautomatons : dbghdr.automatons = T.automatons.length)
    (hstates : dbghdr.states = T.states.length) :
    loadTables mem dbghdr = some (T.image mem) ↔
      skipOverflow mem (T.linetbl + T.lines.length % 65536 * 8) = some T.symbolsAt := by
  have hle :=
    And.intro hT.symbols.le (And.intro hT.tags.le (And.intro hT.automatons.le hT.states.le))
  have hle' := And.intro hT.files.le hT.lines.le
  rw [loadTables_eq_some_iff]
  constructor
  · rintro ⟨p, t, a, st, e, hw⟩
    have hskip := hw.lines
    rw [hlines] at hskip
    have hbegin := hw.symbols
    rw [hsymbols, hs, List.length_cons] at hbegin
    obtain ⟨m, ps, -, -, hps⟩ := table_succ.mp hbegin
    -- the first pointer to a symbol is where the lines end
    have hp : T.symbolsAt = p := by
      simp only [Tables.image, hs, Format.starts, List.cons.injEq] at hps
      exact hps.1
    rw [hp]
    exact hskip
  · intro hskip
    refine ⟨T.symbolsAt, T.tagsAt, T.automatonsAt, T.statesAt, T.size, rfl, ?_, ?_, ?_, ?_, ?_, ?_⟩
    · rw [hfiles]
      exact (table_eq_some_iff scans_file (q := T.linetbl) (by omega)).mpr ⟨_, hT.files, rfl⟩
    · rw [hlines]
      exact hskip
    · rw [hsymbols]
      exact (table_eq_some_iff scans_symbol (by omega)).mpr ⟨_, hT.symbols, rfl⟩
    · rw [htags]
      exact (table_eq_some_iff scans_tag (by omega)).mpr ⟨_, hT.tags, rfl⟩
    · rw [hautomatons]
      exact (table_eq_some_iff scans_machine (by omega)).mpr ⟨_, hT.automatons, rfl⟩
    · rw [hstates]
      exact (table_eq_some_iff scans_state hmem).mpr ⟨_, hT.states, rfl⟩

/-- Tables with a symbol are loaded as they are exactly when the end of the lines is found. -/
theorem dbg_LoadInfo_chunk_iff {code : List UInt8} (hcode : HasDebug code) {T : Tables}
    (hT : Fits T) (v : Version) {s : Symbol} {rest : List Symbol} (hs : T.symbols = s :: rest) :
    dbg_LoadInfo (code ++ T.chunk v) = some (.ok (T.image (T.chunk v))) ↔
      skipOverflow (T.chunk v) (T.linetbl + T.lines.length % 65536 * 8) = some T.symbolsAt := by
  have hin := in_chunk hT.valid v
  have hhdr := readHeader_header hT v
  have hload : loadTables (T.chunk v) (readHeader (T.header v)) = some (T.image (T.chunk v)) ↔
      skipOverflow (T.chunk v) (T.linetbl + T.lines.length % 65536 * 8) = some T.symbolsAt :=
    loadTables_iff hin (length_chunk T v).ge hs (by rw [hhdr]) (by rw [hhdr]) (by rw [hhdr])
      (by rw [hhdr]) (by rw [hhdr]) (by rw [hhdr])
  rw [dbg_LoadInfo_append hcode hT v, ← hload]
  simp

/-- **Tables are loaded as they were written exactly when the walk finds the end of the lines.** -/
theorem loads_iff {code : List UInt8} (hcode : HasDebug code) {T : Tables} (hT : Fits T)
    (v : Version) (hlines : Ascending T) {s : Symbol} (hs : T.symbols.head? = some s) {c : Cell}
    (hc : read32 (T.chunk v) (T.linetbl - sizeof_AMX_DBG_LINE) = some c) :
    dbg_LoadInfo (code ++ T.chunk v) = some (.ok (T.image (T.chunk v))) ↔ LinesFound T c s := by
  obtain ⟨rest, hrest⟩ := List.head?_eq_some_iff.mp hs
  rw [dbg_LoadInfo_chunk_iff hcode hT v hrest,
    skipOverflow_iff (in_chunk hT.valid v) hc hrest hlines]

/-! A file with one of each record but for a second line. -/

/-- An `AMX_HEADER` of an AMX without code. -/
def smallCode : List UInt8 :=
  bytes 4 56 ++ bytes 2 AMX_MAGIC ++ [8, 8] ++ bytes 2 AMX_FLAG_DEBUG ++ List.replicate 46 0

def smallTables : Tables where
  files := [⟨0, ⟨97, [46, 112]⟩⟩]
  lines := [⟨8, 0⟩, ⟨24, 2⟩]
  symbols := [⟨8, 0, 8, 40, 9, 0, ⟨109, [97]⟩, [⟨1, 4⟩]⟩]
  tags := [⟨1, [102]⟩]
  automatons := [⟨0, 0, []⟩]
  states := [⟨1, 0, [115]⟩]

def smallVersion : Version := ⟨8, 8, 0⟩

theorem hasDebug_small : HasDebug smallCode where
  header := by decide
  size := by decide
  positive := by decide
  magic := by decide
  flag := by decide

theorem fits_small : Fits smallTables where
  valid := by
    constructor <;> decide
  files := by decide
  symbols := by decide
  tags := by decide
  automatons := by decide
  states := by decide
  size := by decide

theorem ascending_small : Ascending smallTables := by
  unfold Ascending
  decide

theorem loads_small : dbg_LoadInfo (smallCode ++ smallTables.chunk smallVersion) =
    some (.ok (smallTables.image (smallTables.chunk smallVersion))) ↔
      LinesFound smallTables 0 ⟨8, 0, 8, 40, 9, 0, ⟨109, [97]⟩, [⟨1, 4⟩]⟩ :=
  loads_iff hasDebug_small fits_small smallVersion ascending_small rfl (by decide)

theorem readHeader_append {a : List UInt8} (b : List UInt8) (h : a.length = sizeof_AMX_DBG_HDR) :
    readHeader (a ++ b) = readHeader a := by
  have hmember : ∀ n offset, offset + n ≤ sizeof_AMX_DBG_HDR →
      member n offset (a ++ b) = member n offset a := fun n offset hle =>
    member_append b (by omega)
  simp only [readHeader, hmember _ _ (show 0 + 4 ≤ sizeof_AMX_DBG_HDR by decide),
    hmember _ _ (show 4 + 2 ≤ sizeof_AMX_DBG_HDR by decide),
    hmember _ _ (show 10 + 2 ≤ sizeof_AMX_DBG_HDR by decide),
    hmember _ _ (show 12 + 2 ≤ sizeof_AMX_DBG_HDR by decide),
    hmember _ _ (show 14 + 2 ≤ sizeof_AMX_DBG_HDR by decide),
    hmember _ _ (show 16 + 2 ≤ sizeof_AMX_DBG_HDR by decide),
    hmember _ _ (show 18 + 2 ≤ sizeof_AMX_DBG_HDR by decide),
    hmember _ _ (show 20 + 2 ≤ sizeof_AMX_DBG_HDR by decide)]

theorem member_lt (n offset : ℕ) (struct : List UInt8) : member n offset struct < 256 ^ n := by
  refine (value_lt _).trans_le (Nat.pow_le_pow_right (by omega) ?_)
  rw [List.length_take]
  omega

/-- What is loaded was walked through, with the header that is in the block. -/
theorem walked_of_loaded {fp : List UInt8} {img : Image} (h : dbg_LoadInfo fp = some (.ok img)) :
    loadTables img.hdr (readHeader img.hdr) = some img ∧
      (readHeader img.hdr).magic = AMX_DBG_MAGIC := by
  unfold dbg_LoadInfo at h
  simp only at h
  split_ifs at h with _ _ hdbg
  · exact absurd (Option.some.inj h) (by simp)
  · exact absurd (Option.some.inj h) (by simp)
  · exact absurd (Option.some.inj h) (by simp)
  · obtain ⟨img', hload, heq⟩ := Option.map_eq_some_iff.mp h
    obtain rfl := Except.ok.inj heq
    obtain ⟨_, _, _, _, _, hw⟩ := loadTables_eq_some_iff.mp hload
    have hhdr : readHeader img'.hdr =
        readHeader (fread fp (tablesAt fp (fread fp 0 sizeof_AMX_HEADER)) sizeof_AMX_DBG_HDR) := by
      rw [hw.hdr, block, readHeader_append _ (length_fread _ _ _)]
    rw [hhdr, hw.hdr]
    exact ⟨hload, not_not.mp hdbg⟩

theorem loaded_small : dbg_LoadInfo (smallCode ++ smallTables.chunk smallVersion) =
    some (.ok (smallTables.image (smallTables.chunk smallVersion))) := by
  refine (dbg_LoadInfo_chunk_iff hasDebug_small fits_small smallVersion rfl).mpr ?_
  refine (skipOverflow_iff (c := 0) (in_chunk fits_small.valid _) (by decide) rfl
    ascending_small).mpr ⟨fun h => absurd h (by decide), by decide⟩

/-- **Whatever is loaded is the writing of some tables.** The pointers are where their records
begin, and there are as many as the header says; the lines are as many modulo 2 ^ 16. All of the
writing is in the block, but for dimensions of the last symbol when no names follow. -/
theorem loaded_tables {fp : List UInt8} {img : Image} (h : dbg_LoadInfo fp = some (.ok img)) :
    ∃ T : Tables, ∃ beyond, T.Valid ∧
      T.write <+: (img.hdr ++ beyond).drop sizeof_AMX_DBG_HDR ∧ img = T.image img.hdr ∧
      T.Exceeds beyond ∧
      readHeader img.hdr = ⟨(readHeader img.hdr).size, AMX_DBG_MAGIC, T.files.length,
        T.lines.length % 65536, T.symbols.length, T.tags.length, T.automatons.length,
        T.states.length⟩ := by
  obtain ⟨hload, hmagic⟩ := walked_of_loaded h
  obtain ⟨T, beyond, hin, himg, hbeyond, hfiles, ⟨k, hlines⟩, hsymbols, htags, hautomatons,
    hstates⟩ := exists_tables hload
  obtain ⟨hvalid, hwrite⟩ := Tables.in_iff.mp hin
  have hlt : (readHeader img.hdr).lines < 65536 := member_lt 2 12 img.hdr
  have hmod : (readHeader img.hdr).lines = T.lines.length % 65536 := by omega
  refine ⟨T, beyond, hvalid, hwrite, himg, hbeyond, ?_⟩
  rw [← hmagic, hfiles, ← hmod, hsymbols, htags, hautomatons, hstates]

theorem loaded_tables_small : ∃ T : Tables, ∃ beyond, T.Valid ∧
    T.write <+: (smallTables.chunk smallVersion ++ beyond).drop sizeof_AMX_DBG_HDR ∧
    smallTables.image (smallTables.chunk smallVersion) = T.image (smallTables.chunk smallVersion) ∧
    T.Exceeds beyond ∧
    readHeader (smallTables.chunk smallVersion) =
      ⟨(readHeader (smallTables.chunk smallVersion)).size, AMX_DBG_MAGIC, T.files.length,
        T.lines.length % 65536, T.symbols.length, T.tags.length, T.automatons.length,
        T.states.length⟩ :=
  loaded_tables loaded_small

end SampLogCore.Debug.DebugFile
