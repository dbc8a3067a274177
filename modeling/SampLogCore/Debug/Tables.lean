import SampLogCore.Debug.LoadInfo

/-!
# The format of the debug tables

The records of the six tables, and how they are written. The first character of a name lies in the
structure, so for a file and for a symbol it may be anything, and the name ends at the first zero
behind it; the names of tags, automatons and states end at their first zero. A symbol is followed by
its dimensions.

The pointers that `dbg_LoadInfo` walks over scan exactly these formats (`scans_file`,
`scans_symbol`, `scans_tag`, `scans_machine`, `scans_state`).
-/

namespace SampLogCore.Debug.Tables

open SampLogCore.Lib.Records SampLogCore.Lib.Bytes SampLogCore.Debug.LoadInfo
open SampLogCore.Debug.AmxDebugManager (Cell AMX_DBG_LINE AMX_DBG_FILE AMX_DBG_SYMBOL AMX_DBG)
open SampLogCore.Debug.AddressLookup (sizeof_AMX_DBG_LINE)

/-- A name whose first character lies in the structure. -/
structure Name where
  first : UInt8
  rest : List UInt8

structure File where
  address : Cell
  name : Name

structure SymDim where
  tag : UInt16
  size : Cell

structure Symbol where
  address : Cell
  tag : UInt16
  codestart : Cell
  codeend : Cell
  ident : UInt8
  vclass : UInt8
  name : Name
  dims : List SymDim

structure Tag where
  tag : UInt16
  name : List UInt8

structure Machine where
  automaton : UInt16
  address : Cell
  name : List UInt8

structure State where
  state : UInt16
  automaton : UInt16
  name : List UInt8

/-! ### The formats -/

def nameParts (n : Name) : UInt8 × List UInt8 := (n.first, n.rest)

theorem nameParts_injective : Function.Injective nameParts := by
  rintro ⟨⟩ ⟨⟩ h
  simpa [nameParts] using h

def nameFormat : Format UInt8 Name :=
  (Format.one.seq fun _ => Format.terminated 0).comap nameParts nameParts_injective

def fileParts (f : File) : Cell × Name := (f.address, f.name)

theorem fileParts_injective : Function.Injective fileParts := by
  rintro ⟨⟩ ⟨⟩ h
  simpa [fileParts] using h

def fileFormat : Format UInt8 File :=
  (word32.seq fun _ => nameFormat).comap fileParts fileParts_injective

def lineParts (l : AMX_DBG_LINE) : Cell × UInt32 := (l.address, l.line.toUInt32)

theorem lineParts_injective : Function.Injective lineParts := by
  rintro ⟨_, _⟩ ⟨_, _⟩ h
  obtain ⟨haddress, hline⟩ := Prod.mk.inj h
  simp only [AMX_DBG_LINE.mk.injEq]
  exact ⟨haddress, Int32.toBitVec.inj (congrArg UInt32.toBitVec hline)⟩

def lineFormat : Format UInt8 AMX_DBG_LINE :=
  (word32.seq fun _ => word32).comap lineParts lineParts_injective

def dimParts (d : SymDim) : UInt16 × Cell := (d.tag, d.size)

theorem dimParts_injective : Function.Injective dimParts := by
  rintro ⟨⟩ ⟨⟩ h
  simpa [dimParts] using h

def dimFormat : Format UInt8 SymDim :=
  (word16.seq fun _ => word32).comap dimParts dimParts_injective

/-- `dim`. -/
def Symbol.dim (s : Symbol) : UInt16 := UInt16.ofNat s.dims.length

/-- The structure, the part of the name behind it, and the dimensions. -/
def symbolParts (s : Symbol) :
    Cell × UInt16 × Cell × Cell × UInt8 × UInt8 × UInt16 × Name × List SymDim :=
  (s.address, s.tag, s.codestart, s.codeend, s.ident, s.vclass, s.dim, s.name, s.dims)

theorem symbolParts_injective : Function.Injective symbolParts := by
  rintro ⟨⟩ ⟨⟩ h
  simp only [symbolParts, Prod.mk.injEq] at h
  simp only [Symbol.mk.injEq]
  tauto

def symbolFormat : Format UInt8 Symbol :=
  (word32.seq fun _ => word16.seq fun _ => word32.seq fun _ => word32.seq fun _ =>
    Format.one.seq fun _ => Format.one.seq fun _ => word16.seq fun dim => nameFormat.seq fun _ =>
      Format.times dim.toNat dimFormat).comap symbolParts symbolParts_injective

def tagParts (t : Tag) : UInt16 × List UInt8 := (t.tag, t.name)

theorem tagParts_injective : Function.Injective tagParts := by
  rintro ⟨⟩ ⟨⟩ h
  simpa [tagParts] using h

def tagFormat : Format UInt8 Tag :=
  (word16.seq fun _ => Format.terminated 0).comap tagParts tagParts_injective

def machineParts (m : Machine) : UInt16 × Cell × List UInt8 := (m.automaton, m.address, m.name)

theorem machineParts_injective : Function.Injective machineParts := by
  rintro ⟨⟩ ⟨⟩ h
  simpa [machineParts] using h

def machineFormat : Format UInt8 Machine :=
  (word16.seq fun _ => word32.seq fun _ => Format.terminated 0).comap machineParts
    machineParts_injective

def stateParts (s : State) : UInt16 × UInt16 × List UInt8 := (s.state, s.automaton, s.name)

theorem stateParts_injective : Function.Injective stateParts := by
  rintro ⟨⟩ ⟨⟩ h
  simpa [stateParts] using h

def stateFormat : Format UInt8 State :=
  (word16.seq fun _ => word16.seq fun _ => Format.terminated 0).comap stateParts
    stateParts_injective

/-! ### Which records there are -/

theorem word16_valid (c : UInt16) : word16.Valid c := c.toNat_lt

theorem word32_valid (c : Cell) : word32.Valid c := c.toNat_lt

theorem nameFormat_valid {n : Name} : nameFormat.Valid n ↔ 0 ∉ n.rest := by
  show True ∧ 0 ∉ n.rest ↔ 0 ∉ n.rest
  tauto

theorem fileFormat_valid {f : File} : fileFormat.Valid f ↔ 0 ∉ f.name.rest := by
  show word32.Valid f.address ∧ nameFormat.Valid f.name ↔ _
  rw [nameFormat_valid]
  have haddress := word32_valid f.address
  tauto

theorem lineFormat_valid (l : AMX_DBG_LINE) : lineFormat.Valid l :=
  ⟨word32_valid l.address, word32_valid l.line.toUInt32⟩

theorem dimFormat_valid (d : SymDim) : dimFormat.Valid d :=
  ⟨word16_valid d.tag, word32_valid d.size⟩

/-- The dimensions of a symbol can be counted. -/
theorem symbolFormat_valid {s : Symbol} :
    symbolFormat.Valid s ↔ 0 ∉ s.name.rest ∧ s.dims.length < 65536 := by
  have hcount : s.dims.length = s.dim.toNat ↔ s.dims.length < 65536 := by
    rw [Symbol.dim, UInt16.toNat_ofNat']
    omega
  show word32.Valid s.address ∧ word16.Valid s.tag ∧ word32.Valid s.codestart ∧
    word32.Valid s.codeend ∧ True ∧ True ∧ word16.Valid s.dim ∧ nameFormat.Valid s.name ∧
    (s.dims.length = s.dim.toNat ∧ ∀ d ∈ s.dims, dimFormat.Valid d) ↔ _
  rw [nameFormat_valid, hcount]
  constructor
  · rintro ⟨-, -, -, -, -, -, -, hname, hdims, -⟩
    exact ⟨hname, hdims⟩
  · rintro ⟨hname, hdims⟩
    exact ⟨word32_valid _, word16_valid _, word32_valid _, word32_valid _, trivial, trivial,
      word16_valid _, hname, hdims, fun d _ => dimFormat_valid d⟩

theorem tagFormat_valid {t : Tag} : tagFormat.Valid t ↔ 0 ∉ t.name := by
  show word16.Valid t.tag ∧ 0 ∉ t.name ↔ _
  have htag := word16_valid t.tag
  tauto

theorem machineFormat_valid {m : Machine} : machineFormat.Valid m ↔ 0 ∉ m.name := by
  show word16.Valid m.automaton ∧ word32.Valid m.address ∧ 0 ∉ m.name ↔ _
  have hautomaton := word16_valid m.automaton
  have haddress := word32_valid m.address
  tauto

theorem stateFormat_valid {s : State} : stateFormat.Valid s ↔ 0 ∉ s.name := by
  show word16.Valid s.state ∧ word16.Valid s.automaton ∧ 0 ∉ s.name ↔ _
  have hstate := word16_valid s.state
  have hautomaton := word16_valid s.automaton
  tauto

/-! ### The members of a record -/

variable {mem : List UInt8} {p q : ℕ}

theorem at_name {n : Name} : nameFormat.At mem p q n ↔
    mem[p]? = some n.first ∧ (Format.terminated 0).At mem (p + 1) q n.rest := by
  simp only [nameFormat, Format.at_comap, nameParts, Format.at_seq, Format.at_one]
  constructor
  · rintro ⟨_, ⟨hfirst, rfl⟩, hrest⟩
    exact ⟨hfirst, hrest⟩
  · rintro ⟨hfirst, hrest⟩
    exact ⟨_, ⟨hfirst, rfl⟩, hrest⟩

theorem at_file {f : File} : fileFormat.At mem p q f ↔
    read32 mem p = some f.address ∧ nameFormat.At mem (p + 4) q f.name := by
  simp only [fileFormat, Format.at_comap, fileParts, Format.at_seq, word32_at]
  constructor
  · rintro ⟨_, ⟨haddress, rfl⟩, hname⟩
    exact ⟨haddress, hname⟩
  · rintro ⟨haddress, hname⟩
    exact ⟨_, ⟨haddress, rfl⟩, hname⟩

theorem at_line {l : AMX_DBG_LINE} : lineFormat.At mem p q l ↔
    read32 mem p = some l.address ∧ read32 mem (p + 4) = some l.line.toUInt32 ∧ q = p + 8 := by
  simp only [lineFormat, Format.at_comap, lineParts, Format.at_seq, word32_at]
  constructor
  · rintro ⟨_, ⟨haddress, rfl⟩, hline, rfl⟩
    exact ⟨haddress, hline, rfl⟩
  · rintro ⟨haddress, hline, rfl⟩
    exact ⟨_, ⟨haddress, rfl⟩, hline, rfl⟩

theorem at_dim {d : SymDim} : dimFormat.At mem p q d ↔
    read16 mem p = some d.tag ∧ read32 mem (p + 2) = some d.size ∧ q = p + 6 := by
  simp only [dimFormat, Format.at_comap, dimParts, Format.at_seq, word16_at, word32_at]
  constructor
  · rintro ⟨_, ⟨htag, rfl⟩, hsize, rfl⟩
    exact ⟨htag, hsize, rfl⟩
  · rintro ⟨htag, hsize, rfl⟩
    exact ⟨_, ⟨htag, rfl⟩, hsize, rfl⟩

/-- The members of a symbol's structure that have a fixed place. -/
structure SymbolMembers (mem : List UInt8) (p : ℕ) (s : Symbol) : Prop where
  address : read32 mem p = some s.address
  tag : read16 mem (p + 4) = some s.tag
  codestart : read32 mem (p + 6) = some s.codestart
  codeend : read32 mem (p + 10) = some s.codeend
  ident : mem[p + 14]? = some s.ident
  vclass : mem[p + 15]? = some s.vclass
  dim : read16 mem (p + 16) = some s.dim

theorem at_symbol {s : Symbol} : symbolFormat.At mem p q s ↔ SymbolMembers mem p s ∧
    ∃ m, nameFormat.At mem (p + 18) m s.name ∧ (dimFormat.times s.dim.toNat).At mem m q s.dims := by
  simp only [symbolFormat, Format.at_comap, symbolParts, Format.at_seq, word16_at, word32_at,
    Format.at_one]
  constructor
  · rintro ⟨_, ⟨h0, rfl⟩, _, ⟨h4, rfl⟩, _, ⟨h6, rfl⟩, _, ⟨h10, rfl⟩, _, ⟨h14, rfl⟩, _,
      ⟨h15, rfl⟩, _, ⟨h16, rfl⟩, m, hname, hdims⟩
    exact ⟨⟨h0, h4, h6, h10, h14, h15, h16⟩, m, hname, hdims⟩
  · rintro ⟨h, m, hname, hdims⟩
    exact ⟨_, ⟨h.address, rfl⟩, _, ⟨h.tag, rfl⟩, _, ⟨h.codestart, rfl⟩, _, ⟨h.codeend, rfl⟩, _,
      ⟨h.ident, rfl⟩, _, ⟨h.vclass, rfl⟩, _, ⟨h.dim, rfl⟩, m, hname, hdims⟩

theorem at_tag {t : Tag} : tagFormat.At mem p q t ↔
    read16 mem p = some t.tag ∧ (Format.terminated 0).At mem (p + 2) q t.name := by
  simp only [tagFormat, Format.at_comap, tagParts, Format.at_seq, word16_at]
  constructor
  · rintro ⟨_, ⟨htag, rfl⟩, hname⟩
    exact ⟨htag, hname⟩
  · rintro ⟨htag, hname⟩
    exact ⟨_, ⟨htag, rfl⟩, hname⟩

theorem at_machine {m : Machine} : machineFormat.At mem p q m ↔ read16 mem p = some m.automaton ∧
    read32 mem (p + 2) = some m.address ∧ (Format.terminated 0).At mem (p + 6) q m.name := by
  simp only [machineFormat, Format.at_comap, machineParts, Format.at_seq, word16_at, word32_at]
  constructor
  · rintro ⟨_, ⟨hautomaton, rfl⟩, _, ⟨haddress, rfl⟩, hname⟩
    exact ⟨hautomaton, haddress, hname⟩
  · rintro ⟨hautomaton, haddress, hname⟩
    exact ⟨_, ⟨hautomaton, rfl⟩, _, ⟨haddress, rfl⟩, hname⟩

theorem at_state {s : State} : stateFormat.At mem p q s ↔ read16 mem p = some s.state ∧
    read16 mem (p + 2) = some s.automaton ∧ (Format.terminated 0).At mem (p + 4) q s.name := by
  simp only [stateFormat, Format.at_comap, stateParts, Format.at_seq, word16_at]
  constructor
  · rintro ⟨_, ⟨hstate, rfl⟩, _, ⟨hautomaton, rfl⟩, hname⟩
    exact ⟨hstate, hautomaton, hname⟩
  · rintro ⟨hstate, hautomaton, hname⟩
    exact ⟨_, ⟨hstate, rfl⟩, _, ⟨hautomaton, rfl⟩, hname⟩

/-! ### The walk scans the formats -/

theorem exists_byte (mem : List UInt8) (p : ℕ) (h : p < mem.length) : ∃ b, mem[p]? = some b :=
  ⟨mem[p], List.getElem?_eq_getElem h⟩

/-- Behind the first character, a name ends at its first zero. -/
theorem exists_at_name (h : skip 0 mem (p + 1) = some q) : ∃ n, nameFormat.At mem p q n := by
  obtain ⟨rest, hrest⟩ := skip_eq_some_iff.mp h
  have hlt := lt_of_skip h
  obtain ⟨first, hfirst⟩ := exists_byte mem p (by omega)
  exact ⟨⟨first, rest⟩, at_name.mpr ⟨hfirst, hrest⟩⟩

theorem skip_of_at_name {n : Name} (h : nameFormat.At mem p q n) : skip 0 mem (p + 1) = some q :=
  skip_eq_some_iff.mpr ⟨n.rest, (at_name.mp h).2⟩

theorem scans_file : Scans (fileEnd mem) fileFormat mem where
  le h := by
    have := (lt_of_skip h).1
    simp only [sizeof_AMX_DBG_FILE] at this
    omega
  iff := by
    intro p q _
    show skip 0 mem (p + 4 + 1) = some q ↔ _
    simp only [at_file]
    constructor
    · intro h
      have hlt := lt_of_skip h
      obtain ⟨address, haddress⟩ := exists_read32 mem p (by omega)
      obtain ⟨name, hname⟩ := exists_at_name h
      exact ⟨⟨address, name⟩, haddress, hname⟩
    · rintro ⟨f, -, hname⟩
      exact skip_of_at_name hname

theorem length_write_dim (d : SymDim) : (dimFormat.write d).length = 6 := by
  simp [dimFormat, Format.comap, Format.seq, word16, word32, word]

/-- Dimensions may hold anything. -/
theorem exists_at_dim (mem : List UInt8) (p : ℕ) (h : p + 6 ≤ mem.length) :
    ∃ d, dimFormat.At mem p (p + 6) d := by
  obtain ⟨tag, htag⟩ := exists_read16 mem p (by omega)
  obtain ⟨size, hsize⟩ := exists_read32 mem (p + 2) (by omega)
  exact ⟨⟨tag, size⟩, at_dim.mpr ⟨htag, hsize, rfl⟩⟩

theorem end_of_at_dims {n : ℕ} {l : List SymDim} (h : (dimFormat.times n).At mem p q l) :
    q = p + n * 6 := by
  obtain ⟨⟨hlen, -⟩, -, rfl⟩ := h
  simp only [Format.times, Format.length_write_times length_write_dim, hlen]

theorem length_write_line (l : AMX_DBG_LINE) : (lineFormat.write l).length = 8 := by
  simp [lineFormat, Format.comap, Format.seq, word32, word]

/-- Lines may hold anything. -/
theorem exists_at_line (mem : List UInt8) (p : ℕ)
    (h : p + 8 ≤ mem.length) : ∃ l, lineFormat.At mem p (p + 8) l := by
  obtain ⟨address, haddress⟩ := exists_read32 mem p (by omega)
  obtain ⟨line, hline⟩ := exists_read32 mem (p + 4) (by omega)
  exact ⟨⟨address, line.toInt32⟩, at_line.mpr ⟨haddress, by simpa using hline, rfl⟩⟩

theorem symbolEnd_eq_some_iff : symbolEnd mem p = some q ↔ ∃ m dim,
    skip 0 mem (p + 19) = some m ∧ read16 mem (p + 16) = some dim ∧ q = m + dim.toNat * 6 := by
  simp only [symbolEnd, sizeof_AMX_DBG_SYMBOL, sizeof_AMX_DBG_SYMDIM, Option.bind_eq_bind,
    Option.bind_eq_some_iff, Option.pure_def, Option.some.injEq]
  constructor
  · rintro ⟨m, hm, dim, hdim, rfl⟩
    exact ⟨m, dim, hm, hdim, rfl⟩
  · rintro ⟨m, dim, hm, hdim, rfl⟩
    exact ⟨m, hm, dim, hdim, rfl⟩

theorem scans_symbol : Scans (symbolEnd mem) symbolFormat mem where
  le h := by
    obtain ⟨m, dim, hm, -, rfl⟩ := symbolEnd_eq_some_iff.mp h
    have := (lt_of_skip hm).1
    omega
  iff := by
    intro p q hq
    simp only [symbolEnd_eq_some_iff, at_symbol]
    constructor
    · rintro ⟨m, dim, hm, hdim, rfl⟩
      have hlt := lt_of_skip hm
      obtain ⟨address, haddress⟩ := exists_read32 mem p (by omega)
      obtain ⟨tag, htag⟩ := exists_read16 mem (p + 4) (by omega)
      obtain ⟨codestart, hstart⟩ := exists_read32 mem (p + 6) (by omega)
      obtain ⟨codeend, hend⟩ := exists_read32 mem (p + 10) (by omega)
      obtain ⟨ident, hident⟩ := exists_byte mem (p + 14) (by omega)
      obtain ⟨vclass, hvclass⟩ := exists_byte mem (p + 15) (by omega)
      obtain ⟨name, hname⟩ := exists_at_name (p := p + 18) hm
      obtain ⟨dims, hdims⟩ := Format.exists_at_times (exists_at_dim mem) hq
      have hcount : UInt16.ofNat dims.length = dim := by
        rw [hdims.1.1, UInt16.ofNat_toNat]
      refine ⟨⟨address, tag, codestart, codeend, ident, vclass, name, dims⟩,
        ⟨haddress, htag, hstart, hend, hident, hvclass, ?_⟩, m, hname, ?_⟩
      · rw [hdim, Symbol.dim, hcount]
      · rw [Symbol.dim, hcount]
        exact hdims
    · rintro ⟨s, h, m, hname, hdims⟩
      exact ⟨m, s.dim, skip_of_at_name hname, h.dim, end_of_at_dims hdims⟩

theorem scans_tag : Scans (nameEnd mem sizeof_AMX_DBG_TAG) tagFormat mem where
  le h := by
    have := (lt_of_skip h).1
    simp only [sizeof_AMX_DBG_TAG] at this
    omega
  iff := by
    intro p q _
    show skip 0 mem (p + 2) = some q ↔ _
    simp only [at_tag]
    constructor
    · intro h
      have hlt := lt_of_skip h
      obtain ⟨tag, htag⟩ := exists_read16 mem p (by omega)
      obtain ⟨name, hname⟩ := skip_eq_some_iff.mp h
      exact ⟨⟨tag, name⟩, htag, hname⟩
    · rintro ⟨t, -, hname⟩
      exact skip_eq_some_iff.mpr ⟨t.name, hname⟩

theorem scans_machine : Scans (nameEnd mem sizeof_AMX_DBG_MACHINE) machineFormat mem where
  le h := by
    have := (lt_of_skip h).1
    simp only [sizeof_AMX_DBG_MACHINE] at this
    omega
  iff := by
    intro p q _
    show skip 0 mem (p + 6) = some q ↔ _
    simp only [at_machine]
    constructor
    · intro h
      have hlt := lt_of_skip h
      obtain ⟨automaton, hautomaton⟩ := exists_read16 mem p (by omega)
      obtain ⟨address, haddress⟩ := exists_read32 mem (p + 2) (by omega)
      obtain ⟨name, hname⟩ := skip_eq_some_iff.mp h
      exact ⟨⟨automaton, address, name⟩, hautomaton, haddress, hname⟩
    · rintro ⟨m, -, -, hname⟩
      exact skip_eq_some_iff.mpr ⟨m.name, hname⟩

theorem scans_state : Scans (nameEnd mem sizeof_AMX_DBG_STATE) stateFormat mem where
  le h := by
    have := (lt_of_skip h).1
    simp only [sizeof_AMX_DBG_STATE] at this
    omega
  iff := by
    intro p q _
    show skip 0 mem (p + 4) = some q ↔ _
    simp only [at_state]
    constructor
    · intro h
      have hlt := lt_of_skip h
      obtain ⟨state, hstate⟩ := exists_read16 mem p (by omega)
      obtain ⟨automaton, hautomaton⟩ := exists_read16 mem (p + 2) (by omega)
      obtain ⟨name, hname⟩ := skip_eq_some_iff.mp h
      exact ⟨⟨state, automaton, name⟩, hstate, hautomaton, hname⟩
    · rintro ⟨s, -, -, hname⟩
      exact skip_eq_some_iff.mpr ⟨s.name, hname⟩

end SampLogCore.Debug.Tables
