import SampLogCore.Debug.AmxDebugManager
import SampLogCore.Lib.Fields

/-!
# Strings of an AMX

`amx_GetAddr` maps an address of the script to a pointer into the data segment: null where the
address is negative, in the gap between heap and stack, or at or above the top of the stack.
`amx_StrLen` and `amx_GetString` read a string through such a pointer, `amx_GetCppString` chains the
three and drops their error codes.

A pointer is null or what can be read through it: the cells from its address on, up to the first
address that `amx_GetAddr` does not accept. A read that goes further, or through null, is a `Fault`.
A string has one character in a cell, or four in a cell from the top byte down (*packed*), which the
first cell tells; it ends in front of a zero.

`amx_GetCppString` has a result exactly when the address is accepted and the string ends
(`getCppString_ok_iff`), and then it is the string (`amx_GetCppString_eq`).
-/

namespace SampLogCore.Amx.Strings

open SampLogCore.Lib.Fields
open SampLogCore.Debug.AmxDebugManager (Cell)

/-- What an AMX has besides the registers of a trace: the borders of heap and stack, and where the
data segment is in memory. -/
structure AMX extends SampLogCore.Debug.AmxDebugManager.AMX where
  hea : Cell
  stk : Cell
  stp : Cell
  address : Cell

/-- What must not happen. -/
inductive Fault
  /-- a read through a null pointer -/
  | null_pointer
  /-- a read behind the end of an array, or of an address that is not accepted -/
  | out_of_bounds
  /-- an exception that nobody catches -/
  | exception
  /-- a call trace without a result -/
  | no_trace
  deriving DecidableEq

/-- A cell as a signed integer. -/
def signed (c : Cell) : ℤ := c.toBitVec.toInt

variable (amx : AMX)

/-- The addresses that `amx_GetAddr` accepts. -/
def Accepts (amx_addr : ℤ) : Prop :=
  ¬ (signed amx.hea ≤ amx_addr ∧ amx_addr < signed amx.stk ∨ amx_addr < 0 ∨
    signed amx.stp ≤ amx_addr)

instance (amx_addr : ℤ) : Decidable (Accepts amx amx_addr) := by
  unfold Accepts
  infer_instance

/-- At most `n` cells from an address on, up to the first address that is not accepted. -/
def cellsUpTo : ℕ → ℤ → List Cell
  | 0, _ => []
  | n + 1, amx_addr =>
    if Accepts amx amx_addr then
      amx.data (UInt32.ofNat amx_addr.toNat) :: cellsUpTo n (amx_addr + 4)
    else []

/-- What can be read from an address on. No accepted address is above `stp`. -/
def cellsFrom (amx_addr : ℤ) : List Cell :=
  cellsUpTo amx (signed amx.stp - amx_addr).toNat amx_addr

/-- A pointer to cells, or null. -/
abbrev Ptr := Option (List Cell)

/-- `amx_GetAddr`: `*phys_addr`. -/
def amx_GetAddr (amx_addr : Cell) : Ptr :=
  if Accepts amx (signed amx_addr) then some (cellsFrom amx (signed amx_addr)) else none

/-- `*p`. -/
def deref : Ptr → Except Fault Cell
  | none => .error .null_pointer
  | some [] => .error .out_of_bounds
  | some (c :: _) => .ok c

/-- The largest cell that is a character of its own. -/
def UNPACKEDMAX : Cell := 0xFFFFFF

/-- The bytes of a cell, from the top one down. -/
def unpack (c : Cell) : List UInt8 :=
  [(c >>> 24).toUInt8, (c >>> 16).toUInt8, (c >>> 8).toUInt8, c.toUInt8]

/-- What is in front of the first zero. -/
def beforeZero (s : List UInt8) : List UInt8 := s.takeWhile (· ≠ 0)

/-- `strlen`, of cells in memory: the low byte of a cell is first. -/
def strlen (cstr : List Cell) : Except Fault ℕ :=
  let bytes := cstr.flatMap fun c => (unpack c).reverse
  if 0 ∈ bytes then .ok (beforeZero bytes).length else .error .out_of_bounds

/-- `for (len=0; cstr[len]!=0; len++)`. -/
def countCells : List Cell → Except Fault ℕ
  | [] => .error .out_of_bounds
  | c :: cstr => if c = 0 then .ok 0 else (countCells cstr).map (· + 1)

/-- The length of a packed string: `strlen` finds the last cell, whose bytes then count from the top
one down. -/
def packedLen (cstr : List Cell) : Except Fault ℕ := do
  let len ← strlen cstr
  let c ← deref (some (cstr.drop (len / 4)))
  return len - len % 4 + (beforeZero (unpack c)).length

/-- `amx_StrLen`: `*length`. -/
def amx_StrLen : Ptr → Except Fault ℕ
  | none => return 0
  | some cstr => do
    if (← deref (some cstr)) > UNPACKEDMAX then packedLen cstr else countCells cstr

/-- The loop of `amx_GetString` over a packed string: what is written to `dest` with room for `size`
characters. -/
def copyPacked : ℕ → List Cell → Except Fault (List UInt8)
  | size, [] => if size = 0 then .ok [] else .error .out_of_bounds
  | size, c :: source =>
    let written := (unpack c).take size
    if 0 ∈ written then .ok (beforeZero written)
    else (copyPacked (size - 4) source).map (written ++ ·)

/-- The loop of `amx_GetString` over an unpacked string. It reads the next cell before it looks at
the room left. -/
def copyUnpacked : ℕ → List Cell → Except Fault (List UInt8)
  | _, [] => .error .out_of_bounds
  | size, c :: source =>
    if c = 0 ∨ size = 0 then .ok [] else (copyUnpacked (size - 1) source).map (c.toUInt8 :: ·)

/-- `amx_GetString`: what is in front of the terminator in `dest`. -/
def amx_GetString (source : Ptr) (size : ℕ) : Except Fault (List UInt8) := do
  let c ← deref source
  let cells := source.getD []
  let written ← if c > UNPACKEDMAX then copyPacked size cells else copyUnpacked size cells
  return written.take (size - 1)

/-- A `char`. -/
def char (b : UInt8) : Char := Char.ofNat b.toNat

/-- `amx_GetCppString`. The string is made with its length and then overwritten, with a terminator
behind what is written. -/
def amx_GetCppString (param : Cell) : Except Fault (List Char) := do
  let addr := amx_GetAddr amx param
  let len ← amx_StrLen addr
  let written ← amx_GetString addr (len + 1)
  let string := written ++ [0] ++ List.replicate (len - (written.length + 1)) 32
  return (string.take len).map char

/-! ### What a string is -/

/-- The string ends. -/
def Terminated : List Cell → Prop
  | [] => False
  | c :: cells => if c > UNPACKEDMAX then ∃ d ∈ c :: cells, 0 ∈ unpack d else 0 ∈ c :: cells

/-- The characters of a string. -/
def characters : List Cell → List UInt8
  | [] => []
  | c :: cells =>
    if c > UNPACKEDMAX then beforeZero ((c :: cells).flatMap unpack)
    else ((c :: cells).takeWhile (· ≠ 0)).map (·.toUInt8)

/-- A string can be read at the address. -/
def StringAt (param : Cell) : Prop :=
  Accepts amx (signed param) ∧ Terminated (cellsFrom amx (signed param))

/-- The string at an address. -/
def stringAt (param : Cell) : List Char :=
  (characters (cellsFrom amx (signed param))).map char

/-! ### Zeros -/

variable {amx} {s t : List UInt8} {n size : ℕ} {param d : Cell} {cells p q : List Cell}

theorem beforeZero_append (h : 0 ∉ s) : beforeZero (s ++ t) = s ++ beforeZero t :=
  List.takeWhile_append_of_pos (all_ne h)

theorem beforeZero_cons_append (h : 0 ∉ s) : beforeZero (s ++ 0 :: t) = s := takeWhile_ne_append h

/-- What is in front of a zero, and the rest. -/
theorem exists_beforeZero (h : 0 ∈ s) : ∃ t, s = beforeZero s ++ 0 :: t := by
  obtain ⟨p, t, rfl, hp⟩ := List.eq_append_cons_of_mem h
  exact ⟨t, by rw [beforeZero_cons_append hp]⟩

theorem zero_notMem_beforeZero : 0 ∉ beforeZero s := fun h => by
  simpa using List.mem_takeWhile_imp h

/-- A prefix that has the zero is as good as the whole. -/
theorem beforeZero_take (h : 0 ∈ s) (hn : (beforeZero s).length < n) :
    0 ∈ s.take n ∧ beforeZero (s.take n) = beforeZero s := by
  obtain ⟨t, ht⟩ := exists_beforeZero h
  obtain ⟨k, hk⟩ : ∃ k, n - (beforeZero s).length = k + 1 :=
    ⟨n - (beforeZero s).length - 1, by omega⟩
  have htake : s.take n = beforeZero s ++ 0 :: t.take k := by
    conv_lhs => rw [ht]
    rw [List.take_append, List.take_of_length_le hn.le, hk, List.take_succ_cons]
  rw [htake]
  exact ⟨by simp, beforeZero_cons_append zero_notMem_beforeZero⟩

/-! ### Packed strings -/

/-- The cells of a packed string in front of its last one. -/
def Full (p : List Cell) : Prop := ∀ c ∈ p, 0 ∉ unpack c

theorem exists_full (h : ∃ d ∈ cells, 0 ∈ unpack d) :
    ∃ p d q, cells = p ++ d :: q ∧ Full p ∧ 0 ∈ unpack d := by
  induction cells with
  | nil => simp at h
  | cons c cells ih =>
    by_cases hc : 0 ∈ unpack c
    · exact ⟨[], c, cells, rfl, by simp [Full], hc⟩
    · obtain ⟨p, d, q, rfl, hp, hd⟩ := ih (by simpa [hc] using h)
      exact ⟨c :: p, d, q, rfl, List.forall_mem_cons.mpr ⟨hc, hp⟩, hd⟩

theorem length_flatMap_unpack (p : List Cell) : (p.flatMap unpack).length = 4 * p.length := by
  induction p with
  | nil => rfl
  | cons c p ih =>
    simp only [List.flatMap_cons, List.length_append, ih, List.length_cons]
    simp only [unpack, List.length_cons, List.length_nil]
    omega

theorem length_flatMap_reverse (p : List Cell) :
    (p.flatMap fun c => (unpack c).reverse).length = 4 * p.length := by
  rw [← length_flatMap_unpack]
  simp

theorem Full.notMem (hp : Full p) : 0 ∉ p.flatMap unpack := by
  simpa [Full] using hp

theorem Full.notMem_reverse (hp : Full p) : 0 ∉ p.flatMap fun c => (unpack c).reverse := by
  simpa [Full] using hp

/-- The bytes of a packed string. -/
theorem beforeZero_packed (hp : Full p) (hd : 0 ∈ unpack d) :
    beforeZero ((p ++ d :: q).flatMap unpack) = p.flatMap unpack ++ beforeZero (unpack d) := by
  obtain ⟨t, ht⟩ := exists_beforeZero hd
  rw [List.flatMap_append, beforeZero_append hp.notMem, List.flatMap_cons]
  conv_lhs => rw [ht]
  rw [List.append_assoc, List.cons_append, beforeZero_cons_append zero_notMem_beforeZero]

/-- `strlen` ends in the last cell. -/
theorem strlen_eq (hp : Full p) (hd : 0 ∈ unpack d) :
    ∃ k < 4, strlen (p ++ d :: q) = .ok (4 * p.length + k) := by
  have hrev : 0 ∈ (unpack d).reverse := List.mem_reverse.mpr hd
  obtain ⟨t, ht⟩ := exists_beforeZero hrev
  have hlen := congrArg List.length ht
  simp only [List.length_append, List.length_cons, List.length_reverse] at hlen
  refine ⟨(beforeZero (unpack d).reverse).length, ?_, ?_⟩
  · have h4 : (unpack d).length = 4 := rfl
    omega
  · have hmem : 0 ∈ (p ++ d :: q).flatMap fun c => (unpack c).reverse :=
      List.mem_flatMap.mpr ⟨d, by simp, hrev⟩
    rw [strlen]
    simp only [hmem, if_true]
    rw [List.flatMap_append, beforeZero_append hp.notMem_reverse, List.length_append,
      length_flatMap_reverse, List.flatMap_cons]
    conv_lhs => rw [ht]
    rw [List.append_assoc, List.cons_append, beforeZero_cons_append zero_notMem_beforeZero]

theorem packedLen_eq (hp : Full p) (hd : 0 ∈ unpack d) :
    packedLen (p ++ d :: q) = .ok (4 * p.length + (beforeZero (unpack d)).length) := by
  obtain ⟨k, hk, hlen⟩ := @strlen_eq d p q hp hd
  have hdiv : (4 * p.length + k) / 4 = p.length := by omega
  have hmod : 4 * p.length + k - (4 * p.length + k) % 4 = 4 * p.length := by omega
  have hlast : (p ++ d :: q).drop p.length = d :: q := List.drop_left
  simp only [packedLen, hlen, bind, Except.bind, hdiv, hlast, deref, hmod]
  rfl

/-- With room for the string and its terminator, the loop copies the string. -/
theorem copyPacked_eq (hp : Full p) (hd : 0 ∈ unpack d)
    (hsize : 4 * p.length + (beforeZero (unpack d)).length < size) :
    copyPacked size (p ++ d :: q) = .ok (p.flatMap unpack ++ beforeZero (unpack d)) := by
  induction p generalizing size with
  | nil =>
    obtain ⟨hmem, heq⟩ := beforeZero_take hd (by simpa using hsize)
    simp [copyPacked, hmem, heq]
  | cons c p ih =>
    obtain ⟨hc, hp⟩ := List.forall_mem_cons.mp hp
    simp only [List.length_cons] at hsize
    have htake : (unpack c).take size = unpack c :=
      List.take_of_length_le (by simp only [unpack, List.length_cons, List.length_nil]; omega)
    simp only [List.cons_append, copyPacked, htake, if_neg hc]
    rw [ih hp (by omega)]
    simp [Except.map]

/-! ### Unpacked strings -/

theorem countCells_eq (h : 0 ∈ cells) :
    countCells cells = .ok (cells.takeWhile (· ≠ 0)).length := by
  induction cells with
  | nil => exact absurd h List.not_mem_nil
  | cons c cells ih =>
    by_cases hc : c = 0
    · simp [countCells, hc]
    · rw [countCells, if_neg hc, ih ((List.mem_cons.mp h).resolve_left (Ne.symm hc)),
        List.takeWhile_cons_of_pos (by simpa using hc)]
      rfl

theorem countCells_of_notMem (h : 0 ∉ cells) : countCells cells = .error .out_of_bounds := by
  induction cells with
  | nil => rfl
  | cons c cells ih =>
    simp only [List.mem_cons, not_or] at h
    rw [countCells, if_neg (Ne.symm h.1), ih h.2]
    rfl

theorem copyUnpacked_eq (h : 0 ∈ cells) (hsize : (cells.takeWhile (· ≠ 0)).length < size) :
    copyUnpacked size cells = .ok ((cells.takeWhile (· ≠ 0)).map (·.toUInt8)) := by
  induction cells generalizing size with
  | nil => exact absurd h List.not_mem_nil
  | cons c cells ih =>
    by_cases hc : c = 0
    · simp [copyUnpacked, hc]
    · rw [List.takeWhile_cons_of_pos (by simpa using hc), List.length_cons] at hsize
      have hroom : ¬ (c = 0 ∨ size = 0) := not_or.mpr ⟨hc, by omega⟩
      rw [copyUnpacked, if_neg hroom, ih ((List.mem_cons.mp h).resolve_left (Ne.symm hc))
        (by omega), List.takeWhile_cons_of_pos (by simpa using hc)]
      rfl

/-! ### Reading a string -/

theorem amx_StrLen_eq (h : Terminated cells) :
    amx_StrLen (some cells) = .ok (characters cells).length := by
  cases cells with
  | nil => exact absurd h id
  | cons c cells =>
    simp only [amx_StrLen, deref, bind, Except.bind, Terminated, characters] at h ⊢
    split_ifs at h ⊢ with hc
    · obtain ⟨p, d, q, heq, hp, hd⟩ := exists_full h
      rw [heq, packedLen_eq hp hd, beforeZero_packed hp hd, List.length_append,
        length_flatMap_unpack]
    · rw [countCells_eq h, List.length_map]

theorem amx_GetString_eq (h : Terminated cells) :
    amx_GetString (some cells) ((characters cells).length + 1) = .ok (characters cells) := by
  cases cells with
  | nil => exact absurd h id
  | cons c cells =>
    simp only [amx_GetString, deref, bind, Except.bind, Terminated, characters,
      Option.getD_some] at h ⊢
    split_ifs at h ⊢ with hc
    · obtain ⟨p, d, q, heq, hp, hd⟩ := exists_full h
      have hlen : (p.flatMap unpack ++ beforeZero (unpack d)).length =
          4 * p.length + (beforeZero (unpack d)).length := by
        rw [List.length_append, length_flatMap_unpack]
      rw [heq, beforeZero_packed hp hd, copyPacked_eq hp hd (by omega)]
      exact congrArg Except.ok List.take_length
    · rw [copyUnpacked_eq h (by simp)]
      exact congrArg Except.ok List.take_length

/-- **The string at an address.** -/
theorem amx_GetCppString_eq (h : StringAt amx param) :
    amx_GetCppString amx param = .ok (stringAt amx param) := by
  obtain ⟨haccepts, hterminated⟩ := h
  simp only [amx_GetCppString, amx_GetAddr, if_pos haccepts, bind, Except.bind,
    amx_StrLen_eq hterminated, amx_GetString_eq hterminated]
  simp [stringAt, pure, Except.pure]

/-- A string without an end is not measured. -/
theorem amx_StrLen_of_not_terminated (h : ¬ Terminated cells) :
    amx_StrLen (some cells) = .error .out_of_bounds := by
  cases cells with
  | nil => rfl
  | cons c cells =>
    simp only [amx_StrLen, deref, bind, Except.bind, Terminated] at h ⊢
    split_ifs at h ⊢ with hc
    · have hmem : 0 ∉ (c :: cells).flatMap fun c => (unpack c).reverse := by
        simpa using h
      simp only [packedLen, strlen, if_neg hmem, bind, Except.bind]
    · exact countCells_of_notMem h

/-- **When `amx_GetCppString` has a result.** A null pointer has a length, but cannot be read. -/
theorem getCppString_ok_iff :
    (∃ s, amx_GetCppString amx param = .ok s) ↔ StringAt amx param := by
  refine ⟨fun ⟨s, hs⟩ => ?_, fun h => ⟨_, amx_GetCppString_eq h⟩⟩
  simp only [amx_GetCppString, amx_GetAddr, bind, Except.bind] at hs
  split_ifs at hs with haccepts
  · refine ⟨haccepts, ?_⟩
    by_contra hterminated
    rw [amx_StrLen_of_not_terminated hterminated] at hs
    exact absurd hs (by simp)
  · exact absurd hs (by simp [amx_StrLen, amx_GetString, deref, bind, Except.bind, pure,
      Except.pure])

end SampLogCore.Amx.Strings
