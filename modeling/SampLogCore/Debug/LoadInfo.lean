import SampLogCore.Amx.Strings
import SampLogCore.Debug.AddressLookup
import SampLogCore.Lib.Bytes

/-!
# `dbg_LoadInfo`

The debug tables of an AMX stand behind its code in the file. `dbg_LoadInfo` reads them into one
block that begins with their header, and walks through the block to find the tables: the records
have names of any length, so the files, symbols, tags, automatons and states get a pointer each. The
lines have a fixed size and need only the pointer to the first. Their count in the header has 16
bits; there are more when the walk finds, behind the lines it has counted, another line with a
greater address.

A pointer into the block is its distance from `hdr`. A read outside of the block has no result. The
machine has its lowest byte first, so `amx_Align16` and `amx_Align32` do nothing.
-/

namespace SampLogCore.Debug.LoadInfo

open SampLogCore.Lib.Records SampLogCore.Lib.Bytes SampLogCore.Amx.Strings
  SampLogCore.Debug.AddressLookup
open SampLogCore.Debug.AmxDebugManager (Cell AMX_HEADER AmxFuncCallInfo iFUNCTN)

/-- What `dbg_LoadInfo` returns when it does not load. -/
inductive Error
  | AMX_ERR_FORMAT
  | AMX_ERR_DEBUG
  deriving DecidableEq

def AMX_MAGIC : ℕ := 0xf1e0
def AMX_FLAG_DEBUG : ℕ := 0x02
def AMX_DBG_MAGIC : ℕ := 0xf1ef

def sizeof_AMX_HEADER : ℕ := 56
def sizeof_AMX_DBG_HDR : ℕ := 22
def sizeof_AMX_DBG_FILE : ℕ := 5
def sizeof_AMX_DBG_SYMBOL : ℕ := 19
def sizeof_AMX_DBG_SYMDIM : ℕ := 6
def sizeof_AMX_DBG_TAG : ℕ := 3
def sizeof_AMX_DBG_MACHINE : ℕ := 7
def sizeof_AMX_DBG_STATE : ℕ := 5

/-- What a member of `n` bytes at `offset` in a structure holds. -/
def member (n offset : ℕ) (struct : List UInt8) : ℕ := value ((struct.drop offset).take n)

/-- `fread` of one structure of `n` bytes over zeros: what the file does not have stays zero. -/
def fread (fp : List UInt8) (pos n : ℕ) : List UInt8 :=
  (fp.drop pos).take n ++ List.replicate (n - ((fp.drop pos).take n).length) 0

/-- `fseek` from the beginning of the file. It fails on a negative offset, and the position
stays. -/
def fseek (pos : ℕ) (offset : ℤ) : ℕ := if offset < 0 then pos else offset.toNat

/-- The members of an `AMX_DBG_HDR` that are read. -/
structure AMX_DBG_HDR where
  size : ℕ
  magic : ℕ
  files : ℕ
  lines : ℕ
  symbols : ℕ
  tags : ℕ
  automatons : ℕ
  states : ℕ

def readHeader (dbghdr : List UInt8) : AMX_DBG_HDR where
  size := member 4 0 dbghdr
  magic := member 2 4 dbghdr
  files := member 2 10 dbghdr
  lines := member 2 12 dbghdr
  symbols := member 2 14 dbghdr
  tags := member 2 16 dbghdr
  automatons := member 2 18 dbghdr
  states := member 2 20 dbghdr

/-- An `AMX_DBG`: the block that `hdr` points to, and the pointers into it. A table has as many
pointers as the header says. -/
structure Image where
  hdr : List UInt8
  filetbl : List ℕ
  linetbl : ℕ
  symboltbl : List ℕ
  tagtbl : List ℕ
  automatontbl : List ℕ
  statetbl : List ℕ
  deriving DecidableEq

section Walk

variable (mem : List UInt8)

/-- `(cell)line->address > (cell)(line - 1)->address`. -/
def linesGoOn (line : ℕ) : Option Bool := do
  let address ← read32 mem line
  let before ← read32 mem (line - sizeof_AMX_DBG_LINE)
  return signed address > signed before

theorem lt_of_linesGoOn {mem : List UInt8} {line : ℕ} {b : Bool} (h : linesGoOn mem line = some b) :
    line + 4 ≤ mem.length := by
  by_contra hle
  simp [linesGoOn, read32, readWord, hle] at h

/-- `detect dbghdr.lines overflow`: where the lines end. `dbghdr.lines` is 65535 in each round. -/
def skipOverflow (ptr : ℕ) : Option ℕ :=
  match h : linesGoOn mem ptr with
  | none => none
  | some false => some ptr
  | some true => skipOverflow (ptr + (65535 + 1) * sizeof_AMX_DBG_LINE)
termination_by mem.length - ptr
decreasing_by
  have hle := lt_of_linesGoOn h
  simp only [sizeof_AMX_DBG_LINE]
  omega

/-- The pointer behind an `AMX_DBG_FILE`. -/
def fileEnd (ptr : ℕ) : Option ℕ := skip 0 mem (ptr + sizeof_AMX_DBG_FILE)

/-- The pointer behind an `AMX_DBG_SYMBOL` and its dimensions. -/
def symbolEnd (ptr : ℕ) : Option ℕ := do
  let behind ← skip 0 mem (ptr + sizeof_AMX_DBG_SYMBOL)
  let dim ← read16 mem (ptr + 16)
  return behind + dim.toNat * sizeof_AMX_DBG_SYMDIM

/-- The pointer behind an `AMX_DBG_TAG`, an `AMX_DBG_MACHINE` or an `AMX_DBG_STATE`, by its size. -/
def nameEnd (size ptr : ℕ) : Option ℕ := skip 0 mem (ptr + size - 1)

/-- The walk through the block. -/
def loadTables (dbghdr : AMX_DBG_HDR) : Option Image := do
  let (filetbl, linetbl) ← table (fileEnd mem) dbghdr.files sizeof_AMX_DBG_HDR
  let ptr ← skipOverflow mem (linetbl + dbghdr.lines * sizeof_AMX_DBG_LINE)
  let (symboltbl, ptr) ← table (symbolEnd mem) dbghdr.symbols ptr
  let (tagtbl, ptr) ← table (nameEnd mem sizeof_AMX_DBG_TAG) dbghdr.tags ptr
  let (automatontbl, ptr) ← table (nameEnd mem sizeof_AMX_DBG_MACHINE) dbghdr.automatons ptr
  let (statetbl, _) ← table (nameEnd mem sizeof_AMX_DBG_STATE) dbghdr.states ptr
  return ⟨mem, filetbl, linetbl, symboltbl, tagtbl, automatontbl, statetbl⟩

end Walk

/-- Where the debug tables are in a file whose header this is. -/
def tablesAt (fp amxhdr : List UInt8) : ℕ :=
  fseek (min sizeof_AMX_HEADER fp.length) (signed (UInt32.ofNat (member 4 0 amxhdr)))

/-- The block: the header, and behind it what the file has of the rest. -/
def block (fp : List UInt8) (pos : ℕ) : List UInt8 :=
  fread fp pos sizeof_AMX_DBG_HDR ++
    (fp.drop (pos + sizeof_AMX_DBG_HDR)).take
      ((readHeader (fread fp pos sizeof_AMX_DBG_HDR)).size - sizeof_AMX_DBG_HDR)

/-- `dbg_LoadInfo`. A size that does not even count the header makes it write behind the block. -/
def dbg_LoadInfo (fp : List UInt8) : Option (Except Error Image) :=
  let amxhdr := fread fp 0 sizeof_AMX_HEADER
  if member 2 4 amxhdr ≠ AMX_MAGIC then some (.error .AMX_ERR_FORMAT)
  else if member 2 8 amxhdr &&& AMX_FLAG_DEBUG = 0 then some (.error .AMX_ERR_DEBUG)
  else
    let pos := tablesAt fp amxhdr
    let dbghdr := readHeader (fread fp pos sizeof_AMX_DBG_HDR)
    if dbghdr.magic ≠ AMX_DBG_MAGIC then some (.error .AMX_ERR_FORMAT)
    else if dbghdr.size < sizeof_AMX_DBG_HDR then none
    else (loadTables (block fp pos) dbghdr).map .ok

/-! ### The lookups through the pointers -/

/-- How many of the pointers a search passes, going on while `test` says so. -/
def searchWhile (test : ℕ → Option Bool) : List ℕ → Option ℕ
  | [] => some 0
  | p :: tbl => do
    if ← test p then return (← searchWhile test tbl) + 1 else return 0

/-- The first pointer at which `test` holds. -/
def searchFor (test : ℕ → Option Bool) : List ℕ → Option (Option ℕ)
  | [] => some none
  | p :: tbl => do
    if ← test p then return some p else searchFor test tbl

/-- The text of a string without its terminator. -/
def text (name : List UInt8) : String := String.ofList ((beforeZero name).map char)

namespace Image

variable (img : Image)

/-- The string at a pointer. -/
def stringAt (ptr : ℕ) : Option String := do
  let behind ← skip 0 img.hdr ptr
  return text ((img.hdr.drop ptr).take (behind - ptr - 1))

/-- The entry at a pointer has an address at or below `address`. -/
def atOrBelow (address : Cell) (ptr : ℕ) : Option Bool := do
  let start ← read32 img.hdr ptr
  return start ≤ address

/-- `&linetbl[index]`. -/
def line (index : ℕ) : ℕ := img.linetbl + sizeof_AMX_DBG_LINE * index

/-- `dbg_LookupFile`: `*filename`. -/
def dbg_LookupFile (address : Cell) : Option (Option String) := do
  let index ← searchWhile (img.atOrBelow address) img.filetbl
  if index = 0 then return none
  else
    let file ← img.filetbl[index - 1]?
    return some (← img.stringAt (file + 4))

/-- The condition of the search of `dbg_LookupFunction`. -/
def isFunctionAt (address : Cell) (symbol : ℕ) : Option Bool := do
  if (← img.hdr[symbol + 14]?) ≠ iFUNCTN then return false
  else if ¬ (← read32 img.hdr (symbol + 6)) ≤ address then return false
  else return (← read32 img.hdr (symbol + 10)) > address

/-- `dbg_LookupFunction`: `*funcname`. The search goes from the last symbol to the first. -/
def dbg_LookupFunction (address : Cell) : Option (Option String) := do
  match ← searchFor (img.isFunctionAt address) img.symboltbl.reverse with
  | none => return none
  | some symbol => return some (← img.stringAt (symbol + 18))

/-- The part of `AmxDebugManager::GetFunctionCall` that looks the address up in the tables, writing
to `dest`. -/
def lookup (address : Cell) (dest : AmxFuncCallInfo) : Option (Bool × AmxFuncCallInfo) := do
  let symbol ← img.symboltbl.head?
  let num_lines := num_lines img.linetbl symbol
  let index ← searchWhile (img.atOrBelow address) ((List.range num_lines).map img.line)
  if index ≥ num_lines then return (false, dest)
  else if index = 0 then return (false, dest)
  else
    let line ← read32 img.hdr (img.line (index - 1) + 4)
    let file ← img.dbg_LookupFile address
    let dest := { dest with line := line.toInt32 + 1, file }
    if file = none then return (false, dest)
    else
      let function ← img.dbg_LookupFunction address
      let dest := { dest with function }
      if function = none then return (false, dest) else return (true, dest)

end Image

end SampLogCore.Debug.LoadInfo
