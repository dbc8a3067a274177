import Mathlib.Tactic

/-!
# Inotify events in a buffer

`read` on an inotify descriptor fills a buffer with events one after the other: a header of four
32-bit words in the byte order of the machine (`wd`, `mask`, `cookie`, `len`), then `len` bytes of
name, zero-terminated and padded with zeros. `encode` is this format, `readEvent` is what the cast
`(struct inotify_event *) &buf[i]` reads at a place of the buffer, and `strcmpZero` is the test
`strcmp(file_name, event->name) == 0` on the bytes from the name on. Both answer `none` where
they would read past the end.
-/

namespace SampLogCore.Watcher.Inotify

/-- The bits of `mask` that the watcher tests. -/
def IN_UNMOUNT : UInt32 := 0x2000
def IN_Q_OVERFLOW : UInt32 := 0x4000
def IN_IGNORED : UInt32 := 0x8000
def IN_ISDIR : UInt32 := 0x40000000

/-- `sizeof(struct inotify_event)`. -/
def EVENT_SIZE : ℕ := 16

/-- The header of an event. -/
structure Header where
  wd : Int32
  mask : UInt32
  cookie : UInt32
  len : UInt32
  deriving DecidableEq

/-- An event with its name; a name is there when `len` is positive, and it is terminated. -/
structure Event extends Header where
  name : List UInt8
  length_name : name.length = len.toNat
  terminated : 0 < len.toNat → 0 ∈ name

/-- The header has a bit of `mask` set. -/
def Header.has (e : Header) (bit : UInt32) : Bool := e.mask &&& bit != 0

/-- The bytes an event takes in the buffer. -/
def Event.size (e : Event) : ℕ := EVENT_SIZE + e.len.toNat

/-! ### Words -/

/-- The four bytes of a word, the low one first. -/
def le32 (x : UInt32) : List UInt8 :=
  [x.toUInt8, (x >>> 8).toUInt8, (x >>> 16).toUInt8, (x >>> 24).toUInt8]

/-- The word that four bytes make. -/
def ofBytes (b0 b1 b2 b3 : UInt8) : UInt32 :=
  UInt32.ofNat (b0.toNat + 256 * b1.toNat + 65536 * b2.toNat + 16777216 * b3.toNat)

/-- Reads a word and returns what follows it. -/
def take32 : List UInt8 → Option (UInt32 × List UInt8)
  | b0 :: b1 :: b2 :: b3 :: rest => some (ofBytes b0 b1 b2 b3, rest)
  | _ => none

theorem ofBytes_bytes (x : UInt32) :
    ofBytes x.toUInt8 (x >>> 8).toUInt8 (x >>> 16).toUInt8 (x >>> 24).toUInt8 = x := by
  have hx := x.toNat_lt
  apply UInt32.toNat_inj.mp
  simp [ofBytes, Nat.shiftRight_eq_div_pow]
  omega

@[simp] theorem take32_le32 (x : UInt32) (rest : List UInt8) :
    take32 (le32 x ++ rest) = some (x, rest) := by
  simp [le32, take32, ofBytes_bytes]

/-! ### Events -/

/-- The bytes of an event. -/
def encode (e : Event) : List UInt8 :=
  le32 e.wd.toUInt32 ++ le32 e.mask ++ le32 e.cookie ++ le32 e.len ++ e.name

/-- The header at a place of the buffer, and the bytes from `event->name` on. -/
def readEvent (mem : List UInt8) : Option (Header × List UInt8) := do
  let (wd, mem) ← take32 mem
  let (mask, mem) ← take32 mem
  let (cookie, mem) ← take32 mem
  let (len, mem) ← take32 mem
  return (⟨wd.toInt32, mask, cookie, len⟩, mem)

/-- `strcmp(file_name, name) == 0`, where `mem` are the bytes from `name` on. -/
def strcmpZero : List UInt8 → List UInt8 → Option Bool
  | [], b :: _ => some (b == 0)
  | a :: as, b :: bs =>
    if b = 0 then some false else if a = b then strcmpZero as bs else some false
  | _, [] => none

@[simp] theorem length_encode (e : Event) : (encode e).length = e.size := by
  simp [encode, le32, Event.size, EVENT_SIZE, e.length_name]; omega

/-- **The round trip of the format.** -/
theorem readEvent_encode (e : Event) (rest : List UInt8) :
    readEvent (encode e ++ rest) = some (e.toHeader, e.name ++ rest) := by
  simp [readEvent, encode, List.append_assoc]

/-- The comparison stops at the terminator. -/
theorem strcmpZero_terminated (file : List UInt8) : ∀ (name rest : List UInt8), 0 ∈ name →
    ∃ b, strcmpZero file (name ++ rest) = some b := by
  induction file with
  | nil =>
    intro name rest h
    cases name with
    | nil => simp at h
    | cons b bs => exact ⟨_, rfl⟩
  | cons a as ih =>
    intro name rest h
    cases name with
    | nil => simp at h
    | cons b bs =>
      simp only [List.cons_append, strcmpZero]
      split_ifs with h0 hab
      · exact ⟨_, rfl⟩
      · exact ih bs rest (by simpa [Ne.symm h0] using h)
      · exact ⟨_, rfl⟩

end SampLogCore.Watcher.Inotify
