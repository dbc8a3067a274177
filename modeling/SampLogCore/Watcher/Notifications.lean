import SampLogCore.Lib.Loop
import SampLogCore.Watcher.EventLoop

/-!
# Change notifications of a directory

On Windows the watcher reads the changes of the directory as `FILE_NOTIFY_INFORMATION` records:
three 32-bit words (`NextEntryOffset`, `Action`, `FileNameLength`) and the name in wide characters,
without a terminator. `NextEntryOffset` is the distance to the next record, and 0 in the last one.
`encodeAll` is this format.

`doBody` is one round of the `do` loop with which `FileChangeDetector::EventLoop` goes through the
buffer. `ends_walk`: it handles every record of a batch once and in order, ends at the last one,
and reads nothing behind it.
-/

namespace SampLogCore.Watcher.Notifications

open SampLogCore.Lib.Loop SampLogCore.Watcher.Inotify
open SampLogCore.Watcher.EventLoop (oneSecond)

def FILE_ACTION_ADDED : UInt32 := 1
def FILE_ACTION_REMOVED : UInt32 := 2
def FILE_ACTION_MODIFIED : UInt32 := 3
def FILE_ACTION_RENAMED_OLD_NAME : UInt32 := 4
def FILE_ACTION_RENAMED_NEW_NAME : UInt32 := 5

/-- `sizeof(change_filename)`. -/
def MAX_PATH : ℕ := 260

/-! ### The format -/

/-- A record, with the bytes between its name and the next record. The name is a component of a
path, which has at most 255 characters. -/
structure Notification where
  Action : UInt32
  FileName : List UInt16
  padding : List UInt8
  length_name : FileName.length ≤ 255
  length_padding : padding.length ≤ 3

/-- The bytes of a wide character, the low one first. -/
def le16 (x : UInt16) : List UInt8 := [x.toUInt8, (x >>> 8).toUInt8]

/-- Reads a wide character and returns what follows it. -/
def take16 : List UInt8 → Option (UInt16 × List UInt8)
  | b0 :: b1 :: rest => some (UInt16.ofNat (b0.toNat + 256 * b1.toNat), rest)
  | _ => none

/-- Reads some wide characters. -/
def takeChars : ℕ → List UInt8 → Option (List UInt16)
  | 0, _ => some []
  | n + 1, buf => (take16 buf).bind fun r => (takeChars n r.2).map (r.1 :: ·)

namespace Notification

variable (n : Notification)

/-- The bytes of a record. -/
def size : ℕ := 12 + 2 * n.FileName.length + n.padding.length

def encode (NextEntryOffset : UInt32) : List UInt8 :=
  le32 NextEntryOffset ++ le32 n.Action ++ le32 (UInt32.ofNat (2 * n.FileName.length)) ++
    n.FileName.flatMap le16 ++ n.padding

end Notification

/-- A batch, as it is written to the buffer. -/
def encodeAll : List Notification → List UInt8
  | [] => []
  | [n] => n.encode 0
  | n :: ns => n.encode (UInt32.ofNat n.size) ++ encodeAll ns

/-! ### The loop -/

/-- What the thread keeps from batch to batch. -/
structure Watch where
  /-- `last_execution_tp`, in nanoseconds -/
  last_execution_tp : ℤ
  /-- the static variable `is_first` -/
  is_first : Bool
  /-- how often the clock was read -/
  clockReads : ℕ
  /-- history: which readings of the clock were followed by a callback -/
  fired : List ℕ
  /-- history: the actions that were warned of -/
  warned : List UInt32

/-- The parameters of the loop. -/
structure Env where
  filename : List UInt8
  now : ℕ → ℤ
  /-- `WideCharToMultiByte` into `MAX_PATH` bytes, nothing when it returns 0 -/
  WideCharToMultiByte : List UInt16 → Option (List UInt8)

variable (env : Env)

/-- `if (execute)`: don't spam with change events. -/
def Watch.execute (w : Watch) : Watch :=
  let current_tp := env.now w.clockReads
  if current_tp - w.last_execution_tp > oneSecond then
    { w with last_execution_tp := current_tp, clockReads := w.clockReads + 1,
             fired := w.fired ++ [w.clockReads] }
  else { w with clockReads := w.clockReads + 1 }

/-- The `switch` over the action, and what follows it. -/
def Watch.change (w : Watch) (Action : UInt32) : Watch :=
  if Action = FILE_ACTION_ADDED ∨ Action = FILE_ACTION_RENAMED_NEW_NAME then w.execute env
  else if Action = FILE_ACTION_MODIFIED then
    -- skip every first update
    if w.is_first then { w with is_first := false }
    else Watch.execute env { w with is_first := true }
  else if Action = FILE_ACTION_REMOVED ∨ Action = FILE_ACTION_RENAMED_OLD_NAME then w
  else { w with warned := w.warned ++ [Action] }

/-- `change_filename`, once its terminator is written. -/
def changeFilename (converted : List UInt8) (length : ℕ) : List UInt8 :=
  (converted.take length).takeWhile (· ≠ 0)

structure WalkState where
  offset : ℕ
  watch : Watch
  /-- history: the offsets of the records that were handled -/
  examined : List ℕ

inductive Outcome
  | left (s : WalkState)
  /-- a read behind the buffer -/
  | outside
  /-- a write behind `change_filename` -/
  | overrun
  /-- a read of bytes of `change_filename` that were not written -/
  | uninitialised

/-- Reads a record: `NextEntryOffset`, `Action` and the name. -/
def readNotification (buf : List UInt8) : Option (UInt32 × UInt32 × List UInt16) :=
  (take32 buf).bind fun (NextEntryOffset, buf) =>
    (take32 buf).bind fun (Action, buf) =>
      (take32 buf).bind fun (FileNameLength, buf) =>
        (takeChars (FileNameLength.toNat / 2) buf).map fun name => (NextEntryOffset, Action, name)

/-- `while (notify_info->NextEntryOffset != 0)`. -/
def doWhile (NextEntryOffset : UInt32) (s : WalkState) : Round WalkState Outcome :=
  if NextEntryOffset ≠ 0 then .again s else .leave (.left s)

/-- **One round of the loop** over the buffer. -/
def doBody (buf : List UInt8) (s : WalkState) : Round WalkState Outcome :=
  match readNotification (buf.drop s.offset) with
  | none => .leave .outside
  | some (NextEntryOffset, Action, name) =>
    let s := { s with
      offset := s.offset + NextEntryOffset.toNat
      examined := s.examined ++ [s.offset] }
    match env.WideCharToMultiByte name with
    | none => doWhile NextEntryOffset s
    | some converted =>
      if MAX_PATH ≤ name.length then .leave .overrun
      else if converted.length < name.length then .leave .uninitialised
      else if changeFilename converted name.length ≠ env.filename then doWhile NextEntryOffset s
      else doWhile NextEntryOffset { s with watch := s.watch.change env Action }

/-- A converted name has a byte for each wide character at least. -/
def Converts : Prop :=
  ∀ name converted, env.WideCharToMultiByte name = some converted → name.length ≤ converted.length

/-- The record is about the watched file. -/
def Concerns (n : Notification) : Prop :=
  (env.WideCharToMultiByte n.FileName).map (changeFilename · n.FileName.length) =
    some env.filename

instance (n : Notification) : Decidable (Concerns env n) :=
  inferInstanceAs (Decidable (_ = _))

/-- What a record does. -/
def handle (w : Watch) (n : Notification) : Watch :=
  if Concerns env n then w.change env n.Action else w

/-- The offsets at which the records of a batch start. -/
def offsets : ℕ → List Notification → List ℕ
  | _, [] => []
  | offset, n :: ns => offset :: offsets (offset + n.size) ns

/-! ### Reading a record -/

theorem take16_le16 (x : UInt16) (rest : List UInt8) :
    take16 (le16 x ++ rest) = some (x, rest) := by
  have hx := x.toNat_lt
  have hword : UInt16.ofNat (x.toUInt8.toNat + 256 * (x >>> 8).toUInt8.toNat) = x := by
    apply UInt16.toNat_inj.mp
    simp [Nat.shiftRight_eq_div_pow]
    omega
  change some (UInt16.ofNat (x.toUInt8.toNat + 256 * (x >>> 8).toUInt8.toNat), rest) = _
  rw [hword]

theorem takeChars_le16 : ∀ (name : List UInt16) (rest : List UInt8),
    takeChars name.length (name.flatMap le16 ++ rest) = some name
  | [], _ => rfl
  | x :: name, rest => by
    rw [List.flatMap_cons, List.append_assoc, List.length_cons, takeChars, take16_le16,
      Option.bind_some, takeChars_le16 name rest]
    rfl

/-- **A record is read as it was written.** -/
theorem readNotification_encode (n : Notification) (NextEntryOffset : UInt32) (rest : List UInt8) :
    readNotification (n.encode NextEntryOffset ++ rest) =
      some (NextEntryOffset, n.Action, n.FileName) := by
  have hlen := n.length_name
  have hchars : (UInt32.ofNat (2 * n.FileName.length)).toNat / 2 = n.FileName.length := by
    rw [UInt32.toNat_ofNat']
    omega
  unfold readNotification Notification.encode
  simp only [List.append_assoc, take32_le32, Option.bind_some, hchars, takeChars_le16]
  rfl

theorem length_encode (n : Notification) (NextEntryOffset : UInt32) :
    (n.encode NextEntryOffset).length = n.size := by
  have hname : (n.FileName.flatMap le16).length = 2 * n.FileName.length := by
    rw [List.length_flatMap]
    simp [le16, Nat.mul_comm]
  simp only [Notification.encode, Notification.size, List.length_append, hname]
  simp [le32]

theorem size_lt (n : Notification) : n.size < 2 ^ 32 := by
  have hname := n.length_name
  have hpadding := n.length_padding
  unfold Notification.size
  omega

/-- The distance to the next record. -/
theorem toNat_size (n : Notification) : (UInt32.ofNat n.size).toNat = n.size := by
  rw [UInt32.toNat_ofNat', Nat.mod_eq_of_lt (size_lt n)]

theorem size_ne_zero (n : Notification) : UInt32.ofNat n.size ≠ 0 := by
  intro h
  have hsize := toNat_size n
  rw [h] at hsize
  have hpos : 0 < n.size := by
    unfold Notification.size
    omega
  have hzero : (0 : UInt32).toNat = 0 := rfl
  omega

theorem encodeAll_cons (n m : Notification) (ns : List Notification) :
    encodeAll (n :: m :: ns) = n.encode (UInt32.ofNat n.size) ++ encodeAll (m :: ns) := rfl

/-! ### The walk -/

variable {env} {buf rest : List UInt8} {s : WalkState}

/-- **A round handles its record.** -/
theorem doBody_encode (hconverts : Converts env) {n : Notification} {NextEntryOffset : UInt32}
    (hd : buf.drop s.offset = n.encode NextEntryOffset ++ rest) :
    doBody env buf s = doWhile NextEntryOffset ⟨s.offset + NextEntryOffset.toNat,
      handle env s.watch n, s.examined ++ [s.offset]⟩ := by
  have hlen := n.length_name
  unfold doBody handle
  rw [hd, readNotification_encode]
  dsimp only
  rcases hconv : env.WideCharToMultiByte n.FileName with _ | converted
  · have hnot : ¬ Concerns env n := by
      unfold Concerns
      rw [hconv]
      simp
    rw [if_neg hnot]
  · have hle := hconverts n.FileName converted hconv
    have hmax : ¬ MAX_PATH ≤ n.FileName.length := by
      unfold MAX_PATH
      omega
    have hconcerns : Concerns env n ↔
        changeFilename converted n.FileName.length = env.filename := by
      unfold Concerns
      rw [hconv, Option.map_some, Option.some.injEq]
    dsimp only
    rw [if_neg hmax, if_neg (by omega)]
    by_cases hname : changeFilename converted n.FileName.length = env.filename
    · rw [if_neg (not_not.mpr hname), if_pos (hconcerns.mpr hname)]
    · rw [if_pos hname, if_neg fun h => hname (hconcerns.mp h)]

/-- **The loop handles every record once and in order**, and ends at the last one. -/
theorem ends_walk (hconverts : Converts env) : ∀ {ns : List Notification} {s : WalkState},
    ns ≠ [] → buf.drop s.offset = encodeAll ns ++ rest →
      ∃ t, Ends (doBody env buf) s (.left t) ∧ t.watch = ns.foldl (handle env) s.watch ∧
        t.examined = s.examined ++ offsets s.offset ns
  | [], _, hne, _ => absurd rfl hne
  | [n], s, _, hd => by
    have hround := doBody_encode hconverts hd
    rw [doWhile, if_neg (by simp)] at hround
    exact ⟨_, ends_of_leave hround, rfl, rfl⟩
  | n :: m :: ns, s, _, hd => by
    rw [encodeAll_cons, List.append_assoc] at hd
    have hround := doBody_encode hconverts hd
    rw [doWhile, if_pos (size_ne_zero n), toNat_size] at hround
    have hdrop : buf.drop (s.offset + n.size) = encodeAll (m :: ns) ++ rest := by
      rw [← List.drop_drop, hd]
      exact List.drop_left' (length_encode n _)
    obtain ⟨t, hends, hwatch, hexamined⟩ := ends_walk hconverts (s := ⟨s.offset + n.size,
      handle env s.watch n, s.examined ++ [s.offset]⟩) (List.cons_ne_nil m ns) hdrop
    refine ⟨t, (ends_of_again hround).mpr hends, hwatch, ?_⟩
    rw [hexamined, List.append_assoc]
    rfl

end SampLogCore.Watcher.Notifications
