import SampLogCore.Lib.Records

/-!
# Words of bytes

A word is written with its lowest byte first. `readWord` reads a word of `n` bytes at a position, if
they are in the memory, and this is the word that is written there (`readWord_eq_some_iff`).
-/

namespace SampLogCore.Lib.Bytes

open SampLogCore.Lib.Records

/-- The `n` low bytes of `x`, the lowest first. -/
def bytes : ℕ → ℕ → List UInt8
  | 0, _ => []
  | n + 1, x => UInt8.ofNat x :: bytes n (x / 256)

/-- The number that bytes stand for. -/
def value : List UInt8 → ℕ
  | [] => 0
  | b :: l => b.toNat + 256 * value l

@[simp] theorem length_bytes (n x : ℕ) : (bytes n x).length = n := by
  induction n generalizing x with
  | zero => rfl
  | succ n ih => simp [bytes, ih]

theorem value_lt (l : List UInt8) : value l < 256 ^ l.length := by
  induction l with
  | nil => simp [value]
  | cons b l ih =>
    have hb : b.toNat < 256 := b.toNat_lt
    rw [value, List.length_cons, Nat.pow_succ]
    omega

theorem value_bytes_eq_mod (n x : ℕ) : value (bytes n x) = x % 256 ^ n := by
  induction n generalizing x with
  | zero => simp [bytes, value, Nat.mod_one]
  | succ n ih =>
    have hlow : (UInt8.ofNat x).toNat = x % 256 := UInt8.toNat_ofNat'
    have hsplit : x % (256 * 256 ^ n) = x % 256 + 256 * (x / 256 % 256 ^ n) := Nat.mod_mul
    rw [bytes, value, ih, hlow, Nat.pow_succ, Nat.mul_comm (256 ^ n), hsplit]

theorem value_bytes {n x : ℕ} (h : x < 256 ^ n) : value (bytes n x) = x := by
  rw [value_bytes_eq_mod, Nat.mod_eq_of_lt h]

theorem bytes_value (l : List UInt8) : bytes l.length (value l) = l := by
  induction l with
  | nil => rfl
  | cons b l ih =>
    have hb : b.toNat < 256 := b.toNat_lt
    have hdiv : (b.toNat + 256 * value l) / 256 = value l := by omega
    have hlow : UInt8.ofNat (b.toNat + 256 * value l) = b := by
      rw [← UInt8.toNat_inj, UInt8.toNat_ofNat']
      omega
    rw [List.length_cons, value, bytes, hdiv, hlow, ih]

/-- Words of `n` bytes. -/
def word (n : ℕ) : Format UInt8 ℕ where
  Valid x := x < 256 ^ n
  write x := bytes n x
  unambiguous := by
    intro a b r s ha hb h
    have hbytes : bytes n a = bytes n b := (List.append_inj h (by simp)).1
    rw [← value_bytes ha, ← value_bytes hb, hbytes]

theorem toNat16_injective : Function.Injective UInt16.toNat := fun _ _ h => UInt16.toNat_inj.mp h

theorem toNat32_injective : Function.Injective UInt32.toNat := fun _ _ h => UInt32.toNat_inj.mp h

def word16 : Format UInt8 UInt16 := (word 2).comap UInt16.toNat toNat16_injective

def word32 : Format UInt8 UInt32 := (word 4).comap UInt32.toNat toNat32_injective

/-- The word of `n` bytes at `p`. -/
def readWord (n : ℕ) (mem : List UInt8) (p : ℕ) : Option ℕ :=
  if p + n ≤ mem.length then some (value ((mem.drop p).take n)) else none

def read16 (mem : List UInt8) (p : ℕ) : Option UInt16 := (readWord 2 mem p).map UInt16.ofNat

def read32 (mem : List UInt8) (p : ℕ) : Option UInt32 := (readWord 4 mem p).map UInt32.ofNat

variable {mem ext : List UInt8} {n p q x : ℕ}

theorem at_word_iff : (word n).At mem p q x ↔ (word n).At mem p (p + n) x ∧ q = p + n := by
  simp only [Format.At, word, length_bytes, and_true]
  tauto

/-- **A word that is read is written there.** -/
theorem readWord_eq_some_iff (hn : 0 < n) :
    readWord n mem p = some x ↔ (word n).At mem p (p + n) x := by
  simp only [readWord, Format.At, word, length_bytes, and_true]
  constructor
  · intro h
    split_ifs at h with hle
    obtain rfl := Option.some.inj h
    have hlen : ((mem.drop p).take n).length = n := by
      rw [List.length_take, List.length_drop]
      omega
    have hval := value_lt ((mem.drop p).take n)
    have hback := bytes_value ((mem.drop p).take n)
    rw [hlen] at hval hback
    rw [hback]
    exact ⟨hval, List.take_prefix n _⟩
  · rintro ⟨hx, hpre⟩
    have hle := hpre.length_le
    rw [length_bytes, List.length_drop] at hle
    have htake : (mem.drop p).take n = bytes n x := by
      have htake := List.prefix_iff_eq_take.mp hpre
      rw [length_bytes] at htake
      exact htake.symm
    rw [if_pos (by omega), htake, value_bytes hx]

theorem readWord_append (h : readWord n mem p = some x) : readWord n (mem ++ ext) p = some x := by
  unfold readWord at h ⊢
  split_ifs at h with hle
  have htake : ((mem ++ ext).drop p).take n = (mem.drop p).take n := by
    rw [List.drop_append_of_le_length (by omega), List.take_append_of_le_length]
    rw [List.length_drop]
    omega
  rw [if_pos (by rw [List.length_append]; omega), htake, ← h]

theorem word16_at {c : UInt16} : word16.At mem p q c ↔ read16 mem p = some c ∧ q = p + 2 := by
  rw [word16, Format.at_comap, at_word_iff, ← readWord_eq_some_iff (by omega), read16,
    Option.map_eq_some_iff]
  refine and_congr_left fun _ => ⟨fun h => ⟨_, h, UInt16.ofNat_toNat⟩, ?_⟩
  rintro ⟨x, hx, rfl⟩
  have hlt : x < 256 ^ 2 := ((readWord_eq_some_iff (by omega)).mp hx).1
  rw [hx, UInt16.toNat_ofNat', Nat.mod_eq_of_lt (by omega)]

theorem word32_at {c : UInt32} : word32.At mem p q c ↔ read32 mem p = some c ∧ q = p + 4 := by
  rw [word32, Format.at_comap, at_word_iff, ← readWord_eq_some_iff (by omega), read32,
    Option.map_eq_some_iff]
  refine and_congr_left fun _ => ⟨fun h => ⟨_, h, UInt32.ofNat_toNat⟩, ?_⟩
  rintro ⟨x, hx, rfl⟩
  have hlt : x < 256 ^ 4 := ((readWord_eq_some_iff (by omega)).mp hx).1
  rw [hx, UInt32.toNat_ofNat', Nat.mod_eq_of_lt (by omega)]

theorem exists_read16 (mem : List UInt8) (p : ℕ) (h : p + 2 ≤ mem.length) :
    ∃ c, read16 mem p = some c := by
  simp [read16, readWord, h]

theorem exists_read32 (mem : List UInt8) (p : ℕ) (h : p + 4 ≤ mem.length) :
    ∃ c, read32 mem p = some c := by
  simp [read32, readWord, h]

theorem read16_append {c : UInt16} (h : read16 mem p = some c) :
    read16 (mem ++ ext) p = some c := by
  obtain ⟨x, hx, rfl⟩ := Option.map_eq_some_iff.mp h
  rw [read16, readWord_append hx, Option.map_some]

theorem read32_append {c : UInt32} (h : read32 mem p = some c) :
    read32 (mem ++ ext) p = some c := by
  obtain ⟨x, hx, rfl⟩ := Option.map_eq_some_iff.mp h
  rw [read32, readWord_append hx, Option.map_some]

end SampLogCore.Lib.Bytes
