/-!
# Little-endian words

Every number in a container is stored least significant byte first. This file fixes the two
directions of that convention on lists of bytes, and the three word readers that the record
formats are written with.

The readers are total: a word that reaches past the end of its list is read from the bytes that
are there. Each format checks the length once, before it reads its fields.

## Main definitions

* `LittleEndian.value`, `LittleEndian.encode` — a list of bytes as a number, a number as a list
  of bytes of given width.
* `LittleEndian.capacity` — the first number that a width does not hold.
* `Bytes.slice` — a run of bytes by offset and length.
* `Bytes.word16`, `Bytes.word32`, `Bytes.word64` — the word at an offset.
-/

namespace RomArchive

/-- A run of bytes. -/
abbrev Bytes := List UInt8

namespace LittleEndian

/-- The number that a run of bytes stands for, least significant byte first. -/
def value : Bytes → Nat
  | [] => 0
  | b :: bs => b.toNat + 256 * value bs

/-- The lowest `width` bytes of a number, least significant first. -/
def encode : Nat → Nat → Bytes
  | 0, _ => []
  | width + 1, n => UInt8.ofNat n :: encode width (n / 256)

@[simp]
theorem length_encode (width n : Nat) : (encode width n).length = width := by
  induction width generalizing n with
  | zero => rfl
  | succ width ih => simp [encode, ih]

/-- How many numbers a word of `width` bytes can tell apart. -/
def capacity : Nat → Nat
  | 0 => 1
  | width + 1 => 256 * capacity width

theorem value_lt (bs : Bytes) : value bs < capacity bs.length := by
  induction bs with
  | nil => decide
  | cons b bs ih =>
    have := b.toNat_lt
    simp only [value, List.length_cons, capacity]
    omega

/-- Writing a number and reading it back keeps what fits the width. -/
theorem value_encode (width n : Nat) : value (encode width n) = n % capacity width := by
  induction width generalizing n with
  | zero => rw [capacity, Nat.mod_one]; rfl
  | succ width ih =>
    have hlow : (UInt8.ofNat n).toNat = n % 256 := UInt8.toNat_ofNat'
    rw [encode, value, ih, hlow, capacity, Nat.mod_mul]

/-- Reading bytes and writing the number back gives the same bytes. -/
theorem encode_value (bs : Bytes) : encode bs.length (value bs) = bs := by
  induction bs with
  | nil => rfl
  | cons b bs ih =>
    have hb := b.toNat_lt
    have hlow : UInt8.ofNat (b.toNat + 256 * value bs) = b := by
      apply UInt8.toNat_inj.1
      rw [UInt8.toNat_ofNat']
      omega
    have hhigh : (b.toNat + 256 * value bs) / 256 = value bs := by omega
    simp only [List.length_cons, encode, value, hlow, hhigh, ih]

end LittleEndian

namespace Bytes

/-- The `count` bytes from `offset` on, or as many of them as there are. -/
def slice (offset count : Nat) (bytes : Bytes) : Bytes :=
  (bytes.drop offset).take count

/-- The 16-bit word at `offset`. -/
def word16 (offset : Nat) (bytes : Bytes) : UInt16 :=
  UInt16.ofNat (LittleEndian.value (slice offset 2 bytes))

/-- The 32-bit word at `offset`. -/
def word32 (offset : Nat) (bytes : Bytes) : UInt32 :=
  UInt32.ofNat (LittleEndian.value (slice offset 4 bytes))

/-- The 64-bit word at `offset`. -/
def word64 (offset : Nat) (bytes : Bytes) : UInt64 :=
  UInt64.ofNat (LittleEndian.value (slice offset 8 bytes))

end Bytes

end RomArchive
