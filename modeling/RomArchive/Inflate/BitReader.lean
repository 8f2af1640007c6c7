import RomArchive.LittleEndian
import RomArchive.Failure

/-!
# Reading bits

Compressed data is a stream of bits, the lowest bit of each byte first. The reader holds what is
left of the byte it is in the middle of and the bytes after it, so that skipping to the next byte
boundary is dropping the former.

Every read either takes its bits off the stream or reports that the stream is incomplete; the
lemmas say so in terms of `remaining`, the measure by which the decoders end.

## Main definitions

* `BitReader` — a position in a stream of bits.
* `BitReader.bit`, `BitReader.number` — the next bit, the next bits as a number.
-/

namespace RomArchive

/-- A position in a stream of bits. -/
structure BitReader where
  current : List Bool
  ahead : Bytes

namespace BitReader

/-- The number of bits that are left. -/
def remaining (reader : BitReader) : Nat :=
  reader.current.length + 8 * reader.ahead.length

/-- The upper seven bits of a byte, in the order of the stream. -/
def upperBits (byte : UInt8) : List Bool :=
  [byte.toNat.testBit 1, byte.toNat.testBit 2, byte.toNat.testBit 3, byte.toNat.testBit 4,
    byte.toNat.testBit 5, byte.toNat.testBit 6, byte.toNat.testBit 7]

/-- The next bit. -/
def bit : BitReader → Except DeviceFault (Bool × BitReader)
  | ⟨b :: bs, ahead⟩ => .ok (b, ⟨bs, ahead⟩)
  | ⟨[], byte :: ahead⟩ => .ok (byte.toNat.testBit 0, ⟨upperBits byte, ahead⟩)
  | ⟨[], []⟩ => .error .incompleteStream

/-- The next `count` bits as a number, lowest bit first. -/
def number : Nat → BitReader → Except DeviceFault (Nat × BitReader)
  | 0, reader => .ok (0, reader)
  | count + 1, reader =>
    match reader.bit with
    | .error fault => .error fault
    | .ok (b, reader) =>
      match number count reader with
      | .error fault => .error fault
      | .ok (high, reader) => .ok (b.toNat + 2 * high, reader)

/-- The reader at the next byte boundary. -/
def aligned (reader : BitReader) : BitReader :=
  ⟨[], reader.ahead⟩

/-! ### Reading takes bits off the stream -/

theorem remaining_of_bit {reader next : BitReader} {b : Bool} (h : reader.bit = .ok (b, next)) :
    next.remaining + 1 = reader.remaining := by
  match reader, h with
  | ⟨_ :: bs, ahead⟩, h =>
    simp only [bit, Except.ok.injEq, Prod.mk.injEq] at h
    rw [← h.2]
    simp only [remaining, List.length_cons]
    omega
  | ⟨[], byte :: ahead⟩, h =>
    simp only [bit, Except.ok.injEq, Prod.mk.injEq] at h
    rw [← h.2]
    simp only [remaining, upperBits, List.length_cons, List.length_nil]
    omega

theorem remaining_of_number {count value : Nat} {reader next : BitReader}
    (h : number count reader = .ok (value, next)) : next.remaining + count = reader.remaining := by
  induction count generalizing reader next value with
  | zero =>
    simp only [number, Except.ok.injEq, Prod.mk.injEq] at h
    rw [← h.2, Nat.add_zero]
  | succ count ih =>
    simp only [number] at h
    split at h
    · cases h
    · rename_i b middle hbit
      split at h
      · cases h
      · rename_i high last hnumber
        simp only [Except.ok.injEq, Prod.mk.injEq] at h
        have hfirst := remaining_of_bit hbit
        have hrest := ih hnumber
        rw [← h.2]
        omega

end BitReader

end RomArchive
