import RomArchive.Delivery
import RomArchive.Inflate.Block

/-!
# Inflating compressed data

Compressed data is a sequence of blocks, the last one marked. A block is either stored as it is,
from the next byte boundary on, or compressed with fixed or sent codes. What follows the last
block is ignored.

The result is a `Delivery`: the bytes, and the fault that ended them. Bytes are handed on a window
at a time. Where a stream merely breaks off, all that was decoded before is handed on; a stream
that is found to be corrupt takes the window that is not complete yet with it.

Bytes are copied from what was already decoded. The first window is taken to be preceded by zeros,
which is what a copy from before the start gives.

## Main definitions

* `Inflate.block` — one block.
* `Inflate.blocks` — the blocks up to the last one.
* `inflate` — a whole stream.
-/

namespace RomArchive

namespace Inflate

/-- What was decoded so far, and either the reader behind it or the fault that ended it. -/
abbrev Progress := Array UInt8 × Except DeviceFault BitReader

/-- `count` bytes more, each a copy of the one `distance` bytes before it. -/
def copyBack (distance : Nat) : Nat → Array UInt8 → Array UInt8
  | 0, output => output
  | count + 1, output =>
    let byte := if distance ≤ output.size then output.getD (output.size - distance) 0 else 0
    copyBack distance count (output.push byte)

/-- The tokens up to the end of a block. -/
def tokens (codes : Block.Codes) (output : Array UInt8) (reader : BitReader) : Progress :=
  match _htoken : codes.token reader with
  | .error fault => (output, .error fault)
  | .ok (.literal byte, reader) => tokens codes (output.push byte) reader
  | .ok (.copy length distance, reader) => tokens codes (copyBack distance length output) reader
  | .ok (.endOfBlock, reader) => (output, .ok reader)
termination_by reader.remaining
decreasing_by
  all_goals exact Block.remaining_lt_of_token _htoken

/-- The bytes of a stored block, whose length is given twice, once inverted. -/
def stored (output : Array UInt8) (reader : BitReader) : Progress :=
  let ahead := reader.aligned.ahead
  if (ahead.take 4).length < 4 then (output, .error .incompleteStream)
  else if ahead.word16 0 ≠ ahead.word16 2 ^^^ 0xFFFF then (output, .error .corruptStream)
  else
    let length := (ahead.word16 0).toNat
    let bytes := ahead.slice 4 length
    if bytes.length < length then (output ++ bytes.toArray, .error .incompleteStream)
    else (output ++ bytes.toArray, .ok ⟨[], ahead.drop (4 + length)⟩)

/-- One block, whose kind was already read. -/
def block (kind : Nat) (output : Array UInt8) (reader : BitReader) : Progress :=
  if kind = 0 then stored output reader
  else if kind = 1 then tokens Block.fixedCodes output reader
  else if kind = 2 then
    match Block.sentCodes reader with
    | .error fault => (output, .error fault)
    | .ok (codes, reader) => tokens codes output reader
  else (output, .error .corruptStream)

/-! ### Blocks take bits off the stream -/

theorem remaining_le_of_tokens {codes : Block.Codes} {output : Array UInt8}
    {reader next : BitReader} (h : (tokens codes output reader).2 = .ok next) :
    next.remaining ≤ reader.remaining := by
  fun_induction tokens codes output reader with
  | case1 => cases h
  | case2 output reader byte _ htoken ih =>
    have := Block.remaining_lt_of_token htoken
    have := ih h
    omega
  | case3 output reader length distance _ htoken ih =>
    have := Block.remaining_lt_of_token htoken
    have := ih h
    omega
  | case4 output reader _ htoken =>
    have := Block.remaining_lt_of_token htoken
    simp only [Except.ok.injEq] at h
    rw [← h]
    omega

theorem remaining_le_of_stored {output : Array UInt8} {reader next : BitReader}
    (h : (stored output reader).2 = .ok next) : next.remaining ≤ reader.remaining := by
  simp only [stored] at h
  split at h
  · cases h
  · split at h
    · cases h
    · split at h
      · cases h
      · simp only [Except.ok.injEq] at h
        rw [← h]
        simp only [BitReader.remaining, BitReader.aligned, List.length_drop, List.length_nil]
        omega

theorem remaining_le_of_block {kind : Nat} {output : Array UInt8} {reader next : BitReader}
    (h : (block kind output reader).2 = .ok next) : next.remaining ≤ reader.remaining := by
  simp only [block] at h
  split at h
  · exact remaining_le_of_stored h
  · split at h
    · exact remaining_le_of_tokens h
    · split at h
      · split at h
        · cases h
        · rename_i hcodes
          have := Block.remaining_le_of_sentCodes hcodes
          have := remaining_le_of_tokens h
          omega
      · cases h

/-! ### Streams -/

/-- The blocks up to the one that is marked as the last. -/
def blocks (output : Array UInt8) (reader : BitReader) : Array UInt8 × Option DeviceFault :=
  match _hlast : reader.bit with
  | .error fault => (output, some fault)
  | .ok (isLast, afterLast) =>
    match _hkind : afterLast.number 2 with
    | .error fault => (output, some fault)
    | .ok (kind, afterKind) =>
      match _hblock : block kind output afterKind with
      | (output, .error fault) => (output, some fault)
      | (output, .ok next) => if isLast then (output, none) else blocks output next
termination_by reader.remaining
decreasing_by
  have hfirst := BitReader.remaining_of_bit _hlast
  have hsecond := BitReader.remaining_of_number _hkind
  have hthird := remaining_le_of_block (congrArg Prod.snd _hblock)
  omega

/-- The number of bytes that are handed on at a time. -/
def window : Nat := 32768

/-- How many of `count` bytes were handed on before the window of the last one. -/
def settled (count : Nat) : Nat :=
  (count - 1) / window * window

end Inflate

/-- The bytes that compressed data stands for, and the fault that ended them. -/
def inflate (data : Bytes) : Delivery :=
  match Inflate.blocks #[] ⟨[], data⟩ with
  | (output, some .corruptStream) =>
    ⟨output.toList.take (Inflate.settled output.size), some .corruptStream⟩
  | (output, fault) => ⟨output.toList, fault⟩

end RomArchive
