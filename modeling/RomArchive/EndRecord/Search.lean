import RomArchive.EndRecord
import RomArchive.Source

/-!
# Finding the end record

The end record stands in front of a comment of unknown length, so it has to be searched for from
the end of the source. A source without a comment is the common case and takes one short read. In
the other case the last 65557 bytes are searched for the last record whose comment reaches exactly
to the end: a signature inside a comment is not enough to be taken for a record.

The search looks only for records with a comment, since the short read has already looked at the
one place where a record without a comment can stand.

## Main definitions

* `EndRecord.Place` — an end record and its offset.
* `EndRecord.lastBeforeComment` — the search among the last bytes.
* `Source.endRecord` — the end record of a source.
* `Source.wideEndRecord` — the wide record that an end record points to.
-/

namespace RomArchive

/-- An end record together with the offset it was found at. -/
structure EndRecord.Place where
  record : EndRecord
  offset : Nat
  deriving DecidableEq

/-! ### Records in front of a comment -/

/-- Do these `length` bytes begin with an end record whose comment is not empty and reaches
exactly to their end? -/
def EndRecord.reachesEnd (length : Nat) (bytes : Bytes) : Bool :=
  EndRecord.signature.isPrefixOf bytes && decide (EndRecord.size < length)
    && decide ((bytes.word16 20).toNat = length - EndRecord.size)

/-- The offset of the last such record. `offset` and `length` are those of the bytes still to be
looked at, `found` the last record in front of them. -/
def EndRecord.lastReachingEnd (offset length : Nat) (found : Option Nat) : Bytes → Option Nat
  | [] => found
  | b :: bs =>
    lastReachingEnd (offset + 1) (length - 1)
      (if EndRecord.reachesEnd length (b :: bs) then some offset else found) bs

/-- The last record among these bytes whose comment reaches exactly to their end. -/
def EndRecord.lastBeforeComment (bytes : Bytes) : Option EndRecord.Place :=
  (EndRecord.lastReachingEnd 0 bytes.length none bytes).map fun offset =>
    ⟨EndRecord.ofBytes (bytes.drop offset), offset⟩

/-! ### The search -/

namespace Source

/-- The longest comment that the format allows. -/
def maxComment : Nat := 65535

/-- The record that ends the source, if there is one there with an empty comment. -/
def endRecordAtEnd (source : Source) : Except Failure (Option EndRecord.Place) :=
  if EndRecord.size ≤ source.size then do
    let offset := source.size - EndRecord.size
    let bytes ← (source.fill offset EndRecord.size).padded EndRecord.size
    if bytes.take 4 = EndRecord.signature ∧ bytes.word16 20 = 0 then
      return some ⟨EndRecord.ofBytes bytes, offset⟩
    else
      return none
  else
    return none

/-- The last record in front of a comment. -/
def endRecordBeforeComment (source : Source) : Except Failure EndRecord.Place := do
  let length := min (maxComment + EndRecord.size) source.size
  let start := source.size - length
  let bytes ← (source.fill start length).checked
  match EndRecord.lastBeforeComment bytes with
  | some place => return { place with offset := start + place.offset }
  | none => throw (.invalidArchive .missingEndRecord)

/-- The end record of a source. -/
def endRecord (source : Source) : Except Failure EndRecord.Place := do
  match ← source.endRecordAtEnd with
  | some place => return place
  | none => source.endRecordBeforeComment

/-- The wide record that the locator in front of offset `endOffset` leads to. -/
def wideEndRecord (source : Source) (endOffset : Nat) : Except Failure WideEndRecord :=
  if endOffset < WideLocator.size then
    throw (.invalidArchive .missingLocator)
  else do
    let front ← (source.fill (endOffset - WideLocator.size) WideLocator.size).padded
      WideLocator.size
    let locator ← WideLocator.decode front
    let bytes ← (source.fill locator.recordOffset.toNat WideEndRecord.size).checked
    WideEndRecord.decode bytes

end Source

end RomArchive
