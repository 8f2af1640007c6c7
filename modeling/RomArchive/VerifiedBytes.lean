import RomArchive.Checksum
import RomArchive.Delivery

/-!
# Verified contents

The contents of an entry are handed out only when they are exactly what its record declares: the
declared number of bytes, no more behind them, and the declared checksum. Whoever holds a
`VerifiedBytes` holds all of an entry.

The bytes come from a feed, which hands them out in pieces of its own choosing and ends either
properly or with a fault. One byte is asked for after the last declared one, which is enough to
tell a feed that has too many; a fault that lies behind that byte is never seen.

The declared size is one that a buffer can have. The buffer itself, and what becomes of a read for
which there is none, is in `Guarded.verified`.

## Main definitions

* `Feed` — what a reader has still to give.
* `Feed.read`, `Feed.take` — one read, and reads repeated until the request is met.
* `VerifiedBytes`, `Feed.verified` — the contents of an entry, and how they are read.
-/

namespace RomArchive

/-- What a reader has still to give: the pieces of its bytes, and the fault that ends them if one
does. A read that meets an empty piece delivers nothing, as at the end. -/
structure Feed where
  pieces : List Bytes
  fault : Option DeviceFault
  deriving DecidableEq

/-- A feed that has all of its bytes at hand. -/
def Feed.ofDelivery (delivery : Delivery) : Feed where
  pieces := if delivery.bytes = [] then [] else [delivery.bytes]
  fault := delivery.fault

namespace Feed

/-- One read of at most `count` bytes. -/
def read (feed : Feed) (count : Nat) : Except DeviceFault (Bytes × Feed) :=
  match feed.pieces, feed.fault with
  | [], some fault => .error fault
  | [], none => .ok ([], feed)
  | piece :: pieces, _ =>
    let later := piece.drop count
    .ok (piece.take count, { feed with pieces := if later = [] then pieces else later :: pieces })

/-- Read until `count` bytes are there or a read delivers none. `got` holds what earlier reads
delivered, last byte first. -/
def gather (feed : Feed) (count : Nat) (got : Bytes) : Except DeviceFault (Bytes × Feed) :=
  if 0 < count then
    match feed.read count with
    | .error fault => .error fault
    | .ok ([], feed) => .ok (got.reverse, feed)
    | .ok (b :: bs, feed) =>
      feed.gather (count - (b :: bs).length) ((b :: bs).reverseAux got)
  else .ok (got.reverse, feed)
termination_by count
decreasing_by
  simp only [List.length_cons]
  omega

/-- Read until `count` bytes are there or a read delivers none. -/
def take (feed : Feed) (count : Nat) : Except DeviceFault (Bytes × Feed) :=
  feed.gather count []

end Feed

/-- The complete contents of the entry `name`. -/
structure VerifiedBytes where
  name : String
  bytes : Bytes
  deriving DecidableEq

/-- The contents of the entry `name`, which declares `declared` bytes with checksum `expected`, if
there can be a buffer for them. -/
def Feed.verified (feed : Feed) (name : String) (declared : Nat) (expected : UInt32) :
    Except Failure VerifiedBytes := do
  let (bytes, behind) ← (feed.take declared).mapError .device
  let filled := bytes.length
  let surplus ← if filled = declared then
      (behind.read 1).mapError Failure.device |>.map fun probe => probe.1.length
    else .ok 0
  if filled ≠ declared ∨ surplus ≠ 0 then
    throw (.sizeMismatch name declared (filled + surplus))
  else if crc32 bytes ≠ expected then
    throw (.crcMismatch name expected (crc32 bytes))
  else
    return ⟨name, bytes⟩

end RomArchive
