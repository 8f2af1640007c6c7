import RomArchive.Delivery

/-!
# Sources of bytes

A container is read from a source by offset and length. A source may deliver fewer bytes than
were asked for, may claim a size that differs from what it delivers, and may fail from some
offset on. The one operation the readers of this library are built on is `Source.fill`: keep
reading until so many bytes are there, the source runs dry, or it fails.

## Main definitions

* `Source` — contents, claimed size, and the ways in which reading falls short.
* `Source.read` — one read.
* `Source.fill` — reads repeated until the request is met.
-/

namespace RomArchive

/-- From `offset` on, every read fails. -/
structure Breakage where
  offset : Nat
  fault : DeviceFault
  deriving DecidableEq

/-- A source of bytes. `size` is what it claims to hold, `chunk` the most that one read delivers.
Reads that start at or past `horizon` deliver nothing, whatever the contents. -/
structure Source where
  contents : Bytes
  size : Nat
  chunk : Nat
  horizon : Option Nat
  breakage : Option Breakage
  deriving DecidableEq

/-- A source that holds exactly the given bytes and delivers them all at once. -/
def Source.ofBytes (contents : Bytes) : Source where
  contents := contents
  size := contents.length
  chunk := contents.length
  horizon := none
  breakage := none

/-- A file whose size was taken when it was opened. Bytes that were appended later are delivered
only to a read that starts before that size. -/
def Source.ofFile (contents : Bytes) (size : Nat) : Source where
  contents := contents
  size := size
  chunk := contents.length
  horizon := some size
  breakage := none

namespace Source

/-! ### One read -/

/-- The failure of a read at `offset`, if it fails. -/
def fault? (source : Source) (offset : Nat) : Option DeviceFault :=
  match source.breakage with
  | some broken => if broken.offset ≤ offset then some broken.fault else none
  | none => none

/-- Does a read at `offset` start past the horizon? -/
def isBeyond (source : Source) (offset : Nat) : Bool :=
  match source.horizon with
  | some horizon => decide (horizon ≤ offset)
  | none => false

/-- One read of at most `count` bytes at `offset`, when `ahead` are the contents from there on. -/
def readAhead (source : Source) (offset count : Nat) (ahead : Bytes) :
    Except DeviceFault Bytes :=
  match source.fault? offset with
  | some fault => .error fault
  | none => .ok (if source.isBeyond offset then [] else ahead.take (min count source.chunk))

/-- One read of at most `count` bytes at `offset`. -/
def read (source : Source) (offset count : Nat) : Except DeviceFault Bytes :=
  source.readAhead offset count (source.contents.drop offset)

/-! ### Reading until the request is met -/

/-- Fill a request for `count` bytes at `offset`. The contents from there on are handed along in
`ahead`, so that no read starts over from the first byte; `got` holds what earlier reads
delivered, last byte first. -/
def gather (source : Source) (offset count : Nat) (ahead got : Bytes) : Delivery :=
  if 0 < count then
    match source.readAhead offset count ahead with
    | .error fault => ⟨got.reverse, some fault⟩
    | .ok [] => ⟨got.reverse, none⟩
    | .ok (b :: bs) =>
      source.gather (offset + (b :: bs).length) (count - (b :: bs).length)
        (ahead.drop (b :: bs).length) ((b :: bs).reverseAux got)
  else ⟨got.reverse, none⟩
termination_by count
decreasing_by
  simp only [List.length_cons]
  omega

/-- Read at `offset` until `count` bytes are there, the source runs dry, or it fails. -/
def fill (source : Source) (offset count : Nat) : Delivery :=
  source.gather offset count (source.contents.drop offset) []

end Source

end RomArchive
