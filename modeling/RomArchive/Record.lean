import RomArchive.LittleEndian
import RomArchive.Failure

/-!
# Directory records

The directory of a container is a sequence of records, one for each entry. A record is a header of
46 bytes and three areas behind it whose lengths the header gives: the name, the extra area and a
comment. Framing a record needs its signature and these lengths and nothing else, so a record with
senseless contents does not hide the ones behind it.

## Main definitions

* `Record` — one record, all of its fields.
* `Record.split` — the record at the front of some bytes, and the bytes behind it.
* `Record.header`, `Record.encode` — its header, and all of its bytes.
-/

namespace RomArchive

/-- One record of the directory, as stored. -/
structure Record where
  madeBy : UInt16
  needed : UInt16
  flags : UInt16
  method : UInt16
  time : UInt16
  date : UInt16
  checksum : UInt32
  compressedSize : UInt32
  uncompressedSize : UInt32
  disk : UInt16
  internalAttributes : UInt16
  externalAttributes : UInt32
  headerOffset : UInt32
  name : Bytes
  extra : Bytes
  comment : Bytes
  deriving DecidableEq

namespace Record

def signature : Bytes := [0x50, 0x4B, 0x01, 0x02]

/-- The number of bytes in front of the name. -/
def headerSize : Nat := 46

/-- The number of bytes that a header claims for its record. -/
def claimedLength (header : Bytes) : Nat :=
  headerSize + (header.word16 28).toNat + (header.word16 30).toNat + (header.word16 32).toNat

/-- The fields, without a check of length or signature. -/
def ofBytes (bytes : Bytes) : Record where
  madeBy := bytes.word16 4
  needed := bytes.word16 6
  flags := bytes.word16 8
  method := bytes.word16 10
  time := bytes.word16 12
  date := bytes.word16 14
  checksum := bytes.word32 16
  compressedSize := bytes.word32 20
  uncompressedSize := bytes.word32 24
  disk := bytes.word16 34
  internalAttributes := bytes.word16 36
  externalAttributes := bytes.word32 38
  headerOffset := bytes.word32 42
  name := bytes.slice headerSize (bytes.word16 28).toNat
  extra := bytes.slice (headerSize + (bytes.word16 28).toNat) (bytes.word16 30).toNat
  comment := bytes.slice (headerSize + (bytes.word16 28).toNat + (bytes.word16 30).toNat)
    (bytes.word16 32).toNat

/-- The record at the front of some bytes, and the bytes behind it. -/
def split (bytes : Bytes) : Except Failure (Record × Bytes) :=
  let header := bytes.take headerSize
  if header.length < headerSize then .error (.invalidArchive .truncatedDirectory)
  else if header.take 4 ≠ signature then .error (.invalidArchive .badDirectorySignature)
  else
    let frame := bytes.take (claimedLength header)
    if frame.length < claimedLength header then .error (.invalidArchive .truncatedDirectory)
    else .ok (ofBytes frame, bytes.drop (claimedLength header))

/-- The header of a record. The three lengths are those of its areas. -/
def header (record : Record) : Bytes :=
  [signature,
    LittleEndian.encode 2 record.madeBy.toNat,
    LittleEndian.encode 2 record.needed.toNat,
    LittleEndian.encode 2 record.flags.toNat,
    LittleEndian.encode 2 record.method.toNat,
    LittleEndian.encode 2 record.time.toNat,
    LittleEndian.encode 2 record.date.toNat,
    LittleEndian.encode 4 record.checksum.toNat,
    LittleEndian.encode 4 record.compressedSize.toNat,
    LittleEndian.encode 4 record.uncompressedSize.toNat,
    LittleEndian.encode 2 record.name.length,
    LittleEndian.encode 2 record.extra.length,
    LittleEndian.encode 2 record.comment.length,
    LittleEndian.encode 2 record.disk.toNat,
    LittleEndian.encode 2 record.internalAttributes.toNat,
    LittleEndian.encode 4 record.externalAttributes.toNat,
    LittleEndian.encode 4 record.headerOffset.toNat].flatten

def encode (record : Record) : Bytes :=
  record.header ++ (record.name ++ (record.extra ++ record.comment))

/-- Framing always consumes bytes. -/
theorem length_lt_of_split {bytes rest : Bytes} {record : Record}
    (h : split bytes = .ok (record, rest)) : rest.length < bytes.length := by
  simp only [split] at h
  split at h
  · cases h
  · split at h
    · cases h
    · split at h
      · cases h
      · rename_i hheader _ _
        simp only [Except.ok.injEq, Prod.mk.injEq] at h
        rw [← h.2, List.length_drop]
        have hpos : 0 < claimedLength (bytes.take headerSize) := by
          simp only [claimedLength, headerSize]
          omega
        simp only [headerSize, List.length_take] at hheader
        omega

end Record

end RomArchive
