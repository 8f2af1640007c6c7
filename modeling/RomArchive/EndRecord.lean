import RomArchive.LittleEndian
import RomArchive.Failure

/-!
# End records

A container ends with a record that says where its directory lies. Where 16 and 32 bits do not
suffice, the record holds all-ones fields instead, and a locator in front of it leads to a wide
record with the true values.

Each of the three has a reader and a writer. Readers look at a fixed number of bytes and check the
signature; what follows those bytes is no concern of theirs.

## Main definitions

* `EndRecord`, `WideLocator`, `WideEndRecord` — the three records.
* `EndRecord.decode`, `EndRecord.encode`, and so on — their readers and writers.
* `EndRecord.isWide` — is the record only a pointer to the wide one?
* `EndRecord.isMultiDisk` — does it describe one part of several?
-/

namespace RomArchive

/-! ### The record at the end of every container -/

/-- The record at the end of every container; a comment of `commentLength` bytes follows it. -/
structure EndRecord where
  disk : UInt16
  directoryDisk : UInt16
  diskEntries : UInt16
  totalEntries : UInt16
  directorySize : UInt32
  directoryOffset : UInt32
  commentLength : UInt16
  deriving DecidableEq

namespace EndRecord

def signature : Bytes := [0x50, 0x4B, 0x05, 0x06]

/-- The number of bytes in front of the comment. -/
def size : Nat := 22

/-- The fields, without a check of length or signature. -/
def ofBytes (bytes : Bytes) : EndRecord where
  disk := bytes.word16 4
  directoryDisk := bytes.word16 6
  diskEntries := bytes.word16 8
  totalEntries := bytes.word16 10
  directorySize := bytes.word32 12
  directoryOffset := bytes.word32 16
  commentLength := bytes.word16 20

def decode (bytes : Bytes) : Except Failure EndRecord :=
  if size ≤ bytes.length ∧ bytes.take 4 = signature then .ok (ofBytes bytes)
  else .error (.invalidArchive .badEndRecord)

def encode (record : EndRecord) : Bytes :=
  [signature,
    LittleEndian.encode 2 record.disk.toNat,
    LittleEndian.encode 2 record.directoryDisk.toNat,
    LittleEndian.encode 2 record.diskEntries.toNat,
    LittleEndian.encode 2 record.totalEntries.toNat,
    LittleEndian.encode 4 record.directorySize.toNat,
    LittleEndian.encode 4 record.directoryOffset.toNat,
    LittleEndian.encode 2 record.commentLength.toNat].flatten

/-- A field of all ones says that the wide record governs. -/
def isWide (record : EndRecord) : Bool :=
  record.diskEntries = 0xFFFF || record.totalEntries = 0xFFFF
    || record.directorySize = 0xFFFFFFFF || record.directoryOffset = 0xFFFFFFFF

/-- The directory starts on another disk, or some of its records are on other disks. -/
def isMultiDisk (record : EndRecord) : Bool :=
  record.disk ≠ record.directoryDisk || record.diskEntries ≠ record.totalEntries

end EndRecord

/-! ### The locator -/

/-- The record in front of the end record that leads to the wide one. -/
structure WideLocator where
  recordDisk : UInt32
  recordOffset : UInt64
  totalDisks : UInt32
  deriving DecidableEq

namespace WideLocator

def signature : Bytes := [0x50, 0x4B, 0x06, 0x07]

def size : Nat := 20

/-- The fields, without a check of length or signature. -/
def ofBytes (bytes : Bytes) : WideLocator where
  recordDisk := bytes.word32 4
  recordOffset := bytes.word64 8
  totalDisks := bytes.word32 16

def decode (bytes : Bytes) : Except Failure WideLocator :=
  if size ≤ bytes.length ∧ bytes.take 4 = signature then .ok (ofBytes bytes)
  else .error (.invalidArchive .badLocator)

def encode (locator : WideLocator) : Bytes :=
  [signature,
    LittleEndian.encode 4 locator.recordDisk.toNat,
    LittleEndian.encode 8 locator.recordOffset.toNat,
    LittleEndian.encode 4 locator.totalDisks.toNat].flatten

end WideLocator

/-! ### The wide record -/

/-- The end record with 64-bit counts, sizes and offsets. -/
structure WideEndRecord where
  recordSize : UInt64
  madeBy : UInt16
  needed : UInt16
  disk : UInt32
  directoryDisk : UInt32
  diskEntries : UInt64
  totalEntries : UInt64
  directorySize : UInt64
  directoryOffset : UInt64
  deriving DecidableEq

namespace WideEndRecord

def signature : Bytes := [0x50, 0x4B, 0x06, 0x06]

/-- The number of bytes in front of the extensible part. -/
def size : Nat := 56

/-- The fields, without a check of length or signature. -/
def ofBytes (bytes : Bytes) : WideEndRecord where
  recordSize := bytes.word64 4
  madeBy := bytes.word16 12
  needed := bytes.word16 14
  disk := bytes.word32 16
  directoryDisk := bytes.word32 20
  diskEntries := bytes.word64 24
  totalEntries := bytes.word64 32
  directorySize := bytes.word64 40
  directoryOffset := bytes.word64 48

def decode (bytes : Bytes) : Except Failure WideEndRecord :=
  if size ≤ bytes.length ∧ bytes.take 4 = signature then .ok (ofBytes bytes)
  else .error (.invalidArchive .badWideEndRecord)

def encode (record : WideEndRecord) : Bytes :=
  [signature,
    LittleEndian.encode 8 record.recordSize.toNat,
    LittleEndian.encode 2 record.madeBy.toNat,
    LittleEndian.encode 2 record.needed.toNat,
    LittleEndian.encode 4 record.disk.toNat,
    LittleEndian.encode 4 record.directoryDisk.toNat,
    LittleEndian.encode 8 record.diskEntries.toNat,
    LittleEndian.encode 8 record.totalEntries.toNat,
    LittleEndian.encode 8 record.directorySize.toNat,
    LittleEndian.encode 8 record.directoryOffset.toNat].flatten

end WideEndRecord

end RomArchive
