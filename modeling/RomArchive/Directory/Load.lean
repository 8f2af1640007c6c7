import RomArchive.Directory
import RomArchive.EndRecord.Search

/-!
# Loading the directory

The end record, or the wide record in its place, says where the directory lies and how many
records it holds. A directory that is spread over several disks is refused, and so is one that
does not end in front of the end record. What the record says about the directory's place is
compared as unbounded numbers, so that no sum can wrap around into the archive.

## Main definitions

* `Directory.Extent` — where a directory lies, and its declared number of records.
* `Source.directoryExtent` — the extent that the governing record gives.
* `Source.directory` — the directory of a source.
-/

namespace RomArchive

/-- Where a directory lies, and how many records it is said to hold. -/
structure Directory.Extent where
  offset : Nat
  size : Nat
  entries : Nat
  deriving DecidableEq

/-- The extent that an end record gives for a directory on a single disk. -/
def EndRecord.extent (record : EndRecord) : Except Failure Directory.Extent :=
  if record.isMultiDisk then .error (.invalidArchive .multiDisk)
  else .ok ⟨record.directoryOffset.toNat, record.directorySize.toNat, record.totalEntries.toNat⟩

/-- The extent that a wide record gives. Only the disk numbers are compared here. -/
def WideEndRecord.extent (record : WideEndRecord) : Except Failure Directory.Extent :=
  if record.disk ≠ record.directoryDisk then .error (.invalidArchive .multiDisk)
  else .ok ⟨record.directoryOffset.toNat, record.directorySize.toNat, record.totalEntries.toNat⟩

namespace Source

/-- The extent that the governing record gives: the wide record if the end record points to one,
and else the end record itself. -/
def directoryExtent (source : Source) (place : EndRecord.Place) :
    Except Failure Directory.Extent :=
  if place.record.isWide then do
    let record ← source.wideEndRecord place.offset
    record.extent
  else place.record.extent

/-- The directory of a source. Its records are looked at only later, one by one. -/
def directory (source : Source) : Except Failure Directory := do
  let place ← source.endRecord
  let extent ← source.directoryExtent place
  if place.offset < extent.offset + extent.size then
    throw (.invalidArchive .directoryOutside)
  else
    let bytes ← (source.fill extent.offset extent.size).checked
    return ⟨bytes, extent.entries⟩

end Source

end RomArchive
