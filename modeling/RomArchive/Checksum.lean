import RomArchive.LittleEndian

/-!
# The CRC-32 checksum

Every entry of a container records the CRC-32 of its contents, the reflected checksum with
generator `0xEDB88320`. The register starts with all bits set and is inverted at the end, so a
leading zero byte is not invisible to it.

## Main definitions

* `Checksum.absorb` — the register after one more byte.
* `crc32` — the checksum of a run of bytes.
-/

namespace RomArchive

namespace Checksum

/-- One step of the division: shift out the lowest bit and subtract the generator if it was
set. -/
def shift (register : UInt32) : UInt32 :=
  if register &&& 1 = 1 then (register >>> 1) ^^^ 0xEDB88320 else register >>> 1

/-- The register after one more byte. -/
def absorb (register : UInt32) (byte : UInt8) : UInt32 :=
  (shift ∘ shift ∘ shift ∘ shift ∘ shift ∘ shift ∘ shift ∘ shift) (register ^^^ byte.toUInt32)

end Checksum

/-- The CRC-32 of a run of bytes. -/
def crc32 (bytes : Bytes) : UInt32 :=
  bytes.foldl Checksum.absorb 0xFFFFFFFF ^^^ 0xFFFFFFFF

end RomArchive
