import RomArchive.Source
import RomArchive.Member
import RomArchive.Inflate

/-!
# The data of an entry

In front of an entry's data stands a local header. Its name and extra area need not be those of
the directory record, so the place of the data follows from the lengths in the local header, while
its size, its method and its checksum are the directory's.

No more is read than the source claims to hold, whatever size an entry declares. Whether the data
decodes to as many bytes as were declared is not looked at here.

## Main definitions

* `Source.dataOffset` — where an entry's data begins.
* `Source.rawData` — the data as stored.
* `Source.entryData` — the bytes that the data decodes to.
-/

namespace RomArchive

namespace LocalHeader

def signature : Bytes := [0x50, 0x4B, 0x03, 0x04]

/-- The number of bytes in front of the name. -/
def size : Nat := 30

end LocalHeader

/-- Can the data of a member be read at all? -/
def Member.supported (member : Member) : Except Failure Unit :=
  if member.isEncrypted then .error (.unsupported member.name .encryption)
  else
    match member.method with
    | .unknown number => .error (.unsupported member.name (.compression number))
    | _ => .ok ()

/-- The bytes that stored data stands for. -/
def Method.decode (method : Method) (data : Bytes) : Delivery :=
  match method with
  | .deflate => inflate data
  | _ => ⟨data, none⟩

namespace Source

/-- Where the data of a member begins: behind its local header, that header's name and its extra
area. -/
def dataOffset (source : Source) (member : Member) : Except Failure Nat := do
  let header ← (source.fill member.headerOffset LocalHeader.size).checked
  if header.length < LocalHeader.size ∨ header.take 4 ≠ LocalHeader.signature then
    throw (.invalidArchive .badLocalHeader)
  else
    return member.headerOffset + LocalHeader.size + (header.word16 26).toNat
      + (header.word16 28).toNat

/-- The data of a member as stored: as many bytes as it declares, or as many as there are. -/
def rawData (source : Source) (member : Member) : Except Failure Bytes := do
  let offset ← source.dataOffset member
  (source.fill offset (min member.compressedSize (source.size - offset))).checked

/-- The bytes that the data of a member decodes to. The failure is one of getting at the data; a
fault in the data itself is part of the delivery. -/
def entryData (source : Source) (member : Member) : Except Failure Delivery := do
  member.supported
  let data ← source.rawData member
  return member.method.decode data

end Source

end RomArchive
