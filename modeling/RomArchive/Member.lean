import RomArchive.Record
import RomArchive.LossyText
import RomArchive.EntryName

/-!
# Members of a container

The metadata of an entry is read from its directory record. Sizes and the offset of the local
header have 32 bits in the record; a field of all ones says that the true value stands in an extra
field with id 1, as a 64-bit word. The words of such fields go to the fields that ask for one, in
the fixed order uncompressed size, compressed size, offset.

## Main definitions

* `Method` — how an entry's data is stored.
* `Member` — the metadata of one entry.
* `WideSlots` — the three values that may have to be looked for in the extra area.
* `Record.member` — the metadata of a record, or why it cannot be read.
-/

namespace RomArchive

/-! ### Storage methods -/

/-- How the data of an entry is stored. -/
inductive Method where
  | stored
  | deflate
  | unknown (number : UInt16)
  deriving DecidableEq

def Method.ofNumber (number : UInt16) : Method :=
  if number = 0 then .stored else if number = 8 then .deflate else .unknown number

def Method.number : Method → UInt16
  | stored => 0
  | deflate => 8
  | unknown number => number

/-- The metadata of one entry. -/
structure Member where
  name : String
  flags : UInt16
  method : Method
  compressedSize : Nat
  uncompressedSize : Nat
  checksum : UInt32
  headerOffset : Nat
  deriving DecidableEq

def Member.isDirectory (member : Member) : Bool :=
  EntryName.isDirectory member.name

/-- The lowest flag bit marks encrypted data. -/
def Member.isEncrypted (member : Member) : Bool :=
  member.flags &&& 1 ≠ 0

/-! ### Wide values -/

/-- The value of a 32-bit field, unless it is the all-ones sentinel. -/
def narrowValue (field : UInt32) : Option Nat :=
  if field = 0xFFFFFFFF then none else some field.toNat

/-- The three values that may stand in the extra area; `none` for one that is still looked
for. -/
structure WideSlots where
  uncompressed : Option Nat
  compressed : Option Nat
  offset : Option Nat
  deriving DecidableEq

namespace WideSlots

/-- A slot that is still empty takes the next word, if a whole one is left. -/
def takeWord (slot : Option Nat) (body : Bytes) : Option Nat × Bytes :=
  match slot with
  | some value => (some value, body)
  | none => if 8 ≤ body.length then (some (body.word64 0).toNat, body.drop 8) else (none, body)

/-- The slots after the words of one extra field were handed out. -/
def takeFrom (slots : WideSlots) (body : Bytes) : WideSlots :=
  let uncompressed := takeWord slots.uncompressed body
  let compressed := takeWord slots.compressed uncompressed.2
  let offset := takeWord slots.offset compressed.2
  ⟨uncompressed.1, compressed.1, offset.1⟩

/-- The id of the extra field that carries wide values. -/
def fieldId : UInt16 := 1

/-- The slots after the whole extra area was read. Up to three bytes that cannot begin a field are
ignored; a field whose body is cut off spoils the area. -/
def afterExtra (slots : WideSlots) (extra : Bytes) : Option WideSlots :=
  if (extra.take 4).length < 4 then some slots
  else
    let length := (extra.word16 2).toNat
    if (extra.take (4 + length)).length < 4 + length then none
    else
      let filled :=
        if extra.word16 0 = fieldId then slots.takeFrom (extra.slice 4 length) else slots
      filled.afterExtra (extra.drop (4 + length))
termination_by extra.length
decreasing_by
  rename_i hextra _
  simp only [List.length_take] at hextra
  simp only [List.length_drop]
  omega

end WideSlots

/-! ### Metadata of a record -/

/-- The name of a record as text. -/
def Record.text (record : Record) : String :=
  LossyText.decode record.name

/-- The values of a record that stand in its header. -/
def Record.wideSlots (record : Record) : WideSlots where
  uncompressed := narrowValue record.uncompressedSize
  compressed := narrowValue record.compressedSize
  offset := narrowValue record.headerOffset

/-- The metadata of a record, or what makes it unreadable. -/
def Record.metadata (record : Record) : Except RecordFault Member :=
  if record.name = [] then .error .emptyName
  else if 0 ∈ record.name then .error .nulInName
  else
    match record.wideSlots.afterExtra record.extra with
    | none => .error .malformedExtra
    | some ⟨some uncompressed, some compressed, some offset⟩ =>
      .ok {
        name := record.text
        flags := record.flags
        method := Method.ofNumber record.method
        compressedSize := compressed
        uncompressedSize := uncompressed
        checksum := record.checksum
        headerOffset := offset }
    | some _ => .error .missingWideField

/-- The metadata of a record; a failure tells the record's name. -/
def Record.member (record : Record) : Except Failure Member :=
  record.metadata.mapError (.unreadableEntry record.text)

end RomArchive
