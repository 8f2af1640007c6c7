import RomArchive.Checksum
import RomArchive.EntryData
import RomArchive.Proofs.EndSearch
import RomArchive.Proofs.Text
import RomArchive.Proofs.Walk

/-!
# Packing files into a container

The writer that the reader is measured against. Files are laid out one behind the other, each with
a local header; the directory follows, then the end record and the comment. Anything may stand in
front of the first file.

What makes a file fit to be packed is part of its type: a name that can be stored, and data that
decode to its contents. The local header has a name and an extra area of its own, since readers go
by the directory and need only skip these.

## Main definitions

* `PackedFile` — a file with its stored form
* `PackedFile.localBytes`, `PackedFile.record` — its two places in a container
* `Packing`, `Packing.bytes` — a whole container
* `Packing.Fits` — does it fit the fields of its records?

## Main results

* `PackedFile.member_record` — the metadata of a file is read back from its record
* `Packing.Fits.describes` — and the members of the directory are those of the files
-/

namespace RomArchive

/-! ### Numbers below the sentinels -/

theorem ofNat_ne_sentinel16 {n : Nat} (h : n < 0xFFFF) : UInt16.ofNat n ≠ 0xFFFF := by
  intro hmax
  have hvalue : (UInt16.ofNat n).toNat = n :=
    UInt16.toNat_ofNat_of_lt' (Nat.lt_trans h (by decide))
  rw [hmax] at hvalue
  exact absurd hvalue.symm (Nat.ne_of_lt h)

theorem ofNat_ne_sentinel32 {n : Nat} (h : n < 0xFFFFFFFF) : UInt32.ofNat n ≠ 0xFFFFFFFF := by
  intro hmax
  have hvalue : (UInt32.ofNat n).toNat = n :=
    UInt32.toNat_ofNat_of_lt' (Nat.lt_trans h (by decide))
  rw [hmax] at hvalue
  exact absurd hvalue.symm (Nat.ne_of_lt h)

/-! ### Files -/

@[simp] theorem LocalHeader.length_signature : LocalHeader.signature.length = 4 := by decide

/-- A file to be packed, and the form it is stored in. -/
structure PackedFile where
  name : String
  payload : Bytes
  method : Method
  data : Bytes
  localName : Bytes
  localExtra : Bytes
  name_ne : name ≠ ""
  nul_notMem : '\x00' ∉ name.toList
  name_length : (PathText.bytes name).length < 65536
  localName_length : localName.length < 65536
  localExtra_length : localExtra.length < 65536
  supported : method = .stored ∨ method = .deflate
  decodes : method.decode data = ⟨payload, none⟩
  payload_length : payload.length < 0xFFFFFFFF

namespace PackedFile

/-- The header in front of the data, without its name and extra area. -/
def localHeader (file : PackedFile) : Bytes :=
  [LocalHeader.signature,
    LittleEndian.encode 2 20,
    LittleEndian.encode 2 0,
    LittleEndian.encode 2 file.method.number.toNat,
    LittleEndian.encode 2 0,
    LittleEndian.encode 2 0x21,
    LittleEndian.encode 4 (crc32 file.payload).toNat,
    LittleEndian.encode 4 file.data.length,
    LittleEndian.encode 4 file.payload.length,
    LittleEndian.encode 2 file.localName.length,
    LittleEndian.encode 2 file.localExtra.length].flatten

/-- The header and the data behind it. -/
def localBytes (file : PackedFile) : Bytes :=
  file.localHeader ++ (file.localName ++ (file.localExtra ++ file.data))

/-- The directory record of a file whose local header stands at `offset`. -/
def record (file : PackedFile) (offset : Nat) : Record where
  madeBy := 20
  needed := 20
  flags := 0
  method := file.method.number
  time := 0
  date := 0x21
  checksum := crc32 file.payload
  compressedSize := .ofNat file.data.length
  uncompressedSize := .ofNat file.payload.length
  disk := 0
  internalAttributes := 0
  externalAttributes := 0
  headerOffset := .ofNat offset
  name := PathText.bytes file.name
  extra := []
  comment := []

/-- What is to be read back of a file whose local header stands at `offset`. -/
def member (file : PackedFile) (offset : Nat) : Member where
  name := file.name
  flags := 0
  method := file.method
  compressedSize := file.data.length
  uncompressedSize := file.payload.length
  checksum := crc32 file.payload
  headerOffset := offset

/-- The line of the catalog for a file. -/
def catalogEntry (file : PackedFile) : CatalogEntry where
  name := file.name
  uncompressedSize := file.payload.length
  compressedSize := file.data.length

variable (file : PackedFile)

@[simp] theorem length_localHeader : file.localHeader.length = LocalHeader.size := by
  simp [localHeader, LocalHeader.size]

theorem length_localBytes : file.localBytes.length = LocalHeader.size + file.localName.length
    + file.localExtra.length + file.data.length := by
  simp only [localBytes, List.length_append, length_localHeader]
  omega

theorem framed_record (offset : Nat) : (file.record offset).Framed where
  name := file.name_length
  extra := Nat.zero_lt_succ _
  comment := Nat.zero_lt_succ _

theorem ofNumber_number : Method.ofNumber file.method.number = file.method := by
  rcases file.supported with hstored | hdeflate
  · rw [hstored]
    rfl
  · rw [hdeflate]
    rfl

/-- A number below the sentinel is its own 32-bit field. -/
theorem narrowValue_ofNat {n : Nat} (h : n < 0xFFFFFFFF) : narrowValue (.ofNat n) = some n := by
  have hvalue : (UInt32.ofNat n).toNat = n :=
    UInt32.toNat_ofNat_of_lt' (Nat.lt_trans h (by decide))
  rw [narrowValue, if_neg (ofNat_ne_sentinel32 h), hvalue]

/-- **The metadata of a file is read back from its record.** -/
theorem member_record {offset : Nat} (hdata : file.data.length < 0xFFFFFFFF)
    (hoffset : offset < 0xFFFFFFFF) : (file.record offset).member = .ok (file.member offset) := by
  have hname : (file.record offset).name ≠ [] :=
    fun hnil => file.name_ne ((LossyText.bytes_eq_nil_iff _).1 hnil)
  have hnul : 0 ∉ (file.record offset).name :=
    fun hmem => file.nul_notMem ((LossyText.nul_mem_bytes_iff _).1 hmem)
  have hslots : (file.record offset).wideSlots.afterExtra (file.record offset).extra
      = some ⟨some file.payload.length, some file.data.length, some offset⟩ := by
    simp only [Record.wideSlots, record, narrowValue_ofNat file.payload_length,
      narrowValue_ofNat hdata, narrowValue_ofNat hoffset]
    exact WideSlots.afterExtra_of_short _ (Nat.zero_lt_succ _)
  exact Record.member_eq_ok_iff.2 ⟨hname, hnul, hslots, (LossyText.decode_bytes file.name).symm,
    rfl, file.ofNumber_number.symm, rfl⟩

end PackedFile

/-! ### Containers -/

/-- A container to be written. -/
structure Packing where
  leading : Bytes
  files : List PackedFile
  comment : Bytes

namespace Packing

/-- The directory records of files that are laid out from `offset` on. -/
def recordsFrom (offset : Nat) : List PackedFile → List Record
  | [] => []
  | file :: files => file.record offset :: recordsFrom (offset + file.localBytes.length) files

/-- The members of files that are laid out from `offset` on. -/
def membersFrom (offset : Nat) : List PackedFile → List Member
  | [] => []
  | file :: files => file.member offset :: membersFrom (offset + file.localBytes.length) files

/-- Everything in front of the directory. -/
def front (packing : Packing) : Bytes :=
  packing.leading ++ packing.files.flatMap PackedFile.localBytes

def records (packing : Packing) : List Record :=
  recordsFrom packing.leading.length packing.files

def members (packing : Packing) : List Member :=
  membersFrom packing.leading.length packing.files

def directoryBytes (packing : Packing) : Bytes :=
  packing.records.flatMap Record.encode

def endRecord (packing : Packing) : EndRecord where
  disk := 0
  directoryDisk := 0
  diskEntries := .ofNat packing.files.length
  totalEntries := .ofNat packing.files.length
  directorySize := .ofNat packing.directoryBytes.length
  directoryOffset := .ofNat packing.front.length
  commentLength := .ofNat packing.comment.length

/-- The container. -/
def bytes (packing : Packing) : Bytes :=
  packing.front ++ (packing.directoryBytes ++ (packing.endRecord.encode ++ packing.comment))

/-- The container fits the fields of its records without a sentinel, and nothing behind its end
record looks like another one. -/
structure Fits (packing : Packing) : Prop where
  files : packing.files.length < 0xFFFF
  directory : packing.directoryBytes.length < 0xFFFFFFFF
  front : packing.front.length < 0xFFFFFFFF
  comment : packing.comment.length < 65536
  last : ∀ offset, packing.front.length + packing.directoryBytes.length < offset →
    ¬ EndRecord.EndsAt packing.bytes offset

/-! ### The members of a container -/

@[simp] theorem length_recordsFrom (offset : Nat) (files : List PackedFile) :
    (recordsFrom offset files).length = files.length := by
  induction files generalizing offset with
  | nil => rfl
  | cons file files ih => rw [recordsFrom, List.length_cons, List.length_cons, ih]

theorem framed_recordsFrom (offset : Nat) (files : List PackedFile) :
    ∀ record ∈ recordsFrom offset files, record.Framed := by
  induction files generalizing offset with
  | nil => exact fun _ hmem => absurd hmem List.not_mem_nil
  | cons file files ih =>
    intro record hmem
    rcases List.mem_cons.1 hmem with rfl | hlater
    · exact file.framed_record offset
    · exact ih _ record hlater

/-- As long as the files end in front of the sentinel, so do their data and their headers. -/
theorem member_recordsFrom {offset : Nat} {files : List PackedFile}
    (hend : offset + (files.flatMap PackedFile.localBytes).length < 0xFFFFFFFF) :
    (recordsFrom offset files).map Record.member = (membersFrom offset files).map .ok := by
  induction files generalizing offset with
  | nil => rfl
  | cons file files ih =>
    rw [List.flatMap_cons, List.length_append] at hend
    have hlength := file.length_localBytes
    rw [recordsFrom, membersFrom, List.map_cons, List.map_cons,
      file.member_record (by omega) (by omega), ih (by omega)]

theorem membersFrom_append (offset : Nat) (before after : List PackedFile) :
    membersFrom offset (before ++ after) = membersFrom offset before
      ++ membersFrom (offset + (before.flatMap PackedFile.localBytes).length) after := by
  induction before generalizing offset with
  | nil => rfl
  | cons file before ih =>
    rw [List.cons_append, membersFrom, membersFrom, ih, List.flatMap_cons, List.length_append,
      Nat.add_assoc]
    rfl

theorem catalogEntry_membersFrom (offset : Nat) (files : List PackedFile) :
    (membersFrom offset files).map Member.catalogEntry = files.map PackedFile.catalogEntry := by
  induction files generalizing offset with
  | nil => rfl
  | cons file files ih => rw [membersFrom, List.map_cons, List.map_cons, ih]; rfl

theorem find?_membersFrom_eq_none {files : List PackedFile} {name : String}
    (hnone : ∀ file ∈ files, file.name ≠ name) (offset : Nat) :
    (membersFrom offset files).find? (·.name == name) = none := by
  induction files generalizing offset with
  | nil => rfl
  | cons file files ih =>
    have hhead : ((file.member offset).name == name) = false :=
      beq_eq_false_iff_ne.2 (hnone file List.mem_cons_self)
    rw [membersFrom, List.find?_cons, hhead]
    exact ih (fun later hlater => hnone later (List.mem_cons_of_mem _ hlater)) _

/-- The first member of a name is that of the first file of this name, and the files in front of it
say where it stands. -/
theorem find?_membersFrom {before after : List PackedFile} {file : PackedFile}
    (hfirst : ∀ earlier ∈ before, earlier.name ≠ file.name) (offset : Nat) :
    (membersFrom offset (before ++ file :: after)).find? (·.name == file.name)
      = some (file.member (offset + (before.flatMap PackedFile.localBytes).length)) := by
  rw [membersFrom_append, List.find?_append, find?_membersFrom_eq_none hfirst, membersFrom,
    List.find?_cons]
  have hhead : ((file.member (offset + (before.flatMap PackedFile.localBytes).length)).name
      == file.name) = true := beq_self_eq_true _
  rw [hhead]
  rfl

variable {packing : Packing}

/-- **The members of the directory are those of the files.** -/
theorem Fits.describes (h : packing.Fits) :
    (Directory.ofRecords packing.records).Describes packing.members := by
  have hend := h.front
  rw [Packing.front, List.length_append] at hend
  exact ⟨packing.records, rfl, framed_recordsFrom _ _, member_recordsFrom hend⟩

end Packing

end RomArchive
