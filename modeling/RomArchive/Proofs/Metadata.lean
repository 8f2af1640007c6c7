import RomArchive.Member
import RomArchive.Proofs.Codec

/-!
# What the metadata of a record depends on

The metadata of a record comes from its header, and from its extra area where the header has
sentinels. The extra area is a sequence of fields, behind which up to three bytes may be left over;
the reader goes from field to field, and only fields with id 1 change what it knows.

Everything that has to be known of a readable record is collected in one inversion, so that no later
proof goes through the cases of the reader again.

## Main definitions

* `ExtraField` — one field of an extra area
* `Record.Means` — the record is readable, and these are its metadata

## Main results

* `WideSlots.afterExtra_encode_append` — the extra area is read field by field
* `Record.member_eq_ok_iff` — when a record is readable, and as what
-/

namespace RomArchive

/-! ### Fields -/

/-- One field of an extra area. -/
structure ExtraField where
  id : UInt16
  body : Bytes
  body_length : body.length < 65536

def ExtraField.encode (field : ExtraField) : Bytes :=
  LittleEndian.encode 2 field.id.toNat ++ (LittleEndian.encode 2 field.body.length ++ field.body)

@[simp] theorem ExtraField.length_encode (field : ExtraField) :
    field.encode.length = 4 + field.body.length := by
  simp only [encode, List.length_append, LittleEndian.length_encode]
  omega

namespace WideSlots

/-- Less than four bytes cannot begin a field. -/
theorem afterExtra_of_short (slots : WideSlots) {extra : Bytes} (h : extra.length < 4) :
    slots.afterExtra extra = some slots := by
  have hshort : (extra.take 4).length < 4 := by
    rw [List.length_take]
    omega
  rw [afterExtra, if_pos hshort]

/-- One field is read, and the reader stands behind it. -/
theorem afterExtra_encode_append (slots : WideSlots) (field : ExtraField) (rest : Bytes) :
    slots.afterExtra (field.encode ++ rest)
      = (if field.id = fieldId then slots.takeFrom field.body else slots).afterExtra rest := by
  have hlength : (field.encode ++ rest).length = 4 + field.body.length + rest.length := by
    rw [List.length_append, field.length_encode]
  have hid : Bytes.word16 0 (field.encode ++ rest) = field.id := by
    simp [ExtraField.encode]
  have hcount : (Bytes.word16 2 (field.encode ++ rest)).toNat = field.body.length := by
    simp [-UInt16.toNat_ofNat', UInt16.toNat_ofNat_of_lt', ExtraField.encode, field.body_length]
  have hbody : Bytes.slice 4 field.body.length (field.encode ++ rest) = field.body := by
    simp [ExtraField.encode]
  have hbehind : (field.encode ++ rest).drop (4 + field.body.length) = rest := by
    rw [← field.length_encode, List.drop_left]
  have hheader : ¬ ((field.encode ++ rest).take 4).length < 4 := by
    rw [List.length_take]
    omega
  have hframe : ¬ ((field.encode ++ rest).take (4 + field.body.length)).length
      < 4 + field.body.length := by
    rw [List.length_take]
    omega
  rw [afterExtra, if_neg hheader]
  simp only [hcount]
  rw [if_neg hframe]
  simp only [hid, hbody, hbehind]

/-- Fields with other ids change nothing. -/
theorem afterExtra_foreign (slots : WideSlots) {fields : List ExtraField}
    (h : ∀ field ∈ fields, field.id ≠ fieldId) (rest : Bytes) :
    slots.afterExtra (fields.flatMap ExtraField.encode ++ rest) = slots.afterExtra rest := by
  induction fields with
  | nil => rfl
  | cons field fields ih =>
    rw [List.flatMap_cons, List.append_assoc, afterExtra_encode_append,
      if_neg (h field List.mem_cons_self)]
    exact ih fun later hlater => h later (List.mem_cons_of_mem _ hlater)

end WideSlots

/-! ### Readable records -/

namespace Record

/-- The record has a name that can be told, all three values are found, and the member is made of
these and of the fields of the header. -/
structure Means (record : Record) (member : Member) : Prop where
  name_ne : record.name ≠ []
  nul_notMem : 0 ∉ record.name
  slots : record.wideSlots.afterExtra record.extra = some ⟨some member.uncompressedSize,
    some member.compressedSize, some member.headerOffset⟩
  name : member.name = record.text
  flags : member.flags = record.flags
  method : member.method = Method.ofNumber record.method
  checksum : member.checksum = record.checksum

variable {record : Record} {member : Member}

/-- **When a record is readable, and as what.** -/
theorem member_eq_ok_iff : record.member = .ok member ↔ record.Means member := by
  constructor
  · intro h
    rw [Record.member, metadata] at h
    by_cases hname : record.name = []
    · rw [if_pos hname] at h
      cases h
    · by_cases hnul : 0 ∈ record.name
      · rw [if_neg hname, if_pos hnul] at h
        cases h
      · rw [if_neg hname, if_neg hnul] at h
        split at h
        · cases h
        · rename_i hslots
          cases h
          exact ⟨hname, hnul, hslots, rfl, rfl, rfl, rfl⟩
        · cases h
  · rintro ⟨hname, hnul, hslots, hmember, hflags, hmethod, hchecksum⟩
    obtain ⟨name, flags, method, compressed, uncompressed, checksum, offset⟩ := member
    obtain rfl : name = record.text := hmember
    obtain rfl : flags = record.flags := hflags
    obtain rfl : method = Method.ofNumber record.method := hmethod
    obtain rfl : checksum = record.checksum := hchecksum
    rw [Record.member, metadata, if_neg hname, if_neg hnul, hslots]
    rfl

/-- A readable record has a readable name: it is the member's. -/
theorem text_of_member (h : record.member = .ok member) : record.text = member.name :=
  (member_eq_ok_iff.1 h).name.symm

/-- A record that cannot be read tells its name and the reason. -/
theorem member_of_fault {fault : RecordFault}
    (h : record.metadata = .error fault) :
    record.member = .error (.unreadableEntry record.text fault) := by
  rw [member, h]
  rfl

theorem metadata_of_failure {failure : Failure}
    (h : record.member = .error failure) :
    ∃ fault, failure = .unreadableEntry record.text fault ∧ record.metadata = .error fault := by
  rw [member] at h
  cases hmetadata : record.metadata with
  | ok member =>
    rw [hmetadata] at h
    cases h
  | error fault =>
    rw [hmetadata] at h
    cases h
    exact ⟨fault, rfl, rfl⟩

end Record

end RomArchive
