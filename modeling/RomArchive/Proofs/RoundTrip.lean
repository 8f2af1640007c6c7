import RomArchive.Proofs.Loading
import RomArchive.Proofs.Packing
import RomArchive.Proofs.Verified

/-!
# Packed files are read back

What was packed can be unpacked, whatever the files, their local headers, the bytes in front of
them and the comment behind them. The one thing to be excluded is a comment that passes for an end
record itself: the search takes the last place that can be one, and nothing else tells the two
apart.

The reader goes from the end to the front. The place of the end record gives the directory, the
directory gives the catalog and the members, and the local header in front of the data gives the
place of the data. The lemmas come in this order.

## Main results

* `Packing.Fits.directory_eq` — the directory of a container
* `PackedFile.entryData` — the data of a file, wherever it stands
* `Packing.reads_back` — a container is read back
-/

namespace RomArchive

/-! ### From the end record to the directory -/

namespace Packing

variable {packing : Packing} {source : Source}

theorem bytes_eq (packing : Packing) :
    packing.bytes = (packing.front ++ packing.directoryBytes)
      ++ (packing.endRecord.encode ++ packing.comment) := by
  rw [bytes, List.append_assoc]

/-- The end record stands behind the directory. -/
theorem drop_bytes (packing : Packing) :
    packing.bytes.drop (packing.front.length + packing.directoryBytes.length)
      = packing.endRecord.encode ++ packing.comment := by
  rw [bytes_eq, ← List.length_append, List.drop_left]

theorem length_bytes (packing : Packing) : packing.bytes.length = packing.front.length
    + packing.directoryBytes.length + EndRecord.size + packing.comment.length := by
  simp only [bytes, List.length_append, EndRecord.length_encode]
  omega

theorem Fits.lastAt (h : packing.Fits) : EndRecord.LastAt packing.bytes
    (packing.front.length + packing.directoryBytes.length) :=
  ⟨EndRecord.endsAt_of_drop packing.drop_bytes (UInt16.toNat_ofNat_of_lt' h.comment), h.last⟩

theorem Fits.endRecord_eq (h : packing.Fits) (hsource : source.Holds packing.bytes) :
    source.endRecord = .ok ⟨packing.endRecord,
      packing.front.length + packing.directoryBytes.length⟩ := by
  rw [hsource.endRecord_of_last h.lastAt, drop_bytes, EndRecord.ofBytes_encode_append]

/-- No field of the end record is a sentinel. -/
theorem Fits.isWide (h : packing.Fits) : packing.endRecord.isWide = false := by
  have hcount : UInt16.ofNat packing.files.length ≠ 0xFFFF := ofNat_ne_sentinel16 h.files
  have hsize : UInt32.ofNat packing.directoryBytes.length ≠ 0xFFFFFFFF :=
    ofNat_ne_sentinel32 h.directory
  have hoffset : UInt32.ofNat packing.front.length ≠ 0xFFFFFFFF := ofNat_ne_sentinel32 h.front
  simp [EndRecord.isWide, endRecord, hcount, hsize, hoffset]

theorem Fits.extent (h : packing.Fits) : packing.endRecord.extent
    = .ok ⟨packing.front.length, packing.directoryBytes.length, packing.files.length⟩ := by
  have hcount : (UInt16.ofNat packing.files.length).toNat = packing.files.length :=
    UInt16.toNat_ofNat_of_lt' (Nat.lt_trans h.files (by decide))
  have hsize : (UInt32.ofNat packing.directoryBytes.length).toNat = packing.directoryBytes.length :=
    UInt32.toNat_ofNat_of_lt' (Nat.lt_trans h.directory (by decide))
  have hoffset : (UInt32.ofNat packing.front.length).toNat = packing.front.length :=
    UInt32.toNat_ofNat_of_lt' (Nat.lt_trans h.front (by decide))
  have hdisk : packing.endRecord.isMultiDisk = false := by
    simp [EndRecord.isMultiDisk, endRecord]
  rw [EndRecord.extent, hdisk, if_neg Bool.false_ne_true]
  simp only [endRecord, hcount, hsize, hoffset]

/-- **The directory of a container** consists of the records of its files. -/
theorem Fits.directory_eq (h : packing.Fits) (hsource : source.Holds packing.bytes) :
    source.directory = .ok (Directory.ofRecords packing.records) := by
  have hplace := h.endRecord_eq hsource
  have hextent := (source.directoryExtent_of_plain h.isWide
    (packing.front.length + packing.directoryBytes.length)).trans h.extent
  rw [hsource.directory_of_extent hplace hextent (Nat.le_refl _)]
  have hslice : packing.bytes.slice packing.front.length packing.directoryBytes.length
      = packing.directoryBytes := Bytes.slice_append_mid rfl rfl
  have hcount : packing.files.length = packing.records.length := (length_recordsFrom _ _).symm
  simp only [hslice, hcount]
  rfl

end Packing

/-! ### From a member to its data -/

namespace PackedFile

variable (file : PackedFile) {source : Source} {before after : Bytes}

/-- The lengths that a local header gives are those of its areas. -/
theorem localHeader_words (rest : Bytes) :
    ((file.localHeader ++ rest).word16 26).toNat = file.localName.length ∧
      ((file.localHeader ++ rest).word16 28).toNat = file.localExtra.length := by
  have hname := file.localName_length
  have hextra := file.localExtra_length
  simp only [localHeader, List.flatten_cons, List.flatten_nil, List.append_assoc]
  simp [-UInt16.toNat_ofNat', UInt16.toNat_ofNat_of_lt', hname, hextra]

/-- They lead over its name and extra area. -/
theorem dataOffset (hsource : source.Holds (before ++ (file.localBytes ++ after))) :
    source.dataOffset (file.member before.length) = .ok (before.length + LocalHeader.size
      + file.localName.length + file.localExtra.length) := by
  have hheader : (before ++ (file.localBytes ++ after)).slice before.length LocalHeader.size
      = file.localHeader := by
    rw [localBytes, List.append_assoc]
    exact Bytes.slice_append_mid rfl file.length_localHeader
  have hsignature : file.localHeader.take 4 = LocalHeader.signature := by
    simp [localHeader]
  obtain ⟨hname, hextra⟩ := file.localHeader_words []
  rw [List.append_nil] at hname hextra
  have htest : ¬ (LocalHeader.size < LocalHeader.size ∨
      LocalHeader.signature ≠ LocalHeader.signature) := by simp
  rw [Source.dataOffset]
  show ((source.fill before.length LocalHeader.size).checked >>= _) = _
  rw [hsource.checked, hheader]
  simp only [bind, Except.bind, length_localHeader, hsignature, hname, hextra]
  rw [if_neg htest]
  rfl

/-- Behind them stand the data, all of which are there. -/
theorem rawData (hsource : source.Holds (before ++ (file.localBytes ++ after))) :
    source.rawData (file.member before.length) = .ok file.data := by
  have hsplit : before ++ (file.localBytes ++ after)
      = (before ++ (file.localHeader ++ (file.localName ++ file.localExtra)))
        ++ (file.data ++ after) := by
    simp only [localBytes, List.append_assoc]
  have hoffset : (before ++ (file.localHeader ++ (file.localName ++ file.localExtra))).length
      = before.length + LocalHeader.size + file.localName.length + file.localExtra.length := by
    simp only [List.length_append, length_localHeader]
    omega
  have hcount : file.data.length ≤ source.size - (before.length + LocalHeader.size
      + file.localName.length + file.localExtra.length) := by
    rw [hsource.size, hsplit, List.length_append, hoffset, List.length_append]
    omega
  rw [Source.rawData, file.dataOffset hsource]
  show (source.fill _ (min file.data.length _)).checked = _
  rw [Nat.min_eq_left hcount, hsource.checked, hsplit, Bytes.slice_append_mid hoffset rfl]

/-- **The data of a file**, wherever it stands, decode to its contents. -/
theorem entryData (hsource : source.Holds (before ++ (file.localBytes ++ after))) :
    source.entryData (file.member before.length) = .ok ⟨file.payload, none⟩ := by
  have hsupported : (file.member before.length).supported = .ok () := by
    rcases file.supported with hstored | hdeflate
    · simp [Member.supported, Member.isEncrypted, member, hstored]
    · simp [Member.supported, Member.isEncrypted, member, hdeflate]
  rw [Source.entryData, hsupported, file.rawData hsource]
  exact congrArg _ file.decodes

end PackedFile

/-! ### The whole way -/

namespace Packing

variable {packing : Packing} {source : Source}

/-- The first file of a name stands where its member says. -/
theorem exists_bytes_eq {before after : List PackedFile} {file : PackedFile}
    (hfiles : packing.files = before ++ file :: after) :
    ∃ rest, packing.bytes = (packing.leading ++ before.flatMap PackedFile.localBytes)
      ++ (file.localBytes ++ rest) := by
  refine ⟨after.flatMap PackedFile.localBytes
    ++ (packing.directoryBytes ++ (packing.endRecord.encode ++ packing.comment)), ?_⟩
  simp only [bytes, front, hfiles, List.flatMap_append, List.flatMap_cons, List.append_assoc]

/-- **A container is read back.** It opens, its catalog lists every file in order under either
policy, and every name in it leads to the contents of the first file of that name, whose size and
checksum are verified on the way. -/
theorem reads_back (packing : Packing) (h : packing.Fits) (source : Source)
    (hsource : source.Holds packing.bytes) :
    ∃ directory, source.directory = .ok directory ∧
      (∀ policy, (directory.catalog policy).outcome
        = .ok (packing.files.map PackedFile.catalogEntry)) ∧
      (∀ name, ∀ file ∈ packing.files.find? (·.name == name),
        ∃ member delivery, directory.locate name = .ok member ∧
          source.entryData member = .ok delivery ∧
          (Feed.ofDelivery delivery).verified name member.uncompressedSize member.checksum
            = .ok ⟨name, file.payload⟩) ∧
      ∀ name, (∀ file ∈ packing.files, file.name ≠ name) →
        directory.locate name = .error (.entryNotFound name) := by
  refine ⟨_, h.directory_eq hsource, fun policy => ?_, fun name file hfile => ?_,
    fun name hnone => ?_⟩
  · rw [h.describes.catalog]
    exact congrArg _ (catalogEntry_membersFrom _ _)
  · obtain ⟨hname, before, after, hfiles, hfirst⟩ := List.find?_eq_some_iff_append.1 hfile
    obtain rfl : file.name = name := beq_iff_eq.1 hname
    obtain ⟨rest, hbytes⟩ := exists_bytes_eq hfiles
    have hlocate := h.describes.locate file.name
    rw [members, hfiles, find?_membersFrom fun earlier hearlier => by
      simpa using hfirst earlier hearlier] at hlocate
    rw [hbytes] at hsource
    have hdata := file.entryData hsource
    rw [List.length_append] at hdata
    exact ⟨_, _, hlocate, hdata, Feed.verified_ofDelivery file.name file.payload⟩
  · rw [h.describes.locate, members, find?_membersFrom_eq_none hnone]

/-! ### A container with both methods

Something stands in front of the first file, the local name of that file is not its own, and the
comment begins like a signature. -/

/-- A file that is stored as it is. -/
def storedSample : PackedFile where
  name := "GAME.PRG"
  payload := [1, 2, 3]
  method := .stored
  data := [1, 2, 3]
  localName := [0x47]
  localExtra := [0, 0, 0]
  name_ne := by decide
  nul_notMem := by decide
  name_length := by decide
  localName_length := by decide
  localExtra_length := by decide
  supported := Or.inl rfl
  decodes := rfl
  payload_length := by decide

/-- A compressed file, in one block of two literal bytes. -/
def deflatedSample : PackedFile where
  name := "docs/GAME.TXT"
  payload := [0x68, 0x69]
  method := .deflate
  data := [0x01, 0x02, 0x00, 0xFD, 0xFF, 0x68, 0x69]
  localName := PathText.bytes "docs/GAME.TXT"
  localExtra := []
  name_ne := by decide
  nul_notMem := by decide
  name_length := by decide
  localName_length := by decide
  localExtra_length := by decide
  supported := Or.inr rfl
  decodes := by decide +kernel
  payload_length := by decide

def sample : Packing where
  leading := [0x4D, 0x5A]
  files := [storedSample, deflatedSample]
  comment := [0x50, 0x4B]

theorem fits_sample : sample.Fits where
  files := by decide
  directory := by decide +kernel
  front := by decide +kernel
  comment := by decide
  last := by
    intro offset hoffset hends
    have hinside := hends.inside
    have hfront : sample.front.length = 89 := by decide +kernel
    have hdirectory : sample.directoryBytes.length = 113 := by decide +kernel
    have hcomment : sample.comment.length = 2 := rfl
    have hlength := sample.length_bytes
    have hplace : offset = 203 ∨ offset = 204 := by omega
    rcases hplace with rfl | rfl
    · exact absurd hends.signature (by decide +kernel)
    · exact absurd hends.signature (by decide +kernel)

theorem reads_back_sample : sample.Fits ∧
    (Source.ofBytes sample.bytes).Holds sample.bytes ∧
    ∃ directory, (Source.ofBytes sample.bytes).directory = .ok directory ∧
      (directory.catalog .abort).outcome
        = .ok [⟨"GAME.PRG", 3, 3⟩, ⟨"docs/GAME.TXT", 2, 7⟩] ∧
      (∃ member delivery, directory.locate "docs/GAME.TXT" = .ok member ∧
        (Source.ofBytes sample.bytes).entryData member = .ok delivery ∧
        (Feed.ofDelivery delivery).verified "docs/GAME.TXT" member.uncompressedSize member.checksum
          = .ok ⟨"docs/GAME.TXT", [0x68, 0x69]⟩) ∧
      directory.locate "GAME.TXT" = .error (.entryNotFound "GAME.TXT") := by
  obtain ⟨directory, hload, hcatalog, hfound, hmissing⟩ :=
    reads_back sample fits_sample _ (Source.holds_ofBytes sample.bytes)
  exact ⟨fits_sample, Source.holds_ofBytes _, directory, hload, hcatalog .abort,
    hfound "docs/GAME.TXT" deflatedSample rfl, hmissing "GAME.TXT" (by decide)⟩

end Packing

end RomArchive
