import RomArchive.EntryData
import RomArchive.Proofs.Bounds.Loading
import RomArchive.Proofs.Bounds.Walking

/-!
# All that is read from a container stays within bounds

What is left is the data of an entry. Its place is the sum of four numbers of which the first may be
any number of 64 bits, since members are made by callers as well as read from records; the sum is
taken only after a local header was found there, so the first number is the offset of bytes that
exist. How much is read is bounded by the size that the source claims.

With that, every operation on a container has a guarded form that follows it. Nothing is assumed of
the bytes, of how they are delivered, or of the numbers that stand in them.

## Main definitions

* `Guarded.dataOffset`, `Guarded.entryData` — the guarded readers of an entry's data
* `Source.InBounds`, `Directory.InBounds` — every operation on a source, on a directory, ends as its
  guarded form does

## Main results

* `Guarded.reads_in_bounds` — that is so for all sources and directories that fit into memory
-/

namespace RomArchive

namespace Guarded

/-! ### The data of an entry -/

/-- Where the data of a member begins. -/
def dataOffset (source : Source) (member : Member) : Guarded Nat := do
  let (read, buffer) ← fill source member.headerOffset LocalHeader.size
  if read < LocalHeader.size then .error (.failed (.invalidArchive .badLocalHeader))
  else do
    let front ← range buffer 0 4
    if front ≠ LocalHeader.signature then .error (.failed (.invalidArchive .badLocalHeader))
    else do
      let (nameLength, position) ← word16 buffer 26
      let (extraLength, _) ← word16 buffer position
      let offset ← add member.headerOffset LocalHeader.size
      let offset ← add offset nameLength.toNat
      add offset extraLength.toNat

/-- The data of a member as stored. A difference that would be negative counts as nothing. -/
def rawData (source : Source) (member : Member) : Guarded Bytes := do
  let offset ← dataOffset source member
  readAvailable source offset (min member.compressedSize (source.size - offset))

def entryData (source : Source) (member : Member) : Guarded Delivery := do
  lift member.supported
  let data ← rawData source member
  return member.method.decode data

variable {source : Source} {member : Member}

/-- The header was read in full, so it stands in front of the end of the contents, and that leaves
room for the two lengths. -/
theorem mirrors_dataOffset (h : Addressable source) (hoffset : member.headerOffset < UInt64.size) :
    Mirrors (fun offset place => offset = place ∧ offset < UInt64.size)
      (dataOffset source member) (source.dataOffset member) := by
  have hlimits := limits
  have hheader : LocalHeader.size = 30 := rfl
  have hcontents := h.contents
  refine (mirrors_fill h.contents hoffset (by omega)).bind ?_
  rintro ⟨read, buffer⟩ bytes hfilled
  have hnumber : read = bytes.length := hfilled.number
  have hasked := hfilled.asked
  have hthere := hfilled.there
  dsimp only
  by_cases hshort : read < LocalHeader.size
  · rw [if_pos hshort, if_pos (Or.inl (by omega))]
    exact .failed _
  · have hbuffer : buffer = bytes := by
      have htake : buffer.take read = bytes := hfilled.truncate
      have hlength : buffer.length = LocalHeader.size := hfilled.length
      rwa [List.take_of_length_le (by omega)] at htake
    subst hbuffer
    rw [if_neg hshort, range_front (by omega), ok_bind]
    by_cases hsignature : buffer.take 4 = LocalHeader.signature
    · have hname := (buffer.word16 26).toNat_lt
      have hextra := (buffer.word16 28).toNat_lt
      have hgood : ¬ (buffer.length < LocalHeader.size ∨ buffer.take 4 ≠ LocalHeader.signature) :=
        fun hbad => hbad.elim (by omega) fun hother => hother hsignature
      rw [if_neg (not_not_intro hsignature), if_neg hgood]
      simp (disch := omega) only [word16_eq, ok_bind, add_eq, Nat.reduceAdd]
      exact .ok ⟨rfl, by omega⟩
    · rw [if_pos hsignature, if_pos (Or.inr hsignature)]
      exact .failed _

theorem mirrors_rawData (h : Addressable source) (hoffset : member.headerOffset < UInt64.size) :
    Mirrors Eq (rawData source member) (source.rawData member) := by
  have hsize := h.size
  refine (mirrors_dataOffset h hoffset).bind ?_
  rintro offset _ ⟨rfl, hplace⟩
  exact (mirrors_readAvailable h.contents hplace (by omega)).imp fun _ _ _ hread => hread.1

theorem mirrors_entryData (h : Addressable source) (hoffset : member.headerOffset < UInt64.size) :
    Mirrors Eq (entryData source member) (source.entryData member) := by
  refine (mirrors_lift member.supported).bind ?_
  rintro _ _ rfl
  refine (mirrors_rawData h hoffset).bind ?_
  rintro data _ rfl
  exact .ok rfl

end Guarded

/-! ### Everything at once -/

/-- Every operation on the source ends as its guarded form does, so no guard stops it. -/
structure Source.InBounds (source : Source) : Prop where
  endRecord : Guarded.endRecord source = Guarded.lift source.endRecord
  wideEndRecord : ∀ endOffset, endOffset < UInt64.size →
    Guarded.wideEndRecord source endOffset = Guarded.lift (source.wideEndRecord endOffset)
  directory : Guarded.directory source = Guarded.lift source.directory
  dataOffset : ∀ member : Member, member.headerOffset < UInt64.size →
    Guarded.dataOffset source member = Guarded.lift (source.dataOffset member)
  entryData : ∀ member : Member, member.headerOffset < UInt64.size →
    Guarded.entryData source member = Guarded.lift (source.entryData member)

/-- Every walk along the directory takes its steps, and reads what it is asked for where it stands,
as its guarded form does. -/
structure Directory.InBounds (directory : Directory) : Prop where
  advance : ∀ steps,
    (Guarded.walk directory steps >>= fun position => do
      let (moved, _) ← position.advance
      return moved)
    = Guarded.lift ((directory.walk steps).map fun cursor => cursor.advance?.isSome)
  rawName : ∀ steps, (Guarded.walk directory steps >>= Guarded.Position.rawName)
    = Guarded.lift ((directory.walk steps).map fun cursor => cursor.record.name)
  name : ∀ steps, (Guarded.walk directory steps >>= Guarded.Position.name)
    = Guarded.lift ((directory.walk steps).map fun cursor => cursor.record.text)
  entry : ∀ steps, (Guarded.walk directory steps >>= Guarded.Position.entry)
    = Guarded.lift (directory.walk steps >>= fun cursor => cursor.record.member)

namespace Guarded

variable {source : Source} {directory : Directory}

theorem Addressable.inBounds (h : Addressable source) : source.InBounds where
  endRecord := ((mirrors_endRecord h).imp fun _ _ _ heq => heq.1).eq
  wideEndRecord _ hoffset := (mirrors_wideEndRecord h hoffset).eq
  directory := (mirrors_directory h).eq
  dataOffset _ hoffset := ((mirrors_dataOffset h hoffset).imp fun _ _ _ heq => heq.1).eq
  entryData _ hoffset := (mirrors_entryData h hoffset).eq

theorem directory_inBounds (hbytes : directory.bytes.length ≤ maxLength)
    (hdeclared : directory.declared < UInt64.size) : directory.InBounds := by
  have hwalk := mirrors_walk hbytes hdeclared
  exact {
    advance := fun steps => by
      refine ((hwalk steps).map fun position cursor hstands => ?_).eq
      obtain ⟨following, hrun, -⟩ := hstands.advance
      exact ⟨_, by rw [hrun]; rfl, rfl⟩
    rawName := fun steps =>
      ((hwalk steps).map fun _ _ hstands => ⟨_, hstands.rawName, rfl⟩).eq
    name := fun steps =>
      ((hwalk steps).map fun _ _ hstands => ⟨_, hstands.name, rfl⟩).eq
    entry := fun steps =>
      ((hwalk steps).bind fun _ _ hstands => hstands.entry ▸ mirrors_lift _).eq }

/-- **Nothing that is read from a container leaves its bounds**: not one index, range, word, sum or
difference, for any bytes, delivered in any way, and any numbers of 64 bits in them. -/
theorem reads_in_bounds (source : Source) (hsize : source.size ≤ maxLength)
    (hcontents : source.contents.length ≤ maxLength) (directory : Directory)
    (hbytes : directory.bytes.length ≤ maxLength) (hdeclared : directory.declared < UInt64.size) :
    source.InBounds ∧ directory.InBounds :=
  ⟨Addressable.inBounds ⟨hsize, hcontents⟩, directory_inBounds hbytes hdeclared⟩

/-! ### Hostile bytes -/

/-- A locator that leads to the last offset of all, in front of an end record that is all ones. -/
def hostileBytes : Bytes :=
  (WideLocator.encode ⟨0, 0xFFFFFFFFFFFFFFFF, 1⟩)
    ++ (EndRecord.encode ⟨0, 0, 0xFFFF, 0xFFFF, 0xFFFFFFFF, 0xFFFFFFFF, 0⟩)

/-- A member that nobody read from a record. -/
def forgedMember : Member where
  name := "A"
  flags := 0
  method := .stored
  compressedSize := 0xFFFFFFFFFFFFFFFF
  uncompressedSize := 0
  checksum := 0
  headerOffset := 0xFFFFFFFFFFFFFFFF

/-- A record whose extra field claims more bytes than there are, in a directory that declares as
many records as can be declared. -/
def forgedDirectory : Directory where
  bytes := Record.encode {
    madeBy := 20, needed := 20, flags := 0, method := 0, time := 0, date := 0, checksum := 0
    compressedSize := 0xFFFFFFFF, uncompressedSize := 0xFFFFFFFF, disk := 0
    internalAttributes := 0, externalAttributes := 0, headerOffset := 0xFFFFFFFF
    name := [65], extra := [1, 0, 0xFF, 0xFF, 0], comment := [] }
  declared := 0xFFFFFFFFFFFFFFFF

theorem reads_in_bounds_hostile :
    (Source.ofBytes hostileBytes).size ≤ maxLength ∧
      (Source.ofBytes hostileBytes).contents.length ≤ maxLength ∧
      forgedDirectory.bytes.length ≤ maxLength ∧ forgedDirectory.declared < UInt64.size ∧
      wideEndRecord (Source.ofBytes hostileBytes) 20
        = .error (.failed (.invalidArchive .badWideEndRecord)) ∧
      dataOffset (Source.ofBytes hostileBytes) forgedMember
        = .error (.failed (.invalidArchive .badLocalHeader)) ∧
      (walk forgedDirectory 3 >>= Position.rawName) = .ok [65] := by
  have hsize : (Source.ofBytes hostileBytes).size ≤ maxLength := by decide
  have hcontents : (Source.ofBytes hostileBytes).contents.length ≤ maxLength := by decide
  have hbytes : forgedDirectory.bytes.length ≤ maxLength := by decide
  have hdeclared : forgedDirectory.declared < UInt64.size := by decide
  obtain ⟨hsource, hdirectory⟩ := reads_in_bounds (Source.ofBytes hostileBytes) hsize hcontents
    forgedDirectory hbytes hdeclared
  have hholds := Source.holds_ofBytes hostileBytes
  refine ⟨hsize, hcontents, hbytes, hdeclared, ?_, ?_, ?_⟩
  · rw [hsource.wideEndRecord 20 (by decide), Source.wideEndRecord, if_neg (by decide),
      hholds.padded (by decide)]
    simp only [hholds.checked]
    decide
  · rw [hsource.dataOffset forgedMember (by decide), Source.dataOffset, hholds.checked]
    decide
  · rw [hdirectory.rawName 3]
    decide

end Guarded

end RomArchive
