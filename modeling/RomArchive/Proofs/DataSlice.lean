import RomArchive.Proofs.Extraction
import RomArchive.Proofs.Bounds.Entries

/-!
# Which bytes the data of an entry are

The place of an entry's data is found in two headers that may disagree. The directory, or whoever
made the member, says where the local header is and how much data there is; how far behind its front
the data begin, the local header says by itself. Here the result is given as a slice of the
container. It is clamped to the bytes that are there, so a size may be declared that no container
has.

Refusals come first: whether a member is encrypted, or stored by an unknown method, is decided
before anything is read, and the outcome is then the same for all sources. A method is unknown if it
is filed as unknown, whatever its number.

## Main definitions

* `LocalHeader.StandsAt`, `LocalHeader.dataStart` — where a local header is, and where it ends
* `Member.storedIn` — the data of a member as a slice of the bytes
* `Source.Opening` — how opening a member ends

## Main results

* `Source.Holds.dataOffset`, `Source.Holds.rawData` — the readers, as functions of the bytes
* `Source.opening_exact` — opening ends so for all bytes and all members
-/

namespace RomArchive

/-! ### Local headers -/

namespace LocalHeader

/-- A local header stands at this offset: it begins with the signature and is there as a whole. -/
structure StandsAt (bytes : Bytes) (offset : Nat) : Prop where
  inside : offset + 30 ≤ bytes.length
  signature : bytes.slice offset 4 = signature

/-- The offset behind a local header, its name and its extra area. Their lengths are its own. -/
def dataStart (bytes : Bytes) (offset : Nat) : Nat :=
  offset + 30 + (bytes.word16 (offset + 26)).toNat + (bytes.word16 (offset + 28)).toNat

/-- The test of the reader, on the bytes that it has read. -/
theorem standsAt_iff (bytes : Bytes) (offset : Nat) : StandsAt bytes offset ↔
    ¬ ((bytes.slice offset size).length < size ∨
      (bytes.slice offset size).take 4 ≠ LocalHeader.signature) := by
  have hfront : (bytes.slice offset size).take 4 = bytes.slice offset 4 := List.take_take
  rw [hfront, Bytes.length_slice, not_or, Decidable.not_not, Nat.not_lt, size]
  constructor
  · exact fun h => ⟨by have := h.inside; omega, h.signature⟩
  · exact fun h => ⟨by omega, h.2⟩

/-- The two lengths stand in the header, so they are read from the container. -/
theorem dataStart_eq (bytes : Bytes) (offset : Nat) : dataStart bytes offset
    = offset + size + ((bytes.slice offset size).word16 26).toNat
      + ((bytes.slice offset size).word16 28).toNat := by
  rw [Bytes.slice, Bytes.word16_take _ (by decide), Bytes.word16_take _ (by decide),
    Bytes.word16_drop, Bytes.word16_drop]
  rfl

end LocalHeader

/-! ### The data of a member -/

/-- The data of a member as they stand in the bytes: from behind the local header on, as many as the
member declares, or as many as there are. -/
def Member.storedIn (member : Member) (bytes : Bytes) : Bytes :=
  let start := LocalHeader.dataStart bytes member.headerOffset
  (bytes.take (min (start + member.compressedSize) bytes.length)).drop start

namespace Source

variable {source : Source} {bytes : Bytes} {member : Member}

/-- **Where the data begin**, if there is a local header. -/
theorem Holds.dataOffset (h : source.Holds bytes) (member : Member) :
    (LocalHeader.StandsAt bytes member.headerOffset →
      source.dataOffset member = .ok (LocalHeader.dataStart bytes member.headerOffset)) ∧
    (¬ LocalHeader.StandsAt bytes member.headerOffset →
      source.dataOffset member = .error (.invalidArchive .badLocalHeader)) := by
  rw [LocalHeader.standsAt_iff, Source.dataOffset, h.checked]
  constructor
  · intro hstands
    rw [LocalHeader.dataStart_eq]
    exact if_neg hstands
  · intro hno
    exact if_pos (Decidable.not_not.1 hno)

/-- **The data as stored** are a slice of the bytes. -/
theorem Holds.rawData (h : source.Holds bytes)
    (hheader : LocalHeader.StandsAt bytes member.headerOffset) :
    source.rawData member = .ok (member.storedIn bytes) := by
  have hoffset := (h.dataOffset member).1 hheader
  rw [Source.rawData, hoffset, Member.storedIn, List.drop_take]
  show (source.fill _ _).checked = _
  rw [h.checked, h.size, Bytes.slice]
  congr 2
  omega

theorem entryData_of_unsupported {failure : Failure} (h : member.supported = .error failure) :
    source.entryData member = .error failure := by
  rw [entryData, h]
  rfl

theorem entryData_of_dataOffset {failure : Failure} (hsupported : member.supported = .ok ())
    (h : source.dataOffset member = .error failure) :
    source.entryData member = .error failure := by
  rw [entryData, hsupported, rawData, h]
  rfl

theorem Holds.entryData (h : source.Holds bytes) (hsupported : member.supported = .ok ())
    (hheader : LocalHeader.StandsAt bytes member.headerOffset) :
    source.entryData member = .ok (member.method.decode (member.storedIn bytes)) := by
  rw [Source.entryData, hsupported, h.rawData hheader]
  rfl

/-- How opening a member of a container with these bytes ends. -/
structure Opening (source : Source) (bytes : Bytes) (member : Member) : Prop where
  /-- An encrypted member is refused before anything is read, so by every source. -/
  encrypted : member.flags &&& 1 ≠ 0 → ∀ other : Source,
    other.entryData member = .error (.unsupported member.name .encryption)
  /-- So is a member of an unknown method, if it is not encrypted. -/
  unknown : member.flags &&& 1 = 0 → ∀ number, member.method = .unknown number →
    ∀ other : Source,
      other.entryData member = .error (.unsupported member.name (.compression number))
  /-- Of what is left, nothing can be read where no local header stands. -/
  headless : member.flags &&& 1 = 0 → member.method = .stored ∨ member.method = .deflate →
    ¬ LocalHeader.StandsAt bytes member.headerOffset →
      source.entryData member = .error (.invalidArchive .badLocalHeader)
  /-- Where one stands, the data begin behind it, and reach no further than the bytes. -/
  placed : LocalHeader.StandsAt bytes member.headerOffset →
    source.dataOffset member = .ok (LocalHeader.dataStart bytes member.headerOffset) ∧
      source.rawData member = .ok (member.storedIn bytes)
  empty : bytes.length ≤ LocalHeader.dataStart bytes member.headerOffset →
    member.storedIn bytes = []
  /-- Stored data are delivered as they are. -/
  stored : member.flags &&& 1 = 0 → member.method = .stored →
    LocalHeader.StandsAt bytes member.headerOffset →
      source.entryData member = .ok ⟨member.storedIn bytes, none⟩
  /-- Compressed data are delivered inflated, up to a fault if there is one. -/
  deflated : member.flags &&& 1 = 0 → member.method = .deflate →
    LocalHeader.StandsAt bytes member.headerOffset →
      source.entryData member = .ok (inflate (member.storedIn bytes))
  /-- In numbers of 64 bits nothing wraps around, whatever size the member declares. -/
  guarded : bytes.length ≤ Guarded.maxLength → member.headerOffset < UInt64.size →
    Guarded.entryData source member = Guarded.lift (source.entryData member)

/-- **The data of an entry are the right slice**, for all bytes, delivered in pieces of any size,
and for all members, read from a record or not. -/
theorem opening_exact (h : source.Holds bytes) (member : Member) : source.Opening bytes member := by
  constructor
  case encrypted =>
    intro hflag other
    have hencrypted : member.isEncrypted = true := decide_eq_true hflag
    exact entryData_of_unsupported (if_pos hencrypted)
  case unknown =>
    intro hplain number hmethod other
    have hencrypted : ¬ member.isEncrypted = true := by simp [Member.isEncrypted, hplain]
    refine entryData_of_unsupported ?_
    rw [Member.supported, if_neg hencrypted, hmethod]
  case headless =>
    intro hplain hmethod hno
    exact entryData_of_dataOffset (Member.supported_eq_ok_iff.2 ⟨hplain, hmethod⟩)
      ((h.dataOffset member).2 hno)
  case placed => exact fun hheader => ⟨(h.dataOffset member).1 hheader, h.rawData hheader⟩
  case empty =>
    intro hbehind
    exact List.drop_eq_nil_of_le (Nat.le_trans (List.length_take_le' _ _) hbehind)
  case stored =>
    intro hplain hmethod hheader
    have hsupported := Member.supported_eq_ok_iff.2 ⟨hplain, Or.inl hmethod⟩
    rw [h.entryData hsupported hheader, hmethod]
    rfl
  case deflated =>
    intro hplain hmethod hheader
    have hsupported := Member.supported_eq_ok_iff.2 ⟨hplain, Or.inr hmethod⟩
    rw [h.entryData hsupported hheader, hmethod]
    rfl
  case guarded =>
    intro hlength hoffset
    have haddressable : Guarded.Addressable source :=
      ⟨h.size.symm ▸ hlength, h.contents.symm ▸ hlength⟩
    exact (Guarded.mirrors_entryData haddressable hoffset).eq

/-! ### A member that declares too much -/

/-- A local header with a name of one byte and an extra area of two, in front of three bytes. -/
def shortContents : Bytes :=
  LocalHeader.signature ++ (List.replicate 22 0 ++ [1, 0, 2, 0, 65, 0, 0, 1, 2, 3])

def oversizedMember : Member where
  name := "B"
  flags := 0
  method := .stored
  compressedSize := 0xFFFFFFFFFFFFFFFF
  uncompressedSize := 3
  checksum := 0
  headerOffset := 0

/-- The sum of offset and size would leave 64 bits; what is delivered ends with the bytes. -/
theorem opening_exact_oversized : (ofBytes shortContents).Holds shortContents ∧
    (ofBytes shortContents).entryData oversizedMember = .ok ⟨[1, 2, 3], none⟩ ∧
    Guarded.entryData (ofBytes shortContents) oversizedMember = .ok ⟨[1, 2, 3], none⟩ := by
  have hholds := holds_ofBytes shortContents
  have hopening := opening_exact hholds oversizedMember
  have hdata : (ofBytes shortContents).entryData oversizedMember = .ok ⟨[1, 2, 3], none⟩ :=
    hopening.stored (by decide) rfl ⟨by decide, by decide⟩
  refine ⟨hholds, hdata, ?_⟩
  rw [hopening.guarded (by decide) (by decide), hdata]
  rfl

end Source

end RomArchive
