import RomArchive.Directory.Load
import RomArchive.Proofs.EndSearch

/-!
# Loading the directory of a source that holds its bytes

The place of the end record and the extent it gives determine the directory: the slice at that
extent, no more and no less. The statements below take the extent as given, so that the plain end
record and the wide one are two ways of meeting the same hypothesis.

## Main results

* `Source.Holds.directory_of_extent` — the directory at a given extent
* `Source.Holds.exists_extent_of_directory` — and every directory comes about in that way
* `Source.Holds.wideEndRecord` — the wide record behind a locator
-/

namespace RomArchive

namespace Source

variable {source : Source} {bytes : Bytes}

/-- **The directory is the slice at its extent.** -/
theorem Holds.directory_of_extent (h : source.Holds bytes) {place : EndRecord.Place}
    {extent : Directory.Extent} (hplace : source.endRecord = .ok place)
    (hextent : source.directoryExtent place = .ok extent)
    (hinside : extent.offset + extent.size ≤ place.offset) :
    source.directory = .ok ⟨bytes.slice extent.offset extent.size, extent.entries⟩ := by
  rw [Source.directory, hplace]
  simp only [bind, Except.bind, hextent]
  rw [if_neg (Nat.not_lt.2 hinside), h.checked]
  rfl

/-- A directory that was loaded lies in front of the end record, where the extent says. -/
theorem Holds.exists_extent_of_directory (h : source.Holds bytes) {directory : Directory}
    (hload : source.directory = .ok directory) :
    ∃ place extent, source.endRecord = .ok place ∧ source.directoryExtent place = .ok extent ∧
      extent.offset + extent.size ≤ place.offset ∧
      directory = ⟨bytes.slice extent.offset extent.size, extent.entries⟩ := by
  rw [Source.directory] at hload
  cases hplace : source.endRecord with
  | error failure => rw [hplace] at hload; cases hload
  | ok place =>
    rw [hplace] at hload
    simp only [bind, Except.bind] at hload
    cases hextent : source.directoryExtent place with
    | error failure => rw [hextent] at hload; cases hload
    | ok extent =>
      rw [hextent] at hload
      simp only [] at hload
      by_cases hinside : place.offset < extent.offset + extent.size
      · rw [if_pos hinside] at hload
        cases hload
      · rw [if_neg hinside, h.checked] at hload
        cases hload
        exact ⟨place, extent, rfl, hextent, Nat.not_lt.1 hinside, rfl⟩

/-- The extent that a plain end record gives. -/
theorem directoryExtent_of_plain (source : Source) {record : EndRecord}
    (hwide : record.isWide = false) (offset : Nat) :
    source.directoryExtent ⟨record, offset⟩ = record.extent := by
  rw [directoryExtent, hwide, if_neg Bool.false_ne_true]

/-- The directory of a plain end record begins among the bytes. -/
theorem Holds.directoryOffset_le (h : source.Holds bytes) {place : EndRecord.Place}
    {directory : Directory} (hplace : source.endRecord = .ok place)
    (hplain : place.record.isWide = false) (hload : source.directory = .ok directory) :
    place.record.directoryOffset.toNat ≤ bytes.length := by
  obtain ⟨found, extent, hfound, hextent, hinside, -⟩ := h.exists_extent_of_directory hload
  obtain rfl : place = found := Except.ok.inj (hplace.symm.trans hfound)
  rw [source.directoryExtent_of_plain hplain, EndRecord.extent] at hextent
  split at hextent
  · cases hextent
  · cases hextent
    have hend := (h.lastAt_of_endRecord hplace).1.1.inside
    simp only [] at hinside
    omega

/-- The wide record: the locator in front of the end record leads to it. -/
theorem Holds.wideEndRecord (h : source.Holds bytes) {endOffset : Nat} {locator : WideLocator}
    {record : WideEndRecord} (hend : WideLocator.size ≤ endOffset)
    (hinside : endOffset ≤ bytes.length)
    (hlocator : bytes.slice (endOffset - WideLocator.size) WideLocator.size = locator.encode)
    (hrecord : bytes.slice locator.recordOffset.toNat WideEndRecord.size = record.encode) :
    source.wideEndRecord endOffset = .ok record := by
  have hfront : WideLocator.decode locator.encode = .ok locator := by
    simpa using locator.decode_encode_append []
  have hwide : WideEndRecord.decode record.encode = .ok record := by
    simpa using record.decode_encode_append []
  have hinside : endOffset - WideLocator.size + WideLocator.size ≤ bytes.length := by omega
  rw [Source.wideEndRecord, if_neg (Nat.not_lt.2 hend)]
  simp only [h.padded hinside, hlocator, bind, Except.bind, hfront, h.checked, hrecord, hwide]

end Source

end RomArchive
