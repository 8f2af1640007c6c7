import RomArchive.Proofs.Framing
import RomArchive.Proofs.Loading
import RomArchive.Proofs.Bounds.Entries

/-!
# The record that governs

Where the directory of a container lies is said by its end record or, if one of the numbers there is
a sentinel, by the wide record that the locator in front of it leads to. Which of the two governs,
and what it says, is stated here without the readers, by the bytes that these records consist of.

Whoever wrote the container may have put any numbers into them. What is loaded lies in front of the
end record all the same: an extent that ends behind its front is refused, and since the end is
compared as an unbounded number, no sum passes because it wrapped around. Nothing is filled in and
nothing is left out either, so a directory has exactly the size that is declared for it.

## Main definitions

* `GoverningRecord` — the end record or the wide one, and what both of them say
* `GoverningRecord.Governs` — which record governs, by the bytes of a container
* `GoverningRecord.Locates` — a directory is what the governing record says
* `Source.GovernedBy` — which one a source comes up with, whatever it delivers
* `Source.LoadsGoverned` — how loading the directory ends

## Main results

* `WideLocator.eq_encode_of_decode`, `WideEndRecord.eq_encode_of_decode` — what is decoded is the
  bytes of a record
* `Source.Holds.governedBy_iff` — a source that holds its bytes comes up with the one that governs
* `Source.Holds.loads_governed` — the directory lies where the governing record says and in front of
  the end record, or nothing is loaded
-/

namespace RomArchive

/-! ### Records that were decoded -/

theorem Bytes.encode_word64 {bytes : Bytes} {offset : Nat} (h : offset + 8 ≤ bytes.length) :
    LittleEndian.encode 8 (bytes.word64 offset).toNat = bytes.slice offset 8 := by
  obtain ⟨hbound, hback⟩ := Bytes.encode_value_slice h
  rw [Bytes.word64, UInt64.toNat_ofNat_of_lt' hbound, hback]

/-- Cutting a slice to its own size leaves it as it is. -/
theorem Bytes.take_slice (offset count : Nat) (bytes : Bytes) :
    (bytes.slice offset count).take count = bytes.slice offset count := by
  rw [Bytes.slice, List.take_take, Nat.min_self]

theorem Bytes.drop_take_add (offset count : Nat) (bytes : Bytes) :
    (bytes.take (offset + count)).drop offset = bytes.slice offset count := by
  rw [List.drop_take, Nat.add_sub_cancel_left, Bytes.slice]

namespace WideLocator

/-- A locator that was read is written back as it was. -/
theorem encode_ofBytes {bytes : Bytes} (hlength : size ≤ bytes.length)
    (hsignature : bytes.take 4 = signature) : (ofBytes bytes).encode = bytes.take size := by
  have hfront : signature = bytes.slice 0 4 := hsignature.symm
  simp only [size] at hlength
  rw [encode, hfront]
  simp (disch := omega) only [ofBytes, Bytes.encode_word32, Bytes.encode_word64, List.flatten_cons,
    List.flatten_nil, List.append_nil]
  simp (disch := omega) only [Bytes.slice_append_slice]
  rfl

theorem eq_encode_of_decode {bytes : Bytes} {locator : WideLocator}
    (h : decode bytes = .ok locator) : bytes.take size = locator.encode := by
  obtain ⟨⟨hlength, hsignature⟩, rfl⟩ := ite_eq_ok_iff.1 h
  exact (encode_ofBytes hlength hsignature).symm

theorem encode_inj {first second : WideLocator} (h : first.encode = second.encode) :
    first = second := by
  have hfirst := first.decode_encode_append []
  rw [h, second.decode_encode_append] at hfirst
  exact (Except.ok.inj hfirst).symm

end WideLocator

namespace WideEndRecord

/-- A wide record that was read is written back as it was. -/
theorem encode_ofBytes {bytes : Bytes} (hlength : size ≤ bytes.length)
    (hsignature : bytes.take 4 = signature) : (ofBytes bytes).encode = bytes.take size := by
  have hfront : signature = bytes.slice 0 4 := hsignature.symm
  simp only [size] at hlength
  rw [encode, hfront]
  simp (disch := omega) only [ofBytes, Bytes.encode_word16, Bytes.encode_word32,
    Bytes.encode_word64, List.flatten_cons, List.flatten_nil, List.append_nil]
  simp (disch := omega) only [Bytes.slice_append_slice]
  rfl

theorem eq_encode_of_decode {bytes : Bytes} {record : WideEndRecord}
    (h : decode bytes = .ok record) : bytes.take size = record.encode := by
  obtain ⟨⟨hlength, hsignature⟩, rfl⟩ := ite_eq_ok_iff.1 h
  exact (encode_ofBytes hlength hsignature).symm

theorem encode_inj {first second : WideEndRecord} (h : first.encode = second.encode) :
    first = second := by
  have hfirst := first.decode_encode_append []
  rw [h, second.decode_encode_append] at hfirst
  exact (Except.ok.inj hfirst).symm

end WideEndRecord

/-! ### What the records say -/

/-- One of the counts, the size or the offset is a sentinel: the true values stand elsewhere. -/
def EndRecord.HasSentinel (record : EndRecord) : Prop :=
  record.diskEntries.toNat = 0xFFFF ∨ record.totalEntries.toNat = 0xFFFF ∨
    record.directorySize.toNat = 0xFFFFFFFF ∨ record.directoryOffset.toNat = 0xFFFFFFFF

theorem EndRecord.isWide_iff (record : EndRecord) :
    record.isWide = true ↔ record.HasSentinel := by
  simp only [isWide, HasSentinel, Bool.or_eq_true, decide_eq_true_eq, ← UInt16.toNat_inj,
    ← UInt32.toNat_inj, or_assoc]
  rfl

/-- The record that says where the directory lies. -/
inductive GoverningRecord where
  | plain (record : EndRecord)
  | wide (record : WideEndRecord)

namespace GoverningRecord

/-- Where the directory lies, and its declared number of records. -/
def extent : GoverningRecord → Directory.Extent
  | plain record =>
    ⟨record.directoryOffset.toNat, record.directorySize.toNat, record.totalEntries.toNat⟩
  | wide record =>
    ⟨record.directoryOffset.toNat, record.directorySize.toNat, record.totalEntries.toNat⟩

/-- The disk that the record itself is on. -/
def disk : GoverningRecord → Nat
  | plain record => record.disk.toNat
  | wide record => record.disk.toNat

/-- The disk that the directory begins on. -/
def directoryDisk : GoverningRecord → Nat
  | plain record => record.directoryDisk.toNat
  | wide record => record.directoryDisk.toNat

/-- How many of the records are on the disk of the governing record. -/
def diskEntries : GoverningRecord → Nat
  | plain record => record.diskEntries.toNat
  | wide record => record.diskEntries.toNat

/-- The readers take the directory to be on a single disk. They compare the disks of both kinds of
records, and the counts of the plain one only. -/
def TakenAsWhole : GoverningRecord → Prop
  | plain record => record.disk = record.directoryDisk ∧ record.diskEntries = record.totalEntries
  | wide record => record.disk = record.directoryDisk

instance (governing : GoverningRecord) : Decidable governing.TakenAsWhole :=
  match governing with
  | plain _ => inferInstanceAs (Decidable (_ ∧ _))
  | wide _ => inferInstanceAs (Decidable (_ = _))

theorem extent_plain (record : EndRecord) : record.extent =
    if TakenAsWhole (.plain record) then .ok (extent (.plain record))
      else .error (.invalidArchive .multiDisk) := by
  have hmulti : record.isMultiDisk = true ↔ ¬ TakenAsWhole (.plain record) := by
    simp only [EndRecord.isMultiDisk, TakenAsWhole, Bool.or_eq_true, decide_eq_true_eq]
    exact Decidable.not_and_iff_not_or_not.symm
  by_cases hwhole : TakenAsWhole (.plain record)
  · rw [EndRecord.extent, if_pos hwhole, if_neg fun h => hmulti.1 h hwhole]
    rfl
  · rw [EndRecord.extent, if_neg hwhole, if_pos (hmulti.2 hwhole)]

theorem extent_wide (record : WideEndRecord) : record.extent =
    if TakenAsWhole (.wide record) then .ok (extent (.wide record))
      else .error (.invalidArchive .multiDisk) := by
  by_cases hwhole : TakenAsWhole (.wide record)
  · rw [WideEndRecord.extent, if_pos hwhole]
    exact if_neg (not_not_intro hwhole)
  · rw [WideEndRecord.extent, if_neg hwhole]
    exact if_pos hwhole

/-- The governing record among these bytes, whose end record stands at `place`. -/
inductive Governs (bytes : Bytes) (place : EndRecord.Place) : GoverningRecord → Prop
  | plain (hplain : ¬ place.record.HasSentinel) : Governs bytes place (.plain place.record)
  /-- The locator stands right in front of the end record, and the wide record where it says. -/
  | wide {record : WideEndRecord} (locator : WideLocator) (hwide : place.record.HasSentinel)
      (hroom : 20 ≤ place.offset)
      (hlocator : bytes.slice (place.offset - 20) 20 = locator.encode)
      (hrecord : bytes.slice locator.recordOffset.toNat 56 = record.encode) :
      Governs bytes place (.wide record)

end GoverningRecord

namespace Source

variable {source : Source} {bytes : Bytes} {place : EndRecord.Place}
  {governing : GoverningRecord}

/-- The record that the source comes up with for an end record, whatever it delivers. -/
inductive GovernedBy (source : Source) (place : EndRecord.Place) : GoverningRecord → Prop
  | plain (hplain : ¬ place.record.HasSentinel) : GovernedBy source place (.plain place.record)
  | wide {record : WideEndRecord} (hwide : place.record.HasSentinel)
      (hread : source.wideEndRecord place.offset = .ok record) :
      GovernedBy source place (.wide record)

/-- What the reader makes of the governing record. -/
theorem GovernedBy.directoryExtent (h : source.GovernedBy place governing) :
    source.directoryExtent place = if governing.TakenAsWhole then .ok governing.extent
      else .error (.invalidArchive .multiDisk) := by
  cases h with
  | plain hplain =>
    have hnarrow : ¬ place.record.isWide = true :=
      fun hwide => hplain ((EndRecord.isWide_iff _).1 hwide)
    rw [Source.directoryExtent, if_neg hnarrow, GoverningRecord.extent_plain]
  | wide hwide hread =>
    rw [Source.directoryExtent, if_pos ((EndRecord.isWide_iff _).2 hwide), hread]
    exact GoverningRecord.extent_wide _

/-- An extent only comes from a record that governs. -/
theorem exists_governedBy {extent : Directory.Extent}
    (h : source.directoryExtent place = .ok extent) :
    ∃ governing, source.GovernedBy place governing ∧ governing.TakenAsWhole ∧
      extent = governing.extent := by
  have hgoverned : ∃ governing, source.GovernedBy place governing := by
    by_cases hsentinel : place.record.HasSentinel
    · rw [Source.directoryExtent, if_pos ((EndRecord.isWide_iff _).2 hsentinel)] at h
      obtain ⟨record, hread, -⟩ := exists_of_bind_eq_ok h
      exact ⟨_, .wide hsentinel hread⟩
    · exact ⟨_, .plain hsentinel⟩
  obtain ⟨governing, hgoverns⟩ := hgoverned
  rw [hgoverns.directoryExtent] at h
  split at h
  · rename_i hwhole
    exact ⟨governing, hgoverns, hwhole, (Except.ok.inj h).symm⟩
  · cases h

/-- **The source comes up with the record that governs**, if it holds its bytes. -/
theorem Holds.governedBy_iff (h : source.Holds bytes) (hinside : place.offset ≤ bytes.length) :
    source.GovernedBy place governing ↔ governing.Governs bytes place := by
  constructor
  · intro hgoverns
    cases hgoverns with
    | plain hplain => exact .plain hplain
    | wide hwide hread =>
      rw [Source.wideEndRecord] at hread
      split at hread
      · cases hread
      · rename_i hroom
        have hroom : 20 ≤ place.offset := Nat.not_lt.1 hroom
        have hfront : place.offset - 20 + 20 ≤ bytes.length := by omega
        obtain ⟨front, hpadded, hread⟩ := exists_of_bind_eq_ok hread
        obtain ⟨locator, hlocator, hread⟩ := exists_of_bind_eq_ok hread
        obtain ⟨found, hchecked, hrecord⟩ := exists_of_bind_eq_ok hread
        obtain rfl := Except.ok.inj ((h.padded hfront).symm.trans hpadded)
        obtain rfl := Except.ok.inj ((h.checked _ _).symm.trans hchecked)
        refine .wide locator hwide hroom ?_ ?_
        · exact (Bytes.take_slice _ _ _).symm.trans (WideLocator.eq_encode_of_decode hlocator)
        · exact (Bytes.take_slice _ _ _).symm.trans (WideEndRecord.eq_encode_of_decode hrecord)
  · intro hgoverns
    cases hgoverns with
    | plain hplain => exact .plain hplain
    | wide locator hwide hroom hlocator hrecord =>
      exact .wide hwide (h.wideEndRecord hroom hinside hlocator hrecord)

end Source

namespace GoverningRecord

/-- No two records govern: what stands where they are looked for is one of them at most. -/
theorem Governs.unique {bytes : Bytes} {place : EndRecord.Place} {first second : GoverningRecord}
    (hfirst : first.Governs bytes place) (hsecond : second.Governs bytes place) :
    first = second := by
  cases hfirst with
  | plain hplain =>
    cases hsecond with
    | plain => rfl
    | wide _ hwide => exact absurd hwide hplain
  | wide locator hwide hroom hlocator hrecord =>
    cases hsecond with
    | plain hplain => exact absurd hwide hplain
    | wide _ _ _ hother hsecond =>
      obtain rfl := WideLocator.encode_inj (hlocator.symm.trans hother)
      rw [WideEndRecord.encode_inj (hrecord.symm.trans hsecond)]

/-- The directory is what the record says: so many bytes, from there on, and all of them in front of
the end record. The end of the extent is a sum of unbounded numbers. -/
structure Locates (governing : GoverningRecord) (bytes : Bytes) (place : EndRecord.Place)
    (directory : Directory) : Prop where
  inside : governing.extent.offset + governing.extent.size ≤ place.offset
  bytes : directory.bytes
    = (bytes.take (governing.extent.offset + governing.extent.size)).drop governing.extent.offset
  length : directory.bytes.length = governing.extent.size
  declared : directory.declared = governing.extent.entries

end GoverningRecord

/-! ### How loading ends -/

namespace Source

variable {source : Source} {bytes : Bytes} {place : EndRecord.Place}
  {governing : GoverningRecord}

theorem directory_of_outside {extent : Directory.Extent} (hplace : source.endRecord = .ok place)
    (hextent : source.directoryExtent place = .ok extent)
    (houtside : place.offset < extent.offset + extent.size) :
    source.directory = .error (.invalidArchive .directoryOutside) := by
  simp only [Source.directory, hplace, hextent, bind, Except.bind]
  exact if_pos houtside

theorem directory_of_directoryExtent {failure : Failure} (hplace : source.endRecord = .ok place)
    (hextent : source.directoryExtent place = .error failure) :
    source.directory = .error failure := by
  simp only [Source.directory, hplace, hextent, bind, Except.bind]

/-- How loading the directory of a container with these bytes ends. -/
structure LoadsGoverned (source : Source) (bytes : Bytes) : Prop where
  /-- Where something is loaded there is an end record, and a record that governs. -/
  governed : ∀ directory, source.directory = .ok directory →
    ∃ place governing, source.endRecord = .ok place ∧
      GoverningRecord.Governs bytes place governing
  /-- What is loaded is what that record says, with nothing filled in or left out. -/
  loaded : ∀ place governing directory, source.endRecord = .ok place →
    GoverningRecord.Governs bytes place governing → source.directory = .ok directory →
      governing.Locates bytes place directory
  /-- An extent that does not end in front of the end record is refused. -/
  refused : ∀ place governing, source.endRecord = .ok place →
    GoverningRecord.Governs bytes place governing →
    place.offset < governing.extent.offset + governing.extent.size →
      ∃ fault, source.directory = .error (.invalidArchive fault)
  /-- Any other is loaded, unless the directory is said to be on several disks. -/
  accepted : ∀ place governing, source.endRecord = .ok place →
    GoverningRecord.Governs bytes place governing → governing.TakenAsWhole →
    governing.extent.offset + governing.extent.size ≤ place.offset →
      ∃ directory, source.directory = .ok directory
  /-- Loading in numbers of 64 bits, where a sum can fail to be one, ends in the same way. -/
  guarded : bytes.length ≤ Guarded.maxLength →
    Guarded.directory source = Guarded.lift source.directory

theorem Holds.endRecord_offset_le (h : source.Holds bytes) (hplace : source.endRecord = .ok place) :
    place.offset ≤ bytes.length := by
  have hinside := (h.lastAt_of_endRecord hplace).1.1.inside
  omega

theorem Holds.governedBy_iff_of_endRecord (h : source.Holds bytes)
    (hplace : source.endRecord = .ok place) :
    source.GovernedBy place governing ↔ governing.Governs bytes place :=
  h.governedBy_iff (h.endRecord_offset_le hplace)

/-- Where a directory was loaded, its record governs, and the directory is what it says. -/
theorem Holds.exists_locates (h : source.Holds bytes) {directory : Directory}
    (hload : source.directory = .ok directory) :
    ∃ place governing, source.endRecord = .ok place ∧
      GoverningRecord.Governs bytes place governing ∧
      governing.Locates bytes place directory := by
  obtain ⟨place, extent, hplace, hextent, hinside, rfl⟩ := h.exists_extent_of_directory hload
  obtain ⟨governing, hgoverned, -, rfl⟩ := exists_governedBy hextent
  have hend := h.endRecord_offset_le hplace
  refine ⟨place, governing, hplace, (h.governedBy_iff_of_endRecord hplace).1 hgoverned, ?_⟩
  constructor
  case inside => exact hinside
  case bytes => exact (Bytes.drop_take_add _ _ _).symm
  case length => exact Bytes.length_slice_of_le (by omega)
  case declared => rfl

/-- **The directory lies inside the container**, where the record that governs says, in any source
that holds its bytes and for any numbers of 64 bits in them. -/
theorem Holds.loads_governed (h : source.Holds bytes) : source.LoadsGoverned bytes := by
  constructor
  case governed =>
    intro directory hload
    obtain ⟨place, governing, hplace, hgoverns, -⟩ := h.exists_locates hload
    exact ⟨place, governing, hplace, hgoverns⟩
  case loaded =>
    intro place governing directory hplace hgoverns hload
    obtain ⟨found, other, hfound, hother, hlocates⟩ := h.exists_locates hload
    obtain rfl : place = found := Except.ok.inj (hplace.symm.trans hfound)
    obtain rfl := hgoverns.unique hother
    exact hlocates
  case refused =>
    intro place governing hplace hgoverns houtside
    have hgoverned := (h.governedBy_iff_of_endRecord hplace).2 hgoverns
    have hextent := hgoverned.directoryExtent
    by_cases hwhole : governing.TakenAsWhole
    · rw [if_pos hwhole] at hextent
      exact ⟨_, directory_of_outside hplace hextent houtside⟩
    · rw [if_neg hwhole] at hextent
      exact ⟨_, directory_of_directoryExtent hplace hextent⟩
  case accepted =>
    intro place governing hplace hgoverns hwhole hinside
    have hgoverned := (h.governedBy_iff_of_endRecord hplace).2 hgoverns
    have hextent := hgoverned.directoryExtent
    rw [if_pos hwhole] at hextent
    exact ⟨_, h.directory_of_extent hplace hextent hinside⟩
  case guarded =>
    intro hlength
    have haddressable : Guarded.Addressable source :=
      ⟨h.size.symm ▸ hlength, h.contents.symm ▸ hlength⟩
    exact (Guarded.mirrors_directory haddressable).eq

/-! ### A container of three records -/

/-- An end record of which all that can be a sentinel is one. -/
def allOnes : EndRecord :=
  ⟨0, 0, 0xFFFF, 0xFFFF, 0xFFFFFFFF, 0xFFFFFFFF, 0⟩

/-- A wide record at the very front, the locator that leads to it, and the end record. -/
def bareWide (record : WideEndRecord) : Bytes :=
  record.encode ++ (WideLocator.encode ⟨0, 0, 1⟩ ++ allOnes.encode)

theorem endRecord_bareWide (record : WideEndRecord) :
    (ofBytes (bareWide record)).endRecord = .ok ⟨allOnes, 76⟩ := by
  have hlength : (bareWide record).length = 98 := by
    simp only [bareWide, List.length_append, WideEndRecord.length_encode,
      WideLocator.length_encode, EndRecord.length_encode]
    rfl
  have hdrop : (bareWide record).drop 76 = allOnes.encode ++ [] := by
    rw [bareWide, ← List.append_assoc, List.append_nil]
    refine List.drop_left' ?_
    rw [List.length_append, WideEndRecord.length_encode, WideLocator.length_encode]
    rfl
  have hlast : EndRecord.LastAt (bareWide record) 76 := by
    refine ⟨EndRecord.endsAt_of_drop hdrop rfl, fun later hlater hends => ?_⟩
    have hinside := hends.inside
    simp only [EndRecord.size] at hinside
    omega
  rw [(holds_ofBytes _).endRecord_of_last hlast, hdrop, EndRecord.ofBytes_encode_append]

theorem governs_bareWide (record : WideEndRecord) :
    GoverningRecord.Governs (bareWide record) ⟨allOnes, 76⟩ (.wide record) := by
  refine .wide ⟨0, 0, 1⟩ (.inl rfl) (by decide) ?_ ?_
  · exact Bytes.slice_append_mid record.length_encode (WideLocator.length_encode _)
  · exact Bytes.slice_append_mid (a := []) rfl record.length_encode

/-- The first record gives an offset that is ten less than 2 to the 64th and a size of twenty: in 64
bits their sum is ten, and the directory would lie in front of the end record. -/
theorem loads_governed_bareWide :
    let wraps : WideEndRecord := ⟨44, 45, 45, 0, 0, 1, 1, 20, 0xFFFFFFFFFFFFFFF6⟩
    let fits : WideEndRecord := ⟨44, 45, 45, 0, 0, 1, 1, 20, 10⟩
    (ofBytes (bareWide wraps)).Holds (bareWide wraps) ∧
    wraps.directoryOffset + wraps.directorySize = 10 ∧
    (∃ fault, (ofBytes (bareWide wraps)).directory = .error (.invalidArchive fault)) ∧
    (ofBytes (bareWide fits)).Holds (bareWide fits) ∧
    ∃ directory, (ofBytes (bareWide fits)).directory = .ok directory ∧
      directory.bytes = ((bareWide fits).take 30).drop 10 := by
  intro wraps fits
  have hwraps := holds_ofBytes (bareWide wraps)
  have hfits := holds_ofBytes (bareWide fits)
  refine ⟨hwraps, by decide, ?_, hfits, ?_⟩
  · exact hwraps.loads_governed.refused _ _ (endRecord_bareWide wraps) (governs_bareWide wraps)
      (by decide)
  · obtain ⟨directory, hload⟩ := hfits.loads_governed.accepted _ _ (endRecord_bareWide fits)
      (governs_bareWide fits) rfl (by decide)
    exact ⟨directory, hload, (hfits.loads_governed.loaded _ _ _ (endRecord_bareWide fits)
      (governs_bareWide fits) hload).bytes⟩

end Source

end RomArchive
