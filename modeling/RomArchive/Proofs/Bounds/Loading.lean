import RomArchive.Directory.Load
import RomArchive.Proofs.EndSearch
import RomArchive.Proofs.Bounds.Filling

/-!
# Loading a directory within bounds

The end record is looked for by indices: the loop of the search runs over the offsets of the window
from the last to the first, and at each of them takes four bytes, two more at a fixed distance, and
the difference of three lengths. The fields of a record are read one behind the other from a slice
that begins behind the signature. Both are written here with their guards, and both are shown to do
what the plain readers do.

## Main definitions

* `Guarded.decode` — length, signature and then the fields, for all three end records
* `Guarded.endRecord`, `Guarded.wideEndRecord`, `Guarded.directory` — the guarded readers

## Main results

* `Guarded.lastBefore_eq` — the search by indices finds what the search along the bytes finds
* `Guarded.mirrors_endRecord`, `Guarded.mirrors_wideEndRecord`, `Guarded.mirrors_directory`
-/

namespace RomArchive

namespace Guarded

/-! ### The fields of the end records -/

/-- The fields behind a signature, if there are `size` bytes of which the first four are that
signature. -/
def decode {α : Type} (size : Nat) (signature : Bytes) (fault : ArchiveFault)
    (fields : Bytes → Guarded α) (bytes : Bytes) : Guarded α :=
  if bytes.length < size then .error (.failed (.invalidArchive fault))
  else do
    let front ← range bytes 0 4
    if front = signature then do
      let body ← range bytes 4 bytes.length
      fields body
    else .error (.failed (.invalidArchive fault))

theorem decode_eq {α : Type} {size : Nat} {signature : Bytes} {fault : ArchiveFault}
    {fields : Bytes → Guarded α} {bytes : Bytes} {value : α} (hsize : 4 ≤ size)
    (hfields : size ≤ bytes.length → fields (bytes.drop 4) = .ok value) :
    decode size signature fault fields bytes
      = lift (if size ≤ bytes.length ∧ bytes.take 4 = signature then .ok value
        else .error (.invalidArchive fault)) := by
  rw [decode]
  by_cases hlength : bytes.length < size
  · rw [if_pos hlength, if_neg (by omega)]
    rfl
  · rw [if_neg hlength, range_front (by omega), ok_bind]
    by_cases hsignature : bytes.take 4 = signature
    · rw [if_pos hsignature, if_pos ⟨by omega, hsignature⟩, range_behind (by omega), ok_bind,
        hfields (by omega)]
      rfl
    · rw [if_neg hsignature, if_neg fun h => hsignature h.2]
      rfl

def endRecordFields (body : Bytes) : Guarded EndRecord := do
  let (disk, position) ← word16 body 0
  let (directoryDisk, position) ← word16 body position
  let (diskEntries, position) ← word16 body position
  let (totalEntries, position) ← word16 body position
  let (directorySize, position) ← word32 body position
  let (directoryOffset, position) ← word32 body position
  let (commentLength, _) ← word16 body position
  return { disk, directoryDisk, diskEntries, totalEntries, directorySize, directoryOffset,
           commentLength }

def locatorFields (body : Bytes) : Guarded WideLocator := do
  let (recordDisk, position) ← word32 body 0
  let (recordOffset, position) ← word64 body position
  let (totalDisks, _) ← word32 body position
  return { recordDisk, recordOffset, totalDisks }

def wideEndRecordFields (body : Bytes) : Guarded WideEndRecord := do
  let (recordSize, position) ← word64 body 0
  let (madeBy, position) ← word16 body position
  let (needed, position) ← word16 body position
  let (disk, position) ← word32 body position
  let (directoryDisk, position) ← word32 body position
  let (diskEntries, position) ← word64 body position
  let (totalEntries, position) ← word64 body position
  let (directorySize, position) ← word64 body position
  let (directoryOffset, _) ← word64 body position
  return { recordSize, madeBy, needed, disk, directoryDisk, diskEntries, totalEntries,
           directorySize, directoryOffset }

def decodeEndRecord : Bytes → Guarded EndRecord :=
  decode EndRecord.size EndRecord.signature .badEndRecord endRecordFields

def decodeLocator : Bytes → Guarded WideLocator :=
  decode WideLocator.size WideLocator.signature .badLocator locatorFields

def decodeWideEndRecord : Bytes → Guarded WideEndRecord :=
  decode WideEndRecord.size WideEndRecord.signature .badWideEndRecord wideEndRecordFields

theorem decodeEndRecord_eq (bytes : Bytes) :
    decodeEndRecord bytes = lift (EndRecord.decode bytes) := by
  refine decode_eq (by decide) fun hlength => ?_
  have hbody : (bytes.drop 4).length = bytes.length - 4 := List.length_drop
  simp only [EndRecord.size] at hlength
  simp (disch := omega) only [endRecordFields, word16_eq, word32_eq, ok_bind, Bytes.word16_drop,
    Bytes.word32_drop]
  rfl

theorem decodeLocator_eq (bytes : Bytes) :
    decodeLocator bytes = lift (WideLocator.decode bytes) := by
  refine decode_eq (by decide) fun hlength => ?_
  have hbody : (bytes.drop 4).length = bytes.length - 4 := List.length_drop
  simp only [WideLocator.size] at hlength
  simp (disch := omega) only [locatorFields, word32_eq, word64_eq, ok_bind, Bytes.word32_drop,
    Bytes.word64_drop]
  rfl

theorem decodeWideEndRecord_eq (bytes : Bytes) :
    decodeWideEndRecord bytes = lift (WideEndRecord.decode bytes) := by
  refine decode_eq (by decide) fun hlength => ?_
  have hbody : (bytes.drop 4).length = bytes.length - 4 := List.length_drop
  simp only [WideEndRecord.size] at hlength
  simp (disch := omega) only [wideEndRecordFields, word16_eq, word32_eq, word64_eq, ok_bind,
    Bytes.word16_drop, Bytes.word32_drop, Bytes.word64_drop]
  rfl

/-! ### The search -/

/-- The record that ends the source, if there is one there with an empty comment. -/
def endRecordAtEnd (source : Source) : Guarded (Option EndRecord.Place) :=
  if EndRecord.size ≤ source.size then do
    let offset ← sub source.size EndRecord.size
    let (_, buffer) ← fill source offset EndRecord.size
    let front ← range buffer 0 4
    if front = EndRecord.signature then do
      let comment ← range buffer 20 22
      if comment = [0, 0] then do
        let record ← decodeEndRecord buffer
        return some ⟨record, offset⟩
      else return none
    else return none
  else return none

/-- The last record at an offset below the given one whose comment reaches exactly to the end. -/
def lastBefore (bytes : Bytes) : Nat → Guarded (Option EndRecord.Place)
  | 0 => return none
  | i + 1 => do
    let stop ← add i 4
    let front ← range bytes i stop
    if front = EndRecord.signature then do
      let low ← add i 20
      let high ← add i 21
      let comment ← pair bytes low high
      let behind ← sub bytes.length i
      let behind ← sub behind EndRecord.size
      if comment.toNat = behind then do
        let stop ← add i EndRecord.size
        let found ← range bytes i stop
        let record ← decodeEndRecord found
        return some ⟨record, i⟩
      else lastBefore bytes i
    else lastBefore bytes i

/-- The last record in front of a comment. -/
def endRecordBeforeComment (source : Source) : Guarded EndRecord.Place := do
  let longest ← add Source.maxComment EndRecord.size
  let length := min longest source.size
  let start ← sub source.size length
  let bytes ← readAvailable source start length
  match ← lastBefore bytes (bytes.length - EndRecord.size) with
  | some place =>
    let offset ← add start place.offset
    return { place with offset }
  | none => .error (.failed (.invalidArchive .missingEndRecord))

def endRecord (source : Source) : Guarded EndRecord.Place := do
  match ← endRecordAtEnd source with
  | some place => return place
  | none => endRecordBeforeComment source

/-- Two bytes that are zero, and the word that they make up. -/
theorem slice_eq_zeros_iff {bytes : Bytes} {offset : Nat} (h : offset + 2 ≤ bytes.length) :
    bytes.slice offset 2 = [0, 0] ↔ bytes.word16 offset = 0 := by
  constructor
  · intro hslice
    rw [Bytes.word16, hslice]
    rfl
  · intro hword
    rw [← Bytes.encode_word16 h, hword]
    rfl

/-- The record at such a place, read from its bytes alone. -/
theorem decodeEndRecord_slice {bytes : Bytes} {offset : Nat} (h : EndRecord.EndsAt bytes offset) :
    decodeEndRecord (bytes.slice offset EndRecord.size)
      = .ok (EndRecord.ofBytes (bytes.drop offset)) := by
  rw [decodeEndRecord_eq, h.decode_slice]
  rfl

variable {source : Source} {bytes : Bytes}

/-- One step of the search by indices: the test at an offset is that of the search along the
bytes. -/
theorem lastBefore_succ (hbytes : bytes.length ≤ maxLength) {i : Nat} (hi : i + 22 < bytes.length) :
    lastBefore bytes (i + 1)
      = if EndRecord.reachesEnd (bytes.length - i) (bytes.drop i)
        then .ok (some ⟨EndRecord.ofBytes (bytes.drop i), i⟩) else lastBefore bytes i := by
  have hlimits := limits
  have hsize : EndRecord.size = 22 := rfl
  have hreaches := @EndRecord.reachesEnd_drop_iff bytes i
  rw [lastBefore, add_eq (by omega), ok_bind, range_eq (by omega) (by omega), ok_bind,
    Nat.add_sub_cancel_left]
  by_cases hsignature : bytes.slice i 4 = EndRecord.signature
  · rw [if_pos hsignature, add_eq (by omega), ok_bind, add_eq (by omega), ok_bind,
      pair_eq rfl (by omega), ok_bind, sub_eq (by omega), ok_bind, sub_eq (by omega), ok_bind]
    by_cases hcomment : (bytes.word16 (i + 20)).toNat = bytes.length - i - EndRecord.size
    · have hends : EndRecord.EndsAt bytes i := ⟨by omega, hsignature, hcomment⟩
      rw [if_pos hcomment, if_pos (hreaches.2 ⟨hends, hi⟩), add_eq (by omega), ok_bind,
        range_eq (by omega) hends.inside, ok_bind, Nat.add_sub_cancel_left,
        decodeEndRecord_slice hends]
      rfl
    · rw [if_neg hcomment, if_neg fun h => hcomment (hreaches.1 h).1.comment]
  · rw [if_neg hsignature, if_neg fun h => hsignature (hreaches.1 h).1.signature]

/-- The search by indices finds what the search along the bytes finds. The induction goes down from
the last offset; what was passed over holds no record. -/
theorem lastBefore_eq (hbytes : bytes.length ≤ maxLength) : ∀ {i : Nat},
    i ≤ bytes.length - EndRecord.size →
      (∀ j, i ≤ j → EndRecord.reachesEnd (bytes.length - j) (bytes.drop j) = false) →
      lastBefore bytes i = .ok (EndRecord.lastBeforeComment bytes) := by
  have hsize : EndRecord.size = 22 := rfl
  intro i
  induction i with
  | zero =>
    intro _ hnone
    rw [EndRecord.lastBeforeComment, EndRecord.lastReachingEnd_of_none fun j => hnone j j.zero_le]
    rfl
  | succ i ih =>
    intro hi hnone
    rw [lastBefore_succ hbytes (by omega)]
    cases htest : EndRecord.reachesEnd (bytes.length - i) (bytes.drop i) with
    | true =>
      rw [if_pos rfl, EndRecord.lastBeforeComment,
        EndRecord.lastReachingEnd_of_last (by omega) htest hnone]
      simp only [Nat.zero_add, Option.map_some]
    | false =>
      rw [if_neg Bool.false_ne_true]
      refine ih (by omega) fun j hj => ?_
      rcases Nat.eq_or_lt_of_le hj with rfl | hlt
      · exact htest
      · exact hnone j hlt

/-- A source that claims and holds no more bytes than memory can. Its size need not be the number
of its bytes. -/
structure Addressable (source : Source) : Prop where
  size : source.size ≤ maxLength
  contents : source.contents.length ≤ maxLength

/-- A result of the search: the same place, if any, at an offset within the source. -/
def SamePlace (source : Source) (found place : Option EndRecord.Place) : Prop :=
  found = place ∧ ∀ p, place = some p → p.offset ≤ source.size

theorem mirrors_endRecordAtEnd (h : Addressable source) :
    Mirrors (SamePlace source) (endRecordAtEnd source) source.endRecordAtEnd := by
  have hlimits := limits
  have hsource := h.size
  rw [endRecordAtEnd, Source.endRecordAtEnd]
  by_cases hsize : EndRecord.size ≤ source.size
  · rw [if_pos hsize, if_pos hsize, sub_eq hsize, ok_bind]
    refine (mirrors_fill h.contents (by omega) (by decide)).padded.bind ?_
    rintro ⟨read, buffer⟩ bytes ⟨rfl, hlength⟩
    simp only [EndRecord.size] at hlength
    dsimp only
    rw [range_front (by omega), ok_bind]
    by_cases hsignature : buffer.take 4 = EndRecord.signature
    · rw [if_pos hsignature, range_eq (by omega) (by omega), ok_bind]
      by_cases hcomment : buffer.word16 20 = 0
      · have hdecode : decodeEndRecord buffer = .ok (EndRecord.ofBytes buffer) := by
          rw [decodeEndRecord_eq, EndRecord.decode,
            if_pos ⟨by simp only [EndRecord.size]; omega, hsignature⟩]
          rfl
        rw [if_pos ((slice_eq_zeros_iff (by omega)).2 hcomment), if_pos ⟨hsignature, hcomment⟩,
          hdecode]
        refine .ok ⟨rfl, fun p hp => ?_⟩
        cases hp
        exact Nat.sub_le _ _
      · rw [if_neg fun hzero => hcomment ((slice_eq_zeros_iff (by omega)).1 hzero),
          if_neg fun hboth => hcomment hboth.2]
        exact .ok ⟨rfl, fun _ hfound => by cases hfound⟩
    · rw [if_neg hsignature, if_neg fun hboth => hsignature hboth.1]
      exact .ok ⟨rfl, fun _ hfound => by cases hfound⟩
  · rw [if_neg hsize, if_neg hsize]
    exact .ok ⟨rfl, fun _ hfound => by cases hfound⟩

/-- What is found lies among the bytes that were searched, if what was found before lies in front of
them. -/
theorem lt_of_lastReachingEnd {i : Nat} : ∀ {bytes : Bytes} {offset length : Nat}
    {found : Option Nat}, (∀ j, found = some j → j < offset) →
      EndRecord.lastReachingEnd offset length found bytes = some i → i < offset + bytes.length := by
  intro bytes
  induction bytes with
  | nil =>
    intro offset length found hfound hlast
    exact hfound i hlast
  | cons b bs ih =>
    intro offset length found hfound hlast
    rw [EndRecord.lastReachingEnd] at hlast
    have hnext := ih (fun j hj => ?_) hlast
    · rw [List.length_cons]
      omega
    · split at hj
      · cases hj
        exact Nat.lt_succ_self _
      · exact Nat.lt_succ_of_lt (hfound j hj)

theorem lt_of_lastBeforeComment {place : EndRecord.Place}
    (h : EndRecord.lastBeforeComment bytes = some place) : place.offset < bytes.length := by
  obtain ⟨offset, hlast, rfl⟩ := Option.map_eq_some_iff.1 h
  have hlt := lt_of_lastReachingEnd (fun _ hfound => by cases hfound) hlast
  dsimp only
  omega

theorem mirrors_endRecordBeforeComment (h : Addressable source) :
    Mirrors (fun found place => found = place ∧ place.offset ≤ source.size)
      (endRecordBeforeComment source) source.endRecordBeforeComment := by
  have hlimits := limits
  have hsource := h.size
  rw [endRecordBeforeComment, Source.endRecordBeforeComment, add_eq (by decide), ok_bind]
  dsimp only
  rw [sub_eq (by omega), ok_bind]
  refine (mirrors_readAvailable h.contents (by omega) (by omega)).bind ?_
  rintro bytes _ ⟨rfl, hasked⟩
  have hnone : ∀ j, bytes.length - EndRecord.size ≤ j →
      EndRecord.reachesEnd (bytes.length - j) (bytes.drop j) = false := by
    intro j hj
    refine Bool.eq_false_iff.2 fun hreaches => ?_
    have := ((EndRecord.reachesEnd_drop_iff j).1 hreaches).2
    omega
  rw [lastBefore_eq (by omega) (Nat.le_refl _) hnone, ok_bind]
  cases hlast : EndRecord.lastBeforeComment bytes with
  | none => exact .failed _
  | some place =>
    have hplace := lt_of_lastBeforeComment hlast
    dsimp only
    rw [add_eq (by omega)]
    refine .ok ⟨rfl, ?_⟩
    dsimp only
    omega

theorem mirrors_endRecord (h : Addressable source) :
    Mirrors (fun found place => found = place ∧ place.offset ≤ source.size)
      (endRecord source) source.endRecord := by
  refine (mirrors_endRecordAtEnd h).bind ?_
  rintro found place ⟨rfl, hoffset⟩
  cases found with
  | none => exact mirrors_endRecordBeforeComment h
  | some place => exact .ok ⟨rfl, hoffset place rfl⟩

/-! ### The wide record and the directory -/

/-- The wide record that the locator in front of offset `endOffset` leads to. -/
def wideEndRecord (source : Source) (endOffset : Nat) : Guarded WideEndRecord :=
  if endOffset < WideLocator.size then .error (.failed (.invalidArchive .missingLocator))
  else do
    let offset ← sub endOffset WideLocator.size
    let (_, buffer) ← fill source offset WideLocator.size
    let locator ← decodeLocator buffer
    let (read, buffer) ← fill source locator.recordOffset.toNat WideEndRecord.size
    let bytes ← range buffer 0 read
    decodeWideEndRecord bytes

def directoryExtent (source : Source) (place : EndRecord.Place) : Guarded Directory.Extent :=
  if place.record.isWide then do
    let record ← wideEndRecord source place.offset
    lift record.extent
  else lift place.record.extent

/-- The directory of a source. The end of its extent is a sum that need not have 64 bits. -/
def directory (source : Source) : Guarded Directory := do
  let place ← endRecord source
  let extent ← directoryExtent source place
  match checkedAdd extent.offset extent.size with
  | none => .error (.failed (.invalidArchive .directoryOutside))
  | some stop =>
    if place.offset < stop then .error (.failed (.invalidArchive .directoryOutside))
    else do
      let bytes ← readAvailable source extent.offset extent.size
      return ⟨bytes, extent.entries⟩

/-- Whatever 64-bit offset is given for the end record, and whatever offset the locator gives. -/
theorem mirrors_wideEndRecord (h : Addressable source) {endOffset : Nat}
    (hoffset : endOffset < UInt64.size) :
    Mirrors Eq (wideEndRecord source endOffset) (source.wideEndRecord endOffset) := by
  rw [wideEndRecord, Source.wideEndRecord]
  by_cases hfront : endOffset < WideLocator.size
  · rw [if_pos hfront, if_pos hfront]
    exact .failed _
  · rw [if_neg hfront, if_neg hfront, sub_eq (by omega), ok_bind]
    refine (mirrors_fill h.contents (by omega) (by decide)).padded.bind ?_
    rintro ⟨_, front⟩ _ ⟨rfl, -⟩
    dsimp only
    rw [decodeLocator_eq]
    refine (mirrors_lift _).bind ?_
    rintro locator _ rfl
    refine (mirrors_fill h.contents locator.recordOffset.toNat_lt (by decide)).bind ?_
    rintro ⟨read, buffer⟩ bytes hfilled
    have hread : range buffer 0 read = .ok bytes := by
      have hlength := hfilled.length
      have hnumber := hfilled.number
      have hasked := hfilled.asked
      dsimp only at hlength hnumber
      rw [range_front (by omega)]
      exact congrArg _ hfilled.truncate
    dsimp only
    rw [hread, ok_bind, decodeWideEndRecord_eq]
    exact mirrors_lift _

theorem mirrors_directoryExtent (h : Addressable source) {place : EndRecord.Place}
    (hplace : place.offset < UInt64.size) :
    Mirrors Eq (directoryExtent source place) (source.directoryExtent place) := by
  rw [directoryExtent, Source.directoryExtent]
  split
  · refine (mirrors_wideEndRecord h hplace).bind ?_
    rintro record _ rfl
    exact mirrors_lift _
  · exact mirrors_lift _

/-- The extent is compared with the place of the end record before anything is read, so the buffer
for the directory is no longer than the source. -/
theorem mirrors_directory (h : Addressable source) :
    Mirrors Eq (directory source) source.directory := by
  have hlimits := limits
  have hsource := h.size
  refine (mirrors_endRecord h).bind ?_
  rintro place _ ⟨rfl, hplace⟩
  refine (mirrors_directoryExtent h (by omega)).bind ?_
  rintro extent _ rfl
  rw [checkedAdd]
  by_cases hinside : place.offset < extent.offset + extent.size
  · rw [if_pos hinside]
    split
    · exact .failed _
    · rename_i stop hstop
      split at hstop
      · obtain rfl := Option.some.inj hstop
        rw [if_pos hinside]
        exact .failed _
      · cases hstop
  · rw [if_neg hinside, if_pos (by omega)]
    dsimp only
    rw [if_neg hinside]
    refine (mirrors_readAvailable h.contents (by omega) (by omega)).bind ?_
    rintro bytes _ ⟨rfl, -⟩
    exact .ok rfl

end Guarded

end RomArchive
