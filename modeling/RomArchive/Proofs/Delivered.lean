import RomArchive.Proofs.Bounds.Filling
import RomArchive.Proofs.Readings

/-!
# What end records are made of

A source may claim more bytes than it has: the size of a file is taken once, and the file may be cut
off afterwards. A request then comes back with less than was asked for, and whoever made it has to
look at how much came.

The two reads of the search do not treat this alike. The long one goes on with what came, so a
record that is found there has come as a whole. The short one goes into a buffer of zeros that has
the size of a record, and goes on with the buffer. If the signature came and the bytes behind it
ran out, the zeros are read as the fields that did not come.

## Main definitions

* `Source.Delivers` — bytes that have come from a source, and where they stand
* `Source.CompletesRecord` — an end record, of which zeros stand for what has not come
* `Source.DeliversRecord` — all of an end record has come

## Main results

* `Source.Delivers.eq_slice` — what has come stands in the contents
* `Source.endRecord_delivered` — an end record has come, or is completed
* `Source.exists_undelivered` — a file that was cut off, and a record that is not in it
-/

namespace RomArchive

theorem Delivery.eq_mk_of_checked {delivery : Delivery} {bytes : Bytes}
    (h : delivery.checked = .ok bytes) : delivery = ⟨bytes, none⟩ := by
  obtain ⟨delivered, fault⟩ := delivery
  cases fault with
  | some fault => cases h
  | none =>
    obtain rfl : delivered = bytes := Except.ok.inj h
    rfl

namespace EndRecord

theorem decode_eq_ok_iff {bytes : Bytes} {record : EndRecord} : decode bytes = .ok record ↔
    size ≤ bytes.length ∧ bytes.take 4 = signature ∧ record = ofBytes bytes := by
  rw [decode, ite_eq_ok_iff, and_assoc, @eq_comm _ record]

/-- What is found was found before, or a comment behind it reaches exactly to the end. -/
theorem exists_of_lastReachingEnd {i : Nat} : ∀ {bytes : Bytes} {offset : Nat}
    {found : Option Nat}, lastReachingEnd offset bytes.length found bytes = some i →
      found = some i ∨
        ∃ j, i = offset + j ∧ reachesEnd (bytes.length - j) (bytes.drop j) = true := by
  intro bytes
  induction bytes with
  | nil => exact fun h => Or.inl h
  | cons b bs ih =>
    intro offset found h
    rw [lastReachingEnd, List.length_cons, Nat.add_sub_cancel] at h
    rcases ih h with hhead | ⟨j, rfl, hreaches⟩
    · split at hhead
      · rename_i hreaches
        exact Or.inr ⟨0, (Option.some.inj hhead).symm, hreaches⟩
      · exact Or.inl hhead
    · refine Or.inr ⟨j + 1, by omega, ?_⟩
      rwa [List.length_cons, Nat.add_sub_add_right, List.drop_succ_cons]

/-- What the long read finds is an end record, whatever the bytes. -/
theorem endsAt_of_lastBeforeComment {bytes : Bytes} {place : Place}
    (h : lastBeforeComment bytes = some place) :
    EndsAt bytes place.offset ∧ place.record = ofBytes (bytes.drop place.offset) := by
  obtain ⟨i, hlast, rfl⟩ := Option.map_eq_some_iff.1 h
  rcases exists_of_lastReachingEnd hlast with hnone | ⟨j, rfl, hreaches⟩
  · cases hnone
  · rw [Nat.zero_add]
    exact ⟨((reachesEnd_drop_iff j).1 hreaches).1, rfl⟩

end EndRecord

namespace Source

variable {source : Source} {place : EndRecord.Place} {offset : Nat} {bytes front : Bytes}

/-! ### Bytes that have come -/

theorem isPrefix_of_readAhead {count : Nat} {ahead : Bytes}
    (h : source.readAhead offset count ahead = .ok bytes) : bytes <+: ahead := by
  simp only [readAhead] at h
  split at h
  · cases h
  · obtain rfl := Except.ok.inj h
    split
    · exact List.nil_prefix
    · exact List.take_prefix _ _

/-- What the loop adds to the bytes it has got is the front of what lies ahead. -/
theorem exists_gather_bytes (source : Source) (count : Nat) : ∀ (offset : Nat) (ahead got : Bytes),
    ∃ read, read <+: ahead ∧
      (source.gather offset count ahead got).bytes = got.reverse ++ read := by
  induction count using Nat.strongRecOn with
  | ind count ih =>
    intro offset ahead got
    have hnothing : ∃ read, read <+: ahead ∧ got.reverse = got.reverse ++ read :=
      ⟨[], List.nil_prefix, (List.append_nil _).symm⟩
    rw [gather]
    split
    · split
      · exact hnothing
      · exact hnothing
      · rename_i hcount b bs hread
        have hahead := isPrefix_of_readAhead hread
        obtain ⟨read, hread, hbytes⟩ := ih (count - (b :: bs).length)
          (by simp only [List.length_cons]; omega) (offset + (b :: bs).length)
          (ahead.drop (b :: bs).length) ((b :: bs).reverseAux got)
        refine ⟨(b :: bs) ++ read, ?_, ?_⟩
        · rw [← List.prefix_iff_eq_append.1 hahead]
          exact (List.prefix_append_right_inj _).2 hread
        · rw [hbytes, List.reverseAux_eq, List.reverse_append, List.reverse_reverse,
            List.append_assoc]
    · exact hnothing

/-- What comes of a request is the front of the contents from there on. -/
theorem fill_isPrefix (source : Source) (offset count : Nat) :
    (source.fill offset count).bytes <+: source.contents.drop offset := by
  obtain ⟨read, hread, hbytes⟩ :=
    source.exists_gather_bytes count offset (source.contents.drop offset) []
  rw [fill, hbytes]
  exact hread

/-- The source has delivered these bytes, which stand at `offset`: they are part of what came of a
request. -/
def Delivers (source : Source) (offset : Nat) (bytes : Bytes) : Prop :=
  ∃ start count, start ≤ offset ∧
    (source.fill start count).bytes.slice (offset - start) bytes.length = bytes

/-- What has come stands in the contents. -/
theorem Delivers.eq_slice (h : source.Delivers offset bytes) :
    source.contents.slice offset bytes.length = bytes := by
  obtain ⟨start, count, hstart, hslice⟩ := h
  have hfront := List.prefix_iff_eq_take.1 (source.fill_isPrefix start count)
  have hinside := congrArg List.length hslice
  rw [Bytes.length_slice] at hinside
  by_cases hempty : bytes.length = 0
  · rw [Bytes.slice, hempty, List.take_zero]
    exact (List.eq_nil_of_length_eq_zero hempty).symm
  · have hwithin : offset - start + bytes.length ≤ (source.fill start count).bytes.length := by
      omega
    rw [hfront, Bytes.slice_take _ hwithin, Bytes.slice_drop, Nat.add_sub_of_le hstart] at hslice
    exact hslice

/-- What stands among the bytes that came of a request has come. -/
theorem delivers_slice {start count number : Nat}
    (h : source.fill start count = ⟨bytes, none⟩) (hinside : offset + number ≤ bytes.length) :
    source.Delivers (start + offset) (bytes.slice offset number) := by
  refine ⟨start, count, Nat.le_add_right start offset, ?_⟩
  rw [h, Bytes.length_slice_of_le hinside, Nat.add_sub_cancel_left]

theorem delivers_of_fill {count : Nat} (h : source.fill offset count = ⟨bytes, none⟩) :
    source.Delivers offset bytes := by
  have hall := delivers_slice h (Nat.le_of_eq (Nat.zero_add bytes.length))
  rwa [Nat.add_zero, Bytes.slice_self rfl] at hall

/-! ### The short read -/

/-- Of the last 22 bytes that the source claims to have, `front` came. With zeros for what did not
come, it is this record, whose comment is empty. -/
structure CompletesRecord (source : Source) (place : EndRecord.Place) (front : Bytes) : Prop where
  atEnd : place.offset + 22 = source.size
  fill : source.fill place.offset 22 = ⟨front, none⟩
  record : EndRecord.decode (front ++ List.replicate (22 - front.length) 0) = .ok place.record
  comment : place.record.commentLength = 0

/-- The signature has come, since it does not end in a zero. -/
theorem CompletesRecord.four_le (h : source.CompletesRecord place front) : 4 ≤ front.length := by
  obtain ⟨-, hsignature, -⟩ := EndRecord.decode_eq_ok_iff.1 h.record
  refine Nat.not_lt.1 fun hshort => ?_
  have hlast : ((front ++ List.replicate (22 - front.length) 0).take 4)[3]? = some 0x06 := by
    rw [hsignature]
    rfl
  rw [List.getElem?_take_of_lt (by decide), List.getElem?_append_right (by omega),
    List.getElem?_replicate] at hlast
  split at hlast
  · cases hlast
  · cases hlast

/-- **What the short read finds** is a record that it completes. -/
theorem endRecordAtEnd_eq_some_iff : source.endRecordAtEnd = .ok (some place) ↔
    ∃ front, source.CompletesRecord place front := by
  constructor
  · intro hfound
    rw [endRecordAtEnd] at hfound
    split at hfound
    · rename_i hsize
      obtain ⟨buffer, hpadded, hfound⟩ := exists_of_bind_eq_ok hfound
      obtain ⟨front, hchecked, hpadded⟩ := exists_of_bind_eq_ok hpadded
      obtain rfl := Except.ok.inj hpadded
      split at hfound
      · rename_i htest
        cases hfound
        refine ⟨front, Nat.sub_add_cancel hsize, Delivery.eq_mk_of_checked hchecked, ?_, htest.2⟩
        exact EndRecord.decode_eq_ok_iff.2 ⟨by simp [EndRecord.size]; omega, htest.1, rfl⟩
      · cases hfound
    · cases hfound
  · rintro ⟨front, h⟩
    obtain ⟨-, hsignature, hrecord⟩ := EndRecord.decode_eq_ok_iff.1 h.record
    have hend := h.atEnd
    have hoffset : source.size - EndRecord.size = place.offset := by
      rw [EndRecord.size]
      omega
    have hcomment : Bytes.word16 20 (front ++ List.replicate (22 - front.length) 0) = 0 := by
      have hcomment := h.comment
      rwa [hrecord] at hcomment
    have hpadded : (source.fill place.offset EndRecord.size).padded EndRecord.size
        = .ok (front ++ List.replicate (22 - front.length) 0) := by
      rw [EndRecord.size, h.fill]
      rfl
    rw [endRecordAtEnd, if_pos (by rw [EndRecord.size]; omega), hoffset]
    simp only [hpadded, bind, Except.bind]
    rw [if_pos ⟨hsignature, hcomment⟩, ← hrecord]
    rfl

/-! ### Records that have come -/

/-- All the bytes of the record have come from its place. -/
def DeliversRecord (source : Source) (place : EndRecord.Place) : Prop :=
  ∃ bytes, bytes.length = 22 ∧ source.Delivers place.offset bytes ∧
    EndRecord.decode bytes = .ok place.record

/-- Where nothing had to be filled in, the record has come. -/
theorem CompletesRecord.deliversRecord (h : source.CompletesRecord place front)
    (hlength : front.length = 22) : source.DeliversRecord place := by
  have hrecord := h.record
  rw [hlength, Nat.sub_self, List.replicate_zero, List.append_nil] at hrecord
  exact ⟨front, hlength, delivers_of_fill h.fill, hrecord⟩

theorem CompletesRecord.length_le (h : source.CompletesRecord place front) :
    front.length ≤ 22 := by
  have hcount := source.length_fill_le place.offset 22
  rw [h.fill] at hcount
  exact Nat.le_trans hcount (Nat.min_le_left _ _)

/-- What the long read finds has come: the bytes that were searched have. -/
theorem deliversRecord_of_endRecordBeforeComment
    (hfound : source.endRecordBeforeComment = .ok place) : source.DeliversRecord place := by
  rw [endRecordBeforeComment] at hfound
  obtain ⟨bytes, hchecked, hfound⟩ := exists_of_bind_eq_ok hfound
  have hfill := Delivery.eq_mk_of_checked hchecked
  cases hlast : EndRecord.lastBeforeComment bytes with
  | none => rw [hlast] at hfound; cases hfound
  | some found =>
    rw [hlast] at hfound
    cases hfound
    obtain ⟨hends, hrecord⟩ := EndRecord.endsAt_of_lastBeforeComment hlast
    refine ⟨_, Bytes.length_slice_of_le hends.inside, delivers_slice hfill hends.inside, ?_⟩
    rw [hrecord]
    exact hends.decode_slice

/-- **An end record has come, or it is completed**: then it is the very last that the source claims
to have, at least its signature has come, and what has not is taken to be zero. Nothing is assumed
of the source; it may claim any size, deliver in pieces of any size, and fail. -/
theorem endRecord_delivered (hfound : source.endRecord = .ok place) :
    source.DeliversRecord place ∨
      ∃ front, source.CompletesRecord place front ∧ 4 ≤ front.length ∧ front.length < 22 := by
  rw [endRecord] at hfound
  obtain ⟨found, hshort, hfound⟩ := exists_of_bind_eq_ok hfound
  cases found with
  | none => exact Or.inl (deliversRecord_of_endRecordBeforeComment hfound)
  | some found =>
    obtain rfl : found = place := Except.ok.inj hfound
    obtain ⟨front, hcompletes⟩ := endRecordAtEnd_eq_some_iff.1 hshort
    rcases Nat.lt_or_eq_of_le hcompletes.length_le with hless | hwhole
    · exact Or.inr ⟨front, hcompletes, hcompletes.four_le, hless⟩
    · exact Or.inl (hcompletes.deliversRecord hwhole)

/-- One byte more is claimed of the sample than there is, and seven are delivered at a time. -/
theorem endRecord_delivered_inPieces :
    (inPieces Packing.sample.bytes 227 7).endRecord = .ok ⟨Packing.sample.endRecord, 202⟩ ∧
    (inPieces Packing.sample.bytes 227 7).DeliversRecord ⟨Packing.sample.endRecord, 202⟩ := by
  have hfound : (inPieces Packing.sample.bytes 227 7).endRecord
      = .ok ⟨Packing.sample.endRecord, 202⟩ := by
    decide +kernel
  refine ⟨hfound, (endRecord_delivered hfound).resolve_right ?_⟩
  rintro ⟨front, hcompletes, -⟩
  cases hcompletes.atEnd

/-! ### A file that was cut off -/

/-- The sample without its comment. Its end record stands at offset 202 and ends the container. -/
def uncommented : Bytes :=
  { Packing.sample with comment := [] }.bytes

/-- The file was opened when it was whole, and has lost its last six bytes since. -/
def cutFile : Source :=
  .ofFile (uncommented.take 218) 224

/-- The record that is found there has an offset and a comment length of zeros that never came. -/
def completedPlace : EndRecord.Place :=
  ⟨⟨0, 0, 2, 2, 113, 0, 0⟩, 202⟩

/-- **A record is found that is not there.** -/
theorem exists_undelivered : ¬ ∀ (source : Source) (place : EndRecord.Place),
    source.endRecord = .ok place → ∃ bytes, bytes.length = 22 ∧
      source.Delivers place.offset bytes ∧ EndRecord.decode bytes = .ok place.record := by
  intro hdelivered
  have hfound : cutFile.endRecord = .ok completedPlace := by
    decide +kernel
  obtain ⟨bytes, hlength, hdelivers, -⟩ := hdelivered _ _ hfound
  have hslice := congrArg List.length hdelivers.eq_slice
  have hcontents : cutFile.contents.length = 218 := by
    decide +kernel
  rw [Bytes.length_slice, hcontents, hlength, completedPlace] at hslice
  exact absurd hslice (by decide)

end Source

end RomArchive
