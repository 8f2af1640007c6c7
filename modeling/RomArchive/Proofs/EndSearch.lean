import RomArchive.EndRecord.Search
import RomArchive.Proofs.Filling
import RomArchive.Proofs.Results

/-!
# Where the end record is found

A container may hold many places that look like an end record: the signature can stand in data, in
names, or in the comment itself. What the search goes by is said here without it: an end record
stands at an offset if the signature is there and the comment length reaches exactly to the end of
the bytes. The search finds the last such place, in one short read or in two.

Neither read looks at the whole source, so what has to be shown is that nothing is missed: a
comment has at most 65535 bytes, and the short read has already settled the empty comment when the
long one passes over it.

## Main definitions

* `EndRecord.EndsAt`, `EndRecord.LastAt` — an end record stands at an offset, and none behind it

## Main results

* `Source.Holds.endRecord_of_last` — the last such place is found
* `Source.Holds.endRecord_of_none` — nothing is found if there is none
* `Source.Holds.lastAt_of_endRecord` — whatever is found is such a place
* `Source.Holds.search_iff` — what is found, and when nothing is
-/

namespace RomArchive

namespace EndRecord

/-- An end record stands at `offset`, and its comment reaches exactly to the end. -/
structure EndsAt (bytes : Bytes) (offset : Nat) : Prop where
  inside : offset + size ≤ bytes.length
  signature : bytes.slice offset 4 = signature
  comment : (bytes.word16 (offset + 20)).toNat = bytes.length - offset - size

/-- No end record stands behind `offset`. -/
def LastAt (bytes : Bytes) (offset : Nat) : Prop :=
  EndsAt bytes offset ∧ ∀ later, offset < later → ¬ EndsAt bytes later

variable {bytes : Bytes}

/-- A record that was written in front of its comment is such a place. -/
theorem endsAt_of_drop {record : EndRecord} {comment : Bytes} {offset : Nat}
    (hdrop : bytes.drop offset = record.encode ++ comment)
    (hcomment : record.commentLength.toNat = comment.length) : EndsAt bytes offset := by
  have hlength := congrArg List.length hdrop
  rw [List.length_drop, List.length_append, length_encode] at hlength
  have hword : Bytes.word16 20 (record.encode ++ comment) = record.commentLength :=
    congrArg commentLength (ofBytes_encode_append record comment)
  refine ⟨by simp only [size] at *; omega, ?_, ?_⟩
  · show (bytes.drop offset).take 4 = signature
    rw [hdrop, take_encode_append]
  · rw [← Bytes.word16_drop, hdrop, hword, hcomment]
    omega

/-- The record at such a place is its 22 bytes, decoded. -/
theorem EndsAt.decode_slice {offset : Nat} (h : EndsAt bytes offset) :
    decode (bytes.slice offset size) = .ok (ofBytes (bytes.drop offset)) := by
  have hlength : size ≤ (bytes.slice offset size).length := by
    have hinside := h.inside
    rw [Bytes.length_slice]
    omega
  have hsignature : (bytes.slice offset size).take 4 = EndRecord.signature := by
    rw [← h.signature, Bytes.slice, Bytes.slice, List.take_take]
    rfl
  have hfields : ofBytes (bytes.slice offset size) = ofBytes (bytes.drop offset) := by
    rw [Bytes.slice, ofBytes_take]
  rw [decode, if_pos ⟨hlength, hsignature⟩, hfields]

/-- Either there is a last place, or there is none at all. The induction is on how far behind the
end one looks. -/
theorem exists_lastAt_or (bytes : Bytes) :
    (∃ offset, LastAt bytes offset) ∨ ∀ offset, ¬ EndsAt bytes offset := by
  have hbound : ∀ count offset, bytes.length < offset + count →
      (∃ last, LastAt bytes last) ∨ ∀ later, offset ≤ later → ¬ EndsAt bytes later := by
    intro count
    induction count with
    | zero =>
      refine fun offset hoffset => Or.inr fun later hlater hends => ?_
      have := hends.inside
      omega
    | succ count ih =>
      intro offset hoffset
      rcases ih (offset + 1) (by omega) with hlast | hnone
      · exact Or.inl hlast
      · by_cases hends : EndsAt bytes offset
        · exact Or.inl ⟨offset, hends, hnone⟩
        · refine Or.inr fun later hlater => ?_
          rcases Nat.eq_or_lt_of_le hlater with rfl | hlt
          · exact hends
          · exact hnone later hlt
  rcases hbound (bytes.length + 1) 0 (by omega) with hlast | hnone
  · exact Or.inl hlast
  · exact Or.inr fun offset => hnone offset (Nat.zero_le _)

/-! ### The search among the last bytes -/

theorem isPrefixOf_iff_slice (bytes : Bytes) :
    signature.isPrefixOf bytes = true ↔ bytes.slice 0 4 = signature := by
  rw [List.isPrefixOf_iff_prefix, List.prefix_iff_eq_take, length_signature, Bytes.slice,
    List.drop_zero, eq_comm]

/-- The test of the search, at an offset: an end record whose comment is not empty. -/
theorem reachesEnd_drop_iff (offset : Nat) :
    reachesEnd (bytes.length - offset) (bytes.drop offset) = true
      ↔ EndsAt bytes offset ∧ offset + size < bytes.length := by
  simp only [reachesEnd, Bool.and_eq_true, decide_eq_true_eq, isPrefixOf_iff_slice,
    Bytes.slice_drop, Bytes.word16_drop, Nat.add_zero]
  constructor
  · rintro ⟨⟨hsignature, hinside⟩, hcomment⟩
    exact ⟨⟨by omega, hsignature, hcomment⟩, by omega⟩
  · rintro ⟨hends, hinside⟩
    exact ⟨⟨hends.signature, by omega⟩, hends.comment⟩

/-- Without a further place the earlier find stands. -/
theorem lastReachingEnd_of_none {found : Option Nat} : ∀ {bytes : Bytes} {offset : Nat},
    (∀ i, reachesEnd (bytes.length - i) (bytes.drop i) = false) →
      lastReachingEnd offset bytes.length found bytes = found := by
  intro bytes
  induction bytes with
  | nil => intro offset _; rfl
  | cons b bs ih =>
    intro offset hnone
    have hhead : reachesEnd (b :: bs).length (b :: bs) = false := hnone 0
    rw [lastReachingEnd, hhead, if_neg Bool.false_ne_true, List.length_cons, Nat.add_sub_cancel]
    refine ih fun i => ?_
    have htail := hnone (i + 1)
    rwa [List.length_cons, Nat.add_sub_add_right, List.drop_succ_cons] at htail

/-- The last place wins over the earlier find and over the places in front of it. -/
theorem lastReachingEnd_of_last : ∀ {bytes : Bytes} {offset i : Nat} {found : Option Nat},
    i < bytes.length → reachesEnd (bytes.length - i) (bytes.drop i) = true →
      (∀ j, i < j → reachesEnd (bytes.length - j) (bytes.drop j) = false) →
      lastReachingEnd offset bytes.length found bytes = some (offset + i) := by
  intro bytes
  induction bytes with
  | nil => intro offset i found hi; simp at hi
  | cons b bs ih =>
    intro offset i found hi hat hlast
    rw [lastReachingEnd, List.length_cons, Nat.add_sub_cancel]
    cases i with
    | zero =>
      have hhead : reachesEnd (bs.length + 1) (b :: bs) = true := hat
      rw [hhead, if_pos rfl, Nat.add_zero]
      refine lastReachingEnd_of_none fun j => ?_
      have htail := hlast (j + 1) (Nat.succ_pos j)
      rwa [List.length_cons, Nat.add_sub_add_right, List.drop_succ_cons] at htail
    | succ i =>
      rw [ih (Nat.lt_of_succ_lt_succ hi)]
      · rw [Nat.add_assoc, Nat.add_comm 1 i]
      · rwa [List.length_cons, Nat.add_sub_add_right, List.drop_succ_cons] at hat
      · intro j hj
        have htail := hlast (j + 1) (Nat.succ_lt_succ hj)
        rwa [List.length_cons, Nat.add_sub_add_right, List.drop_succ_cons] at htail

/-- Among all bytes behind `start`, the search finds the last place with a comment. -/
theorem lastBeforeComment_of_last {start offset : Nat} (hstart : start ≤ offset)
    (hlast : LastAt bytes offset) (hcomment : offset + size < bytes.length) :
    lastBeforeComment (bytes.drop start) = some ⟨ofBytes (bytes.drop offset), offset - start⟩ := by
  have htest : ∀ i, reachesEnd ((bytes.drop start).length - i) ((bytes.drop start).drop i)
      = reachesEnd (bytes.length - (start + i)) (bytes.drop (start + i)) := by
    intro i
    rw [List.length_drop, List.drop_drop, Nat.sub_sub]
  have hoffset : start + (offset - start) = offset := Nat.add_sub_of_le hstart
  rw [lastBeforeComment, lastReachingEnd_of_last (i := offset - start)]
  · rw [Option.map_some, Nat.zero_add, List.drop_drop, hoffset]
  · rw [List.length_drop]
    omega
  · rw [htest, hoffset, reachesEnd_drop_iff]
    exact ⟨hlast.1, hcomment⟩
  · intro j hj
    rw [htest, Bool.eq_false_iff, ne_eq, reachesEnd_drop_iff]
    exact fun hends => hlast.2 (start + j) (by omega) hends.1

theorem lastBeforeComment_of_none (hnone : ∀ offset, ¬ EndsAt bytes offset) (start : Nat) :
    lastBeforeComment (bytes.drop start) = none := by
  rw [lastBeforeComment, lastReachingEnd_of_none, Option.map_none]
  intro i
  rw [List.length_drop, List.drop_drop, Nat.sub_sub, Bool.eq_false_iff, ne_eq,
    reachesEnd_drop_iff]
  exact fun hends => hnone _ hends.1

end EndRecord

/-! ### The two reads -/

namespace Source

variable {source : Source} {bytes : Bytes}

/-- A request that a holding source can meet comes back whole, without padding. -/
theorem Holds.padded (h : source.Holds bytes) {offset count : Nat}
    (hinside : offset + count ≤ bytes.length) :
    (source.fill offset count).padded count = .ok (bytes.slice offset count) := by
  have hlength : (bytes.slice offset count).length = count := by
    rw [Bytes.length_slice]
    omega
  rw [h.fill]
  simp [Delivery.padded, Delivery.checked, bind, Except.bind, hlength, pure, Except.pure]

theorem Holds.checked (h : source.Holds bytes) (offset count : Nat) :
    (source.fill offset count).checked = .ok (bytes.slice offset count) := by
  rw [h.fill, Delivery.checked]

/-- The test of the short read: an end record with an empty comment. -/
theorem endsAt_end_iff (hsize : EndRecord.size ≤ bytes.length) :
    EndRecord.EndsAt bytes (bytes.length - EndRecord.size)
      ↔ (bytes.drop (bytes.length - EndRecord.size)).take 4 = EndRecord.signature
        ∧ Bytes.word16 20 (bytes.drop (bytes.length - EndRecord.size)) = 0 := by
  have hrest : bytes.length - (bytes.length - EndRecord.size) - EndRecord.size = 0 := by omega
  rw [Bytes.word16_drop, ← UInt16.toNat_inj]
  constructor
  · intro hends
    exact ⟨hends.signature, by rw [hends.comment, hrest]; rfl⟩
  · rintro ⟨hsignature, hcomment⟩
    exact ⟨by omega, hsignature, by rw [hcomment, hrest]; rfl⟩

/-- The short read looks at the last 22 bytes. -/
theorem Holds.endRecordAtEnd (h : source.Holds bytes) (hsize : EndRecord.size ≤ bytes.length) :
    source.endRecordAtEnd =
      let last : Bytes := bytes.drop (bytes.length - EndRecord.size)
      .ok (if last.take 4 = EndRecord.signature ∧ last.word16 20 = 0 then
        some ⟨EndRecord.ofBytes last, bytes.length - EndRecord.size⟩ else none) := by
  have hlast : bytes.slice (bytes.length - EndRecord.size) EndRecord.size
      = bytes.drop (bytes.length - EndRecord.size) := Bytes.slice_eq_drop (by omega)
  have hinside : bytes.length - EndRecord.size + EndRecord.size ≤ bytes.length := by omega
  rw [Source.endRecordAtEnd, h.size, if_pos hsize]
  simp only [h.padded hinside, hlast, bind, Except.bind]
  split <;> rfl

/-- It finds the record if its comment is empty. -/
theorem Holds.endRecordAtEnd_of_endsAt (h : source.Holds bytes)
    (hends : EndRecord.EndsAt bytes (bytes.length - EndRecord.size)) :
    source.endRecordAtEnd = .ok (some
      ⟨EndRecord.ofBytes (bytes.drop (bytes.length - EndRecord.size)),
        bytes.length - EndRecord.size⟩) := by
  have hsize : EndRecord.size ≤ bytes.length := Nat.le_trans (Nat.le_add_left _ _) hends.inside
  rw [h.endRecordAtEnd hsize]
  exact congrArg _ (if_pos ((endsAt_end_iff hsize).1 hends))

/-- Otherwise it finds nothing, and does not fail either. -/
theorem Holds.endRecordAtEnd_of_not_endsAt (h : source.Holds bytes)
    (hends : ¬ EndRecord.EndsAt bytes (bytes.length - EndRecord.size)) :
    source.endRecordAtEnd = .ok none := by
  by_cases hsize : EndRecord.size ≤ bytes.length
  · rw [h.endRecordAtEnd hsize]
    exact congrArg _ (if_neg fun htest => hends ((endsAt_end_iff hsize).2 htest))
  · rw [Source.endRecordAtEnd, h.size, if_neg hsize]
    rfl

/-- The long read covers everything behind its start. -/
theorem Holds.endRecordBeforeComment (h : source.Holds bytes) :
    source.endRecordBeforeComment =
      match EndRecord.lastBeforeComment
        (bytes.drop (bytes.length - min (maxComment + EndRecord.size) bytes.length)) with
      | some place => .ok { place with
          offset := bytes.length - min (maxComment + EndRecord.size) bytes.length + place.offset }
      | none => .error (.invalidArchive .missingEndRecord) := by
  rw [Source.endRecordBeforeComment, h.size]
  simp only [h.checked, bind, Except.bind]
  rw [Bytes.slice_eq_drop (by omega)]
  rfl

/-- **The last end record is found.** With an empty comment it stands where the short read looks;
with any other its comment length, being a 16-bit number, keeps it inside the long read. -/
theorem Holds.endRecord_of_last (h : source.Holds bytes) {offset : Nat}
    (hlast : EndRecord.LastAt bytes offset) :
    source.endRecord = .ok ⟨EndRecord.ofBytes (bytes.drop offset), offset⟩ := by
  have hinside := hlast.1.inside
  have hcomment := hlast.1.comment
  have hword := (bytes.word16 (offset + 20)).toNat_lt
  rw [Source.endRecord]
  by_cases hend : offset + EndRecord.size = bytes.length
  · have hoffset : offset = bytes.length - EndRecord.size := by omega
    rw [h.endRecordAtEnd_of_endsAt (hoffset ▸ hlast.1), hoffset]
    rfl
  · have hnone : ¬ EndRecord.EndsAt bytes (bytes.length - EndRecord.size) :=
      hlast.2 _ (by omega)
    have hstart : bytes.length - min (maxComment + EndRecord.size) bytes.length ≤ offset := by
      simp only [maxComment]
      omega
    rw [h.endRecordAtEnd_of_not_endsAt hnone]
    simp only [bind, Except.bind]
    rw [h.endRecordBeforeComment, EndRecord.lastBeforeComment_of_last hstart hlast (by omega)]
    simp only [Nat.add_sub_of_le hstart]

theorem Holds.endRecord_of_none (h : source.Holds bytes)
    (hnone : ∀ offset, ¬ EndRecord.EndsAt bytes offset) :
    source.endRecord = .error (.invalidArchive .missingEndRecord) := by
  rw [Source.endRecord, h.endRecordAtEnd_of_not_endsAt (hnone _)]
  simp only [bind, Except.bind]
  rw [h.endRecordBeforeComment, EndRecord.lastBeforeComment_of_none hnone]

/-- Whatever is found stands where it is said to stand, and nothing stands behind it. -/
theorem Holds.lastAt_of_endRecord (h : source.Holds bytes) {place : EndRecord.Place}
    (hfound : source.endRecord = .ok place) :
    EndRecord.LastAt bytes place.offset ∧
      place.record = EndRecord.ofBytes (bytes.drop place.offset) := by
  rcases EndRecord.exists_lastAt_or bytes with ⟨offset, hlast⟩ | hnone
  · rw [h.endRecord_of_last hlast, Except.ok.injEq] at hfound
    subst hfound
    exact ⟨hlast, rfl⟩
  · rw [h.endRecord_of_none hnone] at hfound
    cases hfound

/-- **What the search finds, and when it finds nothing.** It does so in any source that holds its
bytes, however many there are and whatever the size of the pieces. -/
theorem Holds.search_iff (h : source.Holds bytes) :
    (∀ place, source.endRecord = .ok place ↔ EndRecord.LastAt bytes place.offset ∧
      EndRecord.decode (bytes.slice place.offset EndRecord.size) = .ok place.record) ∧
    ∀ failure, source.endRecord = .error failure ↔
      failure = .invalidArchive .missingEndRecord ∧
        ∀ offset, ¬ EndRecord.EndsAt bytes offset := by
  refine ⟨fun place => ⟨fun hfound => ?_, ?_⟩, fun failure => ⟨fun hfails => ?_, ?_⟩⟩
  · obtain ⟨hlast, hrecord⟩ := h.lastAt_of_endRecord hfound
    exact ⟨hlast, hrecord ▸ hlast.1.decode_slice⟩
  · rintro ⟨hlast, hrecord⟩
    have hsame := Except.ok.inj (hlast.1.decode_slice.symm.trans hrecord)
    rw [h.endRecord_of_last hlast, hsame]
  · rcases EndRecord.exists_lastAt_or bytes with ⟨offset, hlast⟩ | hnone
    · cases (h.endRecord_of_last hlast).symm.trans hfails
    · exact ⟨Except.error.inj (hfails.symm.trans (h.endRecord_of_none hnone)), hnone⟩
  · rintro ⟨rfl, hnone⟩
    exact h.endRecord_of_none hnone

/-- An end record with a comment of this length. -/
def bareRecord (commentLength : UInt16) : EndRecord :=
  ⟨0, 0, 1, 1, 46, 30, commentLength⟩

/-- The comment of the first end record holds a signature and then a second end record, which has a
comment of two bytes. Both comments reach exactly to the end. -/
def nestedRecords : Bytes :=
  [1, 2, 3] ++ (bareRecord 29).encode ++ (EndRecord.signature ++ [9]) ++ (bareRecord 2).encode
    ++ [0x68, 0x69]

/-- The second one is found, also in pieces of five bytes. -/
theorem search_iff_nestedRecords :
    (Source.mk nestedRecords 54 5 none none).Holds nestedRecords ∧
    EndRecord.EndsAt nestedRecords 3 ∧ EndRecord.LastAt nestedRecords 30 ∧
    EndRecord.decode (nestedRecords.slice 30 EndRecord.size) = .ok (bareRecord 2) := by
  have hholds : (Source.mk nestedRecords 54 5 none none).Holds nestedRecords :=
    ⟨rfl, by decide, fun _ => by decide, nofun, rfl⟩
  have hfound : (Source.mk nestedRecords 54 5 none none).endRecord = .ok ⟨bareRecord 2, 30⟩ := by
    decide +kernel
  obtain ⟨hlast, hrecord⟩ := (hholds.search_iff.1 _).1 hfound
  exact ⟨hholds, ⟨by decide, by decide, by decide⟩, hlast, hrecord⟩

end Source

end RomArchive
