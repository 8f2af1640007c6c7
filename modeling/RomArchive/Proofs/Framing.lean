import RomArchive.Proofs.Codec

/-!
# What is framed

A frame is found by its signature and by the three lengths in its header. Nothing else of it is
looked at, so whatever bytes stand there make up a record, and writing that record gives those bytes
back. Framing therefore loses nothing: the records of a directory and the bytes they were framed
from are two views of the same thing.

## Main results

* `Record.split_eq` — framing as a question about lengths and a signature
* `Record.eq_encode_of_split` — what was framed is the bytes of a framed record
-/

namespace RomArchive

namespace Bytes

variable {bytes : Bytes} {offset : Nat}

/-- Two slices that stand one behind the other. -/
theorem slice_append_slice {first second behind : Nat} (h : behind = offset + first)
    (bytes : Bytes) :
    slice offset first bytes ++ slice behind second bytes
      = slice offset (first + second) bytes := by
  rw [slice, slice, slice, h, ← List.drop_drop, List.take_add]

/-! ### Words written back -/

theorem length_slice_of_le {count : Nat} (h : offset + count ≤ bytes.length) :
    (slice offset count bytes).length = count := by
  rw [length_slice]
  omega

/-- A word of `width` bytes that stands among the bytes loses nothing on the way. -/
theorem encode_value_slice {width : Nat} (h : offset + width ≤ bytes.length) :
    LittleEndian.value (slice offset width bytes) < LittleEndian.capacity width ∧
      LittleEndian.encode width (LittleEndian.value (slice offset width bytes))
        = slice offset width bytes := by
  have hlength := length_slice_of_le h
  have hbound := LittleEndian.value_lt (slice offset width bytes)
  have hback := LittleEndian.encode_value (slice offset width bytes)
  rw [hlength] at hbound hback
  exact ⟨hbound, hback⟩

theorem encode_word16 (h : offset + 2 ≤ bytes.length) :
    LittleEndian.encode 2 (word16 offset bytes).toNat = slice offset 2 bytes := by
  obtain ⟨hbound, hback⟩ := encode_value_slice h
  rw [word16, UInt16.toNat_ofNat_of_lt' hbound, hback]

theorem encode_word32 (h : offset + 4 ≤ bytes.length) :
    LittleEndian.encode 4 (word32 offset bytes).toNat = slice offset 4 bytes := by
  obtain ⟨hbound, hback⟩ := encode_value_slice h
  rw [word32, UInt32.toNat_ofNat_of_lt' hbound, hback]

end Bytes

namespace Record

/-- A header that was read is written back as it was. -/
theorem header_ofBytes {bytes : Bytes} (hlength : claimedLength bytes ≤ bytes.length)
    (hsignature : bytes.take 4 = signature) : (ofBytes bytes).header = bytes.take headerSize := by
  have hname : (ofBytes bytes).name.length = (bytes.word16 28).toNat :=
    Bytes.length_slice_of_le (by simp only [claimedLength] at hlength; omega)
  have hextra : (ofBytes bytes).extra.length = (bytes.word16 30).toNat :=
    Bytes.length_slice_of_le (by simp only [claimedLength] at hlength; omega)
  have hcomment : (ofBytes bytes).comment.length = (bytes.word16 32).toNat :=
    Bytes.length_slice_of_le (by simp only [claimedLength] at hlength; omega)
  have hheader : 46 ≤ bytes.length := by
    simp only [claimedLength, headerSize] at hlength
    omega
  have hfront : signature = bytes.slice 0 4 := hsignature.symm
  rw [header, hname, hextra, hcomment, hfront]
  simp (disch := omega) only [ofBytes, Bytes.encode_word16, Bytes.encode_word32, List.flatten_cons,
    List.flatten_nil, List.append_nil]
  simp (disch := omega) only [Bytes.slice_append_slice]
  rfl

theorem headerSize_le_claimedLength (header : Bytes) : headerSize ≤ claimedLength header := by
  simp only [claimedLength, headerSize]
  omega

/-- A header claims the same whatever stands behind it. -/
theorem claimedLength_take (bytes : Bytes) {limit : Nat} (h : headerSize ≤ limit) :
    claimedLength (bytes.take limit) = claimedLength bytes := by
  simp only [headerSize] at h
  simp (disch := omega) only [claimedLength, Bytes.word16_take]

/-- The fields of a record do not depend on what stands behind it. -/
theorem ofBytes_take (bytes : Bytes) :
    ofBytes (bytes.take (claimedLength bytes)) = ofBytes bytes := by
  have hclaimed : claimedLength bytes = headerSize + (bytes.word16 28).toNat
      + (bytes.word16 30).toNat + (bytes.word16 32).toNat := rfl
  simp only [headerSize] at hclaimed
  simp (disch := omega) only [ofBytes, headerSize, Bytes.word16_take, Bytes.word32_take,
    Bytes.slice_take]

/-- **What a frame is**: a header with its signature, and as many bytes as the header claims. -/
theorem split_eq (bytes : Bytes) : split bytes =
    if bytes.length < headerSize then .error (.invalidArchive .truncatedDirectory)
    else if bytes.take 4 ≠ signature then .error (.invalidArchive .badDirectorySignature)
    else if bytes.length < claimedLength bytes then .error (.invalidArchive .truncatedDirectory)
    else .ok (ofBytes bytes, bytes.drop (claimedLength bytes)) := by
  have hfront : (bytes.take headerSize).take 4 = bytes.take 4 := by
    rw [List.take_take]
    rfl
  have hshort : ∀ count, (bytes.take count).length < count ↔ bytes.length < count := by
    intro count
    rw [List.length_take]
    omega
  simp only [split, claimedLength_take bytes (Nat.le_refl headerSize), hfront, hshort, ofBytes_take]

theorem split_eq_ok_iff {bytes rest : Bytes} {record : Record} :
    split bytes = .ok (record, rest) ↔ claimedLength bytes ≤ bytes.length ∧
      bytes.take 4 = signature ∧ record = ofBytes bytes ∧
      rest = bytes.drop (claimedLength bytes) := by
  have hpositive := headerSize_le_claimedLength bytes
  rw [split_eq]
  constructor
  · intro h
    split at h
    · cases h
    · split at h
      · cases h
      · rename_i hsignature
        split at h
        · cases h
        · rename_i hinside
          cases h
          exact ⟨Nat.not_lt.1 hinside, Decidable.not_not.1 hsignature, rfl, rfl⟩
  · rintro ⟨hinside, hsignature, rfl, rfl⟩
    rw [if_neg (by omega), if_neg (not_not_intro hsignature), if_neg (Nat.not_lt.2 hinside)]

/-- Nothing else is framed than the bytes of a record. -/
theorem eq_encode_of_split {bytes rest : Bytes} {record : Record}
    (h : split bytes = .ok (record, rest)) : record.Framed ∧ bytes = record.encode ++ rest := by
  obtain ⟨hinside, hsignature, rfl, rfl⟩ := split_eq_ok_iff.1 h
  have hclaimed : claimedLength bytes = headerSize + (bytes.word16 28).toNat
      + (bytes.word16 30).toNat + (bytes.word16 32).toNat := rfl
  have hlengths := And.intro (bytes.word16 28).toNat_lt
    (And.intro (bytes.word16 30).toNat_lt (bytes.word16 32).toNat_lt)
  constructor
  · constructor
    · simp (disch := omega) only [ofBytes, Bytes.length_slice_of_le]
      omega
    · simp (disch := omega) only [ofBytes, Bytes.length_slice_of_le]
      omega
    · simp (disch := omega) only [ofBytes, Bytes.length_slice_of_le]
      omega
  · rw [encode, header_ofBytes hinside hsignature]
    have hfront : bytes.take headerSize = bytes.slice 0 headerSize := rfl
    simp (disch := omega) only [ofBytes, hfront, Bytes.slice_append_slice]
    rw [← Nat.add_assoc, ← Nat.add_assoc, ← hclaimed]
    exact (List.take_append_drop _ _).symm

end Record

end RomArchive
