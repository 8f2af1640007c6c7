import RomArchive.EndRecord
import RomArchive.Record

/-!
# Records read back from their bytes

Each record of the format has a writer and a reader. The reader of a field goes by its offset, the
writer puts the fields one behind the other; the two meet in the lemmas on slices and words below,
which walk along a concatenation until they stand in front of the field.

Nothing is asked of what follows a record: all statements hold with arbitrary bytes behind it,
which is the form in which a record stands in a container.

## Main definitions

* `Record.Framed` — do the areas of a record fit their length fields?

## Main results

* `EndRecord.ofBytes_encode_append`, `WideLocator.decode_encode_append`,
  `WideEndRecord.decode_encode_append` — the end records
* `Record.split_encode_append` — a directory record, and the bytes behind it
-/

namespace RomArchive

namespace Bytes

variable {a b : Bytes} {offset count : Nat}

/-! ### Slices and words of a concatenation -/

@[simp] theorem slice_append_right (h : a.length ≤ offset) :
    slice offset count (a ++ b) = slice (offset - a.length) count b := by
  rw [slice, slice, List.drop_append, List.drop_eq_nil_of_le h, List.nil_append]

@[simp] theorem slice_append_left (h : a.length = count) : slice 0 count (a ++ b) = a := by
  rw [slice, List.drop_zero, ← h, List.take_left]

theorem slice_append_mid {c : Bytes} (hoffset : a.length = offset) (hcount : b.length = count) :
    slice offset count (a ++ (b ++ c)) = b := by
  rw [slice_append_right (Nat.le_of_eq hoffset), hoffset, Nat.sub_self, slice_append_left hcount]

theorem slice_self (h : a.length = count) : slice 0 count a = a := by
  rw [slice, List.drop_zero, ← h, List.take_length]

@[simp] theorem word16_append_right (h : a.length ≤ offset) :
    word16 offset (a ++ b) = word16 (offset - a.length) b := by
  rw [word16, word16, slice_append_right h]

@[simp] theorem word32_append_right (h : a.length ≤ offset) :
    word32 offset (a ++ b) = word32 (offset - a.length) b := by
  rw [word32, word32, slice_append_right h]

@[simp] theorem word64_append_right (h : a.length ≤ offset) :
    word64 offset (a ++ b) = word64 (offset - a.length) b := by
  rw [word64, word64, slice_append_right h]

@[simp] theorem word16_encode_append (n : Nat) :
    word16 0 (LittleEndian.encode 2 n ++ b) = UInt16.ofNat n := by
  rw [word16, slice_append_left (LittleEndian.length_encode 2 n), LittleEndian.value_encode]
  exact UInt16.toNat_inj.1 (by simp [LittleEndian.capacity])

@[simp] theorem word32_encode_append (n : Nat) :
    word32 0 (LittleEndian.encode 4 n ++ b) = UInt32.ofNat n := by
  rw [word32, slice_append_left (LittleEndian.length_encode 4 n), LittleEndian.value_encode]
  exact UInt32.toNat_inj.1 (by simp [LittleEndian.capacity])

@[simp] theorem word64_encode_append (n : Nat) :
    word64 0 (LittleEndian.encode 8 n ++ b) = UInt64.ofNat n := by
  rw [word64, slice_append_left (LittleEndian.length_encode 8 n), LittleEndian.value_encode]
  exact UInt64.toNat_inj.1 (by simp [LittleEndian.capacity])

/-! ### Slices and words of a part -/

theorem length_slice (offset count : Nat) (bytes : Bytes) :
    (slice offset count bytes).length = min count (bytes.length - offset) := by
  rw [slice, List.length_take, List.length_drop]

/-- A slice that reaches the end is everything behind its offset. -/
theorem slice_eq_drop {bytes : Bytes} (h : bytes.length - offset ≤ count) :
    slice offset count bytes = bytes.drop offset := by
  rw [slice, List.take_of_length_le (by rwa [List.length_drop])]

theorem slice_drop (offset start count : Nat) (bytes : Bytes) :
    slice offset count (bytes.drop start) = slice (start + offset) count bytes := by
  rw [slice, slice, List.drop_drop]

theorem word16_drop (offset start : Nat) (bytes : Bytes) :
    word16 offset (bytes.drop start) = word16 (start + offset) bytes := by
  rw [word16, word16, slice_drop]

theorem word32_drop (offset start : Nat) (bytes : Bytes) :
    word32 offset (bytes.drop start) = word32 (start + offset) bytes := by
  rw [word32, word32, slice_drop]

theorem word64_drop (offset start : Nat) (bytes : Bytes) :
    word64 offset (bytes.drop start) = word64 (start + offset) bytes := by
  rw [word64, word64, slice_drop]

theorem slice_take {limit : Nat} (bytes : Bytes) (h : offset + count ≤ limit) :
    slice offset count (bytes.take limit) = slice offset count bytes := by
  rw [slice, slice, List.drop_take, List.take_take, Nat.min_eq_left (by omega)]

theorem word16_take {limit : Nat} (bytes : Bytes) (h : offset + 2 ≤ limit) :
    word16 offset (bytes.take limit) = word16 offset bytes := by
  rw [word16, word16, slice_take bytes h]

theorem word32_take {limit : Nat} (bytes : Bytes) (h : offset + 4 ≤ limit) :
    word32 offset (bytes.take limit) = word32 offset bytes := by
  rw [word32, word32, slice_take bytes h]

end Bytes

/-! ### The end records -/

namespace EndRecord

@[simp] theorem length_signature : signature.length = 4 := by decide

@[simp] theorem length_encode (record : EndRecord) : record.encode.length = size := by
  simp [encode, size]

theorem ofBytes_encode_append (record : EndRecord) (rest : Bytes) :
    ofBytes (record.encode ++ rest) = record := by
  simp [ofBytes, encode]

theorem take_encode_append (record : EndRecord) (rest : Bytes) :
    (record.encode ++ rest).take 4 = signature := by
  simp [encode]

/-- The fields of a record do not depend on what stands behind it. -/
theorem ofBytes_take (bytes : Bytes) : ofBytes (bytes.take size) = ofBytes bytes := by
  simp only [ofBytes, size, Bytes.word16_take, Bytes.word32_take, Nat.reduceAdd, Nat.reduceLeDiff]

end EndRecord

namespace WideLocator

@[simp] theorem length_signature : signature.length = 4 := by decide

@[simp] theorem length_encode (locator : WideLocator) : locator.encode.length = size := by
  simp [encode, size]

theorem ofBytes_encode_append (locator : WideLocator) (rest : Bytes) :
    ofBytes (locator.encode ++ rest) = locator := by
  simp [ofBytes, encode]

theorem take_encode_append (locator : WideLocator) (rest : Bytes) :
    (locator.encode ++ rest).take 4 = signature := by
  simp [encode]

theorem decode_encode_append (locator : WideLocator) (rest : Bytes) :
    decode (locator.encode ++ rest) = .ok locator := by
  rw [decode, if_pos ⟨by simp, locator.take_encode_append rest⟩, ofBytes_encode_append]

end WideLocator

namespace WideEndRecord

@[simp] theorem length_signature : signature.length = 4 := by decide

@[simp] theorem length_encode (record : WideEndRecord) : record.encode.length = size := by
  simp [encode, size]

theorem ofBytes_encode_append (record : WideEndRecord) (rest : Bytes) :
    ofBytes (record.encode ++ rest) = record := by
  simp [ofBytes, encode]

theorem take_encode_append (record : WideEndRecord) (rest : Bytes) :
    (record.encode ++ rest).take 4 = signature := by
  simp [encode]

theorem decode_encode_append (record : WideEndRecord) (rest : Bytes) :
    decode (record.encode ++ rest) = .ok record := by
  rw [decode, if_pos ⟨by simp, record.take_encode_append rest⟩, ofBytes_encode_append]

end WideEndRecord

/-! ### Directory records -/

namespace Record

/-- The areas of a record fit the 16-bit length fields of its header. The bytes of such a record
are what a header can frame, and nothing else is. -/
structure Framed (record : Record) : Prop where
  name : record.name.length < 65536
  extra : record.extra.length < 65536
  comment : record.comment.length < 65536

@[simp] theorem length_signature : signature.length = 4 := by decide

@[simp] theorem length_header (record : Record) : record.header.length = headerSize := by
  simp [header, headerSize]

theorem length_encode (record : Record) : record.encode.length
    = headerSize + record.name.length + record.extra.length + record.comment.length := by
  simp only [encode, List.length_append, length_header]
  omega

theorem take_header_append (record : Record) (rest : Bytes) :
    (record.header ++ rest).take 4 = signature := by
  simp [header]

variable {record : Record}

/-- The lengths that a header claims are those of its areas. -/
theorem Framed.words (h : record.Framed) (rest : Bytes) :
    ((record.header ++ rest).word16 28).toNat = record.name.length ∧
      ((record.header ++ rest).word16 30).toNat = record.extra.length ∧
      ((record.header ++ rest).word16 32).toNat = record.comment.length := by
  have hn := h.name
  have he := h.extra
  have hc := h.comment
  simp only [header, List.flatten_cons, List.flatten_nil, List.append_assoc]
  simp [-UInt16.toNat_ofNat', UInt16.toNat_ofNat_of_lt', hn, he, hc]

theorem Framed.claimedLength (h : record.Framed) (rest : Bytes) :
    Record.claimedLength (record.header ++ rest) = record.encode.length := by
  obtain ⟨hn, he, hc⟩ := h.words rest
  rw [Record.claimedLength, hn, he, hc, length_encode]

/-- The reader finds every field of a record, and its areas behind the header. -/
theorem Framed.ofBytes_encode (h : record.Framed) : ofBytes record.encode = record := by
  obtain ⟨hn, he, hc⟩ := h.words (record.name ++ (record.extra ++ record.comment))
  rw [← encode] at hn he hc
  have hname : record.encode.slice headerSize record.name.length = record.name := by
    simp [encode]
  have hextra : record.encode.slice (headerSize + record.name.length) record.extra.length
      = record.extra := by
    simp [encode]
  have hcomment : record.encode.slice (headerSize + record.name.length + record.extra.length)
      record.comment.length = record.comment := by
    rw [Nat.add_assoc]
    simp [encode, Bytes.slice_self]
  rw [ofBytes, hn, he, hc, hname, hextra, hcomment]
  simp [encode, header]

/-- **A record is framed.** Whatever follows it is left over. -/
theorem split_encode_append (h : record.Framed) (rest : Bytes) :
    split (record.encode ++ rest) = .ok (record, rest) := by
  have hlength := record.length_encode
  have htake : (record.encode ++ rest).take headerSize = record.header := by
    rw [encode, List.append_assoc, ← length_header record, List.take_left]
  have hclaimed : claimedLength record.header = record.encode.length := by
    simpa using h.claimedLength []
  have hsignature : record.header.take 4 = signature := by
    simpa using record.take_header_append []
  simp only [split, htake, length_header, Nat.lt_irrefl, if_false, hsignature, ne_eq,
    not_true_eq_false, hclaimed, List.take_left, List.drop_left, h.ofBytes_encode]

end Record

end RomArchive
