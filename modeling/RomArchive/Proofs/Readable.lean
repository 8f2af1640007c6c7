import RomArchive.Proofs.Framing
import RomArchive.Proofs.Metadata

/-!
# When a record can be read

The reader of an extra area goes along its fields and fills slots on the way: each empty slot takes
the next word that the field at hand still has. What comes of it can be said without the reader. The
words of all wide fields make up one list, to which each field gives as many whole words as it has,
and the sentinels of a record take the words of that list in order. A record is readable if it has a
name, if its extra area consists of fields, and if there are words enough.

That a field may have words left over while a slot further on is still empty is what keeps this from
being obvious: the slots are gone through once for each field, and a word that is left over in one
field must not be missed in the next. The slots that are empty after some words take the words that
follow as if all had come at once, which is `supply_append`.

## Main definitions

* `Bytes.words64` — the whole 64-bit words of some bytes
* `SplitsInto`, `fieldWords` — the fields of an extra area, and the words of its wide fields
* `Record.Reads` — the metadata that a record has when these are the words
* `Record.FirstFault` — the first thing that makes a record unreadable

## Main results

* `WideSlots.afterExtra_of_splitsInto` — the slots after an extra area, from its words
* `WideSlots.exists_splitsInto` — an area that was read consists of fields
* `Record.readable_iff_grammar` — which records are readable, as what, and why the others are not
-/

namespace RomArchive

/-! ### Words -/

namespace Bytes

variable {bytes : Bytes}

/-- The whole 64-bit words of some bytes. Up to seven bytes are left over behind them. -/
def words64 (bytes : Bytes) : List UInt64 :=
  (List.range (bytes.length / 8)).map fun i => bytes.word64 (8 * i)

theorem words64_of_short (h : bytes.length < 8) : words64 bytes = [] := by
  rw [words64, Nat.div_eq_of_lt h, List.range_zero, List.map_nil]

theorem words64_of_le (h : 8 ≤ bytes.length) :
    words64 bytes = bytes.word64 0 :: words64 (bytes.drop 8) := by
  have hcount : bytes.length / 8 = (bytes.drop 8).length / 8 + 1 := by
    rw [List.length_drop]
    omega
  have hbehind : ∀ i, word64 (8 * i) (bytes.drop 8) = word64 (8 * (i + 1)) bytes := by
    intro i
    rw [word64, word64, slice_drop, Nat.mul_add, Nat.add_comm]
  rw [words64, words64, hcount, List.range_succ_eq_map, List.map_cons, List.map_map]
  exact congrArg _ (List.map_congr_left fun i _ => (hbehind i).symm)

end Bytes

/-! ### Slots and words -/

namespace WideSlots

/-- The slots in the order in which they take words. -/
def toList (slots : WideSlots) : List (Option Nat) :=
  [slots.uncompressed, slots.compressed, slots.offset]

/-- The slots after they were offered some words: each that is empty takes the next one. -/
def supply : List (Option Nat) → List UInt64 → List (Option Nat)
  | [], _ => []
  | some value :: slots, words => some value :: supply slots words
  | none :: slots, [] => none :: slots
  | none :: slots, word :: words => some word.toNat :: supply slots words

theorem supply_nil (slots : List (Option Nat)) : supply slots [] = slots := by
  induction slots with
  | nil => rfl
  | cons slot slots ih =>
    cases slot with
    | none => rfl
    | some value => rw [supply, ih]

/-- **Words can be offered in parts.** A part that has words to spare leaves no slot empty, so it
makes no difference that they are not kept for the next part. -/
theorem supply_append (slots : List (Option Nat)) (first second : List UInt64) :
    supply slots (first ++ second) = supply (supply slots first) second := by
  induction slots generalizing first with
  | nil => rfl
  | cons slot slots ih =>
    cases slot with
    | some value => rw [supply, supply, supply, ih]
    | none =>
      cases first with
      | nil => rfl
      | cons word words => rw [List.cons_append, supply, supply, supply, ih]

/-- A slot that was empty has the word whose number is that of the empty slots in front of it. -/
theorem getElem?_supply (slots : List (Option Nat)) (words : List UInt64) (i : Nat) :
    (supply slots words)[i]? = slots[i]?.map fun slot =>
      slot.or (words[(slots.take i).count none]?.map UInt64.toNat) := by
  induction slots generalizing words i with
  | nil => rfl
  | cons slot slots ih =>
    cases i with
    | zero => cases slot <;> cases words <;> rfl
    | succ i =>
      cases slot with
      | some value => simp [supply, ih]
      | none =>
        cases words with
        | nil => simp [supply]
        | cons word words => simp [supply, ih]

/-- No slot stays empty if there are as many words as there were empty slots. -/
theorem none_notMem_supply_iff (slots : List (Option Nat)) (words : List UInt64) :
    none ∉ supply slots words ↔ slots.count none ≤ words.length := by
  induction slots generalizing words with
  | nil => simp [supply]
  | cons slot slots ih =>
    cases slot with
    | some value => simp [supply, ih]
    | none =>
      cases words with
      | nil => simp [supply]
      | cons word words => simp [supply, ih]

/-- What one slot takes from a field is the next of its words. -/
theorem supply_cons_words64 (slot : Option Nat) (slots : List (Option Nat)) (body : Bytes) :
    supply (slot :: slots) body.words64
      = (takeWord slot body).1 :: supply slots (takeWord slot body).2.words64 := by
  cases slot with
  | some value => rfl
  | none =>
    by_cases hword : 8 ≤ body.length
    · rw [takeWord, Bytes.words64_of_le hword]
      simp only [if_pos hword, supply]
    · rw [takeWord, Bytes.words64_of_short (Nat.not_le.1 hword)]
      simp only [if_neg hword, supply, Bytes.words64_of_short (Nat.not_le.1 hword), supply_nil]

theorem exists_of_none_notMem {slots : WideSlots} (h : none ∉ slots.toList) :
    ∃ uncompressed compressed offset,
      slots = ⟨some uncompressed, some compressed, some offset⟩ := by
  obtain ⟨uncompressed, compressed, offset⟩ := slots
  simp only [toList, List.mem_cons, not_or] at h
  obtain ⟨first, rfl⟩ := Option.ne_none_iff_exists'.1 (Ne.symm h.1)
  obtain ⟨second, rfl⟩ := Option.ne_none_iff_exists'.1 (Ne.symm h.2.1)
  obtain ⟨third, rfl⟩ := Option.ne_none_iff_exists'.1 (Ne.symm h.2.2.1)
  exact ⟨first, second, third, rfl⟩

theorem toList_takeFrom (slots : WideSlots) (body : Bytes) :
    (slots.takeFrom body).toList = supply slots.toList body.words64 := by
  rw [toList, toList, supply_cons_words64, supply_cons_words64, supply_cons_words64]
  rfl

end WideSlots

/-! ### Extra areas -/

/-- An extra area consists of these fields and of less than four bytes behind them. -/
def SplitsInto (extra : Bytes) (fields : List ExtraField) : Prop :=
  ∃ spare : Bytes, spare.length < 4 ∧ extra = fields.flatMap ExtraField.encode ++ spare

/-- The words of the wide fields among these fields. -/
def fieldWords (fields : List ExtraField) : List UInt64 :=
  (fields.filter (·.id = WideSlots.fieldId)).flatMap fun field => field.body.words64

theorem fieldWords_cons (field : ExtraField) (fields : List ExtraField) :
    fieldWords (field :: fields)
      = (if field.id = WideSlots.fieldId then field.body.words64 else []) ++ fieldWords fields := by
  by_cases hwide : field.id = WideSlots.fieldId
  · simp [fieldWords, hwide]
  · simp [fieldWords, hwide]

namespace WideSlots

/-- **The slots after an extra area, from its words.** -/
theorem afterExtra_of_splitsInto {extra : Bytes} {fields : List ExtraField}
    (h : SplitsInto extra fields) (slots : WideSlots) :
    ∃ filled, slots.afterExtra extra = some filled ∧
      filled.toList = supply slots.toList (fieldWords fields) := by
  obtain ⟨spare, hspare, rfl⟩ := h
  induction fields generalizing slots with
  | nil => exact ⟨slots, afterExtra_of_short slots hspare, (supply_nil _).symm⟩
  | cons field fields ih =>
    obtain ⟨filled, hread, hfilled⟩ :=
      ih (if field.id = fieldId then slots.takeFrom field.body else slots)
    refine ⟨filled, ?_, ?_⟩
    · rw [List.flatMap_cons, List.append_assoc, afterExtra_encode_append, hread]
    · rw [hfilled, fieldWords_cons, supply_append]
      by_cases hwide : field.id = fieldId
      · rw [if_pos hwide, if_pos hwide, toList_takeFrom]
      · rw [if_neg hwide, if_neg hwide, supply_nil]

/-- The field at the front of an extra area, and what stands behind it. -/
theorem exists_field {extra : Bytes} {length : Nat} (hheader : 4 ≤ extra.length)
    (hlength : length = (extra.word16 2).toNat) (hbody : 4 + length ≤ extra.length) :
    ∃ field : ExtraField, extra = field.encode ++ extra.drop (4 + length) := by
  have hcount : (extra.slice 4 length).length = length := Bytes.length_slice_of_le hbody
  have hbound : (extra.slice 4 length).length < 65536 := by
    rw [hcount, hlength]
    exact (extra.word16 2).toNat_lt
  refine ⟨⟨extra.word16 0, extra.slice 4 length, hbound⟩, ?_⟩
  have hfront : ExtraField.encode ⟨extra.word16 0, extra.slice 4 length, hbound⟩
      = extra.take (4 + length) := by
    rw [ExtraField.encode]
    simp only [hcount]
    rw [hlength, Bytes.encode_word16 (by omega), Bytes.encode_word16 (by omega),
      Bytes.slice_append_slice rfl, Bytes.slice_append_slice rfl, ← Nat.add_assoc]
    rfl
  rw [hfront, List.take_append_drop]

/-- An area that was read consists of fields. -/
theorem exists_splitsInto {slots filled : WideSlots} {extra : Bytes}
    (h : slots.afterExtra extra = some filled) : ∃ fields, SplitsInto extra fields := by
  fun_induction afterExtra slots extra with
  | case1 slots extra hshort =>
    rw [List.length_take] at hshort
    exact ⟨[], extra, by omega, rfl⟩
  | case2 => cases h
  | case3 slots extra hheader length hbody filled ih =>
    rw [List.length_take] at hheader hbody
    obtain ⟨fields, spare, hspare, hrest⟩ := ih h
    have hwhole : 4 ≤ extra.length := by omega
    obtain ⟨field, hfield⟩ := exists_field hwhole rfl (by omega)
    refine ⟨field :: fields, spare, hspare, ?_⟩
    rw [List.flatMap_cons, List.append_assoc, ← hrest]
    exact hfield

end WideSlots

/-! ### Records -/

/-- The three fields of a header that can be sentinels, in the order in which they take words. -/
def Record.wideFields (record : Record) : List UInt32 :=
  [record.uncompressedSize, record.compressedSize, record.headerOffset]

/-- How many words a record needs. -/
def Record.sentinels (record : Record) : Nat :=
  record.wideFields.count 0xFFFFFFFF

/-- The values that these fields stand for. -/
def Member.wideValues (member : Member) : List Nat :=
  [member.uncompressedSize, member.compressedSize, member.headerOffset]

/-- What a field stands for: its own value, or for a sentinel the word whose number is that of the
sentinels in front of it. -/
def wideValue? (words : List UInt64) (before : List UInt32) (field : UInt32) : Option Nat :=
  if field = 0xFFFFFFFF then words[before.count 0xFFFFFFFF]?.map UInt64.toNat
  else some field.toNat

/-- The metadata that a record has when these are the words of its wide fields. -/
structure Record.Reads (record : Record) (words : List UInt64) (member : Member) : Prop where
  name : member.name = LossyText.decode record.name
  flags : member.flags = record.flags
  method : member.method = Method.ofNumber record.method
  checksum : member.checksum = record.checksum
  values : ∀ i field, record.wideFields[i]? = some field →
    member.wideValues[i]? = wideValue? words (record.wideFields.take i) field

/-- The first thing that makes a record unreadable. -/
inductive Record.FirstFault (record : Record) : RecordFault → Prop
  | emptyName (hname : record.name = []) : FirstFault record .emptyName
  | nulInName (hname : record.name ≠ []) (hnul : 0 ∈ record.name) : FirstFault record .nulInName
  | malformedExtra (hname : record.name ≠ []) (hnul : 0 ∉ record.name)
      (hextra : ∀ fields, ¬ SplitsInto record.extra fields) : FirstFault record .malformedExtra
  | missingWideField {fields : List ExtraField} (hname : record.name ≠ []) (hnul : 0 ∉ record.name)
      (hextra : SplitsInto record.extra fields)
      (hwords : (fieldWords fields).length < record.sentinels) : FirstFault record .missingWideField

/-- A sentinel is an empty slot, and any other field is a filled one. -/
theorem count_narrowValue (fields : List UInt32) :
    (fields.map narrowValue).count none = fields.count 0xFFFFFFFF := by
  induction fields with
  | nil => rfl
  | cons field fields ih =>
    by_cases hfield : field = 0xFFFFFFFF
    · simp [narrowValue, hfield, ih]
    · simp [narrowValue, hfield, ih]

theorem narrowValue_or (words : List UInt64) (before : List UInt32) (field : UInt32) :
    (narrowValue field).or (words[(before.map narrowValue).count none]?.map UInt64.toNat)
      = wideValue? words before field := by
  rw [count_narrowValue, narrowValue, wideValue?]
  split <;> rfl

namespace Record

variable {record : Record} {member : Member} {fields : List ExtraField}

/-- The slots of a record after its extra area, one by one. -/
theorem getElem?_supply_wideSlots (record : Record) (words : List UInt64) (i : Nat) :
    (WideSlots.supply record.wideSlots.toList words)[i]?
      = record.wideFields[i]?.map (wideValue? words (record.wideFields.take i)) := by
  have hslots : record.wideSlots.toList = record.wideFields.map narrowValue := rfl
  rw [WideSlots.getElem?_supply, hslots, List.getElem?_map, Option.map_map, ← List.map_take]
  exact congrArg (fun f => record.wideFields[i]?.map f)
    (funext fun field => narrowValue_or words (record.wideFields.take i) field)

/-- A record whose area consists of fields is readable if these have words enough. -/
theorem exists_member (hname : record.name ≠ []) (hnul : 0 ∉ record.name)
    (hextra : SplitsInto record.extra fields)
    (hwords : record.sentinels ≤ (fieldWords fields).length) :
    ∃ member, record.member = .ok member := by
  obtain ⟨filled, hread, hfilled⟩ := WideSlots.afterExtra_of_splitsInto hextra record.wideSlots
  have hnone : none ∉ filled.toList := by
    rw [hfilled, WideSlots.none_notMem_supply_iff]
    exact (count_narrowValue record.wideFields).symm ▸ hwords
  obtain ⟨uncompressed, compressed, offset, rfl⟩ := WideSlots.exists_of_none_notMem hnone
  let member : Member := ⟨record.text, record.flags, Method.ofNumber record.method, compressed,
    uncompressed, record.checksum, offset⟩
  exact ⟨member, member_eq_ok_iff.2 ⟨hname, hnul, hread, rfl, rfl, rfl, rfl⟩⟩

/-- The words of a readable record are enough, and its values are among them. -/
theorem Means.reads (h : record.Means member) (hextra : SplitsInto record.extra fields) :
    record.sentinels ≤ (fieldWords fields).length ∧ record.Reads (fieldWords fields) member := by
  obtain ⟨filled, hread, hfilled⟩ := WideSlots.afterExtra_of_splitsInto hextra record.wideSlots
  obtain rfl := Option.some.inj (hread.symm.trans h.slots)
  have hvalues : member.wideValues.map some
      = WideSlots.supply record.wideSlots.toList (fieldWords fields) := hfilled
  constructor
  · rw [sentinels, ← count_narrowValue]
    refine (WideSlots.none_notMem_supply_iff record.wideSlots.toList _).1 ?_
    simp [← hvalues]
  · refine ⟨h.name, h.flags, h.method, h.checksum, fun i field hfield => ?_⟩
    have hslot := record.getElem?_supply_wideSlots (fieldWords fields) i
    rw [← hvalues, hfield, List.getElem?_map, Option.map_some] at hslot
    obtain ⟨value, hvalue, hsame⟩ := Option.map_eq_some_iff.1 hslot
    rw [hvalue, hsame]

/-- A record that is unreadable is so for the first reason that there is. -/
theorem firstFault_of_metadata {fault : RecordFault} (h : record.metadata = .error fault) :
    record.FirstFault fault := by
  rw [metadata] at h
  split at h
  · cases h
    exact .emptyName ‹_›
  · rename_i hname
    split at h
    · cases h
      exact .nulInName hname ‹_›
    · rename_i hnul
      split at h
      · rename_i hnone
        cases h
        refine .malformedExtra hname hnul fun fields hextra => ?_
        obtain ⟨filled, hread, -⟩ := WideSlots.afterExtra_of_splitsInto hextra record.wideSlots
        cases hnone.symm.trans hread
      · cases h
      · rename_i filled hempty hsome
        cases h
        obtain ⟨fields, hextra⟩ := WideSlots.exists_splitsInto hsome
        refine .missingWideField hname hnul hextra (Nat.not_le.1 fun hwords => ?_)
        obtain ⟨member, hmember⟩ := exists_member hname hnul hextra hwords
        cases hsome.symm.trans (member_eq_ok_iff.1 hmember).slots
        exact hempty _ _ _ rfl

/-- **Which records are readable, as what, and why the others are not.** The record is one that was
framed, so it is made of the bytes that stand there. -/
theorem readable_iff_grammar {bytes rest : Bytes} (hframe : split bytes = .ok (record, rest)) :
    (record.Framed ∧ bytes = record.encode ++ rest) ∧
    ((∃ member, record.member = .ok member) ↔
      record.name ≠ [] ∧ 0 ∉ record.name ∧
        ∃ fields, SplitsInto record.extra fields ∧
          record.sentinels ≤ (fieldWords fields).length) ∧
    (∀ member, record.member = .ok member →
      ∀ fields, SplitsInto record.extra fields → record.Reads (fieldWords fields) member) ∧
    ∀ failure, record.member = .error failure →
      ∃ fault, failure = .unreadableEntry (LossyText.decode record.name) fault ∧
        record.FirstFault fault := by
  refine ⟨eq_encode_of_split hframe, ⟨?_, ?_⟩, ?_, ?_⟩
  · rintro ⟨member, hmember⟩
    have hmeans := member_eq_ok_iff.1 hmember
    obtain ⟨fields, hextra⟩ := WideSlots.exists_splitsInto hmeans.slots
    exact ⟨hmeans.name_ne, hmeans.nul_notMem, fields, hextra, (hmeans.reads hextra).1⟩
  · rintro ⟨hname, hnul, fields, hextra, hwords⟩
    exact exists_member hname hnul hextra hwords
  · intro member hmember fields hextra
    exact ((member_eq_ok_iff.1 hmember).reads hextra).2
  · intro failure hfailure
    obtain ⟨fault, hfault, hmetadata⟩ := metadata_of_failure hfailure
    exact ⟨fault, hfault, firstFault_of_metadata hmetadata⟩

/-- Two wide fields, the first with four bytes that make no word, and a foreign field between
them. -/
def scatteredFields : List ExtraField :=
  [⟨WideSlots.fieldId, LittleEndian.encode 8 5000000000 ++ [1, 2, 3, 4], by decide⟩,
    ⟨0x5455, [7, 7], by decide⟩,
    ⟨WideSlots.fieldId, LittleEndian.encode 8 2 ++ LittleEndian.encode 8 3
      ++ LittleEndian.encode 8 4, by decide⟩]

/-- A record with three sentinels, whose words stand in these fields. -/
def scattered : Record where
  madeBy := 45
  needed := 45
  flags := 0
  method := 8
  time := 0
  date := 33
  checksum := 0x12345678
  compressedSize := 0xFFFFFFFF
  uncompressedSize := 0xFFFFFFFF
  disk := 0
  internalAttributes := 0
  externalAttributes := 0
  headerOffset := 0xFFFFFFFF
  name := [0x41]
  extra := scatteredFields.flatMap ExtraField.encode ++ [9, 9, 9]
  comment := []

/-- The second value goes on in the second wide field, since the first has no whole word left. The
fourth word is one more than there are sentinels. -/
theorem readable_iff_grammar_scattered :
    split (scattered.encode ++ [0]) = .ok (scattered, [0]) ∧
    SplitsInto scattered.extra scatteredFields ∧
    ∃ member, scattered.member = .ok member ∧ scattered.Reads [5000000000, 2, 3, 4] member := by
  have hframed : scattered.Framed := ⟨by decide, by decide, by decide⟩
  have hframe : split (scattered.encode ++ [0]) = .ok (scattered, [0]) :=
    split_encode_append hframed [0]
  have hextra : SplitsInto scattered.extra scatteredFields := ⟨[9, 9, 9], by decide, rfl⟩
  have hwords : fieldWords scatteredFields = [5000000000, 2, 3, 4] := by decide +kernel
  have henough : scattered.sentinels ≤ (fieldWords scatteredFields).length := by
    rw [hwords]
    decide
  obtain ⟨-, hreadable, hreads, -⟩ := readable_iff_grammar hframe
  obtain ⟨member, hmember⟩ :=
    hreadable.2 ⟨by decide, by decide, scatteredFields, hextra, henough⟩
  exact ⟨hframe, hextra, member, hmember, hwords ▸ hreads member hmember _ hextra⟩

end Record

end RomArchive
