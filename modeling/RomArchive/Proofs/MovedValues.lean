import RomArchive.Proofs.Metadata

/-!
# Moved values

A record can be written in several ways that mean the same: each of its three values may stand in
the header, or in a wide field with a sentinel in its place.

The field has one word for each value that was moved and none for the others. Which word is whose is
told by the order alone, so that the reader hands out the right ones has to be seen for every subset
of the three values.

## Main definitions

* `Moved` — which of the three values of a record are moved
* `Record.Widened` — a record and a way of writing it with moved values

## Main results

* `WideSlots.takeFrom_words` — the words of a field fill exactly the slots that were moved
* `Record.Widened.member` — both ways of writing a record mean the same
-/

namespace RomArchive

/-! ### Moving values -/

/-- Which of the three values of a record are moved to the extra area. -/
structure Moved where
  uncompressed : Bool
  compressed : Bool
  offset : Bool
  deriving DecidableEq

/-- The word of a value, if it is moved. -/
def wideWord (moved : Bool) (value : UInt32) : Bytes :=
  if moved then LittleEndian.encode 8 value.toNat else []

/-- What is left of a value in the header. -/
def narrowField (moved : Bool) (value : UInt32) : UInt32 :=
  if moved then 0xFFFFFFFF else value

namespace Record

/-- The words of the values that are moved, in the one order that there is. -/
def wideWords (record : Record) (moved : Moved) : Bytes :=
  wideWord moved.uncompressed record.uncompressedSize
    ++ (wideWord moved.compressed record.compressedSize
      ++ wideWord moved.offset record.headerOffset)

theorem length_wideWords_lt (record : Record) (moved : Moved) :
    (record.wideWords moved).length < 65536 := by
  have hword : ∀ (moved : Bool) (value : UInt32), (wideWord moved value).length ≤ 8 := by
    intro moved value
    cases moved <;> simp [wideWord]
  have hfirst := hword moved.uncompressed record.uncompressedSize
  have hsecond := hword moved.compressed record.compressedSize
  have hthird := hword moved.offset record.headerOffset
  simp only [wideWords, List.length_append]
  omega

/-- The field that takes the values that are moved. -/
def wideField (record : Record) (moved : Moved) : ExtraField where
  id := WideSlots.fieldId
  body := record.wideWords moved
  body_length := record.length_wideWords_lt moved

/-- The record with sentinels for the values that are moved, and another extra area. -/
def widen (record : Record) (moved : Moved) (extra : Bytes) : Record :=
  { record with
    uncompressedSize := narrowField moved.uncompressed record.uncompressedSize
    compressedSize := narrowField moved.compressed record.compressedSize
    headerOffset := narrowField moved.offset record.headerOffset
    extra := extra }

/-- A record without a wide field, and a way of writing it: as it is, or with some of its values
moved to a wide field that stands anywhere among its other fields. -/
inductive Widened (plain : Record) : Record → Prop
  | kept : Widened plain plain
  | moved (moved : Moved) (before after : List ExtraField) (rest : Bytes)
      (extra : plain.extra = before.flatMap ExtraField.encode
        ++ (after.flatMap ExtraField.encode ++ rest))
      (short : rest.length < 4)
      (foreign : ∀ field ∈ before ++ after, field.id ≠ WideSlots.fieldId) :
      Widened plain (plain.widen moved (before.flatMap ExtraField.encode
        ++ ((plain.wideField moved).encode ++ (after.flatMap ExtraField.encode ++ rest))))

end Record

/-! ### Reading moved values -/

namespace WideSlots

/-- A slot whose value was moved takes the next word, and any other slot leaves it for the next. -/
theorem takeWord_wideWord (moved : Bool) (value : UInt32) (rest : Bytes) :
    takeWord (if moved then none else some value.toNat) (wideWord moved value ++ rest)
      = (some value.toNat, rest) := by
  cases moved with
  | false => rfl
  | true =>
    have hword : (UInt64.ofNat value.toNat).toNat = value.toNat :=
      UInt64.toNat_ofNat_of_lt' (Nat.lt_trans value.toNat_lt (by decide))
    have hlength : 8 ≤ (LittleEndian.encode 8 value.toNat ++ rest).length := by
      rw [List.length_append, LittleEndian.length_encode]
      omega
    have hrest : (LittleEndian.encode 8 value.toNat ++ rest).drop 8 = rest :=
      List.drop_left' (LittleEndian.length_encode 8 value.toNat)
    show takeWord none (LittleEndian.encode 8 value.toNat ++ rest) = _
    rw [takeWord]
    simp only [if_pos hlength, Bytes.word64_encode_append, hword, hrest]

/-- **The words of a field fill exactly the slots that were moved**, each with its own value. -/
theorem takeFrom_words (record : Record) (moved : Moved) :
    takeFrom ⟨if moved.uncompressed then none else some record.uncompressedSize.toNat,
        if moved.compressed then none else some record.compressedSize.toNat,
        if moved.offset then none else some record.headerOffset.toNat⟩ (record.wideWords moved)
      = ⟨some record.uncompressedSize.toNat, some record.compressedSize.toNat,
          some record.headerOffset.toNat⟩ := by
  have hlast := takeWord_wideWord moved.offset record.headerOffset []
  rw [List.append_nil] at hlast
  simp only [takeFrom, Record.wideWords, takeWord_wideWord, hlast]

end WideSlots

namespace Record

theorem narrowValue_narrowField {value : UInt32} (h : value ≠ 0xFFFFFFFF) (moved : Bool) :
    narrowValue (narrowField moved value) = if moved then none else some value.toNat := by
  cases moved with
  | false => exact if_neg h
  | true => exact if_pos rfl

/-- A value that is known from the header is no sentinel, and is what the header says. -/
theorem eq_of_narrowValue {field : UInt32} {value : Nat} (h : narrowValue field = some value) :
    field ≠ 0xFFFFFFFF ∧ field.toNat = value := by
  rw [narrowValue] at h
  split at h
  · cases h
  · exact ⟨‹_›, Option.some.inj h⟩

variable {plain wide : Record}

/-- Only the extra area has another length. -/
theorem Widened.framed (h : plain.Widened wide) (hplain : plain.Framed)
    (hextra : wide.extra.length < 65536) : wide.Framed := by
  cases h with
  | kept => exact hplain
  | moved => exact ⟨hplain.name, hextra, hplain.comment⟩

/-- **Both ways of writing a record mean the same.** Without a wide field the values of the plain
record are known from its header, so none of them is a sentinel and each can be moved. -/
theorem Widened.member (h : plain.Widened wide) {member : Member}
    (hmember : plain.member = .ok member) : wide.member = .ok member := by
  cases h with
  | kept => exact hmember
  | moved moved before after rest extra short foreign =>
    have hbefore : ∀ field ∈ before, field.id ≠ WideSlots.fieldId :=
      fun field hfield => foreign field (List.mem_append_left _ hfield)
    have hafter : ∀ field ∈ after, field.id ≠ WideSlots.fieldId :=
      fun field hfield => foreign field (List.mem_append_right _ hfield)
    have hmeans := member_eq_ok_iff.1 hmember
    have hslots := hmeans.slots
    rw [extra, WideSlots.afterExtra_foreign _ hbefore, WideSlots.afterExtra_foreign _ hafter,
      WideSlots.afterExtra_of_short _ short, Option.some.injEq, wideSlots,
      WideSlots.mk.injEq] at hslots
    obtain ⟨huncompressed, huvalue⟩ := eq_of_narrowValue hslots.1
    obtain ⟨hcompressed, hcvalue⟩ := eq_of_narrowValue hslots.2.1
    obtain ⟨hoffset, hovalue⟩ := eq_of_narrowValue hslots.2.2
    refine member_eq_ok_iff.2 ⟨hmeans.name_ne, hmeans.nul_notMem, ?_, hmeans.name, hmeans.flags,
      hmeans.method, hmeans.checksum⟩
    simp only [widen, wideSlots, narrowValue_narrowField huncompressed,
      narrowValue_narrowField hcompressed, narrowValue_narrowField hoffset]
    rw [WideSlots.afterExtra_foreign _ hbefore, WideSlots.afterExtra_encode_append,
      if_pos (show (plain.wideField moved).id = WideSlots.fieldId from rfl),
      WideSlots.afterExtra_foreign _ hafter, WideSlots.afterExtra_of_short _ short]
    show some (WideSlots.takeFrom _ (plain.wideWords moved)) = _
    rw [WideSlots.takeFrom_words, huvalue, hcvalue, hovalue]

end Record

end RomArchive
