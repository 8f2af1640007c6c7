import RomArchive.Proofs.Governing

/-!
# End records and their bytes

The fields of an end record have no names in the bytes. They are told apart by their places alone,
and a place is the sum of the widths in front of it, so a single wrong width moves every field
behind it. In most containers the disks, the comment length and the upper halves of the wide fields
are zero, and a reader that takes one for the other is not found out. What rules it out is that
reader and writer undo each other on all values and on all bytes: a field that is left out, or
written to another place than it is read from, breaks one of the two.

Neither direction asks for more than it must. A reader looks at the bytes of the record only, so
anything may follow them; a writer gives back all of these bytes, those of the signature included.

## Main definitions

* `ExactCodec` — a reader and a writer of records of one size undo each other

## Main results

* `ExactCodec.ofFields` — what is to be checked of a reader that tests length and signature first
* `end_records_exact` — the three end records
-/

namespace RomArchive

/-- A reader and a writer of records of `size` bytes, of which the first are `signature`, undo each
other. The reader that takes `inTurn` one word behind the other, and would halt where the bytes run
out, is the same reader. -/
structure ExactCodec {α : Type} (size : Nat) (signature : Bytes) (fault : ArchiveFault)
    (encode : α → Bytes) (decode : Bytes → Except Failure α) (inTurn : Bytes → Guarded α) :
    Prop where
  /-- Bytes are read if there are enough of them and they begin with the signature. -/
  accepts : ∀ bytes, (∃ record, decode bytes = .ok record) ↔
    size ≤ bytes.length ∧ signature <+: bytes
  /-- All others are refused, and for one reason. -/
  refuses : ∀ bytes, ¬ (size ≤ bytes.length ∧ signature <+: bytes) →
    decode bytes = .error (.invalidArchive fault)
  /-- What was written is read, whatever stands behind it. -/
  reads : ∀ record rest, decode (encode record ++ rest) = .ok record
  /-- What was read is written back, byte for byte. -/
  writes : ∀ bytes record, decode bytes = .ok record →
    encode record = bytes.take size ∧ (encode record).length = size
  /-- No word reaches past the bytes. -/
  inTurn : ∀ bytes, inTurn bytes = Guarded.lift (decode bytes)

section

variable {α : Type} {size : Nat} {signature : Bytes} {fault : ArchiveFault} {encode : α → Bytes}
  {decode : Bytes → Except Failure α} {inTurn : Bytes → Guarded α} {fields : Bytes → α}

theorem signature_isPrefix_iff (hfour : signature.length = 4) (bytes : Bytes) :
    signature <+: bytes ↔ bytes.take 4 = signature := by
  rw [List.prefix_iff_eq_take, hfour, eq_comm]

/-- A reader that tests length and signature, and takes the fields from the bytes if both are as
they should be, undoes a writer if this is true of the fields. -/
theorem ExactCodec.ofFields (hfour : signature.length = 4)
    (hdecode : ∀ bytes, decode bytes = if size ≤ bytes.length ∧ bytes.take 4 = signature
      then .ok (fields bytes) else .error (.invalidArchive fault))
    (hlength : ∀ record, (encode record).length = size)
    (hfront : ∀ record rest, (encode record ++ rest).take 4 = signature)
    (hreads : ∀ record rest, fields (encode record ++ rest) = record)
    (hwrites : ∀ bytes, size ≤ bytes.length → bytes.take 4 = signature →
      encode (fields bytes) = bytes.take size)
    (hinTurn : ∀ bytes, inTurn bytes = Guarded.lift (decode bytes)) :
    ExactCodec size signature fault encode decode inTurn where
  accepts := by
    intro bytes
    rw [signature_isPrefix_iff hfour, hdecode]
    constructor
    · rintro ⟨record, h⟩
      exact (ite_eq_ok_iff.1 h).1
    · intro h
      exact ⟨fields bytes, if_pos h⟩
  refuses := by
    intro bytes h
    rw [signature_isPrefix_iff hfour] at h
    rw [hdecode, if_neg h]
  reads := by
    intro record rest
    have hroom : size ≤ (encode record ++ rest).length := by
      simp [hlength]
    rw [hdecode, if_pos ⟨hroom, hfront record rest⟩, hreads]
  writes := by
    intro bytes record h
    rw [hdecode] at h
    obtain ⟨⟨hroom, hsignature⟩, rfl⟩ := ite_eq_ok_iff.1 h
    exact ⟨hwrites bytes hroom hsignature, hlength _⟩
  inTurn := hinTurn

end

/-- A record that was read is written back as it was. -/
theorem EndRecord.encode_ofBytes {bytes : Bytes} (hlength : size ≤ bytes.length)
    (hsignature : bytes.take 4 = signature) : (ofBytes bytes).encode = bytes.take size := by
  have hfront : signature = bytes.slice 0 4 := hsignature.symm
  simp only [size] at hlength
  rw [encode, hfront]
  simp (disch := omega) only [ofBytes, Bytes.encode_word16, Bytes.encode_word32, List.flatten_cons,
    List.flatten_nil, List.append_nil]
  simp (disch := omega) only [Bytes.slice_append_slice]
  rfl

/-- **Readers and writers of the end records undo each other**: the record at the end of every
container, the locator of the wide one, and the wide one. -/
theorem end_records_exact :
    ExactCodec 22 [0x50, 0x4B, 0x05, 0x06] .badEndRecord
      EndRecord.encode EndRecord.decode Guarded.decodeEndRecord ∧
    ExactCodec 20 [0x50, 0x4B, 0x06, 0x07] .badLocator
      WideLocator.encode WideLocator.decode Guarded.decodeLocator ∧
    ExactCodec 56 [0x50, 0x4B, 0x06, 0x06] .badWideEndRecord
      WideEndRecord.encode WideEndRecord.decode Guarded.decodeWideEndRecord := by
  refine ⟨?plain, ?locator, ?wide⟩
  case plain =>
    exact .ofFields EndRecord.length_signature (fun _ => rfl) EndRecord.length_encode
      EndRecord.take_encode_append EndRecord.ofBytes_encode_append
      (fun _ => EndRecord.encode_ofBytes) Guarded.decodeEndRecord_eq
  case locator =>
    exact .ofFields WideLocator.length_signature (fun _ => rfl) WideLocator.length_encode
      WideLocator.take_encode_append WideLocator.ofBytes_encode_append
      (fun _ => WideLocator.encode_ofBytes) Guarded.decodeLocator_eq
  case wide =>
    exact .ofFields WideEndRecord.length_signature (fun _ => rfl) WideEndRecord.length_encode
      WideEndRecord.take_encode_append WideEndRecord.ofBytes_encode_append
      (fun _ => WideEndRecord.encode_ofBytes) Guarded.decodeWideEndRecord_eq

end RomArchive
