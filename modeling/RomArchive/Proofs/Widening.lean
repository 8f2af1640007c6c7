import RomArchive.EntryData
import RomArchive.Proofs.Loading
import RomArchive.Proofs.MovedValues
import RomArchive.Proofs.RoundTrip

/-!
# Wide containers

A container can be written anew with its values moved to where 64 bits are: values of the records
to wide fields, those of the end record to a wide record that a locator leads to. The directory
stays where it begins and so does all that stands in front of it; what stands behind it moves.

Nothing of this is to be seen from outside. The two containers have the same catalog, the same
answer for every name, and the same data for every entry whose local header and data are where they
were, as all are that lie in front of the directory.

## Main definitions

* `Recoding` — a record and the way it is written anew
* `Widening`, `Widening.Recodes` — the new container, and of which container it is one
* `Member.Stays` — the local header and the data of a member are where they were
* `Member.LiesBefore` — they end in front of a limit

## Main results

* `Source.entryData_eq_of_stays` — data that stays is read again
* `Widening.Recodes.directory_eq` — the directory of the new container
* `Widening.same_container` — the two containers cannot be told apart
-/

namespace RomArchive

/-! ### Data that stays -/

namespace Bytes

/-- Asking for more than there is gives all there is. -/
theorem slice_min (offset count : Nat) (bytes : Bytes) :
    slice offset (min count (bytes.length - offset)) bytes = slice offset count bytes := by
  rw [slice, slice, ← List.length_drop, ← List.take_eq_take_min]

end Bytes

/-- The local header of a member and its data stand in `y` where they stand in `x`, which `source`
holds. Where the header cannot be read there are no data. -/
structure Member.Stays (member : Member) (source : Source) (x y : Bytes) : Prop where
  header : y.slice member.headerOffset LocalHeader.size
    = x.slice member.headerOffset LocalHeader.size
  data : ∀ offset, source.dataOffset member = .ok offset →
    y.slice offset member.compressedSize = x.slice offset member.compressedSize

/-- The local header of a member and its data end in front of `limit`. -/
structure Member.LiesBefore (member : Member) (source : Source) (limit : Nat) : Prop where
  header : member.headerOffset + LocalHeader.size ≤ limit
  data : ∀ offset, source.dataOffset member = .ok offset → offset + member.compressedSize ≤ limit

/-- What lies in front of a limit stays, if everything there does. -/
theorem Member.LiesBefore.stays {member : Member} {source : Source} {x y : Bytes} {limit : Nat}
    (h : member.LiesBefore source limit) (hfront : x.take limit = y.take limit) :
    member.Stays source x y := by
  have hslice : ∀ {offset count : Nat}, offset + count ≤ limit →
      y.slice offset count = x.slice offset count := by
    intro offset count hend
    rw [← Bytes.slice_take y hend, ← hfront, Bytes.slice_take x hend]
  exact ⟨hslice h.header, fun offset hoffset => hslice (h.data offset hoffset)⟩

/-- **Data that stays is read again**, whatever else has changed. -/
theorem Source.entryData_eq_of_stays {source other : Source} {x y : Bytes} {member : Member}
    (hsource : source.Holds x) (hother : other.Holds y) (h : member.Stays source x y) :
    other.entryData member = source.entryData member := by
  have hoffset : other.dataOffset member = source.dataOffset member := by
    simp only [dataOffset, hsource.checked, hother.checked, h.header]
  have hraw : other.rawData member = source.rawData member := by
    rw [rawData, rawData, hoffset]
    cases hdata : source.dataOffset member with
    | error failure => rfl
    | ok offset =>
      show (other.fill offset _).checked = (source.fill offset _).checked
      rw [hsource.checked, hother.checked, hsource.size, hother.size, Bytes.slice_min,
        Bytes.slice_min, h.data offset hdata]
  rw [entryData, entryData, hraw]

/-! ### The new container -/

/-- A record and the way it is written anew. -/
structure Recoding where
  plain : Record
  wide : Record
  widened : plain.Widened wide
  extra_length : wide.extra.length < 65536

/-- A container with a wide record and a locator in front of its end record. -/
structure Widening where
  front : Bytes
  recodings : List Recoding
  gap : Bytes
  wideEnd : WideEndRecord
  locator : WideLocator
  endRecord : EndRecord
  comment : Bytes

namespace Widening

/-- The directory as it was. -/
def plainRecords (widening : Widening) : List Record :=
  widening.recodings.map Recoding.plain

/-- The directory anew. -/
def wideRecords (widening : Widening) : List Record :=
  widening.recodings.map Recoding.wide

def directoryBytes (widening : Widening) : Bytes :=
  widening.wideRecords.flatMap Record.encode

/-- Everything in front of the wide record. -/
def body (widening : Widening) : Bytes :=
  widening.front ++ (widening.directoryBytes ++ widening.gap)

/-- The container. -/
def bytes (widening : Widening) : Bytes :=
  widening.body ++ (widening.wideEnd.encode ++ (widening.locator.encode
    ++ (widening.endRecord.encode ++ widening.comment)))

/-- The place of the end record. -/
def endOffset (widening : Widening) : Nat :=
  widening.body.length + WideEndRecord.size + WideLocator.size

/-- The container is `bytes` anew, whose end record was found at `place`: what stands in front of
the directory and the comment are kept, the end record has a sentinel, the wide record the true
values, and the locator leads to it. Whatever no reader looks at is left open. -/
structure Recodes (widening : Widening) (bytes : Bytes) (place : EndRecord.Place) : Prop where
  front : widening.front = bytes.take place.record.directoryOffset.toNat
  comment : widening.comment = bytes.drop (place.offset + EndRecord.size)
  commentLength : widening.endRecord.commentLength = place.record.commentLength
  isWide : widening.endRecord.isWide = true
  disk : widening.wideEnd.disk = widening.wideEnd.directoryDisk
  entries : widening.wideEnd.totalEntries.toNat = widening.recodings.length
  size : widening.wideEnd.directorySize.toNat = widening.directoryBytes.length
  offset : widening.wideEnd.directoryOffset.toNat = place.record.directoryOffset.toNat
  leads : widening.locator.recordOffset.toNat = widening.body.length
  last : ∀ offset, widening.endOffset < offset → ¬ EndRecord.EndsAt widening.bytes offset

variable {widening : Widening} {source wide : Source} {bytes : Bytes} {place : EndRecord.Place}

/-! ### From the end record to the directory -/

theorem length_bytes (widening : Widening) : widening.bytes.length
    = widening.endOffset + EndRecord.size + widening.comment.length := by
  simp only [Widening.bytes, endOffset, List.length_append, WideEndRecord.length_encode,
    WideLocator.length_encode, EndRecord.length_encode]
  omega

theorem drop_bytes (widening : Widening) : widening.bytes.drop widening.endOffset
    = widening.endRecord.encode ++ widening.comment := by
  have hsplit : widening.bytes = (widening.body ++ (widening.wideEnd.encode
      ++ widening.locator.encode)) ++ (widening.endRecord.encode ++ widening.comment) := by
    simp only [Widening.bytes, List.append_assoc]
  have hlength : (widening.body ++ (widening.wideEnd.encode ++ widening.locator.encode)).length
      = widening.endOffset := by
    simp only [endOffset, List.length_append, WideEndRecord.length_encode,
      WideLocator.length_encode]
    omega
  rw [hsplit, List.drop_left' hlength]

/-- The comment of the old container fits the length field, since the old end record was found in
front of it. -/
theorem Recodes.length_comment (h : widening.Recodes bytes place) (hsource : source.Holds bytes)
    (hplace : source.endRecord = .ok place) :
    widening.endRecord.commentLength.toNat = widening.comment.length := by
  obtain ⟨hlast, hrecord⟩ := hsource.lastAt_of_endRecord hplace
  have hword : place.record.commentLength = Bytes.word16 (place.offset + 20) bytes := by
    rw [hrecord, ← Bytes.word16_drop]
    rfl
  rw [h.commentLength, hword, hlast.1.comment, h.comment, List.length_drop]
  omega

theorem Recodes.lastAt (h : widening.Recodes bytes place) (hsource : source.Holds bytes)
    (hplace : source.endRecord = .ok place) :
    EndRecord.LastAt widening.bytes widening.endOffset :=
  ⟨EndRecord.endsAt_of_drop widening.drop_bytes (h.length_comment hsource hplace), h.last⟩

/-- The locator in front of the end record leads to the wide record. -/
theorem Recodes.wideEndRecord (h : widening.Recodes bytes place)
    (hwide : wide.Holds widening.bytes) :
    wide.wideEndRecord widening.endOffset = .ok widening.wideEnd := by
  have hlength := widening.length_bytes
  have hsplit : widening.bytes = (widening.body ++ widening.wideEnd.encode)
      ++ (widening.locator.encode ++ (widening.endRecord.encode ++ widening.comment)) := by
    simp only [Widening.bytes, List.append_assoc]
  refine hwide.wideEndRecord (Nat.le_add_left _ _) (by omega)
    (?_ : _ = widening.locator.encode) ?_
  · rw [hsplit]
    refine Bytes.slice_append_mid ?_ widening.locator.length_encode
    rw [List.length_append, WideEndRecord.length_encode, endOffset, Nat.add_sub_cancel]
  · rw [h.leads]
    exact Bytes.slice_append_mid rfl widening.wideEnd.length_encode

theorem Recodes.length_front (h : widening.Recodes bytes place)
    (hinside : place.record.directoryOffset.toNat ≤ bytes.length) :
    widening.front.length = place.record.directoryOffset.toNat := by
  rw [h.front, List.length_take, Nat.min_eq_left hinside]

/-- The wide record gives the true values. -/
theorem Recodes.extent (h : widening.Recodes bytes place)
    (hinside : place.record.directoryOffset.toNat ≤ bytes.length) :
    widening.wideEnd.extent
      = .ok ⟨widening.front.length, widening.directoryBytes.length, widening.recodings.length⟩ := by
  rw [WideEndRecord.extent, if_neg (fun hne => hne h.disk), h.offset, h.size, h.entries,
    h.length_front hinside]

/-- **The directory of the new container** consists of the records anew. -/
theorem Recodes.directory_eq (h : widening.Recodes bytes place) (hsource : source.Holds bytes)
    (hplace : source.endRecord = .ok place)
    (hinside : place.record.directoryOffset.toNat ≤ bytes.length)
    (hwide : wide.Holds widening.bytes) :
    wide.directory = .ok (Directory.ofRecords widening.wideRecords) := by
  have hend := hwide.endRecord_of_last (h.lastAt hsource hplace)
  rw [drop_bytes, EndRecord.ofBytes_encode_append] at hend
  have hextent : wide.directoryExtent ⟨widening.endRecord, widening.endOffset⟩
      = .ok ⟨widening.front.length, widening.directoryBytes.length,
          widening.recodings.length⟩ := by
    rw [Source.directoryExtent, if_pos h.isWide, h.wideEndRecord hwide]
    exact h.extent hinside
  have hbefore : widening.front.length + widening.directoryBytes.length ≤ widening.endOffset := by
    simp only [endOffset, body, List.length_append]
    omega
  have hslice : widening.bytes.slice widening.front.length widening.directoryBytes.length
      = widening.directoryBytes := by
    simp only [Widening.bytes, body, List.append_assoc]
    exact Bytes.slice_append_mid rfl rfl
  have hcount : widening.recodings.length = widening.wideRecords.length :=
    (List.length_map _).symm
  rw [hwide.directory_of_extent hend hextent hbefore]
  simp only [hslice, hcount]
  rfl

/-! ### The same container -/

/-- Both begin with what stands in front of the directory. -/
theorem Recodes.take_eq (h : widening.Recodes bytes place)
    (hinside : place.record.directoryOffset.toNat ≤ bytes.length) :
    bytes.take place.record.directoryOffset.toNat
      = widening.bytes.take place.record.directoryOffset.toNat := by
  rw [← h.front, Widening.bytes, body, List.append_assoc, List.take_left' (h.length_front hinside)]

/-- The records anew are framed. -/
theorem framed_wideRecords (hframed : ∀ record ∈ widening.plainRecords, record.Framed) :
    ∀ record ∈ widening.wideRecords, record.Framed := by
  intro record hrecord
  obtain ⟨recoding, hrecoding, rfl⟩ := List.mem_map.1 hrecord
  exact recoding.widened.framed (hframed _ (List.mem_map_of_mem hrecoding)) recoding.extra_length

/-- They have the members that the records had. The induction is on the recodings. -/
theorem member_recodings {recodings : List Recoding} :
    ∀ {members : List Member},
      (recodings.map Recoding.plain).map Record.member = members.map .ok →
      (recodings.map Recoding.wide).map Record.member = members.map .ok := by
  induction recodings with
  | nil => exact fun h => h
  | cons recoding recodings ih =>
    intro members h
    cases members with
    | nil => cases h
    | cons member members =>
      obtain ⟨hmember, hmembers⟩ := List.cons.inj h
      rw [List.map_cons, List.map_cons, List.map_cons, recoding.widened.member hmember,
        ih hmembers]

/-- **The two containers cannot be told apart.** The old one has a plain end record, and its
directory is exactly its readable records. Then the new one opens as well, with the same catalog
and the same warnings under either policy, and the same answer for every name. Members in front of
the directory stay where they were, and every member that stays has the same data. -/
theorem same_container (widening : Widening) (source wide : Source) (bytes : Bytes)
    (place : EndRecord.Place) (directory : Directory)
    (hsource : source.Holds bytes) (hwide : wide.Holds widening.bytes)
    (hplace : source.endRecord = .ok place) (hplain : place.record.isWide = false)
    (hdirectory : source.directory = .ok directory)
    (hrecords : directory = Directory.ofRecords widening.plainRecords)
    (hframed : ∀ record ∈ widening.plainRecords, record.Framed)
    (hreadable : ∀ record ∈ widening.plainRecords, ∃ member, record.member = .ok member)
    (hrecodes : widening.Recodes bytes place) :
    ∃ anew, wide.directory = .ok anew ∧
      (∀ policy, anew.catalog policy = directory.catalog policy) ∧
      (∀ name, anew.locate name = directory.locate name) ∧
      (∀ member : Member, member.LiesBefore source place.record.directoryOffset.toNat →
        member.Stays source bytes widening.bytes) ∧
      ∀ name member, directory.locate name = .ok member →
        member.Stays source bytes widening.bytes →
        wide.entryData member = source.entryData member := by
  obtain ⟨members, hmembers⟩ := Directory.exists_members hreadable
  have hold : directory.Describes members := ⟨_, hrecords, hframed, hmembers⟩
  have hnew : (Directory.ofRecords widening.wideRecords).Describes members :=
    ⟨_, rfl, framed_wideRecords hframed, member_recodings hmembers⟩
  have hinside := hsource.directoryOffset_le hplace hplain hdirectory
  refine ⟨_, hrecodes.directory_eq hsource hplace hinside hwide, fun policy => ?_, fun name => ?_,
    fun member hmember => ?_, fun name member _ hmember => ?_⟩
  · rw [hnew.catalog, hold.catalog]
  · rw [hnew.locate, hold.locate]
  · exact hmember.stays (hrecodes.take_eq hinside)
  · exact Source.entryData_eq_of_stays hsource hwide hmember

/-! ### A container anew

All three values of the first record are moved, and one of the second. -/

def sampleRecodings : List Recoding :=
  [{ plain := Packing.storedSample.record 2
     wide := _
     widened := .moved ⟨true, true, true⟩ [] [] [] rfl (by decide) (by decide)
     extra_length := by decide },
    { plain := Packing.deflatedSample.record 39
      wide := _
      widened := .moved ⟨false, true, false⟩ [] [] [] rfl (by decide) (by decide)
      extra_length := by decide }]

def sample : Widening where
  front := Packing.sample.front
  recodings := sampleRecodings
  gap := []
  wideEnd := ⟨44, 45, 45, 0, 0, 2, 2, 153, 89⟩
  locator := ⟨0, 242, 1⟩
  endRecord := ⟨0, 0, 2, 0xFFFF, 153, 0xFFFFFFFF, 2⟩
  comment := Packing.sample.comment

/-- Where the end record of the old container stands. -/
def samplePlace : EndRecord.Place :=
  ⟨Packing.sample.endRecord, Packing.sample.front.length + Packing.sample.directoryBytes.length⟩

theorem recodes_sample : sample.Recodes Packing.sample.bytes samplePlace where
  front := by decide +kernel
  comment := by decide +kernel
  commentLength := rfl
  isWide := rfl
  disk := rfl
  entries := rfl
  size := by decide +kernel
  offset := by decide +kernel
  leads := by decide +kernel
  last := by
    intro offset hoffset hends
    have hinside := hends.inside
    have hend : sample.endOffset = 318 := by decide +kernel
    have hcomment : sample.comment.length = 2 := rfl
    have hlength := sample.length_bytes
    have hplace : offset = 319 ∨ offset = 320 := by omega
    rcases hplace with rfl | rfl
    · exact absurd hends.signature (by decide +kernel)
    · exact absurd hends.signature (by decide +kernel)

/-- The first file, with everything behind its data left open. -/
theorem holds_sample : ∃ rest, (Source.ofBytes Packing.sample.bytes).Holds
    ([0x4D, 0x5A] ++ (Packing.storedSample.localBytes ++ rest)) := by
  obtain ⟨rest, hbytes⟩ : ∃ rest, Packing.sample.bytes
      = ([0x4D, 0x5A] ++ [].flatMap PackedFile.localBytes)
        ++ (Packing.storedSample.localBytes ++ rest) := Packing.exists_bytes_eq rfl
  exact ⟨rest, hbytes ▸ Source.holds_ofBytes Packing.sample.bytes⟩

theorem liesBefore_sample : (Packing.storedSample.member 2).LiesBefore
    (Source.ofBytes Packing.sample.bytes) samplePlace.record.directoryOffset.toNat where
  header := by decide +kernel
  data := by
    intro offset hoffset
    obtain ⟨rest, hholds⟩ := holds_sample
    have hdata := Packing.storedSample.dataOffset hholds
    have hlimit : samplePlace.record.directoryOffset.toNat = 89 := by decide +kernel
    rw [hlimit, ← Except.ok.inj (hdata.symm.trans hoffset)]
    decide

theorem plainRecords_sample : sample.plainRecords = Packing.sample.records := rfl

theorem framed_sample : ∀ record ∈ sample.plainRecords, record.Framed := by
  rw [plainRecords_sample]
  exact Packing.framed_recordsFrom _ _

theorem readable_sample : ∀ record ∈ sample.plainRecords,
    ∃ member, record.member = .ok member := by
  have hend : Packing.sample.leading.length
      + (Packing.sample.files.flatMap PackedFile.localBytes).length < 0xFFFFFFFF := by
    decide +kernel
  have hmembers : Packing.sample.records.map Record.member = Packing.sample.members.map .ok :=
    Packing.member_recordsFrom hend
  intro record hrecord
  rw [plainRecords_sample] at hrecord
  have hmem := List.mem_map_of_mem (f := Record.member) hrecord
  rw [hmembers] at hmem
  obtain ⟨member, -, hmember⟩ := List.mem_map.1 hmem
  exact ⟨member, hmember.symm⟩

theorem same_container_sample :
    ∃ anew, (Source.ofBytes sample.bytes).directory = .ok anew ∧
      (anew.catalog .abort).outcome
        = .ok [⟨"GAME.PRG", 3, 3⟩, ⟨"docs/GAME.TXT", 2, 7⟩] ∧
      anew.locate "GAME.PRG" = .ok (Packing.storedSample.member 2) ∧
      (Source.ofBytes sample.bytes).entryData (Packing.storedSample.member 2)
        = .ok ⟨[1, 2, 3], none⟩ := by
  have hsource := Source.holds_ofBytes Packing.sample.bytes
  have hload := Packing.fits_sample.directory_eq hsource
  have hmembers := Packing.fits_sample.describes
  obtain ⟨anew, hanew, hcatalog, hlocate, hstays, hdata⟩ :=
    same_container sample _ _ _ samplePlace _ hsource (Source.holds_ofBytes sample.bytes)
      (Packing.fits_sample.endRecord_eq hsource) Packing.fits_sample.isWide hload rfl
      framed_sample readable_sample recodes_sample
  have hfound : (Directory.ofRecords Packing.sample.records).locate "GAME.PRG"
      = .ok (Packing.storedSample.member 2) := hmembers.locate "GAME.PRG"
  obtain ⟨rest, hholds⟩ := holds_sample
  refine ⟨anew, hanew, ?_, (hlocate _).trans hfound, ?_⟩
  · rw [hcatalog, hmembers.catalog]
    rfl
  · rw [hdata _ _ hfound (hstays _ liesBefore_sample)]
    exact Packing.storedSample.entryData hholds

end Widening

end RomArchive
