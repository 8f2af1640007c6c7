import RomArchive.Proofs.DataSlice
import RomArchive.Proofs.StreamEnd

/-!
# Entries that claim more than there is

The size of an entry's data is declared in the directory, and nobody has to believe it. Data are
read up to the end of the file at most, however many are declared; and only what comes out of them
is compared with the record, by its size and its checksum. So an entry can be extracted although its
declared data reach past the end of the file, if what is there of them is enough.

What is there is then all of the entry. Of stored data it is exactly as many bytes as the contents
have, so the two declared sizes agree unless the file ends in between. Of compressed data it is a
whole stream, which would have ended where it does whatever stood behind the end of the file.

The file is the one that is there when the entry is extracted. It may have been cut off since the
container was opened, or have grown; data that were added are not read.

## Main definitions

* `Member.partIn` — the declared data of a member, as far as they are in a file
* `Member.CompleteIn` — this part is all of some contents

## Main results

* `Source.fill_ofFile` — requests to a file whose size was taken earlier
* `Handle.complete_of_extract` — what is extracted was all there
* `Workspace.exists_overlong` — an entry that reaches past the end, and is extracted
-/

namespace RomArchive

/-! ### Files whose size was taken earlier -/

namespace Source

variable {contents : Bytes} {size : Nat}

theorem readAhead_ofFile {ahead : Bytes} (h : ahead.length ≤ contents.length)
    (offset count : Nat) : (ofFile contents size).readAhead offset count ahead
      = .ok (if size ≤ offset then [] else ahead.take count) := by
  have htake : ahead.take (min count contents.length) = ahead.take count := by
    rw [List.take_eq_take_iff]
    omega
  simp only [readAhead, fault?, isBeyond, ofFile, decide_eq_true_eq, htake]

/-- Where nothing more is asked for, or nothing more is there, the loop is over. -/
theorem gather_ofFile_end {offset count : Nat} {ahead : Bytes} (h : count = 0 ∨ ahead = [])
    (got : Bytes) : (ofFile contents size).gather offset count ahead got = ⟨got.reverse, none⟩ := by
  rw [gather]
  by_cases hcount : 0 < count
  · obtain rfl : ahead = [] := h.resolve_left (Nat.ne_of_gt hcount)
    rw [if_pos hcount, readAhead_ofFile (Nat.zero_le _), List.take_nil, ite_self]
  · rw [if_neg hcount]

/-- A request that begins in front of the size that was taken gives what the file holds there now:
the first read delivers all of it, and any other request gives nothing. -/
theorem fill_ofFile (contents : Bytes) (size offset count : Nat) :
    (ofFile contents size).fill offset count
      = ⟨if size ≤ offset then [] else contents.slice offset count, none⟩ := by
  have hahead : (contents.drop offset).length ≤ contents.length := by
    rw [List.length_drop]
    omega
  show (ofFile contents size).gather offset count (contents.drop offset) [] = _
  rw [gather]
  by_cases hcount : 0 < count
  · rw [if_pos hcount, readAhead_ofFile hahead]
    by_cases hbeyond : size ≤ offset
    · rw [if_pos hbeyond, if_pos hbeyond]
      rfl
    · rw [if_neg hbeyond, if_neg hbeyond, Bytes.slice]
      cases hread : (contents.drop offset).take count with
      | nil => rfl
      | cons b bs =>
        have hlength := congrArg List.length hread
        rw [List.length_take] at hlength
        have hend : count - (b :: bs).length = 0
            ∨ (contents.drop offset).drop (b :: bs).length = [] := by
          rw [List.drop_eq_nil_iff]
          omega
        dsimp only
        rw [gather_ofFile_end hend, List.reverseAux_eq, List.append_nil, List.reverse_reverse]
  · obtain rfl : count = 0 := by omega
    rw [if_neg hcount, Bytes.slice, List.take_zero, ite_self]
    rfl

end Source

/-! ### What is there of a member -/

/-- The declared data of a member in a file that holds `bytes` and had the given size when it was
opened: what is in front of both ends. -/
def Member.partIn (member : Member) (bytes : Bytes) (size : Nat) : Bytes :=
  let start := LocalHeader.dataStart bytes member.headerOffset
  bytes.slice start (min member.compressedSize (size - start))

/-- The number of bytes behind the local header of a member, up to the first of the two ends. -/
def Member.room (member : Member) (bytes : Bytes) (size : Nat) : Nat :=
  min size bytes.length - LocalHeader.dataStart bytes member.headerOffset

/-- What is there of the declared data of a member is all of these contents. -/
structure Member.CompleteIn (member : Member) (bytes : Bytes) (size : Nat) (contents : Bytes) :
    Prop where
  header : LocalHeader.StandsAt bytes member.headerOffset
  /-- It decodes to the contents, and nothing is missing. -/
  decodes : member.method.decode (member.partIn bytes size) = ⟨contents, none⟩
  length : contents.length = member.uncompressedSize
  checksum : crc32 contents = member.checksum
  /-- As many bytes as the contents have are there of stored data, cut off at the end or not. -/
  stored : member.method = .stored →
    contents = member.partIn bytes size ∧
      member.uncompressedSize = min member.compressedSize (member.room bytes size)
  /-- The two sizes of stored data agree if all that is declared is there. -/
  whole : member.method = .stored →
    LocalHeader.dataStart bytes member.headerOffset + member.compressedSize
      ≤ min size bytes.length → member.compressedSize = member.uncompressedSize
  /-- Compressed data end inside, so nothing would come of what is cut off. -/
  deflated : member.method = .deflate → ∀ more,
    inflate (member.partIn bytes size ++ more) = ⟨contents, none⟩

theorem Member.length_partIn (member : Member) (bytes : Bytes) (size : Nat) :
    (member.partIn bytes size).length = min member.compressedSize (member.room bytes size) := by
  rw [partIn, room, Bytes.length_slice]
  omega

namespace Source

variable {bytes : Bytes} {size : Nat} {member : Member} {delivery : Delivery}

/-- The header is read from the front of what is there. -/
theorem dataOffset_ofFile {offset : Nat} (h : (ofFile bytes size).dataOffset member = .ok offset) :
    LocalHeader.StandsAt bytes member.headerOffset ∧
      offset = LocalHeader.dataStart bytes member.headerOffset := by
  rw [dataOffset, fill_ofFile] at h
  obtain ⟨header, hheader, h⟩ := exists_of_bind_eq_ok h
  by_cases hbeyond : size ≤ member.headerOffset
  · rw [if_pos hbeyond] at hheader
    cases hheader
    cases h
  · rw [if_neg hbeyond] at hheader
    cases hheader
    split at h
    · cases h
    · rename_i hstands
      cases h
      exact ⟨(LocalHeader.standsAt_iff _ _).2 hstands, (LocalHeader.dataStart_eq _ _).symm⟩

/-- What is read of a member of a file, if anything is. -/
theorem entryData_ofFile (h : (ofFile bytes size).entryData member = .ok delivery) :
    LocalHeader.StandsAt bytes member.headerOffset ∧
      delivery = member.method.decode (member.partIn bytes size) := by
  obtain ⟨⟨⟩, -, h⟩ := exists_of_bind_eq_ok h
  obtain ⟨data, hdata, h⟩ := exists_of_bind_eq_ok h
  obtain ⟨offset, hoffset, hdata⟩ := exists_of_bind_eq_ok hdata
  obtain ⟨hheader, rfl⟩ := dataOffset_ofFile hoffset
  rw [fill_ofFile] at hdata
  cases hdata
  cases h
  refine ⟨hheader, congrArg _ ?_⟩
  split
  · rename_i hbeyond
    rw [Member.partIn, Nat.sub_eq_zero_of_le hbeyond, Nat.min_zero, Bytes.slice, List.take_zero]
  · rfl

end Source

/-! ### What is extracted -/

namespace Handle

variable {handle : Handle} {name : String} {tree : FileTree} {contents : VerifiedBytes}

/-- What a handle hands out is the delivery of what was located, and passed the checks. -/
theorem of_extract (h : handle.extract tree name = .ok contents) :
    ∃ container member, handle.locate name = .ok (container, member) ∧
      (tree.source container.file).entryData member = .ok ⟨contents.bytes, none⟩ ∧
      contents.bytes.length = member.uncompressedSize ∧
      crc32 contents.bytes = member.checksum := by
  obtain ⟨⟨container, member⟩, hlocate, h⟩ := exists_of_bind_eq_ok h
  obtain ⟨⟨bytes, fault⟩, hdata, hverified⟩ := exists_of_bind_eq_ok h
  rw [(Feed.flows_ofDelivery _).verified_eq, Feed.bytes_ofDelivery] at hverified
  obtain ⟨hfault, hlength, hchecksum, rfl⟩ := Feed.verdict_eq_ok_iff.1 hverified
  obtain rfl : fault = none := hfault
  exact ⟨container, member, hlocate, hdata, hlength, hchecksum⟩

/-- **What is extracted was all there**: the part of the declared data that is in the file, now and
when it was opened, is all of the entry. This is so for every file, handle and name. -/
theorem complete_of_extract (h : handle.extract tree name = .ok contents) :
    ∃ container member, handle.locate name = .ok (container, member) ∧
      member.CompleteIn (tree.contentsOf container.file.number) container.file.size
        contents.bytes := by
  obtain ⟨container, member, hlocate, hdata, hlength, hchecksum⟩ := of_extract h
  obtain ⟨hheader, hdecodes⟩ := Source.entryData_ofFile hdata
  have hstored : member.method = .stored → contents.bytes
      = member.partIn (tree.contentsOf container.file.number) container.file.size := by
    intro hmethod
    rw [hmethod] at hdecodes
    exact congrArg Delivery.bytes hdecodes
  have hsize : member.method = .stored → member.uncompressedSize = min member.compressedSize
      (member.room (tree.contentsOf container.file.number) container.file.size) := by
    intro hmethod
    rw [← hlength, hstored hmethod, Member.length_partIn]
  refine ⟨container, member, hlocate, ?_⟩
  constructor
  case header => exact hheader
  case decodes => exact hdecodes.symm
  case length => exact hlength
  case checksum => exact hchecksum
  case stored => exact fun hmethod => ⟨hstored hmethod, hsize hmethod⟩
  case whole =>
    intro hmethod hinside
    have hclamped := hsize hmethod
    rw [Member.room] at hclamped
    omega
  case deflated =>
    intro hmethod more
    rw [hmethod] at hdecodes
    exact inflate_append hdecodes.symm more

end Handle

/-! ### Files behind the end record

The comment of a container can hold anything, so a file can stand in it, at the very end. -/

namespace Workspace

/-- One of the handles extracts the contents of the member, from a file that holds these bytes and
has the size that it was opened with. -/
inductive Extracts (workspace : Workspace) (bytes : Bytes) (member : Member)
    (contents : VerifiedBytes) : Prop
  | intro {handleName : String} {handle : Handle} {container : OpenContainer}
      (hopen : workspace.handle? handleName = some handle)
      (hlocate : handle.locate contents.name = .ok (container, member))
      (hbytes : workspace.tree.contentsOf container.file.number = bytes)
      (hsize : container.file.size = bytes.length)
      (hextract : handle.extract workspace.tree contents.name = .ok contents)

/-- Where the local header of a file stands that is the comment of its container. -/
def behindEnd (file : PackedFile) : Nat :=
  Record.headerSize + (PathText.bytes file.name).length + EndRecord.size

/-- The directory says of the file that it has a thousand bytes of data. -/
def overlongMember (file : PackedFile) : Member :=
  { file.member (behindEnd file) with compressedSize := 1000 }

/-- The directory, the end record, and the file. -/
def overlongBytes (file : PackedFile) : Bytes :=
  let record := { file.record (behindEnd file) with compressedSize := 1000 }
  record.encode ++ (EndRecord.encode ⟨0, 0, 1, 1, .ofNat record.encode.length, 0,
    .ofNat file.localBytes.length⟩ ++ file.localBytes)

/-- The container is written and opened. -/
def overlong (file : PackedFile) : List Command :=
  [.startSession "s" (Settings.standard "/tmp") "",
    .writeFile "games.zip" (overlongBytes file),
    .openContainer "s" "games.zip" "h"]

theorem extracts_of_handle? {workspace : Workspace} (handleName : String) {bytes : Bytes}
    {member : Member} {contents : VerifiedBytes}
    (h : (workspace.handle? handleName).bind (fun handle =>
      (handle.locate contents.name).toOption.map fun found =>
        (found.2, workspace.tree.contentsOf found.1.file.number, found.1.file.size,
          handle.extract workspace.tree contents.name))
      = some (member, bytes, bytes.length, .ok contents)) :
    workspace.Extracts bytes member contents := by
  obtain ⟨handle, hopen, hfound⟩ := Option.bind_eq_some_iff.1 h
  obtain ⟨⟨container, found⟩, hlocate, hfound⟩ := Option.map_eq_some_iff.1 hfound
  simp only [Prod.mk.injEq] at hfound
  obtain ⟨rfl, hbytes, hsize, hextract⟩ := hfound
  exact .intro hopen (eq_ok_of_toOption hlocate) hbytes hsize hextract

theorem extracts_overlong_stored :
    ((ofTree .empty).run (overlong Packing.storedSample)).Extracts
      (overlongBytes Packing.storedSample) (overlongMember Packing.storedSample)
      ⟨"GAME.PRG", [1, 2, 3]⟩ :=
  extracts_of_handle? "h" (by decide +kernel)

theorem extracts_overlong_deflated :
    ((ofTree .empty).run (overlong Packing.deflatedSample)).Extracts
      (overlongBytes Packing.deflatedSample) (overlongMember Packing.deflatedSample)
      ⟨"docs/GAME.TXT", [0x68, 0x69]⟩ :=
  extracts_of_handle? "h" (by decide +kernel)

/-- The declared data of a compressed file reach past the end, and the stream ends in front of it. -/
theorem complete_of_extract_overlong :
    ∃ handle : Handle, ∃ tree : FileTree,
      handle.extract tree "docs/GAME.TXT" = .ok ⟨"docs/GAME.TXT", [0x68, 0x69]⟩ ∧
      (overlongBytes Packing.deflatedSample).length
        < LocalHeader.dataStart (overlongBytes Packing.deflatedSample) 81 + 1000 ∧
      (overlongMember Packing.deflatedSample).CompleteIn (overlongBytes Packing.deflatedSample)
        (overlongBytes Packing.deflatedSample).length [0x68, 0x69] := by
  cases extracts_overlong_deflated with
  | intro hopen hlocate hbytes hsize hextract =>
    obtain ⟨container, member, hfound, hcomplete⟩ := Handle.complete_of_extract hextract
    cases hlocate.symm.trans hfound
    rw [hbytes, hsize] at hcomplete
    exact ⟨_, _, hextract, by decide +kernel, hcomplete⟩

/-- **An entry can reach past the end and be extracted**, and the sizes of a stored one need not
agree. -/
theorem exists_overlong :
    (¬ ∀ commands bytes member contents,
      ((ofTree .empty).run commands).Extracts bytes member contents →
        LocalHeader.dataStart bytes member.headerOffset + member.compressedSize
          ≤ bytes.length) ∧
    ¬ ∀ commands bytes member contents,
      ((ofTree .empty).run commands).Extracts bytes member contents →
        member.method = .stored → member.compressedSize = member.uncompressedSize := by
  constructor
  · intro hinside
    have hend := hinside _ _ _ _ extracts_overlong_deflated
    exact absurd hend (by decide +kernel)
  · intro hagree
    exact absurd (hagree _ _ _ _ extracts_overlong_stored rfl) (by decide)

end Workspace

end RomArchive
