import RomArchive.Proofs.Lookup
import RomArchive.Proofs.Scratch.Writes

/-!
# The entry that is found and extracted

An entry to extract is chosen from the catalog, and what is handed on is its name. The name is then
looked up in the directory, from its first record on, whatever the catalog has left out. The record
that was chosen is the first one that can be read and has a wanted extension; the record that is
found is the first one of its name. So it may happen that a record of this name stands in front of
the chosen one, and then it cannot be read, or it would have been chosen itself. In that case
extraction fails on it. In every other case it is the chosen record that is extracted.

Nothing else on the way fails on a record that cannot be read, as long as the catalog passes over
such records.

## Main definitions

* `NeverUnreadable` — a result does not fail on a record that cannot be read
* `Cursor.Offers`, `Directory.Chooses` — a record may be chosen, and the first of these
* `Member.contents` — the contents of a member, without any lookup
* `Session.Delivers` — what comes of finding and extracting an entry
* `Session.FindCourse` — the courses that this can take

## Main results

* `Directory.findMedia?_eq_some_iff` — the entry that is found belongs to the chosen record
* `Directory.Chooses.firstNamed_or_hidden` — it is the first of its name, or hidden
* `Session.findCourse` — finding and extracting takes one of three courses
* `Session.delivers` — what is extracted is the chosen record, unless it is hidden
-/

namespace RomArchive

/-! ### Failures on records -/

section Results

variable {α β : Type}

/-- Is this the failure that a record cannot be read? -/
def Failure.isUnreadable : Failure → Bool
  | .unreadableEntry _ _ => true
  | _ => false

/-- A result does not fail on a record that cannot be read. -/
def NeverUnreadable (result : Except Failure α) : Prop :=
  ∀ failure, result = .error failure → failure.isUnreadable = false

theorem neverUnreadable_ok (a : α) : NeverUnreadable (.ok a) := by
  intro failure h
  cases h

theorem neverUnreadable_error {failure : Failure} (h : failure.isUnreadable = false) :
    NeverUnreadable (.error failure : Except Failure α) := by
  rintro _ ⟨⟩
  exact h

theorem NeverUnreadable.ne {result : Except Failure α} (h : NeverUnreadable result)
    {name : String} {fault : RecordFault} : result ≠ .error (.unreadableEntry name fault) := by
  intro heq
  cases h _ heq

theorem NeverUnreadable.bind {first : Except Failure α} {next : α → Except Failure β}
    (hfirst : NeverUnreadable first) (hnext : ∀ a, NeverUnreadable (next a)) :
    NeverUnreadable (first >>= next) := by
  cases first with
  | error failure => exact neverUnreadable_error (hfirst failure rfl)
  | ok a => exact hnext a

theorem NeverUnreadable.ite {p : Prop} [Decidable p] {first second : Except Failure α}
    (hthen : NeverUnreadable first) (helse : NeverUnreadable second) :
    NeverUnreadable (if p then first else second) := by
  by_cases hp : p
  · rwa [if_pos hp]
  · rwa [if_neg hp]

theorem neverUnreadable_mapError_device (result : Except DeviceFault α) :
    NeverUnreadable (result.mapError .device) := by
  cases result with
  | error fault => exact neverUnreadable_error rfl
  | ok a => exact neverUnreadable_ok a

theorem neverUnreadable_checked (delivery : Delivery) : NeverUnreadable delivery.checked := by
  rw [Delivery.checked]
  cases delivery.fault with
  | some fault => exact neverUnreadable_error rfl
  | none => exact neverUnreadable_ok _

theorem neverUnreadable_padded (delivery : Delivery) (count : Nat) :
    NeverUnreadable (delivery.padded count) :=
  (neverUnreadable_checked delivery).bind fun _ => neverUnreadable_ok _

end Results

namespace Source

variable (source : Source)

theorem neverUnreadable_endRecordAtEnd : NeverUnreadable source.endRecordAtEnd := by
  rw [endRecordAtEnd]
  refine .ite ((neverUnreadable_padded _ _).bind fun bytes => ?_) (neverUnreadable_ok _)
  exact .ite (neverUnreadable_ok _) (neverUnreadable_ok _)

theorem neverUnreadable_endRecordBeforeComment :
    NeverUnreadable source.endRecordBeforeComment := by
  rw [endRecordBeforeComment]
  refine (neverUnreadable_checked _).bind fun bytes => ?_
  cases EndRecord.lastBeforeComment bytes with
  | some place => exact neverUnreadable_ok _
  | none => exact neverUnreadable_error rfl

theorem neverUnreadable_endRecord : NeverUnreadable source.endRecord := by
  rw [endRecord]
  refine source.neverUnreadable_endRecordAtEnd.bind fun found => ?_
  cases found with
  | some place => exact neverUnreadable_ok _
  | none => exact source.neverUnreadable_endRecordBeforeComment

theorem neverUnreadable_wideEndRecord (endOffset : Nat) :
    NeverUnreadable (source.wideEndRecord endOffset) := by
  rw [wideEndRecord]
  refine .ite (neverUnreadable_error rfl) ((neverUnreadable_padded _ _).bind fun front => ?_)
  refine NeverUnreadable.bind ?_ fun locator => (neverUnreadable_checked _).bind fun bytes => ?_
  · exact .ite (neverUnreadable_ok _) (neverUnreadable_error rfl)
  · exact .ite (neverUnreadable_ok _) (neverUnreadable_error rfl)

theorem neverUnreadable_directoryExtent (place : EndRecord.Place) :
    NeverUnreadable (source.directoryExtent place) := by
  rw [directoryExtent]
  refine .ite ((source.neverUnreadable_wideEndRecord _).bind fun record => ?_) ?_
  · exact .ite (neverUnreadable_error rfl) (neverUnreadable_ok _)
  · exact .ite (neverUnreadable_error rfl) (neverUnreadable_ok _)

/-- Loading a directory does not look at what its records say. -/
theorem neverUnreadable_directory : NeverUnreadable source.directory := by
  refine source.neverUnreadable_endRecord.bind fun place => ?_
  refine (source.neverUnreadable_directoryExtent place).bind fun extent => ?_
  refine .ite (neverUnreadable_error rfl) ?_
  exact (neverUnreadable_checked _).bind fun bytes => neverUnreadable_ok _

end Source

theorem Member.neverUnreadable_supported (member : Member) :
    NeverUnreadable member.supported := by
  refine .ite (neverUnreadable_error rfl) ?_
  cases member.method with
  | stored => exact neverUnreadable_ok _
  | deflate => exact neverUnreadable_ok _
  | unknown number => exact neverUnreadable_error rfl

theorem Source.neverUnreadable_entryData (source : Source) (member : Member) :
    NeverUnreadable (source.entryData member) := by
  have hoffset : NeverUnreadable (source.dataOffset member) :=
    (neverUnreadable_checked _).bind fun _ =>
      .ite (neverUnreadable_error rfl) (neverUnreadable_ok _)
  have hraw : NeverUnreadable (source.rawData member) :=
    hoffset.bind fun _ => neverUnreadable_checked _
  exact member.neverUnreadable_supported.bind fun _ => hraw.bind fun _ => neverUnreadable_ok _

theorem Feed.neverUnreadable_verified (feed : Feed) (name : String) (declared : Nat)
    (expected : UInt32) : NeverUnreadable (feed.verified name declared expected) := by
  refine (neverUnreadable_mapError_device _).bind fun taken => ?_
  have hlast : ∀ surplus : Nat, NeverUnreadable (if taken.1.length ≠ declared ∨ surplus ≠ 0
      then throw (.sizeMismatch name declared (taken.1.length + surplus))
      else if crc32 taken.1 ≠ expected then throw (.crcMismatch name expected (crc32 taken.1))
      else pure ⟨name, taken.1⟩ : Except Failure VerifiedBytes) :=
    fun surplus => .ite (neverUnreadable_error rfl)
      (.ite (neverUnreadable_error rfl) (neverUnreadable_ok _))
  refine .ite (NeverUnreadable.bind ?_ hlast) ((neverUnreadable_ok 0).bind hlast)
  cases taken.2.read 1 with
  | error fault => exact neverUnreadable_error rfl
  | ok probe => exact neverUnreadable_ok _

theorem Scratch.Course.neverUnreadable {scratch later : Scratch} {tree files : FileTree}
    {contents : VerifiedBytes} {result : Except Failure String}
    (h : scratch.Course tree contents result later files) : NeverUnreadable result := by
  cases h with
  | nameless hbase => exact neverUnreadable_error rfl
  | rootless hbase hroot => exact neverUnreadable_error rfl
  | refused hbase hroot hplace =>
    rcases failure_of_place hplace with rfl | ⟨fault, rfl⟩
    · exact neverUnreadable_error rfl
    · exact neverUnreadable_error rfl
  | written hbase hroot hplace => exact neverUnreadable_ok _

theorem OpenContainer.neverUnreadable_capture (tree : FileTree) (path : String) :
    NeverUnreadable (capture tree .skip path).1 := by
  rw [capture]
  by_cases hname : EntryName.isContainer path = false
  · rw [if_pos hname]
    exact neverUnreadable_error rfl
  · rw [if_neg hname]
    cases tree.openFile path with
    | error fault => exact neverUnreadable_error rfl
    | ok file =>
      cases hload : (tree.source file).directory with
      | error failure =>
        simp only [hload]
        exact neverUnreadable_error ((tree.source file).neverUnreadable_directory failure hload)
      | ok directory =>
        simp only [hload, directory.outcome_skip]
        exact neverUnreadable_ok _

/-! ### The record that is chosen -/

/-- The record at a position can be read, as a member that is no directory and has a wanted
extension. -/
structure Cursor.Offers (cursor : Cursor) (wanted : Option (List String)) (member : Member) :
    Prop where
  readable : cursor.record.member = .ok member
  notDirectory : member.isDirectory = false
  selected : EntryName.isSelected wanted member.name = true

/-- The record at a position is the first that can be read as a member which is no directory and
has a wanted extension. -/
def Directory.Chooses (directory : Directory) (wanted : Option (List String)) (cursor : Cursor)
    (member : Member) : Prop :=
  ∃ earlier later, directory.visited = earlier ++ cursor :: later ∧
    (∀ other ∈ earlier, ∀ offered, ¬ other.Offers wanted offered) ∧ cursor.Offers wanted member

namespace Cursor

variable {cursor other : Cursor} {wanted : Option (List String)} {member offered : Member}

theorem Offers.text (h : cursor.Offers wanted member) : cursor.record.text = member.name :=
  Record.text_of_member h.readable

/-- Whether a record that can be read may be chosen depends on its name only. -/
theorem Offers.of_name (h : cursor.Offers wanted member)
    (hother : other.record.member = .ok offered) (hname : other.record.text = member.name) :
    other.Offers wanted offered := by
  have hsame : offered.name = member.name := (Record.text_of_member hother).symm.trans hname
  refine ⟨hother, ?_, hsame ▸ h.selected⟩
  rw [Member.isDirectory, hsame]
  exact h.notDirectory

/-- A name with an extension is not empty. -/
theorem Offers.name_ne (h : cursor.Offers wanted member) : member.name ≠ "" := by
  intro hname
  have hselected := h.selected
  rw [hname] at hselected
  cases hselected

/-- What a catalog is searched for. -/
theorem offers_iff : (cursor.listed?.any fun entry =>
      !entry.isDirectory && EntryName.isSelected wanted entry.name) = true ↔
    ∃ member, cursor.Offers wanted member := by
  rw [Option.any_eq_true]
  constructor
  · rintro ⟨entry, hentry, htest⟩
    obtain ⟨member, hmember, rfl⟩ := listed?_eq_some_iff.1 hentry
    rw [Bool.and_eq_true, Bool.not_eq_true'] at htest
    exact ⟨member, hmember, htest.1, htest.2⟩
  · rintro ⟨member, hmember, hdirectory, hselected⟩
    refine ⟨member.catalogEntry, listed?_eq_some_iff.2 ⟨member, hmember, rfl⟩, ?_⟩
    rw [Bool.and_eq_true, Bool.not_eq_true']
    exact ⟨hdirectory, hselected⟩

end Cursor

namespace Directory

variable {directory : Directory} {wanted : Option (List String)} {cursor : Cursor}
  {member : Member}

theorem Chooses.offers (h : directory.Chooses wanted cursor member) :
    cursor.Offers wanted member := by
  obtain ⟨_, _, _, _, hoffers⟩ := h
  exact hoffers

/-- **The entry that is found belongs to the chosen record.** -/
theorem findMedia?_eq_some_iff {entry : CatalogEntry} :
    findMedia? (directory.visited.filterMap Cursor.listed?) wanted = some entry ↔
      ∃ cursor member, directory.Chooses wanted cursor member ∧ member.catalogEntry = entry := by
  rw [findMedia?, List.find?_filterMap, Option.bind_eq_some_iff]
  constructor
  · rintro ⟨cursor, hfind, hentry⟩
    obtain ⟨htest, earlier, later, hvisited, hearlier⟩ := List.find?_eq_some_iff_append.1 hfind
    obtain ⟨member, hoffers⟩ := Cursor.offers_iff.1 htest
    obtain ⟨same, hsame, rfl⟩ := Cursor.listed?_eq_some_iff.1 hentry
    cases hsame.symm.trans hoffers.readable
    refine ⟨cursor, member, ⟨earlier, later, hvisited, fun other hother offered hother' => ?_,
      hoffers⟩, rfl⟩
    have hno := hearlier other hother
    rw [Cursor.offers_iff.2 ⟨offered, hother'⟩] at hno
    cases hno
  · rintro ⟨cursor, member, ⟨earlier, later, hvisited, hearlier, hoffers⟩, rfl⟩
    refine ⟨cursor, List.find?_eq_some_iff_append.2 ⟨Cursor.offers_iff.2 ⟨member, hoffers⟩, earlier,
      later, hvisited, fun other hother => ?_⟩, Cursor.listed?_eq_some_iff.2 ⟨member,
      hoffers.readable, rfl⟩⟩
    rw [Bool.not_eq_true', Bool.eq_false_iff]
    intro htest
    obtain ⟨offered, hoffered⟩ := Cursor.offers_iff.1 htest
    exact hearlier other hother offered hoffered

/-- **The chosen record is the first of its name, or it is hidden**: the first record of that name
cannot be read. -/
theorem Chooses.firstNamed_or_hidden (h : directory.Chooses wanted cursor member) :
    directory.FirstNamed member.name cursor ∨ ∃ first fault,
      directory.FirstNamed member.name first ∧ first.record.metadata = .error fault := by
  obtain ⟨earlier, later, hvisited, hearlier, hoffers⟩ := h
  cases hfind : earlier.find? fun other => other.record.text == member.name with
  | none =>
    refine Or.inl ⟨earlier, later, hvisited, fun other hother hname => ?_, hoffers.text⟩
    exact List.find?_eq_none.1 hfind other hother (beq_iff_eq.2 hname)
  | some first =>
    obtain ⟨hname, before, after, rfl, hbefore⟩ := List.find?_eq_some_iff_append.1 hfind
    have hfirst : directory.FirstNamed member.name first := by
      refine ⟨before, after ++ cursor :: later, ?_, fun other hother => ?_, beq_iff_eq.1 hname⟩
      · rw [hvisited, List.append_assoc, List.cons_append]
      · simpa using hbefore other hother
    -- If this one could be read, it would have been chosen before the other.
    cases hmember : first.record.member with
    | ok offered =>
      have hoffered := hoffers.of_name hmember hfirst.text
      exact absurd hoffered (hearlier first (List.mem_append_right _ List.mem_cons_self) offered)
    | error failure =>
      obtain ⟨fault, -, hmetadata⟩ := Record.metadata_of_failure hmember
      exact Or.inr ⟨first, fault, hfirst, hmetadata⟩

end Directory

/-! ### What is extracted -/

/-- The contents of a member, when its record was found without a lookup. -/
def Member.contents (member : Member) (source : Source) (limit : Nat) :
    Except Failure VerifiedBytes :=
  if limit < member.uncompressedSize then
    .error (.tooLarge member.name member.uncompressedSize limit)
  else do
    let data ← source.entryData member
    (Feed.ofDelivery data).verified member.name member.uncompressedSize member.checksum

theorem Member.neverUnreadable_contents (member : Member) (source : Source) (limit : Nat) :
    NeverUnreadable (member.contents source limit) :=
  .ite (neverUnreadable_error rfl) ((source.neverUnreadable_entryData member).bind fun _ =>
    Feed.neverUnreadable_verified _ _ _ _)

namespace Handle

variable {handle : Handle} {container : OpenContainer} {member : Member} {name : String}

theorem entries_of_container (hopen : handle.container = some container) :
    handle.entries = .ok container.catalog := by
  rw [entries, opened, hopen]
  rfl

theorem findMedia_of_none {wanted : Option (List String)}
    (hopen : handle.container = some container)
    (hnone : findMedia? container.catalog wanted = none) :
    handle.findMedia wanted = .error (.noMedia handle.sourcePath) := by
  simp only [findMedia, entries_of_container hopen, bind, Except.bind, hnone]
  rfl

theorem findMedia_of_some {wanted : Option (List String)} {entry : CatalogEntry}
    (hopen : handle.container = some container)
    (hentry : findMedia? container.catalog wanted = some entry) :
    handle.findMedia wanted = .ok entry.name := by
  simp only [findMedia, entries_of_container hopen, bind, Except.bind, hentry]
  rfl

theorem extract_of_directory_error {failure : Failure} (hopen : handle.container = some container)
    (hname : name ≠ "") (hlocate : container.directory.locate name = .error failure)
    (tree : FileTree) : handle.extract tree name = .error failure := by
  rw [extract, locate, if_neg hname, opened, hopen]
  show ((container.directory.locate name >>= _) >>= _) = _
  rw [hlocate]
  rfl

/-- What an open handle extracts is the contents of what its directory has under the name. -/
theorem extract_of_directory (hopen : handle.container = some container) (hname : member.name ≠ "")
    (hlocate : container.directory.locate member.name = .ok member)
    (hdirectory : member.isDirectory = false) (tree : FileTree) :
    handle.extract tree member.name
      = member.contents (tree.source container.file) handle.maxEntrySize := by
  have hfound : handle.locate member.name = if handle.maxEntrySize < member.uncompressedSize
      then .error (.tooLarge member.name member.uncompressedSize handle.maxEntrySize)
      else .ok (container, member) := by
    rw [locate, if_neg hname, opened, hopen]
    show (container.directory.locate member.name >>= _) = _
    rw [hlocate]
    show (if member.isDirectory = true then _ else _) = _
    rw [hdirectory]
    rfl
  rw [extract, hfound, Member.contents]
  by_cases hsize : handle.maxEntrySize < member.uncompressedSize
  · rw [if_pos hsize, if_pos hsize]
    rfl
  · rw [if_neg hsize, if_neg hsize]
    rfl

end Handle

namespace OpenContainer

variable {tree : FileTree} {path : String} {container : OpenContainer}

/-- A container that is opened while unreadable records are passed over lists what can be read. -/
theorem catalog_of_capture (h : (capture tree .skip path).1 = .ok container) :
    container.catalog = container.directory.visited.filterMap Cursor.listed? := by
  rw [capture] at h
  by_cases hname : EntryName.isContainer path = false
  · rw [if_pos hname] at h
    cases h
  · rw [if_neg hname] at h
    cases hopen : tree.openFile path with
    | error fault =>
      rw [hopen] at h
      cases h
    | ok file =>
      cases hload : (tree.source file).directory with
      | error failure =>
        simp only [hopen, hload] at h
        cases h
      | ok directory =>
        simp only [hopen, hload, directory.outcome_skip] at h
        cases h
        rfl

/-- An entry is found in its catalog exactly if it was captured from the chosen record. -/
theorem findMedia?_iff_of_capture {wanted : Option (List String)} {entry : CatalogEntry}
    (h : (capture tree .skip path).1 = .ok container) :
    findMedia? container.catalog wanted = some entry ↔ ∃ cursor member,
      container.directory.Chooses wanted cursor member ∧ member.catalogEntry = entry := by
  rw [catalog_of_capture h]
  exact Directory.findMedia?_eq_some_iff

end OpenContainer

namespace Session

variable {session : Session} {tree : FileTree} {path : String} {wanted : Option (List String)}
  {container : OpenContainer} {cursor : Cursor} {member : Member}

/-- What comes of contents that are to be written to a scratch file, or of the failure to get at
them. -/
def deliver (session : Session) (tree : FileTree) (contents : Except Failure VerifiedBytes) :
    Outcome String :=
  match contents with
  | .error failure => ⟨.error failure, session, tree, []⟩
  | .ok contents => session.writeScratch tree contents

theorem neverUnreadable_deliver {contents : Except Failure VerifiedBytes}
    (h : NeverUnreadable contents) : NeverUnreadable (session.deliver tree contents).result := by
  cases contents with
  | error failure => exact neverUnreadable_error (h failure rfl)
  | ok contents =>
    rw [deliver, Scratch.writeScratch_eq]
    exact (Scratch.course_write session.scratch tree contents).neverUnreadable

/-- Finding and extracting an entry, once the container was opened. -/
theorem findAndExtract_of_capture (wanted : Option (List String))
    (hcapture : (OpenContainer.capture tree session.settings.unreadable path).1 = .ok container) :
    (session.findAndExtract tree path wanted).result = (session.issue.extractMedia tree
        (Workspace.newHandle session path container) wanted).result ∧
      (session.findAndExtract tree path wanted).tree = (session.issue.extractMedia tree
        (Workspace.newHandle session path container) wanted).tree := by
  obtain ⟨warnings, hpair⟩ : ∃ warnings, OpenContainer.capture tree session.settings.unreadable path
      = (.ok container, warnings) := ⟨_, Prod.ext hcapture rfl⟩
  simp only [findAndExtract, openContainer, hpair]
  exact ⟨rfl, rfl⟩

theorem findAndExtract_of_capture_error {failure : Failure}
    (hcapture : (OpenContainer.capture tree session.settings.unreadable path).1 = .error failure) :
    (session.findAndExtract tree path wanted).result = .error failure := by
  obtain ⟨warnings, hpair⟩ : ∃ warnings, OpenContainer.capture tree session.settings.unreadable path
      = (.error failure, warnings) := ⟨_, Prod.ext hcapture rfl⟩
  simp only [findAndExtract, openContainer, hpair]

/-- There is nothing to extract. -/
theorem findAndExtract_of_none
    (hcapture : (OpenContainer.capture tree session.settings.unreadable path).1 = .ok container)
    (hnone : findMedia? container.catalog wanted = none) :
    (session.findAndExtract tree path wanted).result = .error (.noMedia path) := by
  have hmedia : (Workspace.newHandle session path container).findMedia wanted
      = .error (.noMedia path) := Handle.findMedia_of_none rfl hnone
  rw [(findAndExtract_of_capture wanted hcapture).1, extractMedia, hmedia]

/-- The entry that was found is extracted under its name. -/
theorem findAndExtract_of_some {entry : CatalogEntry}
    (hcapture : (OpenContainer.capture tree session.settings.unreadable path).1 = .ok container)
    (hentry : findMedia? container.catalog wanted = some entry)
    {contents : Except Failure VerifiedBytes}
    (hcontents : (Workspace.newHandle session path container).extract tree entry.name = contents) :
    (session.findAndExtract tree path wanted).result = (session.deliver tree contents).result ∧
      (session.findAndExtract tree path wanted).tree = (session.deliver tree contents).tree := by
  have hmedia : (Workspace.newHandle session path container).findMedia wanted
      = .ok entry.name := Handle.findMedia_of_some rfl hentry
  obtain ⟨hresult, htree⟩ := findAndExtract_of_capture wanted hcapture
  rw [hresult, htree, extractMedia, hmedia]
  simp only [extractToScratch, hcontents]
  cases contents with
  | error failure => exact ⟨rfl, rfl⟩
  | ok contents =>
    simp only [deliver, Scratch.writeScratch_eq]
    exact ⟨rfl, rfl⟩

/-- What comes of finding and extracting an entry of the container at a path. -/
structure Delivers (session : Session) (tree : FileTree) (path : String)
    (wanted : Option (List String)) : Prop where
  /-- The entry that is found in the catalog was captured from the chosen record. -/
  captured : ∀ container entry, (OpenContainer.capture tree .skip path).1 = .ok container →
    (findMedia? container.catalog wanted = some entry ↔ ∃ cursor member,
      container.directory.Chooses wanted cursor member ∧ member.catalogEntry = entry)
  /-- The chosen record is extracted if it is the first of its name, and otherwise the first of its
  name is in the way. -/
  chosen : ∀ container cursor member, (OpenContainer.capture tree .skip path).1 = .ok container →
    container.directory.Chooses wanted cursor member →
    (container.directory.FirstNamed member.name cursor ∧
      (session.findAndExtract tree path wanted).result = (session.deliver tree
        (member.contents (tree.source container.file) session.settings.maxEntrySize)).result ∧
      (session.findAndExtract tree path wanted).tree = (session.deliver tree
        (member.contents (tree.source container.file) session.settings.maxEntrySize)).tree) ∨
    ∃ first fault, container.directory.FirstNamed member.name first ∧
      first.record.metadata = .error fault ∧
      (session.findAndExtract tree path wanted).result
        = .error (.unreadableEntry member.name fault) ∧
      (session.findAndExtract tree path wanted).tree = tree
  /-- Nothing else fails on a record that cannot be read. -/
  hidden : ∀ name fault,
    (session.findAndExtract tree path wanted).result = .error (.unreadableEntry name fault) ↔
      ∃ container cursor member first, (OpenContainer.capture tree .skip path).1 = .ok container ∧
        container.directory.Chooses wanted cursor member ∧ member.name = name ∧
        container.directory.FirstNamed name first ∧ first.record.metadata = .error fault
  /-- Whatever is extracted is the contents of the chosen record. -/
  extracted : ∀ scratchPath,
    (session.findAndExtract tree path wanted).result = .ok scratchPath →
      ∃ container cursor member contents,
        (OpenContainer.capture tree .skip path).1 = .ok container ∧
        container.directory.Chooses wanted cursor member ∧
        member.contents (tree.source container.file) session.settings.maxEntrySize
          = .ok contents ∧
        (session.writeScratch tree contents).result = .ok scratchPath ∧
        (session.findAndExtract tree path wanted).tree = (session.writeScratch tree contents).tree

/-- If the first record of the chosen name cannot be read, that is what comes of it. -/
theorem findAndExtract_of_hidden (hskip : session.settings.unreadable = .skip)
    (hcapture : (OpenContainer.capture tree .skip path).1 = .ok container)
    (hchosen : container.directory.Chooses wanted cursor member) {first : Cursor}
    {fault : RecordFault} (hfirst : container.directory.FirstNamed member.name first)
    (hfault : first.record.metadata = .error fault) :
    (session.findAndExtract tree path wanted).result = .error (.unreadableEntry member.name fault) ∧
      (session.findAndExtract tree path wanted).tree = tree := by
  have hentry : findMedia? container.catalog wanted = some member.catalogEntry :=
    (OpenContainer.findMedia?_iff_of_capture hcapture).2 ⟨cursor, member, hchosen, rfl⟩
  have hlocate : container.directory.locate member.name
      = .error (.unreadableEntry member.name fault) :=
    Directory.locate_eq_unreadable_iff.2 ⟨first, hfirst, hfault⟩
  exact findAndExtract_of_some (hskip.symm ▸ hcapture) hentry
    (Handle.extract_of_directory_error rfl hchosen.offers.name_ne hlocate tree)

/-- If it is the chosen record, that is extracted. -/
theorem findAndExtract_of_firstNamed (hskip : session.settings.unreadable = .skip)
    (hcapture : (OpenContainer.capture tree .skip path).1 = .ok container)
    (hchosen : container.directory.Chooses wanted cursor member)
    (hfirst : container.directory.FirstNamed member.name cursor) :
    (session.findAndExtract tree path wanted).result = (session.deliver tree
        (member.contents (tree.source container.file) session.settings.maxEntrySize)).result ∧
      (session.findAndExtract tree path wanted).tree = (session.deliver tree
        (member.contents (tree.source container.file) session.settings.maxEntrySize)).tree := by
  have hentry : findMedia? container.catalog wanted = some member.catalogEntry :=
    (OpenContainer.findMedia?_iff_of_capture hcapture).2 ⟨cursor, member, hchosen, rfl⟩
  have hoffers := hchosen.offers
  exact findAndExtract_of_some (hskip.symm ▸ hcapture) hentry
    (Handle.extract_of_directory rfl hoffers.name_ne (hfirst.locate.trans hoffers.readable)
      hoffers.notDirectory tree)

/-- A record is chosen, or it does not come to a lookup. -/
theorem chooses_or_fails (hskip : session.settings.unreadable = .skip) (tree : FileTree)
    (path : String) (wanted : Option (List String)) :
    (∃ container cursor member, (OpenContainer.capture tree .skip path).1 = .ok container ∧
      container.directory.Chooses wanted cursor member) ∨
    ∃ failure, (session.findAndExtract tree path wanted).result = .error failure ∧
      failure.isUnreadable = false := by
  cases hcapture : (OpenContainer.capture tree .skip path).1 with
  | error failure =>
    exact Or.inr ⟨failure, findAndExtract_of_capture_error (hskip.symm ▸ hcapture),
      OpenContainer.neverUnreadable_capture tree path failure hcapture⟩
  | ok container =>
    cases hfind : findMedia? container.catalog wanted with
    | none => exact Or.inr ⟨_, findAndExtract_of_none (hskip.symm ▸ hcapture) hfind, rfl⟩
    | some entry =>
      obtain ⟨cursor, member, hchosen, -⟩ :=
        (OpenContainer.findMedia?_iff_of_capture hcapture).1 hfind
      exact Or.inl ⟨container, cursor, member, rfl, hchosen⟩

/-- The three courses that it can take, by what comes of it. -/
inductive FindCourse (session : Session) (tree : FileTree) (path : String)
    (wanted : Option (List String)) : Prop
  /-- It does not come to a lookup. -/
  | failed {failure : Failure}
      (hresult : (session.findAndExtract tree path wanted).result = .error failure)
      (hreadable : failure.isUnreadable = false)
  /-- The chosen record is extracted. -/
  | delivered {container : OpenContainer} {cursor : Cursor} {member : Member}
      (hcapture : (OpenContainer.capture tree .skip path).1 = .ok container)
      (hchosen : container.directory.Chooses wanted cursor member)
      (hresult : (session.findAndExtract tree path wanted).result = (session.deliver tree
        (member.contents (tree.source container.file) session.settings.maxEntrySize)).result)
      (htree : (session.findAndExtract tree path wanted).tree = (session.deliver tree
        (member.contents (tree.source container.file) session.settings.maxEntrySize)).tree)
  /-- Another record of its name is in the way. -/
  | hidden {container : OpenContainer} {cursor first : Cursor} {member : Member}
      {fault : RecordFault} (hcapture : (OpenContainer.capture tree .skip path).1 = .ok container)
      (hchosen : container.directory.Chooses wanted cursor member)
      (hfirst : container.directory.FirstNamed member.name first)
      (hfault : first.record.metadata = .error fault)
      (hresult : (session.findAndExtract tree path wanted).result
        = .error (.unreadableEntry member.name fault))

theorem findCourse (hskip : session.settings.unreadable = .skip) (tree : FileTree) (path : String)
    (wanted : Option (List String)) : session.FindCourse tree path wanted := by
  rcases chooses_or_fails hskip tree path wanted with
    ⟨container, cursor, member, hcapture, hchosen⟩ | ⟨failure, hresult, hreadable⟩
  · rcases hchosen.firstNamed_or_hidden with hfirst | ⟨first, fault, hfirst, hfault⟩
    · obtain ⟨hresult, htree⟩ := findAndExtract_of_firstNamed hskip hcapture hchosen hfirst
      exact .delivered hcapture hchosen hresult htree
    · obtain ⟨hresult, -⟩ := findAndExtract_of_hidden hskip hcapture hchosen hfirst hfault
      exact .hidden hcapture hchosen hfirst hfault hresult
  · exact .failed hresult hreadable

/-- **What is extracted is the chosen record, unless it is hidden**: whatever the files hold and
whatever is wanted, as long as the catalog passes over records that cannot be read. -/
theorem delivers (hskip : session.settings.unreadable = .skip) (tree : FileTree) (path : String)
    (wanted : Option (List String)) : session.Delivers tree path wanted where
  captured := fun container entry hcapture => OpenContainer.findMedia?_iff_of_capture hcapture
  chosen := by
    intro container cursor member hcapture hchosen
    rcases hchosen.firstNamed_or_hidden with hfirst | ⟨first, fault, hfirst, hfault⟩
    · exact Or.inl ⟨hfirst, findAndExtract_of_firstNamed hskip hcapture hchosen hfirst⟩
    · exact Or.inr ⟨first, fault, hfirst, hfault,
        findAndExtract_of_hidden hskip hcapture hchosen hfirst hfault⟩
  hidden := by
    intro name fault
    constructor
    · intro h
      cases findCourse hskip tree path wanted with
      | failed hresult hreadable =>
        cases hresult.symm.trans h
        cases hreadable
      | @delivered container _ member _ _ hresult _ =>
        have hnever := member.neverUnreadable_contents (tree.source container.file)
          session.settings.maxEntrySize
        exact absurd (hresult.symm.trans h) (neverUnreadable_deliver hnever).ne
      | hidden hcapture hchosen hfirst hfault hresult =>
        cases hresult.symm.trans h
        exact ⟨_, _, _, _, hcapture, hchosen, rfl, hfirst, hfault⟩
    · rintro ⟨container, cursor, member, first, hcapture, hchosen, rfl, hfirst, hfault⟩
      exact (findAndExtract_of_hidden hskip hcapture hchosen hfirst hfault).1
  extracted := by
    intro scratchPath h
    cases findCourse hskip tree path wanted with
    | failed hresult hreadable => cases hresult.symm.trans h
    | @delivered container _ member hcapture hchosen hresult htree =>
      rw [hresult] at h
      cases hcontents : member.contents (tree.source container.file)
          session.settings.maxEntrySize with
      | error failure =>
        rw [hcontents] at h
        cases h
      | ok contents =>
        rw [hcontents] at h htree
        exact ⟨container, _, member, contents, hcapture, hchosen, hcontents, h, htree⟩
    | hidden hcapture hchosen hfirst hfault hresult => cases hresult.symm.trans h

/-! ### A hidden record -/

/-- Two records of one name. The first says that its size stands in its extra area, which is
empty. -/
def hidingRecords : List Record :=
  [{ Packing.storedSample.record 0 with uncompressedSize := 0xFFFFFFFF },
    Packing.storedSample.record 0]

/-- A container with these records in its directory. -/
def hidingBytes : Bytes :=
  Packing.storedSample.localBytes ++ (hidingRecords.flatMap Record.encode ++ EndRecord.encode {
    disk := 0
    directoryDisk := 0
    diskEntries := 2
    totalEntries := 2
    directorySize := .ofNat (hidingRecords.flatMap Record.encode).length
    directoryOffset := .ofNat Packing.storedSample.localBytes.length
    commentLength := 0 })

def hidingTree : FileTree :=
  FileTree.empty.provide "games.zip" hidingBytes

theorem findAndExtract_hidingTree :
    ((Scratch.sampleSession .overwrite).findAndExtract hidingTree "games.zip" none).result
      = .error (.unreadableEntry "GAME.PRG" .missingWideField) := by
  decide +kernel

/-- Passing over records that cannot be read does not keep extraction from failing on one. -/
theorem not_forall_neverUnreadable :
    ¬ ∀ (session : Session) (tree : FileTree) (path : String) (wanted : Option (List String)),
      session.settings.unreadable = .skip →
        NeverUnreadable (session.findAndExtract tree path wanted).result := by
  intro h
  have hnever := h (Scratch.sampleSession .overwrite) hidingTree "games.zip" none rfl
  exact absurd findAndExtract_hidingTree hnever.ne

/-- An entry is extracted from one container, and hidden in another. -/
theorem delivers_sample :
    (∃ container cursor member contents,
      (OpenContainer.capture Scratch.sampleTree .skip "games.zip").1 = .ok container ∧
      container.directory.Chooses none cursor member ∧
      member.contents (Scratch.sampleTree.source container.file) 1000 = .ok contents ∧
      ((Scratch.sampleSession .overwrite).writeScratch Scratch.sampleTree contents).result
        = .ok "out/temp_1_GAME.PRG") ∧
    ∃ container cursor member first,
      (OpenContainer.capture hidingTree .skip "games.zip").1 = .ok container ∧
      container.directory.Chooses none cursor member ∧ member.name = "GAME.PRG" ∧
      container.directory.FirstNamed "GAME.PRG" first ∧
      first.record.metadata = .error .missingWideField := by
  have hpath : ((Scratch.sampleSession .overwrite).findAndExtract Scratch.sampleTree "games.zip"
      none).result = .ok "out/temp_1_GAME.PRG" := by decide +kernel
  have hskip : (Scratch.sampleSession .overwrite).settings.unreadable = .skip := rfl
  constructor
  · obtain ⟨container, cursor, member, contents, hcapture, hchosen, hcontents, hresult, -⟩ :=
      (delivers hskip Scratch.sampleTree "games.zip" none).extracted _ hpath
    exact ⟨container, cursor, member, contents, hcapture, hchosen, hcontents, hresult⟩
  · have hhidden := (delivers hskip hidingTree "games.zip" none).hidden "GAME.PRG" .missingWideField
    exact hhidden.1 findAndExtract_hidingTree

end Session

end RomArchive
