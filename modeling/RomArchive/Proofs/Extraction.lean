import RomArchive.Proofs.Registry.Runs
import RomArchive.Proofs.RoundTrip

/-!
# What can be extracted

A handle keeps the directory that was there when its container was opened, and the size that its
session allowed then. Nothing that happens later changes either of them: commands open handles and
close them, and that is all. The file itself may be overwritten, cut off or removed at any time, and
what is read from it is believed only as far as the captured record vouches for it.

## Main definitions

* `Record.Vouches` — contents are those that a record declares
* `Directory.Yields` — contents are those that the first record with their name declares
* `Workspace.Opens` — a command opens a handle

## Main results

* `Handle.yields_of_extract` — what a handle hands out, its directory declares
* `Workspace.opens_of_run` — an open handle comes from a command that opened it
* `Workspace.extract_provenance` — whatever is extracted was declared when the container was opened
-/

namespace RomArchive

/-! ### Contents that a record declares -/

/-- The record is readable, as a member of a kind that can be extracted and not larger than allowed,
and the contents have its name, its size and its checksum. -/
structure Record.Vouches (record : Record) (maxSize : Nat) (member : Member)
    (contents : VerifiedBytes) : Prop where
  readable : record.member = .ok member
  name : record.text = contents.name
  notDirectory : contents.name.toList.getLast? ≠ some '/'
  plain : record.flags &&& 1 = 0
  method : record.method = 0 ∨ record.method = 8
  allowed : member.uncompressedSize ≤ maxSize
  size : contents.bytes.length = member.uncompressedSize
  checksum : crc32 contents.bytes = record.checksum

/-- The contents are those that the first record with their name declares. -/
def Directory.Yields (directory : Directory) (maxSize : Nat) (contents : VerifiedBytes) : Prop :=
  ∃ earlier cursor later member,
    directory.positions = .ok (earlier ++ cursor :: later) ∧
    (∀ other ∈ earlier, other.record.text ≠ contents.name) ∧
    cursor.record.Vouches maxSize member contents

/-- What is located is the first record of its name. -/
theorem Directory.first_of_locate {directory : Directory} {name : String} {member : Member}
    (h : directory.locate name = .ok member) :
    ∃ earlier cursor later, directory.positions = .ok (earlier ++ cursor :: later) ∧
      (∀ other ∈ earlier, other.record.text ≠ name) ∧ cursor.record.text = name ∧
      cursor.record.member = .ok member := by
  rw [locate] at h
  cases hpositions : directory.positions with
  | error failure => rw [hpositions] at h; cases h
  | ok cursors =>
    simp only [hpositions] at h
    cases hfind : cursors.find? fun cursor => cursor.record.text == name with
    | none => rw [hfind] at h; cases h
    | some cursor =>
      rw [hfind] at h
      obtain ⟨htext, earlier, later, rfl, hearlier⟩ := List.find?_eq_some_iff_append.1 hfind
      refine ⟨earlier, cursor, later, rfl, fun other hother => ?_, beq_iff_eq.1 htext, h⟩
      simpa using hearlier other hother

/-- Encrypted members are refused, and so are those of a method that cannot be decoded. -/
theorem Member.supported_eq_ok_iff {member : Member} : member.supported = .ok () ↔
    member.flags &&& 1 = 0 ∧ (member.method = .stored ∨ member.method = .deflate) := by
  rw [supported, isEncrypted]
  by_cases hplain : member.flags &&& 1 = 0
  · rw [if_neg (by simpa using hplain)]
    cases hmethod : member.method with
    | stored => exact iff_of_true rfl ⟨hplain, Or.inl rfl⟩
    | deflate => exact iff_of_true rfl ⟨hplain, Or.inr rfl⟩
    | unknown number => simp
  · rw [if_pos (by simpa using hplain)]
    simp [hplain]

theorem Method.ofNumber_stored_or_deflate {number : UInt16}
    (h : Method.ofNumber number = .stored ∨ Method.ofNumber number = .deflate) :
    number = 0 ∨ number = 8 := by
  rw [ofNumber] at h
  by_cases hstored : number = 0
  · exact Or.inl hstored
  · by_cases hdeflate : number = 8
    · exact Or.inr hdeflate
    · rw [if_neg hstored, if_neg hdeflate] at h
      rcases h with h | h <;> cases h

namespace Handle

variable {handle : Handle} {name : String}

/-- What a handle finds under a name has passed the checks on its kind and its size. -/
theorem of_locate {container : OpenContainer} {member : Member}
    (h : handle.locate name = .ok (container, member)) :
    handle.container = some container ∧ container.directory.locate name = .ok member ∧
      member.isDirectory = false ∧ member.uncompressedSize ≤ handle.maxEntrySize := by
  rw [locate] at h
  by_cases hname : name = ""
  · rw [if_pos hname] at h
    cases h
  · rw [if_neg hname] at h
    obtain ⟨opened, hopened, h⟩ := exists_of_bind_eq_ok h
    obtain ⟨found, hfound, h⟩ := exists_of_bind_eq_ok h
    cases hdirectory : found.isDirectory with
    | true =>
      rw [if_pos hdirectory] at h
      cases h
    | false =>
      rw [if_neg (by simp [hdirectory])] at h
      by_cases hsize : handle.maxEntrySize < found.uncompressedSize
      · rw [if_pos hsize] at h
        cases h
      · rw [if_neg hsize] at h
        cases h
        refine ⟨?_, hfound, hdirectory, Nat.not_lt.1 hsize⟩
        rw [Handle.opened] at hopened
        split at hopened
        · rename_i hcontainer
          cases hopened
          exact hcontainer
        · cases hopened

/-- **What a handle hands out, its directory declares**, whatever has become of the files. -/
theorem yields_of_extract {files : FileTree} {contents : VerifiedBytes}
    (h : handle.extract files name = .ok contents) :
    ∃ container, handle.container = some container ∧ contents.name = name ∧
      container.directory.Yields handle.maxEntrySize contents := by
  obtain ⟨⟨container, member⟩, hlocate, h⟩ := exists_of_bind_eq_ok h
  obtain ⟨delivery, hdata, hverified⟩ := exists_of_bind_eq_ok h
  obtain ⟨⟨⟩, hsupported, -⟩ := exists_of_bind_eq_ok hdata
  obtain ⟨hcontainer, hfirst, hdirectory, hallowed⟩ := of_locate hlocate
  obtain ⟨earlier, cursor, later, hpositions, hearlier, htext, hmember⟩ :=
    Directory.first_of_locate hfirst
  obtain ⟨rfl, hlength, hchecksum⟩ := Feed.verified_sound hverified
  obtain ⟨hplain, hmethod⟩ := Member.supported_eq_ok_iff.1 hsupported
  have hmeans := Record.member_eq_ok_iff.1 hmember
  refine ⟨container, hcontainer, rfl, earlier, cursor, later, member, hpositions, hearlier, ?_⟩
  constructor
  · exact hmember
  · exact htext
  · rw [← htext, ← hmeans.name]
    simpa [Member.isDirectory, EntryName.isDirectory] using hdirectory
  · rw [← hmeans.flags]
    exact hplain
  · exact Method.ofNumber_stored_or_deflate (hmeans.method ▸ hmethod)
  · exact hallowed
  · exact hlength
  · rw [hchecksum, hmeans.checksum]

end Handle

namespace Workspace

variable {workspace : Workspace}

/-! ### Where open handles come from -/

/-- A command opens a handle: some session captures the container that is there now. -/
inductive Opens (workspace : Workspace) : Command → String × Handle → Prop
  | capture {name path handleName : String} {session : Session} {container : OpenContainer}
      (hsession : workspace.session? name = some session)
      (hcapture : (OpenContainer.capture workspace.tree session.settings.unreadable path).1
        = .ok container) :
      Opens workspace (.openContainer name path handleName)
        (handleName, newHandle session path container)

/-- If commands only keep handles or close them, the open ones among them were kept. -/
theorem mem_of_open {handles : List (String × Handle)} {entry : String × Handle}
    (hopen : entry.2.isOpen = true)
    (h : ∃ old ∈ handles, entry = old ∨ entry = (old.1, old.2.closed)) : entry ∈ handles := by
  obtain ⟨old, hold, rfl | rfl⟩ := h
  · exact hold
  · cases hopen

theorem mem_handles_dropHandle {name : String} {entry : String × Handle}
    (hopen : entry.2.isOpen = true) (hentry : entry ∈ (workspace.dropHandle name).handles) :
    entry ∈ workspace.handles :=
  mem_of_open hopen (mem_handles_closeHandle (List.mem_filter.1 hentry).1)

theorem mem_handles_dropSession {name : String} {entry : String × Handle}
    (hopen : entry.2.isOpen = true) (hentry : entry ∈ (workspace.dropSession name).1.handles) :
    entry ∈ workspace.handles := by
  rw [dropSession] at hentry
  split at hentry
  · exact mem_of_open hopen (mem_handles_closeAll hentry)
  · exact hentry

/-- A command about a session leaves the handles alone if its step does. -/
theorem handles_withSession {name : String} {step : Session → Step}
    (h : ∀ session, (step session).workspace.handles = workspace.handles) :
    (workspace.withSession name step).workspace.handles = workspace.handles := by
  rw [withSession]
  split
  · exact h _
  · rfl

theorem handles_withHandle {name : String} {step : Handle → Step}
    (h : ∀ handle, (step handle).workspace.handles = workspace.handles) :
    (workspace.withHandle name step).workspace.handles = workspace.handles := by
  rw [withHandle]
  split
  · exact h _
  · rfl

theorem opens_of_openContainer {name path handleName : String} {entry : String × Handle}
    (hopen : entry.2.isOpen = true)
    (hentry : entry ∈ (workspace.openContainer name path handleName).workspace.handles) :
    entry ∈ workspace.handles ∨ workspace.Opens (.openContainer name path handleName) entry := by
  cases hsession : workspace.session? name with
  | none =>
    simp only [openContainer, withSession, hsession] at hentry
    exact Or.inl hentry
  | some session =>
    simp only [openContainer, withSession, hsession] at hentry
    rcases session.openContainer_cases workspace.tree path with
      ⟨failure, hresult, -⟩ | ⟨container, hcapture, hresult, -⟩
    · rw [hresult] at hentry
      exact Or.inl hentry
    · rw [hresult] at hentry
      rcases List.mem_append.1 hentry with hold | hnew
      · have hkept : entry ∈ (workspace.after name _).handles :=
          mem_handles_dropHandle hopen hold
        exact Or.inl hkept
      · rw [List.mem_singleton.1 hnew]
        exact Or.inr (.capture hsession hcapture)

/-- A handle that is open after a command was open before, or the command opened it. -/
theorem opens_of_step (command : Command) {entry : String × Handle}
    (hopen : entry.2.isOpen = true) (hentry : entry ∈ (workspace.step command).workspace.handles) :
    entry ∈ workspace.handles ∨ workspace.Opens command entry := by
  have hsame : (workspace.step command).workspace.handles = workspace.handles →
      entry ∈ workspace.handles ∨ workspace.Opens command entry :=
    fun hhandles => Or.inl (hhandles ▸ hentry)
  cases command with
  | startSession name settings token => exact Or.inl (mem_handles_dropSession hopen hentry)
  | dropSession name => exact Or.inl (mem_handles_dropSession hopen hentry)
  | writeFile path bytes => exact hsame rfl
  | makeDirectory path => exact hsame rfl
  | removeFile path => exact hsame rfl
  | openContainer name path handleName => exact opens_of_openContainer hopen hentry
  | dropHandle name => exact Or.inl (mem_handles_dropHandle hopen hentry)
  | closeHandle name =>
    simp only [step, withHandle] at hentry
    split at hentry
    · exact Or.inl (mem_of_open hopen (mem_handles_closeHandle hentry))
    · exact Or.inl hentry
  | info name => exact hsame (handles_withHandle fun _ => rfl)
  | entries name => exact hsame (handles_withHandle fun _ => rfl)
  | exists? handle name => exact hsame (handles_withHandle fun _ => rfl)
  | findMedia name wanted => exact hsame (handles_withHandle fun _ => rfl)
  | extract handle name => exact hsame (handles_withHandle fun _ => rfl)
  | extractToScratch name handle entry =>
    exact hsame (handles_withSession fun _ => handles_withHandle fun _ => rfl)
  | findAndExtract name path wanted => exact hsame (handles_withSession fun _ => rfl)
  | extractInto name handle entry buffer =>
    exact hsame (handles_withSession fun _ => handles_withHandle fun _ => rfl)
  | findAndExtractInto name path wanted buffer => exact hsame (handles_withSession fun _ => rfl)
  | writeScratch name entry bytes checksum =>
    refine hsame (handles_withSession fun session => ?_)
    split <;> rfl
  | reservePath name entry => exact hsame (handles_withSession fun _ => rfl)
  | countOpen name => exact hsame (handles_withSession fun _ => rfl)
  | closeAll name =>
    simp only [step, withSession] at hentry
    split at hentry
    · exact Or.inl (mem_of_open hopen (mem_handles_closeAll hentry))
    · exact Or.inl hentry

/-- **An open handle comes from a command that opened it**, or was there from the beginning. -/
theorem opens_of_run (commands : List Command) {entry : String × Handle}
    (hopen : entry.2.isOpen = true) (hentry : entry ∈ (workspace.run commands).handles) :
    entry ∈ workspace.handles ∨ ∃ before command after, commands = before ++ command :: after ∧
      (workspace.run before).Opens command entry := by
  induction commands generalizing workspace with
  | nil => exact Or.inl hentry
  | cons command commands ih =>
    rcases ih hentry with hfirst | ⟨before, later, after, rfl, hopens⟩
    · rcases opens_of_step command hopen hfirst with hold | hopens
      · exact Or.inl hold
      · exact Or.inr ⟨[], command, commands, rfl, hopens⟩
    · exact Or.inr ⟨command :: before, later, after, rfl, hopens⟩

/-! ### What comes out of a handle -/

/-- **Whatever is extracted was declared when the container was opened.** The commands are any, the
files that the data is read from are any, and still the contents are those that the first record of
this name declares, in the directory that the container had when the handle was opened, within the
size that its session allowed. -/
theorem extract_provenance (tree : FileTree) (commands : List Command) {handleName : String}
    {handle : Handle} (hhandle : ((ofTree tree).run commands).handle? handleName = some handle)
    (files : FileTree) {name : String} {contents : VerifiedBytes}
    (hextract : handle.extract files name = .ok contents) :
    contents.name = name ∧ ∃ before sessionName path after session container,
      commands = before ++ .openContainer sessionName path handleName :: after ∧
      ((ofTree tree).run before).session? sessionName = some session ∧
      (OpenContainer.capture ((ofTree tree).run before).tree session.settings.unreadable path).1
        = .ok container ∧
      handle = newHandle session path container ∧
      container.directory.Yields session.settings.maxEntrySize contents := by
  obtain ⟨held, hheld, hname, hyields⟩ := Handle.yields_of_extract hextract
  have hopen : handle.isOpen = true := by rw [Handle.isOpen, hheld]; rfl
  rcases opens_of_run commands hopen (mem_of_lookup hhandle) with
    hnone | ⟨before, command, after, rfl, hopens⟩
  · exact absurd hnone List.not_mem_nil
  · cases hopens with
    | capture hsession hcapture =>
      cases hheld
      exact ⟨hname, before, _, _, after, _, _, rfl, hsession, hcapture, rfl, hyields⟩

/-- A container is opened, and then its directory is cut off the file. -/
def cutOff : List Command :=
  [.startSession "s" (Settings.standard "/tmp") "",
    .writeFile "games.zip" Packing.sample.bytes,
    .openContainer "s" "games.zip" "h",
    .writeFile "games.zip" Packing.sample.front]

/-- The data is still there, and the captured directory vouches for it. -/
theorem extract_provenance_cutOff :
    ∃ handle, ((ofTree .empty).run cutOff).handle? "h" = some handle ∧
      handle.extract ((ofTree .empty).run cutOff).tree "GAME.PRG" = .ok ⟨"GAME.PRG", [1, 2, 3]⟩ ∧
      ∃ before sessionName path after session container,
        cutOff = before ++ .openContainer sessionName path "h" :: after ∧
        ((ofTree .empty).run before).session? sessionName = some session ∧
        (OpenContainer.capture ((ofTree .empty).run before).tree
          session.settings.unreadable path).1 = .ok container ∧
        handle = newHandle session path container ∧
        container.directory.Yields session.settings.maxEntrySize ⟨"GAME.PRG", [1, 2, 3]⟩ := by
  have hfound : (((ofTree .empty).run cutOff).handle? "h").bind (fun handle =>
      (handle.extract ((ofTree .empty).run cutOff).tree "GAME.PRG").toOption)
        = some ⟨"GAME.PRG", [1, 2, 3]⟩ := by decide +kernel
  obtain ⟨handle, hhandle, hsome⟩ := Option.bind_eq_some_iff.1 hfound
  cases hextract : handle.extract ((ofTree .empty).run cutOff).tree "GAME.PRG" with
  | error failure =>
    rw [hextract] at hsome
    cases hsome
  | ok contents =>
    rw [hextract] at hsome
    obtain rfl : contents = ⟨"GAME.PRG", [1, 2, 3]⟩ := Option.some.inj hsome
    exact ⟨handle, hhandle, hextract, (extract_provenance .empty cutOff hhandle _ hextract).2⟩

end Workspace

end RomArchive
