import RomArchive.Proofs.Registry.Runs
import RomArchive.Proofs.Scratch.Writes

/-!
# Scratch files along a run

A session numbers its scratch files, and never goes back to a number. Between two of its writes
anything may happen: other sessions write to the same directory, names are given out and not used,
files are put where scratch files are and taken away, and the session may end and another of its
name begin. Still, as long as it is the same session, its later files have other names than its
earlier ones, and so they lie in other places.

What a run does to sessions and to the tree is followed command by command: a session keeps its
scratch directory but for the counter, which only grows, and a tree without links stays without
links.

## Main definitions

* `Scratch.Follows` — a scratch directory after it gave out more names
* `Workspace.Advances` — what happens to sessions and to the tree in the course of time
* `Workspace.Writes` — a command writes a scratch file

## Main results

* `Workspace.advances_run` — what any run of commands leaves in place
* `Workspace.Writes.course` — a command that writes a scratch file takes that course
* `Workspace.scratch_files_apart` — scratch files lie in their directory, each in a place of its own
-/

namespace RomArchive

/-! ### Scratch directories only advance -/

namespace Scratch

variable {scratch : Scratch} {tree files : FileTree} {contents : VerifiedBytes}

/-- The later scratch directory is the earlier one after it gave out some more names. -/
def Follows (earlier later : Scratch) : Prop :=
  ∃ count, later = { earlier with counter := earlier.counter + count }

theorem Follows.refl (scratch : Scratch) : scratch.Follows scratch :=
  ⟨0, rfl⟩

theorem follows_advanced (scratch : Scratch) : scratch.Follows scratch.advanced :=
  ⟨1, rfl⟩

theorem Follows.trans {earlier middle later : Scratch} (hfirst : earlier.Follows middle)
    (hsecond : middle.Follows later) : earlier.Follows later := by
  obtain ⟨count, rfl⟩ := hfirst
  obtain ⟨more, rfl⟩ := hsecond
  refine ⟨count + more, ?_⟩
  rw [← Nat.add_assoc]

theorem Course.follows {result : Except Failure String} {later : Scratch}
    (h : scratch.Course tree contents result later files) : scratch.Follows later := by
  cases h with
  | nameless => exact .refl scratch
  | rootless => exact .refl scratch
  | refused => exact scratch.follows_advanced
  | written => exact scratch.follows_advanced

theorem Course.unlinked {result : Except Failure String} {later : Scratch}
    (h : scratch.Course tree contents result later files) (htree : tree.Unlinked) :
    files.Unlinked := by
  have hgrown := htree.createDirectories scratch.root
  cases h with
  | nameless => exact htree
  | rootless _ hroot => rwa [hroot] at hgrown
  | refused _ hroot => rwa [hroot] at hgrown
  | written _ hroot hplace =>
    rw [hroot] at hgrown
    exact unlinked_of_place hgrown hplace

theorem Course.later_eq {path : String} {later : Scratch}
    (h : scratch.Course tree contents (.ok path) later files) : later = scratch.advanced := by
  cases h
  rfl

theorem Course.path_eq {path : String} {later : Scratch}
    (h : scratch.Course tree contents (.ok path) later files) :
    path = scratch.nextPath contents.name := by
  cases h
  rfl

theorem Follows.isToken {earlier later : Scratch} (h : earlier.Follows later)
    (htoken : IsToken earlier.token) : IsToken later.token := by
  obtain ⟨count, rfl⟩ := h
  exact htoken

/-- Whatever the entries are called, a name that is given out later is for another place. -/
theorem Follows.place_ne {earlier later : Scratch} (h : earlier.advanced.Follows later)
    (htoken : IsToken earlier.token) (name entry : String) :
    FileTree.placeOf (earlier.nextPath name) ≠ FileTree.placeOf (later.nextPath entry) := by
  have hearlier := isChild_join htoken (earlier.counter + 1) name
  have hlater := isChild_join (h.isToken htoken) (later.counter + 1) entry
  obtain ⟨count, rfl⟩ := h
  intro hplaces
  have hnames := List.append_cancel_left (hearlier.place.symm.trans (hplaces.trans hlater.place))
  have hnumbers : earlier.counter + 1 = earlier.counter + 1 + count + 1 :=
    (fileName_inj (List.singleton_inj.1 hnames)).1
  omega

end Scratch

/-! ### Operations of a session -/

namespace Session

variable {session : Session} {tree : FileTree}

/-- What an operation may do to its session and to the tree. -/
structure Spends {α : Type} (session : Session) (tree : FileTree) (outcome : Outcome α) : Prop where
  serial : outcome.session.serial = session.serial
  scratch : session.scratch.Follows outcome.session.scratch
  unlinked : tree.Unlinked → outcome.tree.Unlinked

theorem course_writeScratch (session : Session) (tree : FileTree) (contents : VerifiedBytes) :
    session.scratch.Course tree contents (session.writeScratch tree contents).result
      (session.writeScratch tree contents).session.scratch
      (session.writeScratch tree contents).tree := by
  rw [Scratch.writeScratch_eq]
  exact Scratch.course_write session.scratch tree contents

theorem spends_openContainer (session : Session) (tree : FileTree) (path : String) :
    session.Spends tree (session.openContainer tree path) := by
  rcases session.openContainer_cases tree path with
    ⟨_, -, hsession, htree⟩ | ⟨_, -, -, hsession, htree⟩
  · refine ⟨?_, ?_, ?_⟩
    · rw [hsession]
    · rw [hsession]
      exact .refl _
    · rw [htree]
      exact id
  · refine ⟨?_, ?_, ?_⟩
    · rw [hsession]
      rfl
    · rw [hsession]
      exact .refl _
    · rw [htree]
      exact id

theorem spends_writeScratch (session : Session) (tree : FileTree) (contents : VerifiedBytes) :
    session.Spends tree (session.writeScratch tree contents) where
  serial := by rw [Scratch.writeScratch_eq]
  scratch := (session.course_writeScratch tree contents).follows
  unlinked := (session.course_writeScratch tree contents).unlinked

theorem spends_extractToScratch (session : Session) (tree : FileTree) (handle : Handle)
    (name : String) : session.Spends tree (session.extractToScratch tree handle name) := by
  rw [extractToScratch]
  split
  · exact ⟨rfl, .refl _, id⟩
  · exact session.spends_writeScratch tree _

theorem spends_extractMedia (session : Session) (tree : FileTree) (handle : Handle)
    (wanted : Option (List String)) :
    session.Spends tree (session.extractMedia tree handle wanted) := by
  rw [extractMedia]
  split
  · exact ⟨rfl, .refl _, id⟩
  · exact session.spends_extractToScratch tree handle _

theorem spends_findAndExtract (session : Session) (tree : FileTree) (path : String)
    (wanted : Option (List String)) :
    session.Spends tree (session.findAndExtract tree path wanted) := by
  have hopen := session.spends_openContainer tree path
  rw [findAndExtract]
  simp only
  split
  · exact ⟨hopen.serial, hopen.scratch, hopen.unlinked⟩
  · have hextract := (session.openContainer tree path).session.spends_extractMedia
      (session.openContainer tree path).tree ‹Handle› wanted
    exact ⟨hextract.serial.trans hopen.serial, hopen.scratch.trans hextract.scratch,
      fun htree => hextract.unlinked (hopen.unlinked htree)⟩

/-! ### Operations that write -/

theorem course_extractToScratch {handle : Handle} {name path : String}
    (h : (session.extractToScratch tree handle name).result = .ok path) :
    ∃ contents, session.scratch.Course tree contents (.ok path)
      (session.extractToScratch tree handle name).session.scratch
      (session.extractToScratch tree handle name).tree := by
  rw [extractToScratch] at h ⊢
  cases hextract : handle.extract tree name with
  | error failure =>
    rw [hextract] at h
    cases h
  | ok contents =>
    rw [hextract] at h
    simp only at h ⊢
    exact ⟨contents, h ▸ session.course_writeScratch tree contents⟩

theorem course_extractMedia {handle : Handle} {wanted : Option (List String)} {path : String}
    (h : (session.extractMedia tree handle wanted).result = .ok path) :
    ∃ contents, session.scratch.Course tree contents (.ok path)
      (session.extractMedia tree handle wanted).session.scratch
      (session.extractMedia tree handle wanted).tree := by
  rw [extractMedia] at h ⊢
  cases hfound : handle.findMedia wanted with
  | error failure =>
    rw [hfound] at h
    cases h
  | ok name =>
    rw [hfound] at h
    exact course_extractToScratch h

/-- Opening the container first has no part in the writing. -/
theorem course_findAndExtract {container path : String} {wanted : Option (List String)}
    (h : (session.findAndExtract tree container wanted).result = .ok path) :
    ∃ contents, session.scratch.Course tree contents (.ok path)
      (session.findAndExtract tree container wanted).session.scratch
      (session.findAndExtract tree container wanted).tree := by
  rcases session.openContainer_cases tree container with
    ⟨failure, hresult, -, -⟩ | ⟨opened, -, hresult, hsession, htree⟩
  · rw [findAndExtract] at h
    simp only [hresult] at h
    cases h
  · rw [findAndExtract] at h ⊢
    simp only [hresult, hsession, htree] at h ⊢
    exact course_extractMedia h

end Session

namespace Workspace

variable {workspace middle next : Workspace} {name : String} {session : Session}

/-! ### What time does to sessions and to the tree -/

/-- A session afterwards was there before, with its scratch directory but for names that were given
out since, or it has started since. The tree stays without links. -/
structure Advances (workspace next : Workspace) : Prop where
  started : workspace.started ≤ next.started
  session : ∀ entry ∈ next.sessions,
    (∃ old ∈ workspace.sessions, old.2.serial = entry.2.serial ∧
      old.2.scratch.Follows entry.2.scratch) ∨ workspace.started ≤ entry.2.serial
  unlinked : workspace.tree.Unlinked → next.tree.Unlinked

theorem Advances.refl (workspace : Workspace) : workspace.Advances workspace where
  started := Nat.le_refl _
  session := fun entry hentry => Or.inl ⟨entry, hentry, rfl, .refl _⟩
  unlinked := id

theorem Advances.trans (hfirst : workspace.Advances middle) (hsecond : middle.Advances next) :
    workspace.Advances next where
  started := Nat.le_trans hfirst.started hsecond.started
  session := by
    intro entry hentry
    rcases hsecond.session entry hentry with ⟨between, hbetween, hserial, hscratch⟩ | hnew
    · rcases hfirst.session between hbetween with ⟨old, hold, hsame, hearlier⟩ | hnew
      · exact Or.inl ⟨old, hold, hsame.trans hserial, hearlier.trans hscratch⟩
      · exact Or.inr (hserial ▸ hnew)
    · exact Or.inr (Nat.le_trans hfirst.started hnew)
  unlinked := fun htree => hsecond.unlinked (hfirst.unlinked htree)

/-- Only the tree has changed. -/
theorem advances_of_tree {tree : FileTree} (h : workspace.tree.Unlinked → tree.Unlinked) :
    workspace.Advances { workspace with tree := tree } :=
  ⟨Nat.le_refl _, (Advances.refl workspace).session, h⟩

/-- Sessions have changed, one by one, in other things than their scratch directories. -/
theorem advances_of_sessions (f : String × Session → String × Session)
    (hsessions : next.sessions = workspace.sessions.map f)
    (hf : ∀ entry, (f entry).2.serial = entry.2.serial ∧ (f entry).2.scratch = entry.2.scratch)
    (hstarted : next.started = workspace.started) (htree : next.tree = workspace.tree) :
    workspace.Advances next where
  started := Nat.le_of_eq hstarted.symm
  session := by
    intro entry hentry
    rw [hsessions] at hentry
    obtain ⟨old, hold, rfl⟩ := List.mem_map.1 hentry
    obtain ⟨hserial, hscratch⟩ := hf old
    exact Or.inl ⟨old, hold, hserial.symm, hscratch ▸ .refl _⟩
  unlinked := fun h => htree ▸ h

theorem advances_after {α : Type} {outcome : Session.Outcome α}
    (hsession : workspace.session? name = some session)
    (h : session.Spends workspace.tree outcome) :
    workspace.Advances (workspace.after name outcome) where
  started := Nat.le_refl _
  session := by
    intro entry hentry
    have hreplaced : entry ∈ (workspace.replace name outcome.session).sessions := hentry
    rcases mem_replace hreplaced with rfl | ⟨hold, -⟩
    · exact Or.inl ⟨_, mem_of_lookup hsession, h.serial.symm, h.scratch⟩
    · exact Or.inl ⟨entry, hold, rfl, .refl _⟩
  unlinked := h.unlinked

theorem advances_closeHandle (workspace : Workspace) (name : String) :
    workspace.Advances (workspace.closeHandle name) := by
  cases hhandle : workspace.handle? name with
  | none =>
    rw [closeHandle_of_none hhandle]
    exact .refl _
  | some handle =>
    cases hopen : handle.isOpen with
    | false =>
      rw [closeHandle_of_not_isOpen hhandle hopen]
      exact .refl _
    | true =>
      rw [closeHandle_of_isOpen hhandle hopen]
      refine advances_of_sessions (forgetHandle handle) rfl (fun entry => ?_) rfl rfl
      rw [forgetHandle]
      split <;> exact ⟨rfl, rfl⟩

theorem advances_dropHandle (workspace : Workspace) (name : String) :
    workspace.Advances (workspace.dropHandle name) := by
  have hclose := workspace.advances_closeHandle name
  exact ⟨hclose.started, hclose.session, hclose.unlinked⟩

theorem advances_closeAll (workspace : Workspace) (session : Session) :
    workspace.Advances (workspace.closeAll session).1 := by
  rw [closeAll_fst]
  refine advances_of_sessions (clearLive session) rfl (fun entry => ?_) rfl rfl
  rw [clearLive]
  split <;> exact ⟨rfl, rfl⟩

theorem advances_dropSession (workspace : Workspace) (name : String) :
    workspace.Advances (workspace.dropSession name).1 := by
  rw [dropSession]
  split
  · rename_i session _
    have hclose := workspace.advances_closeAll session
    exact ⟨hclose.started, fun entry hentry => hclose.session entry (List.mem_filter.1 hentry).1,
      hclose.unlinked⟩
  · exact .refl _

/-- A session that starts has a serial number that no session had before. -/
theorem advances_startSession (workspace : Workspace) (name : String) (settings : Settings)
    (token : String) :
    workspace.Advances (workspace.startSession name settings token).workspace := by
  have hdrop := workspace.advances_dropSession name
  refine hdrop.trans ⟨Nat.le_succ _, fun entry hentry => ?_, id⟩
  rcases List.mem_append.1 hentry with hold | hnew
  · exact Or.inl ⟨entry, hold, rfl, .refl _⟩
  · rw [List.mem_singleton.1 hnew]
    exact Or.inr (Nat.le_of_eq (workspace.started_dropSession name))

/-! ### Commands -/

theorem advances_withSession {step : Session → Step}
    (h : ∀ session, workspace.session? name = some session →
      workspace.Advances (step session).workspace) :
    workspace.Advances (workspace.withSession name step).workspace := by
  rw [withSession]
  split
  · exact h _ ‹_›
  · exact .refl _

theorem advances_withHandle {step : Handle → Step}
    (h : ∀ handle, workspace.Advances (step handle).workspace) :
    workspace.Advances (workspace.withHandle name step).workspace := by
  rw [withHandle]
  split
  · exact h _
  · exact .refl _

theorem advances_openContainer (workspace : Workspace) (name path handleName : String) :
    workspace.Advances (workspace.openContainer name path handleName).workspace := by
  refine advances_withSession fun session hsession => ?_
  have hopen := advances_after hsession (session.spends_openContainer workspace.tree path)
  simp only
  split
  · exact hopen
  · have hdrop := hopen.trans (advances_dropHandle _ handleName)
    exact ⟨hdrop.started, hdrop.session, hdrop.unlinked⟩

/-- **What any command leaves in place.** -/
theorem advances_step (workspace : Workspace) (command : Command) :
    workspace.Advances (workspace.step command).workspace := by
  cases command with
  | startSession name settings token => exact workspace.advances_startSession name settings token
  | dropSession name => exact workspace.advances_dropSession name
  | writeFile path bytes => exact advances_of_tree fun h => h.provide path bytes
  | makeDirectory path => exact advances_of_tree fun h => h.createDirectories path
  | removeFile path => exact advances_of_tree fun h => h.remove path
  | openContainer name path handleName =>
    exact workspace.advances_openContainer name path handleName
  | dropHandle name => exact workspace.advances_dropHandle name
  | closeHandle name => exact advances_withHandle fun _ => workspace.advances_closeHandle name
  | info name => exact advances_withHandle fun _ => .refl _
  | entries name => exact advances_withHandle fun _ => .refl _
  | exists? handle name => exact advances_withHandle fun _ => .refl _
  | findMedia name wanted => exact advances_withHandle fun _ => .refl _
  | extract handle name => exact advances_withHandle fun _ => .refl _
  | extractToScratch name handle entry =>
    exact advances_withSession fun session hsession => advances_withHandle fun source =>
      advances_after hsession (session.spends_extractToScratch workspace.tree source entry)
  | findAndExtract name path wanted =>
    exact advances_withSession fun session hsession =>
      advances_after hsession (session.spends_findAndExtract workspace.tree path wanted)
  | extractInto name handle entry buffer =>
    exact advances_withSession fun session hsession => advances_withHandle fun source =>
      advances_after hsession (session.spends_extractToScratch workspace.tree source entry)
  | findAndExtractInto name path wanted buffer =>
    exact advances_withSession fun session hsession =>
      advances_after hsession (session.spends_findAndExtract workspace.tree path wanted)
  | writeScratch name entry bytes checksum =>
    refine advances_withSession fun session hsession => ?_
    split
    · exact .refl _
    · exact advances_after hsession (session.spends_writeScratch workspace.tree _)
  | reservePath name entry =>
    exact advances_withSession fun session hsession =>
      advances_after hsession ⟨rfl, session.scratch.follows_advanced, id⟩
  | countOpen name => exact advances_withSession fun _ _ => .refl _
  | closeAll name => exact advances_withSession fun session _ => workspace.advances_closeAll session

/-- **What any run of commands leaves in place.** -/
theorem advances_run (workspace : Workspace) (commands : List Command) :
    workspace.Advances (workspace.run commands) := by
  induction commands generalizing workspace with
  | nil => exact .refl _
  | cons command commands ih => exact (workspace.advances_step command).trans (ih _)

/-! ### Commands that write -/

/-- A command writes a scratch file: an operation of the session gives back the path. A caller who
gave a buffer for the path may be told that it did not fit, and still the file is written. -/
inductive Writes (workspace : Workspace) : Command → Session → String → Prop
  | extractToScratch {name handleName entry path : String} {session : Session} {handle : Handle}
      (hsession : workspace.session? name = some session)
      (hhandle : workspace.handle? handleName = some handle)
      (hresult : (session.extractToScratch workspace.tree handle entry).result = .ok path) :
      Writes workspace (.extractToScratch name handleName entry) session path
  | extractInto {name handleName entry path : String} {session : Session} {handle : Handle}
      (buffer : Bytes) (hsession : workspace.session? name = some session)
      (hhandle : workspace.handle? handleName = some handle)
      (hresult : (session.extractToScratch workspace.tree handle entry).result = .ok path) :
      Writes workspace (.extractInto name handleName entry buffer) session path
  | findAndExtract {name container path : String} {wanted : Option (List String)}
      {session : Session} (hsession : workspace.session? name = some session)
      (hresult : (session.findAndExtract workspace.tree container wanted).result = .ok path) :
      Writes workspace (.findAndExtract name container wanted) session path
  | findAndExtractInto {name container path : String} {wanted : Option (List String)}
      {session : Session} (buffer : Bytes) (hsession : workspace.session? name = some session)
      (hresult : (session.findAndExtract workspace.tree container wanted).result = .ok path) :
      Writes workspace (.findAndExtractInto name container wanted buffer) session path
  | writeScratch {name entry path : String} {bytes : Bytes} {checksum : UInt32}
      {session : Session} {contents : VerifiedBytes}
      (hsession : workspace.session? name = some session)
      (hverified : (Feed.ofDelivery ⟨bytes, none⟩).verified entry bytes.length checksum
        = .ok contents)
      (hresult : (session.writeScratch workspace.tree contents).result = .ok path) :
      Writes workspace (.writeScratch name entry bytes checksum) session path

/-- The session with a serial number, if it is still there, has this scratch directory but for names
that were given out since. -/
structure HasSpent (workspace : Workspace) (serial : Nat) (scratch : Scratch) : Prop where
  serial_lt : serial < workspace.started
  follows : ∀ entry ∈ workspace.sessions, entry.2.serial = serial → scratch.Follows entry.2.scratch

theorem HasSpent.advances {serial : Nat} {scratch : Scratch} (h : workspace.HasSpent serial scratch)
    (hadvances : workspace.Advances next) : next.HasSpent serial scratch where
  serial_lt := Nat.lt_of_lt_of_le h.serial_lt hadvances.started
  follows := by
    intro entry hentry hserial
    rcases hadvances.session entry hentry with ⟨old, hold, hsame, hscratch⟩ | hnew
    · exact (h.follows old hold (hsame.trans hserial)).trans hscratch
    · exact absurd (hserial ▸ h.serial_lt) (Nat.not_lt.2 hnew)

/-- What an operation of a session spends, the session has spent. -/
theorem Sound.hasSpent_after {α : Type} (h : workspace.Sound) {outcome : Session.Outcome α}
    (hsession : workspace.session? name = some session) :
    (workspace.after name outcome).HasSpent session.serial outcome.session.scratch where
  serial_lt := h.serial_lt _ (mem_of_lookup hsession)
  follows := by
    intro entry hentry hserial
    have hreplaced : entry ∈ (workspace.replace name outcome.session).sessions := hentry
    rcases mem_replace hreplaced with rfl | ⟨hold, hname⟩
    · exact .refl _
    · exact absurd hserial (h.serial_ne hsession hold hname)

/-- **A command that writes a scratch file takes that course**, and its session has spent the
name. -/
theorem Writes.course (h : workspace.Sound) {command : Command} {path : String}
    (hwrites : workspace.Writes command session path) :
    ∃ contents, session.scratch.Course workspace.tree contents (.ok path) session.scratch.advanced
        (workspace.step command).workspace.tree ∧
      (workspace.step command).workspace.HasSpent session.serial session.scratch.advanced := by
  -- All five commands come down to an outcome that takes the course, put back into the workspace.
  have hafter : ∀ {name : String} {outcome : Session.Outcome String},
      workspace.session? name = some session →
      (∃ contents, session.scratch.Course workspace.tree contents (.ok path)
        outcome.session.scratch outcome.tree) →
      ∃ contents, session.scratch.Course workspace.tree contents (.ok path)
          session.scratch.advanced (workspace.after name outcome).tree ∧
        (workspace.after name outcome).HasSpent session.serial session.scratch.advanced := by
    rintro name outcome hsession ⟨contents, hcourse⟩
    have hspent : (workspace.after name outcome).HasSpent session.serial outcome.session.scratch :=
      h.hasSpent_after hsession
    rw [hcourse.later_eq] at hspent hcourse
    exact ⟨contents, hcourse, hspent⟩
  cases hwrites with
  | extractToScratch hsession hhandle hresult =>
    simp only [step, withSession, withHandle, hsession, hhandle]
    exact hafter hsession (Session.course_extractToScratch hresult)
  | extractInto buffer hsession hhandle hresult =>
    simp only [step, withSession, withHandle, hsession, hhandle]
    exact hafter hsession (Session.course_extractToScratch hresult)
  | findAndExtract hsession hresult =>
    simp only [step, withSession, hsession]
    exact hafter hsession (Session.course_findAndExtract hresult)
  | findAndExtractInto buffer hsession hresult =>
    simp only [step, withSession, hsession]
    exact hafter hsession (Session.course_findAndExtract hresult)
  | @writeScratch _ _ _ _ _ _ contents hsession hverified hresult =>
    simp only [step, Workspace.writeScratch, withSession, hsession, hverified]
    have hcourse := session.course_writeScratch workspace.tree contents
    rw [hresult] at hcourse
    exact hafter hsession ⟨contents, hcourse⟩

theorem Writes.mem {command : Command} {path : String}
    (hwrites : workspace.Writes command session path) :
    ∃ entry ∈ workspace.sessions, entry.2 = session := by
  cases hwrites with
  | extractToScratch hsession => exact ⟨_, mem_of_lookup hsession, rfl⟩
  | extractInto buffer hsession => exact ⟨_, mem_of_lookup hsession, rfl⟩
  | findAndExtract hsession => exact ⟨_, mem_of_lookup hsession, rfl⟩
  | findAndExtractInto buffer hsession => exact ⟨_, mem_of_lookup hsession, rfl⟩
  | writeScratch hsession => exact ⟨_, mem_of_lookup hsession, rfl⟩

/-! ### Files that lie apart -/

/-- Writing a scratch file writes it and leaves all other files as they are. -/
theorem Writes.stored (h : workspace.Sound) (htree : workspace.tree.Unlinked) {command : Command}
    {path : String} (htoken : Scratch.IsToken session.scratch.token)
    (hwrites : workspace.Writes command session path) :
    ∃ bytes, ∀ place, (workspace.step command).workspace.tree.fileAt? place
      = if place = FileTree.placeOf path then some bytes else workspace.tree.fileAt? place := by
  obtain ⟨_, hcourse, -⟩ := hwrites.course h
  obtain ⟨contents, -, -, -, -, hfiles⟩ := (hcourse.atomic htree htoken).written path rfl
  exact ⟨contents.bytes, hfiles⟩

/-- The path of a scratch file is the next one that its session gives out. -/
theorem Writes.path_eq (h : workspace.Sound) {command : Command} {path : String}
    (hwrites : workspace.Writes command session path) :
    ∃ name, path = session.scratch.nextPath name := by
  obtain ⟨contents, hcourse, -⟩ := hwrites.course h
  exact ⟨contents.name, hcourse.path_eq⟩

section Apart

variable {first second : Command} {between : List Command} {earlier later : Session}
  {path latest : String}

/-- The number of an earlier file was used up before a later file of the session got its own. -/
theorem Writes.follows (h : workspace.Sound) (hfirst : workspace.Writes first earlier path)
    (hmiddle : middle = (workspace.step first).workspace.run between)
    (hsecond : middle.Writes second later latest) (hserial : later.serial = earlier.serial) :
    earlier.scratch.advanced.Follows later.scratch := by
  have hadvances : (workspace.step first).workspace.Advances middle := by
    rw [hmiddle]
    exact advances_run _ between
  obtain ⟨_, -, hspent⟩ := hfirst.course h
  obtain ⟨entry, hentry, rfl⟩ := hsecond.mem
  exact (hspent.advances hadvances).follows entry hentry hserial

/-- A later scratch file of a session is put in another place than an earlier one. -/
theorem Writes.place_ne (h : workspace.Sound) (htoken : Scratch.IsToken earlier.scratch.token)
    (hfirst : workspace.Writes first earlier path)
    (hmiddle : middle = (workspace.step first).workspace.run between)
    (hsecond : middle.Writes second later latest) (hserial : later.serial = earlier.serial) :
    FileTree.placeOf path ≠ FileTree.placeOf latest := by
  have hlater : middle.Sound := hmiddle ▸ h.run (first :: between)
  have hfollows := hfirst.follows h hmiddle hsecond hserial
  obtain ⟨name, rfl⟩ := hfirst.path_eq h
  obtain ⟨entry, rfl⟩ := hsecond.path_eq hlater
  exact hfollows.place_ne htoken name entry

/-- What is left of the earlier file when the later one is written stays. -/
theorem Writes.stays (h : workspace.Sound) (htree : workspace.tree.Unlinked)
    (htoken : Scratch.IsToken earlier.scratch.token)
    (hfirst : workspace.Writes first earlier path)
    (hmiddle : middle = (workspace.step first).workspace.run between)
    (hsecond : middle.Writes second later latest) (hserial : later.serial = earlier.serial) :
    (middle.step second).workspace.tree.fileAt? (FileTree.placeOf path)
      = middle.tree.fileAt? (FileTree.placeOf path) := by
  have hlater : middle.Sound := hmiddle ▸ h.run (first :: between)
  have hunlinked : middle.tree.Unlinked :=
    hmiddle ▸ (workspace.advances_run (first :: between)).unlinked htree
  have htokens := (hfirst.follows h hmiddle hsecond hserial).isToken htoken
  obtain ⟨bytes, hfiles⟩ := hsecond.stored hlater hunlinked htokens
  rw [hfiles, if_neg (hfirst.place_ne h htoken hmiddle hsecond hserial)]

end Apart

/-- **Scratch files lie in their directory, each in a place of its own.** Whatever the entries are
called, the paths that are given out for them lead into the scratch directory and no further, and no
two are the same; nor are any two of which one bears another token. So in the course of any run, no
scratch file of a session takes the place of an earlier one, and where there are no links, none
changes an earlier one. -/
theorem scratch_files_apart :
    (∀ (scratch : Scratch) (names : List String), Scratch.IsToken scratch.token →
      (∀ path ∈ scratch.paths names, ∃ name, Scratch.IsChild scratch.root name path) ∧
      (scratch.paths names).Pairwise (· ≠ ·)) ∧
    (∀ scratch other : Scratch, scratch.root = other.root →
      scratch.naming = .unique → other.naming = .unique →
      Scratch.IsToken scratch.token → Scratch.IsToken other.token → scratch.token ≠ other.token →
      ∀ names entries, ∀ path ∈ scratch.paths names, path ∉ other.paths entries) ∧
    ∀ (tree : FileTree) (before between : List Command) (workspace middle : Workspace)
      (first second : Command) (earlier later : Session) (path latest : String),
      Scratch.IsToken earlier.scratch.token →
      workspace = (ofTree tree).run before → workspace.Writes first earlier path →
      middle = (workspace.step first).workspace.run between →
      middle.Writes second later latest → later.serial = earlier.serial →
      path ≠ latest ∧ FileTree.placeOf path ≠ FileTree.placeOf latest ∧
      (tree.Unlinked →
        (∃ bytes,
          (workspace.step first).workspace.tree.fileAt? (FileTree.placeOf path) = some bytes) ∧
        (middle.step second).workspace.tree.fileAt? (FileTree.placeOf path)
          = middle.tree.fileAt? (FileTree.placeOf path)) := by
  refine ⟨fun scratch names htoken => ⟨fun path hpath => ?_, scratch.paths_pairwise names⟩, ?_, ?_⟩
  · obtain ⟨number, name, -, -, rfl⟩ := Scratch.exists_of_mem_paths hpath
    exact ⟨_, Scratch.isChild_join htoken number name⟩
  · intro scratch other hroot hscratch hother htoken htokens hne names entries path hpath
    exact Scratch.notMem_paths_of_token hroot hscratch hother htoken htokens hne hpath
  · intro tree before between workspace middle first second earlier later path latest htoken
      hworkspace hfirst hmiddle hsecond hserial
    have hsound : workspace.Sound := by
      rw [hworkspace]
      exact (sound_ofTree tree).run before
    have hplaces := hfirst.place_ne hsound htoken hmiddle hsecond hserial
    refine ⟨fun hpaths => hplaces (congrArg _ hpaths), hplaces, fun htree => ?_⟩
    have hunlinked : workspace.tree.Unlinked := by
      rw [hworkspace]
      exact (advances_run _ before).unlinked htree
    obtain ⟨bytes, hfiles⟩ := hfirst.stored hsound hunlinked htoken
    refine ⟨⟨bytes, ?_⟩, hfirst.stays hsound hunlinked htoken hmiddle hsecond hserial⟩
    rw [hfiles, if_pos rfl]

/-- A scratch directory that a session has begun to use, with the settings below. -/
def sampleScratch (token : String) (count : Nat) : Scratch :=
  ⟨"out", .unique, .overwrite, token, count⟩

def overwriting : Settings :=
  ⟨"out", .unique, .overwrite, .skip, 1000⟩

/-- A session that overwrites what is in its way has been started. -/
def beforeLookalike : Workspace :=
  (ofTree .empty).run [.startSession "s" overwriting "0123abcd"]

/-- An entry that is called like a later scratch file is written. -/
def lookalike : Command :=
  .writeScratch "s" "../3_0123abcd_rom" [1] (crc32 [1])

/-- Then another name is given out. -/
def afterLookalike : Workspace :=
  (beforeLookalike.step lookalike).workspace.run [.reservePath "s" "/rom"]

/-- What looks alike lies apart: in one directory, under two tokens, and along a run. -/
theorem scratch_files_apart_lookalike :
    ((∀ path ∈ (sampleScratch "0123abcd" 0).paths ["../../etc/rom", "/2_0123abcd_rom", "rom"],
        ∃ name, Scratch.IsChild "out" name path) ∧
      ((sampleScratch "0123abcd" 0).paths ["../../etc/rom", "/2_0123abcd_rom", "rom"]).Pairwise
        (· ≠ ·)) ∧
    "out/temp_1_0123abcd_4567cdef_rom"
      ∉ (sampleScratch "4567cdef" 0).paths ["rom", "0123abcd_rom", "0123abcd_4567cdef_rom"] ∧
    (afterLookalike.step (.writeScratch "s" "/rom" [2] (crc32 [2]))).workspace.tree.fileAt?
        (FileTree.placeOf "out/temp_1_0123abcd_3_0123abcd_rom") = some [1] := by
  obtain ⟨hnames, htokens, hruns⟩ := scratch_files_apart
  have htoken : Scratch.IsToken "0123abcd" := ⟨by decide, by decide⟩
  have hother : Scratch.IsToken "4567cdef" := ⟨by decide, by decide⟩
  refine ⟨hnames (sampleScratch "0123abcd" 0) _ htoken, ?_, ?_⟩
  · have hpath : "out/temp_1_0123abcd_4567cdef_rom"
        ∈ (sampleScratch "0123abcd" 0).paths ["4567cdef_rom"] := by decide +kernel
    exact htokens (sampleScratch "0123abcd" 0) (sampleScratch "4567cdef" 0) rfl rfl rfl htoken
      hother (by decide) _ _ _ hpath
  · have hfirst : beforeLookalike.Writes lookalike
        ⟨0, overwriting, 0, [], sampleScratch "0123abcd" 0⟩ "out/temp_1_0123abcd_3_0123abcd_rom" :=
      .writeScratch (by decide +kernel) (Feed.verified_ofDelivery _ _)
        (eq_ok_of_toOption (by decide +kernel))
    have hsecond : afterLookalike.Writes (.writeScratch "s" "/rom" [2] (crc32 [2]))
        ⟨0, overwriting, 0, [], sampleScratch "0123abcd" 2⟩ "out/temp_3_0123abcd_rom" :=
      .writeScratch (by decide +kernel) (Feed.verified_ofDelivery _ _)
        (eq_ok_of_toOption (by decide +kernel))
    obtain ⟨-, -, hunlinked⟩ :=
      hruns .empty _ _ _ _ _ _ _ _ _ _ htoken rfl hfirst rfl hsecond rfl
    have hthere : afterLookalike.tree.fileAt?
        (FileTree.placeOf "out/temp_1_0123abcd_3_0123abcd_rom") = some [1] := by decide +kernel
    exact (hunlinked FileTree.unlinked_empty).2.trans hthere

end Workspace

end RomArchive
