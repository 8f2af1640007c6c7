import RomArchive.Proofs.Extraction

/-!
# What an open handle answers

What a handle knows of its container was captured when it was opened. Until it is closed, whatever
else is done to other handles, to sessions and to the files, even to the file of the container,
questions about its entries have the answers that they had right after it was opened. The data of an
entry is the exception, since it is read when it is asked for. It may have become something else by
then, or may be gone; what is handed out all the same has the size and the checksum that were
captured.

There are two ways to say how long a handle stays open. A handle is closed by a few commands only,
so it is open as long as none of these was given; and a handle that is found open later, and has the
owner and the number of the one that was opened, was not closed in between.

## Main definitions

* `Workspace.Closes` — a command closes a handle
* `Workspace.AnswersAs` — questions about a handle have the answers they had
* `Workspace.Freezes` — how long it stays open, and what it answers

## Main results

* `Workspace.Sound.handle?_step` — a handle stays as it is unless a command closes it
* `Workspace.freezes_at_open` — an open handle answers as it did when it was opened
-/

namespace RomArchive

namespace Handle

variable {handle : Handle} {name : String} {container : OpenContainer} {member : Member}

/-- What is extracted has the size and the checksum of what was located. -/
theorem declared_of_extract (hlocate : handle.locate name = .ok (container, member))
    {files : FileTree} {contents : VerifiedBytes} (h : handle.extract files name = .ok contents) :
    contents.name = name ∧ contents.bytes.length = member.uncompressedSize ∧
      crc32 contents.bytes = member.checksum := by
  obtain ⟨⟨_, found⟩, hfound, h⟩ := exists_of_bind_eq_ok h
  obtain ⟨delivery, -, hverified⟩ := exists_of_bind_eq_ok h
  cases hlocate.symm.trans hfound
  exact Feed.verified_sound hverified

/-- What is extracted depends on the files only by what the file of the container holds. -/
theorem extract_congr (hlocate : handle.locate name = .ok (container, member))
    {files others : FileTree}
    (hsource : files.source container.file = others.source container.file) :
    handle.extract files name = handle.extract others name := by
  rw [extract, extract, hlocate]
  show (do
    let data ← (files.source container.file).entryData member
    (Feed.ofDelivery data).verified name member.uncompressedSize member.checksum) = _
  rw [hsource]
  rfl

/-- What cannot be located cannot be extracted. -/
theorem extract_of_locate_error {failure : Failure} (hlocate : handle.locate name = .error failure)
    (files : FileTree) : handle.extract files name = .error failure := by
  rw [extract, hlocate]
  rfl

end Handle

namespace Workspace

variable {workspace : Workspace} {name : String} {handle : Handle}

/-! ### Commands that close a handle -/

/-- A command closes the handle under a name. It is told to, or it gives the handle up, or needs its
name for another, or closes all handles of the session that opened it. -/
inductive Closes (workspace : Workspace) (name : String) (handle : Handle) : Command → Prop
  | close : Closes workspace name handle (.closeHandle name)
  | drop : Closes workspace name handle (.dropHandle name)
  | replace {sessionName path : String} {id : Nat}
      (hopened : (workspace.step (.openContainer sessionName path name)).reply = .handle id) :
      Closes workspace name handle (.openContainer sessionName path name)
  | closeAll {sessionName : String} {session : Session}
      (hsession : workspace.session? sessionName = some session)
      (howner : handle.owner = session.serial) :
      Closes workspace name handle (.closeAll sessionName)
  | dropSession {sessionName : String} {session : Session}
      (hsession : workspace.session? sessionName = some session)
      (howner : handle.owner = session.serial) :
      Closes workspace name handle (.dropSession sessionName)
  | startSession {sessionName : String} {session : Session} (settings : Settings) (token : String)
      (hsession : workspace.session? sessionName = some session)
      (howner : handle.owner = session.serial) :
      Closes workspace name handle (.startSession sessionName settings token)

theorem handle?_closeHandle_of_ne {other : String} (hne : name ≠ other) :
    (workspace.closeHandle other).handle? name = workspace.handle? name := by
  cases hother : workspace.handle? other with
  | none => rw [closeHandle_of_none hother]
  | some candidate =>
    cases hopen : candidate.isOpen with
    | false => rw [closeHandle_of_not_isOpen hother hopen]
    | true =>
      rw [closeHandle_of_isOpen hother hopen]
      have hlookup := lookup_map (fun entry => (closeName other entry).2) workspace.handles name
      refine hlookup.trans ?_
      show (workspace.handle? name).map _ = _
      cases workspace.handle? name with
      | none => rfl
      | some handle => exact congrArg some (if_neg hne)

theorem handle?_dropHandle_of_ne {other : String} (hne : name ≠ other) :
    (workspace.dropHandle other).handle? name = workspace.handle? name :=
  (lookup_filter_of_ne _ hne).trans (handle?_closeHandle_of_ne hne)

/-- The end of a session closes no handle of another one. -/
theorem Sound.handle?_dropSession_of_ne (h : workspace.Sound)
    (hhandle : workspace.handle? name = some handle) {sessionName : String}
    (hother : ∀ session, workspace.session? sessionName = some session →
      handle.owner ≠ session.serial) :
    (workspace.dropSession sessionName).1.handle? name = some handle := by
  cases hsession : workspace.session? sessionName with
  | none => rwa [dropSession, hsession]
  | some session =>
    rw [h.handle?_dropSession hsession, hhandle, Option.map_some, closeOwned,
      if_neg (hother session hsession)]

theorem handle?_openContainer (hhandle : workspace.handle? name = some handle)
    {sessionName path handleName : String}
    (hkept : ¬ workspace.Closes name handle (.openContainer sessionName path handleName)) :
    (workspace.openContainer sessionName path handleName).workspace.handle? name = some handle := by
  cases hsession : workspace.session? sessionName with
  | none =>
    simp only [openContainer, withSession, hsession]
    exact hhandle
  | some session =>
    rcases session.openContainer_cases workspace.tree path with
      ⟨failure, hresult, -⟩ | ⟨container, -, hresult, -⟩
    · simp only [openContainer, withSession, hsession, hresult]
      exact hhandle
    · have hne : name ≠ handleName := by
        rintro rfl
        have hopened : (workspace.step (.openContainer sessionName path name)).reply
            = .handle (newHandle session path container).id := by
          simp only [step, openContainer, withSession, hsession, hresult]
        exact hkept (.replace hopened)
      simp only [openContainer, withSession, hsession, hresult]
      refine List.lookup_append.trans ?_
      have hthere : (workspace.after sessionName
          (session.openContainer workspace.tree path)).handle? name = some handle := hhandle
      have hstill := (handle?_dropHandle_of_ne hne).trans hthere
      rw [show List.lookup name _ = some handle from hstill, Option.some_or]

/-- **A handle stays as it is unless a command closes it.** -/
theorem Sound.handle?_step (h : workspace.Sound) (hhandle : workspace.handle? name = some handle)
    {command : Command} (hkept : ¬ workspace.Closes name handle command) :
    (workspace.step command).workspace.handle? name = some handle := by
  have hsame : (workspace.step command).workspace.handles = workspace.handles →
      (workspace.step command).workspace.handle? name = some handle :=
    fun hhandles => (congrArg (List.lookup name) hhandles).trans hhandle
  cases command with
  | startSession sessionName settings token =>
    exact h.handle?_dropSession_of_ne hhandle fun session hsession howner =>
      hkept (.startSession settings token hsession howner)
  | dropSession sessionName =>
    exact h.handle?_dropSession_of_ne hhandle fun session hsession howner =>
      hkept (.dropSession hsession howner)
  | writeFile path bytes => exact hsame rfl
  | makeDirectory path => exact hsame rfl
  | removeFile path => exact hsame rfl
  | openContainer sessionName path handleName => exact handle?_openContainer hhandle hkept
  | dropHandle other =>
    have hne : name ≠ other := fun heq => hkept (heq ▸ .drop)
    exact (handle?_dropHandle_of_ne hne).trans hhandle
  | closeHandle other =>
    have hne : name ≠ other := fun heq => hkept (heq ▸ .close)
    simp only [step, withHandle]
    split
    · exact (handle?_closeHandle_of_ne hne).trans hhandle
    · exact hhandle
  | info other => exact hsame (handles_withHandle fun _ => rfl)
  | entries other => exact hsame (handles_withHandle fun _ => rfl)
  | exists? other entry => exact hsame (handles_withHandle fun _ => rfl)
  | findMedia other wanted => exact hsame (handles_withHandle fun _ => rfl)
  | extract other entry => exact hsame (handles_withHandle fun _ => rfl)
  | extractToScratch sessionName other entry =>
    exact hsame (handles_withSession fun _ => handles_withHandle fun _ => rfl)
  | findAndExtract sessionName path wanted => exact hsame (handles_withSession fun _ => rfl)
  | extractInto sessionName other entry buffer =>
    exact hsame (handles_withSession fun _ => handles_withHandle fun _ => rfl)
  | findAndExtractInto sessionName path wanted buffer =>
    exact hsame (handles_withSession fun _ => rfl)
  | writeScratch sessionName entry bytes checksum =>
    refine hsame (handles_withSession fun session => ?_)
    split <;> rfl
  | reservePath sessionName entry => exact hsame (handles_withSession fun _ => rfl)
  | countOpen sessionName => exact hsame (handles_withSession fun _ => rfl)
  | closeAll sessionName =>
    simp only [step, withSession]
    split
    · rename_i session hsession
      have howner : handle.owner ≠ session.serial :=
        fun howner => hkept (.closeAll hsession howner)
      show (workspace.closeAll session).1.handle? name = _
      rw [h.handle?_closeAll hsession, hhandle, Option.map_some, closeOwned, if_neg howner]
    · exact hhandle

/-- A handle stays as it is until a command closes it. -/
theorem Sound.handle?_run (h : workspace.Sound) (hhandle : workspace.handle? name = some handle)
    {commands : List Command} (hkept : ∀ earlier command later,
      commands = earlier ++ command :: later →
      ¬ (workspace.run earlier).Closes name handle command) :
    (workspace.run commands).handle? name = some handle := by
  induction commands generalizing workspace with
  | nil => exact hhandle
  | cons command commands ih =>
    refine ih ((step_moves h command).sound h) (h.handle?_step hhandle (hkept [] _ _ rfl))
      fun earlier next later hcommands => ?_
    exact hkept (command :: earlier) next later (congrArg (List.cons command) hcommands)

/-! ### The answers -/

/-- Questions about the handle under a name have the answers that they had in another workspace,
where it was the handle `handle`. -/
structure AnswersAs (later opened : Workspace) (name : String) (handle : Handle) : Prop where
  entries : (later.step (.entries name)).reply = (opened.step (.entries name)).reply
  exists? : ∀ entry,
    (later.step (.exists? name entry)).reply = (opened.step (.exists? name entry)).reply
  findMedia : ∀ wanted,
    (later.step (.findMedia name wanted)).reply = (opened.step (.findMedia name wanted)).reply
  /-- Looking up a name finds the same metadata, or fails in the same way. -/
  locate : ∀ entry, (later.handle? name).map (·.locate entry)
    = (opened.handle? name).map (·.locate entry)
  /-- What cannot be looked up cannot be extracted, for the same reason. -/
  missing : ∀ entry failure, handle.locate entry = .error failure →
    (later.step (.extract name entry)).reply = .failed failure
  /-- Extraction gives the same while the file of the container holds the same. -/
  unchanged : ∀ entry container member, handle.locate entry = .ok (container, member) →
    later.tree.source container.file = opened.tree.source container.file →
    (later.step (.extract name entry)).reply = (opened.step (.extract name entry)).reply
  /-- Whatever that holds, extraction fails or gives contents of the size and the checksum that
  were captured. -/
  vouched : ∀ entry container member, handle.locate entry = .ok (container, member) →
    (∃ failure, (later.step (.extract name entry)).reply = .failed failure) ∨
    ∃ contents, (later.step (.extract name entry)).reply = .contents contents ∧
      contents.name = entry ∧ contents.bytes.length = member.uncompressedSize ∧
      crc32 contents.bytes = member.checksum

/-- How long a handle that is open in this workspace stays so while commands are given, and what it
answers until then. -/
structure Freezes (opened : Workspace) (name : String) (handle : Handle) (commands : List Command) :
    Prop where
  /-- As long as none of the commands closes it, it is there under its name. -/
  kept : (∀ earlier command later, commands = earlier ++ command :: later →
      ¬ (opened.run earlier).Closes name handle command) →
    (opened.run commands).handle? name = some handle
  /-- Wherever it is found open, it has its name and answers as it did. -/
  answers : ∀ other held, (opened.run commands).handle? other = some held →
    held.owner = handle.owner → held.id = handle.id → held.isOpen = true →
    other = name ∧ (opened.run commands).AnswersAs opened name handle

/-- The same handle gives the same answers, wherever it is asked. -/
theorem answersAs_of_handle? {later opened : Workspace} (hlater : later.handle? name = some handle)
    (hopened : opened.handle? name = some handle) : later.AnswersAs opened name handle where
  entries := by simp only [step, withHandle, hlater, hopened, answer]
  exists? := fun entry => by simp only [step, withHandle, hlater, hopened, answer]
  findMedia := fun wanted => by simp only [step, withHandle, hlater, hopened, answer]
  locate := fun entry => by rw [hlater, hopened]
  missing := by
    intro entry failure hlocate
    simp only [step, withHandle, hlater, answer, Handle.extract_of_locate_error hlocate]
    rfl
  unchanged := by
    intro entry container member hlocate hsource
    simp only [step, withHandle, hlater, hopened, answer, Handle.extract_congr hlocate hsource]
  vouched := by
    intro entry container member hlocate
    simp only [step, withHandle, hlater, answer]
    cases hextract : handle.extract later.tree entry with
    | error failure => exact Or.inl ⟨failure, rfl⟩
    | ok contents => exact Or.inr ⟨contents, rfl, Handle.declared_of_extract hlocate hextract⟩

theorem Sound.freezes (h : workspace.Sound) (hhandle : workspace.handle? name = some handle)
    (commands : List Command) : workspace.Freezes name handle commands where
  kept := h.handle?_run hhandle
  answers := by
    intro other held hheld howner hid hopen
    -- Closing keeps the name, so every handle with this number is the old one or that one closed.
    have hclosed : ∀ entry : String × Handle,
        entry = (name, handle) ∨ entry = (name, handle.closed) →
        (entry.1, entry.2.closed) = (name, handle) ∨
          (entry.1, entry.2.closed) = (name, handle.closed) := by
      rintro entry (rfl | rfl) <;> exact Or.inr rfl
    have hsettled := Settled.run h hclosed (h.settled hhandle (Or.inl rfl)) commands
    rcases hsettled.handles _ (mem_of_lookup hheld) howner hid with heq | heq
    · cases heq
      exact ⟨rfl, answersAs_of_handle? hheld hhandle⟩
    · cases heq
      cases hopen

/-- What an opened container leaves under the name of its handle. -/
theorem handle?_of_openContainer {sessionName path : String} {id : Nat}
    (hopened : (workspace.step (.openContainer sessionName path name)).reply = .handle id) :
    ∃ handle, (workspace.step (.openContainer sessionName path name)).workspace.handle? name
      = some handle ∧ handle.isOpen = true ∧ handle.id = id := by
  cases hsession : workspace.session? sessionName with
  | none =>
    simp only [step, openContainer, withSession, hsession] at hopened
    cases hopened
  | some session =>
    rcases session.openContainer_cases workspace.tree path with
      ⟨failure, hresult, -⟩ | ⟨container, -, hresult, -⟩
    · simp only [step, openContainer, withSession, hsession, hresult] at hopened
      cases hopened
    · simp only [step, openContainer, withSession, hsession, hresult] at hopened ⊢
      refine ⟨newHandle session path container, List.lookup_append.trans ?_, rfl,
        Reply.handle.inj hopened⟩
      have hfreed : ((workspace.after sessionName
          (session.openContainer workspace.tree path)).dropHandle name).handle? name = none :=
        lookup_filter_self _ name
      rw [show List.lookup name _ = none from hfreed, Option.none_or]
      exact List.lookup_cons_self

/-- **An open handle answers as it did when it was opened.** Any commands may have come before, and
any may follow. -/
theorem freezes_at_open (tree : FileTree) (before : List Command) {sessionName path name : String}
    {id : Nat} (hopened : (((ofTree tree).run before).step
      (.openContainer sessionName path name)).reply = .handle id) :
    ∃ handle, (((ofTree tree).run before).step
        (.openContainer sessionName path name)).workspace.handle? name = some handle ∧
      handle.isOpen = true ∧ handle.id = id ∧
      ∀ commands, (((ofTree tree).run before).step
        (.openContainer sessionName path name)).workspace.Freezes name handle commands := by
  obtain ⟨handle, hhandle, hopen, hid⟩ := handle?_of_openContainer hopened
  have h := (sound_ofTree tree).run before
  have hstep := (step_moves h (.openContainer sessionName path name)).sound h
  exact ⟨handle, hhandle, hopen, hid, hstep.freezes hhandle⟩

/-- The file is cut off behind the back of the handle. -/
theorem freezes_at_open_cutOff :
    (((ofTree .empty).run (cutOff.take 2)).step
      (.openContainer "s" "games.zip" "h")).reply = .handle 1 ∧
    ∃ handle, (((ofTree .empty).run (cutOff.take 2)).step
        (.openContainer "s" "games.zip" "h")).workspace.handle? "h" = some handle ∧
      handle.isOpen = true ∧ handle.id = 1 ∧
      (((ofTree .empty).run (cutOff.take 2)).step
        (.openContainer "s" "games.zip" "h")).workspace.Freezes "h" handle (cutOff.drop 3) := by
  have hopened : (((ofTree .empty).run (cutOff.take 2)).step
      (.openContainer "s" "games.zip" "h")).reply = .handle 1 := by decide +kernel
  obtain ⟨handle, hhandle, hopen, hid, hfreezes⟩ := freezes_at_open .empty (cutOff.take 2) hopened
  exact ⟨hopened, handle, hhandle, hopen, hid, hfreezes (cutOff.drop 3)⟩

end Workspace

end RomArchive
