import RomArchive.Proofs.Registry.Frame

/-!
# Commands are moves

Each command is a sequence of moves that touch the session it is about, the session of a handle that
it closes or replaces, and, when a session starts, the number of that session. The one command that
needs an argument is the opening of a container under a name that a handle already has: there the
new number is given out before the old handle is closed, and it has to be seen that the order of the
two does not matter.

## Main definitions

* `Command.session?`, `Command.handle?` — the session that a command is about, and the handle that
  it closes or replaces
* `Workspace.touches`, `Workspace.opening` — what a command touches, and the number it gives out

## Main results

* `Workspace.step_moves` — a command is a sequence of moves
-/

namespace RomArchive

/-! ### What a command is about -/

/-- The session that a command is about. -/
def Command.session? : Command → Option String
  | .startSession name _ _ => some name
  | .dropSession name => some name
  | .openContainer name _ _ => some name
  | .extractToScratch name _ _ => some name
  | .findAndExtract name _ _ => some name
  | .extractInto name _ _ _ => some name
  | .findAndExtractInto name _ _ _ => some name
  | .writeScratch name _ _ _ => some name
  | .reservePath name _ => some name
  | .countOpen name => some name
  | .closeAll name => some name
  | _ => none

/-- The handle that a command closes or replaces. -/
def Command.handle? : Command → Option String
  | .openContainer _ _ name => some name
  | .dropHandle name => some name
  | .closeHandle name => some name
  | _ => none

namespace Workspace

/-- The serial numbers that a command touches: that of its session, that of the session which opened
the handle it closes or replaces, and the number of the next session to start. -/
inductive touches (workspace : Workspace) (command : Command) : Nat → Prop
  | session {name : String} {session : Session} (hcommand : command.session? = some name)
      (hsession : workspace.session? name = some session) :
      touches workspace command session.serial
  | handle {name : String} {handle : Handle} (hcommand : command.handle? = some name)
      (hhandle : workspace.handle? name = some handle) : touches workspace command handle.owner
  | fresh : touches workspace command workspace.started

/-- The number that opening a container gives out: a session's own number, and the handle's. -/
def openingAt (workspace : Workspace) (name path : String) : List (Nat × Nat) :=
  match workspace.session? name with
  | some session =>
    match (session.openContainer workspace.tree path).result with
    | .ok handle => [(handle.owner, handle.id)]
    | .error _ => []
  | none => []

/-- The number that a command gives out, if it opens a container. -/
def opening (workspace : Workspace) : Command → List (Nat × Nat)
  | .openContainer name path _ => workspace.openingAt name path
  | .findAndExtract name path _ => workspace.openingAt name path
  | .findAndExtractInto name path _ _ => workspace.openingAt name path
  | _ => []

end Workspace

/-! ### Operations of a session -/

namespace Session

variable (session : Session) (tree : FileTree)

/-- Opening a container gives out the next number, or changes nothing. -/
theorem openContainer_cases (path : String) :
    (∃ failure, (session.openContainer tree path).result = .error failure ∧
      (session.openContainer tree path).session = session ∧
      (session.openContainer tree path).tree = tree) ∨
    ∃ container, (OpenContainer.capture tree session.settings.unreadable path).1 = .ok container ∧
      (session.openContainer tree path).result
        = .ok (Workspace.newHandle session path container) ∧
      (session.openContainer tree path).session = session.issue ∧
      (session.openContainer tree path).tree = tree := by
  rw [openContainer]
  rcases OpenContainer.capture tree session.settings.unreadable path with ⟨result, warnings⟩
  cases result with
  | error failure => exact Or.inl ⟨failure, rfl, rfl, rfl⟩
  | ok container => exact Or.inr ⟨container, rfl, rfl, rfl, rfl⟩

theorem extractToScratch_session (handle : Handle) (name : String) :
    ∃ scratch, (session.extractToScratch tree handle name).session
      = { session with scratch := scratch } := by
  rw [extractToScratch]
  split
  · exact ⟨session.scratch, rfl⟩
  · exact ⟨_, rfl⟩

theorem extractMedia_session (handle : Handle) (wanted : Option (List String)) :
    ∃ scratch, (session.extractMedia tree handle wanted).session
      = { session with scratch := scratch } := by
  rw [extractMedia]
  split
  · exact ⟨session.scratch, rfl⟩
  · exact session.extractToScratch_session tree handle _

/-- Giving out a number and forgetting an older one can be done in either order. -/
theorem forget_issue {id : Nat} (h : id ≤ session.issued) :
    session.issue.forget id = (session.forget id).issue := by
  have hnew : [session.issued + 1].filter (· ≠ id) = [session.issued + 1] :=
    List.filter_eq_self.2 fun other hother => decide_eq_true (by
      rw [List.mem_singleton.1 hother]
      omega)
  simp only [forget, issue, List.filter_append, hnew]

/-- Giving out a number and forgetting it leaves only the count. -/
theorem forget_issue_self (scratch : Scratch) (h : session.issued + 1 ∉ session.live) :
    forget { session.issue with scratch := scratch } (session.issued + 1)
      = { session with issued := session.issued + 1, scratch := scratch } := by
  have hold : session.live.filter (· ≠ session.issued + 1) = session.live :=
    List.filter_eq_self.2 fun other hother =>
      decide_eq_true fun heq => h (heq ▸ hother)
  have hnew : [session.issued + 1].filter (· ≠ session.issued + 1) = [] :=
    List.filter_eq_nil_iff.2 fun other hother => by simpa using hother
  have hlive : (session.live ++ [session.issued + 1]).filter (· ≠ session.issued + 1)
      = session.live := by
    rw [List.filter_append, hold, hnew, List.append_nil]
  simp only [forget, issue, hlive]

/-- Finding and extracting an entry uses up a number if the container can be opened, and leaves the
list as it was. -/
theorem findAndExtract_cases (path : String) (wanted : Option (List String))
    (h : session.issued + 1 ∉ session.live) :
    (∃ failure, (session.openContainer tree path).result = .error failure ∧
      (session.findAndExtract tree path wanted).session = session) ∨
    ∃ container scratch,
      (session.openContainer tree path).result
        = .ok (Workspace.newHandle session path container) ∧
      (session.findAndExtract tree path wanted).session
        = { session with issued := session.issued + 1, scratch := scratch } := by
  rcases session.openContainer_cases tree path with ⟨failure, hresult, hsession, -⟩ |
    ⟨container, -, hresult, hsession, -⟩
  · refine Or.inl ⟨failure, hresult, ?_⟩
    simp only [findAndExtract, hresult, hsession]
  · obtain ⟨scratch, hscratch⟩ := session.issue.extractMedia_session
      (session.openContainer tree path).tree (Workspace.newHandle session path container) wanted
    refine Or.inr ⟨container, scratch, hresult, ?_⟩
    simp only [findAndExtract, hresult, hsession, hscratch]
    exact session.forget_issue_self scratch h

end Session

namespace Workspace

variable {workspace middle next : Workspace} {touched : Nat → Prop} {ids more : List (Nat × Nat)}
  {name : String}

/-! ### Moves together -/

theorem Move.moves (hmove : Move touched workspace ids next) : Moves touched workspace ids next :=
  .tail .refl hmove

/-- A move that gives out no number, behind others. -/
theorem Moves.then (hmoves : Moves touched workspace ids middle)
    (hmove : Move touched middle [] next) : Moves touched workspace ids next := by
  have htail := hmoves.tail hmove
  rwa [List.append_nil] at htail

/-- What a session did to itself and to the files. -/
theorem after_moves {α : Type} {outcome : Session.Outcome α} {session : Session}
    (hsession : workspace.session? name = some session) (htouched : touched session.serial)
    (hscratch : ∃ scratch, outcome.session = { session with scratch := scratch }) :
    Moves touched workspace [] (workspace.after name outcome) := by
  obtain ⟨scratch, hscratch⟩ := hscratch
  have hwritten : Move touched workspace [] (workspace.replace name outcome.session) :=
    hscratch ▸ .written scratch hsession htouched
  exact hwritten.moves.then (.files outcome.tree)

/-! ### Giving up a handle -/

/-- Under its name there is then the closed handle. -/
theorem handle?_closeHandle (workspace : Workspace) (name : String) :
    (workspace.closeHandle name).handle? name = (workspace.handle? name).map Handle.closed := by
  cases hhandle : workspace.handle? name with
  | none => rw [closeHandle_of_none hhandle, hhandle]; rfl
  | some handle =>
    cases hopen : handle.isOpen with
    | false =>
      rw [closeHandle_of_not_isOpen hhandle hopen, hhandle, Option.map_some,
        Handle.closed_of_not_isOpen hopen]
    | true =>
      rw [closeHandle_of_isOpen hhandle hopen]
      have hlookup := lookup_map (fun entry : String × Handle =>
        if entry.1 = name then entry.2.closed else entry.2) workspace.handles name
      refine hlookup.trans ?_
      rw [show workspace.handles.lookup name = some handle from hhandle]
      exact congrArg some (if_pos rfl)

theorem closeHandle_moves (htouched : ∀ handle, workspace.handle? name = some handle →
    touched handle.owner) : Moves touched workspace [] (workspace.closeHandle name) := by
  cases hhandle : workspace.handle? name with
  | none =>
    rw [closeHandle_of_none hhandle]
    exact .refl
  | some handle => exact (Move.closed hhandle (htouched handle hhandle)).moves

theorem dropHandle_moves (htouched : ∀ handle, workspace.handle? name = some handle →
    touched handle.owner) : Moves touched workspace [] (workspace.dropHandle name) := by
  refine (closeHandle_moves htouched).then (.removed fun closed hclosed => ?_)
  rw [handle?_closeHandle, Option.map_eq_some_iff] at hclosed
  obtain ⟨handle, hhandle, rfl⟩ := hclosed
  exact ⟨rfl, htouched handle hhandle⟩

/-! ### Sessions start and end -/

/-- The session is still there, and lists nothing. -/
theorem session?_closeAll {session : Session} (hsession : workspace.session? name = some session) :
    (workspace.closeAll session).1.session? name = some { session with live := [] } := by
  have hlookup := lookup_map (fun entry => (clearLive session entry).2) workspace.sessions name
  rw [closeAll_fst]
  refine hlookup.trans ?_
  rw [show workspace.sessions.lookup name = some session from hsession]
  exact congrArg some (if_pos rfl)

theorem dropSession_moves (htouched : ∀ session, workspace.session? name = some session →
    touched session.serial) : Moves touched workspace [] (workspace.dropSession name).1 := by
  cases hsession : workspace.session? name with
  | none =>
    rw [dropSession, hsession]
    exact .refl
  | some session =>
    have htouch := htouched session hsession
    have hclosed := session?_closeAll hsession
    rw [dropSession, hsession]
    exact (Move.closedAll hsession htouch).moves.then (.ended hclosed rfl htouch)

theorem session?_dropSession (workspace : Workspace) (name : String) :
    (workspace.dropSession name).1.session? name = none := by
  cases hsession : workspace.session? name with
  | none => rwa [dropSession, hsession]
  | some session =>
    rw [dropSession, hsession]
    exact lookup_filter_self _ name

theorem started_dropSession (workspace : Workspace) (name : String) :
    (workspace.dropSession name).1.started = workspace.started := by
  rw [dropSession]
  split
  · exact workspace.started_closeAll _
  · rfl

theorem startSession_moves (settings : Settings) (token : String)
    (htouched : ∀ session, workspace.session? name = some session → touched session.serial)
    (hfresh : touched workspace.started) :
    Moves touched workspace [] (workspace.startSession name settings token).workspace := by
  have hstarted := workspace.started_dropSession name
  have hmove : Move touched (workspace.dropSession name).1 [] _ :=
    .started settings token (workspace.session?_dropSession name) (hstarted.symm ▸ hfresh)
  rw [hstarted] at hmove
  refine (dropSession_moves htouched).then ?_
  rw [startSession]
  simp only [hstarted]
  exact hmove

/-! ### Opening under a name that is taken -/

/-- Session by session, forgetting a handle and giving out a number can be done in either order: the
handle has an older number. -/
theorem Sound.sessions_forgetHandle (h : workspace.Sound) {session : Session} {handle : Handle}
    {handleName : String} (hsession : workspace.session? name = some session)
    (hhandle : workspace.handle? handleName = some handle) :
    (workspace.replace name session.issue).sessions.map (forgetHandle handle)
      = (workspace.sessions.map (forgetHandle handle)).map fun entry =>
          (entry.1, if entry.1 = name then (forgetHandle handle (name, session)).2.issue
            else entry.2) := by
  rw [Workspace.replace, List.map_map, List.map_map]
  refine List.map_congr_left fun entry _ => Prod.ext rfl ?_
  show (forgetHandle handle (entry.1, if entry.1 = name then session.issue else entry.2)).2
    = if entry.1 = name then (forgetHandle handle (name, session)).2.issue
        else (forgetHandle handle entry).2
  by_cases hname : entry.1 = name
  · rw [if_pos hname, if_pos hname]
    show (if session.serial = handle.owner then session.issue.forget handle.id
      else session.issue) = (if session.serial = handle.owner then _ else _ : Session).issue
    by_cases howner : session.serial = handle.owner
    · have hid := h.issued _ (mem_of_lookup hsession) _ (mem_of_lookup hhandle) howner.symm
      rw [if_pos howner, if_pos howner]
      exact session.forget_issue hid
    · rw [if_neg howner, if_neg howner]
  · rw [if_neg hname, if_neg hname]

/-- Giving up a handle and giving out a number can be done in either order: the handle that is given
up has an older number. -/
theorem Sound.dropHandle_replace (h : workspace.Sound) {session : Session}
    (hsession : workspace.session? name = some session) (handleName : String) :
    ∃ anew, (workspace.dropHandle handleName).session? name = some anew ∧
      anew.serial = session.serial ∧ anew.issued = session.issued ∧
      anew.settings = session.settings ∧
      (workspace.replace name session.issue).dropHandle handleName
        = (workspace.dropHandle handleName).replace name anew.issue := by
  have hunchanged : workspace.closeHandle handleName = workspace →
      (workspace.replace name session.issue).closeHandle handleName
        = workspace.replace name session.issue →
      (workspace.dropHandle handleName).session? name = some session ∧
      (workspace.replace name session.issue).dropHandle handleName
        = (workspace.dropHandle handleName).replace name session.issue := by
    intro hold hnew
    rw [dropHandle, dropHandle, hold, hnew]
    exact ⟨hsession, rfl⟩
  cases hhandle : workspace.handle? handleName with
  | none =>
    obtain ⟨hfound, hdrop⟩ := hunchanged (closeHandle_of_none hhandle)
      (closeHandle_of_none hhandle)
    exact ⟨session, hfound, rfl, rfl, rfl, hdrop⟩
  | some handle =>
    cases hopen : handle.isOpen with
    | false =>
      obtain ⟨hfound, hdrop⟩ := hunchanged (closeHandle_of_not_isOpen hhandle hopen)
        (closeHandle_of_not_isOpen hhandle hopen)
      exact ⟨session, hfound, rfl, rfl, rfl, hdrop⟩
    | true =>
      have hanew : (workspace.dropHandle handleName).session? name
          = some (forgetHandle handle (name, session)).2 := by
        have hlookup := lookup_map (fun entry => (forgetHandle handle entry).2)
          workspace.sessions name
        rw [show workspace.sessions.lookup name = some session from hsession] at hlookup
        rw [dropHandle, closeHandle_of_isOpen hhandle hopen]
        exact hlookup
      obtain ⟨hserial, hissued, hsettings⟩ := forgetHandle_key handle (name, session)
      refine ⟨_, hanew, hserial, hissued, hsettings, ?_⟩
      have hanyway : (workspace.replace name session.issue).handle? handleName = some handle :=
        hhandle
      rw [dropHandle, dropHandle, closeHandle_of_isOpen hhandle hopen,
        closeHandle_of_isOpen hanyway hopen, h.sessions_forgetHandle hsession hhandle]
      rfl

theorem openContainer_moves (h : workspace.Sound) (path handleName : String)
    (htouched : ∀ session, workspace.session? name = some session → touched session.serial)
    (hfreed : ∀ handle, workspace.handle? handleName = some handle → touched handle.owner) :
    Moves touched workspace (workspace.openingAt name path)
      (workspace.openContainer name path handleName).workspace := by
  cases hsession : workspace.session? name with
  | none =>
    simp only [openContainer, withSession, openingAt, hsession]
    exact .refl
  | some session =>
    simp only [openContainer, withSession, openingAt, hsession]
    rcases session.openContainer_cases workspace.tree path with
      ⟨failure, hresult, hsame, htree⟩ | ⟨container, -, hresult, hissue, htree⟩
    · simp only [hresult]
      exact after_moves hsession (htouched session hsession) ⟨session.scratch, hsame⟩
    · simp only [hresult]
      obtain ⟨anew, hanew, hserial, hissued, hsettings, hdrop⟩ :=
        h.dropHandle_replace hsession handleName
      have hafter : workspace.after name (session.openContainer workspace.tree path)
          = workspace.replace name session.issue := by
        rw [after, htree, hissue]
        rfl
      have hhandle : newHandle session path container = newHandle anew path container := by
        rw [newHandle, newHandle, hserial, hissued, hsettings]
      have hmove : Move touched (workspace.dropHandle handleName) _ _ :=
        .opened handleName path container hanew (lookup_filter_self _ handleName)
          (hserial ▸ htouched session hsession)
      rw [hafter, hdrop, hhandle]
      have hmoves := (dropHandle_moves hfreed).tail hmove
      rw [List.nil_append] at hmoves
      exact hmoves

/-! ### Every command -/

/-- A session's next number is not listed yet. -/
theorem Sound.next_notMem (h : workspace.Sound) {session : Session}
    (hsession : workspace.session? name = some session) :
    session.issued + 1 ∉ session.live := fun hmem =>
  Nat.not_succ_le_self _ (h.le_issued (mem_of_lookup hsession) hmem)

theorem findAndExtract_moves (h : workspace.Sound) (path : String)
    (wanted : Option (List String)) (reply : Except Failure String → Reply)
    (htouched : ∀ session, workspace.session? name = some session → touched session.serial) :
    Moves touched workspace (workspace.openingAt name path)
      (workspace.withSession name fun session =>
        workspace.stepOf name (session.findAndExtract workspace.tree path wanted)
          reply).workspace := by
  cases hsession : workspace.session? name with
  | none =>
    simp only [withSession, openingAt, hsession]
    exact .refl
  | some session =>
    simp only [withSession, openingAt, hsession]
    rcases session.findAndExtract_cases workspace.tree path wanted (h.next_notMem hsession) with
      ⟨failure, hresult, hsame⟩ | ⟨container, scratch, hresult, hspent⟩
    · simp only [hresult]
      exact after_moves hsession (htouched session hsession) ⟨session.scratch, hsame⟩
    · simp only [hresult]
      have hmove : Move touched workspace [(session.serial, session.issued + 1)]
          (workspace.replace name (session.findAndExtract workspace.tree path wanted).session) :=
        hspent ▸ .spent scratch hsession (htouched session hsession)
      exact hmove.moves.then (.files _)

/-- A command about a session that only does something to itself and to the files. -/
theorem withSession_moves {α : Type} {operation : Session → Session.Outcome α}
    {reply : Except Failure α → Reply}
    (htouched : ∀ session, workspace.session? name = some session → touched session.serial)
    (hscratch : ∀ session, ∃ scratch,
      (operation session).session = { session with scratch := scratch }) :
    Moves touched workspace [] (workspace.withSession name fun session =>
      workspace.stepOf name (operation session) reply).workspace := by
  cases hsession : workspace.session? name with
  | none =>
    simp only [withSession, hsession]
    exact .refl
  | some session =>
    simp only [withSession, hsession]
    exact after_moves hsession (htouched session hsession) (hscratch session)

/-- The same with a handle, which is only looked at. -/
theorem withSession_withHandle_moves {α : Type} {operation : Session → Handle → Session.Outcome α}
    {reply : Except Failure α → Reply} (handleName : String)
    (htouched : ∀ session, workspace.session? name = some session → touched session.serial)
    (hscratch : ∀ session handle, ∃ scratch,
      (operation session handle).session = { session with scratch := scratch }) :
    Moves touched workspace [] (workspace.withSession name fun session =>
      workspace.withHandle handleName fun handle =>
        workspace.stepOf name (operation session handle) reply).workspace := by
  cases hhandle : workspace.handle? handleName with
  | none =>
    simp only [withSession, withHandle, hhandle]
    split <;> exact .refl
  | some handle =>
    simp only [withHandle, hhandle]
    exact withSession_moves htouched fun session => hscratch session handle

/-- A question about a handle changes nothing. -/
theorem withHandle_answer (reply : Handle → Reply) :
    (workspace.withHandle name fun handle => workspace.answer (reply handle)).workspace
      = workspace := by
  rw [withHandle]
  split <;> rfl

/-- **A command is a sequence of moves.** -/
theorem step_moves (h : workspace.Sound) (command : Command) :
    Moves (workspace.touches command) workspace (workspace.opening command)
      (workspace.step command).workspace := by
  cases command with
  | startSession name settings token =>
    exact startSession_moves settings token (fun _ hsession => .session rfl hsession) .fresh
  | dropSession name => exact dropSession_moves fun _ hsession => .session rfl hsession
  | writeFile path bytes => exact (Move.files _).moves
  | makeDirectory path => exact (Move.files _).moves
  | removeFile path => exact (Move.files _).moves
  | openContainer name path handleName =>
    exact openContainer_moves h path handleName (fun _ hsession => .session rfl hsession)
      fun _ hhandle => .handle rfl hhandle
  | dropHandle name => exact dropHandle_moves fun _ hhandle => .handle rfl hhandle
  | closeHandle name =>
    have hmoves : Moves (workspace.touches (.closeHandle name)) workspace []
        (workspace.closeHandle name) := closeHandle_moves fun _ hhandle => .handle rfl hhandle
    simp only [step, withHandle]
    split
    · exact hmoves
    · exact .refl
  | info name => exact withHandle_answer _ ▸ .refl
  | entries name => exact withHandle_answer _ ▸ .refl
  | exists? handle name => exact withHandle_answer _ ▸ .refl
  | findMedia name wanted => exact withHandle_answer _ ▸ .refl
  | extract handle name => exact withHandle_answer _ ▸ .refl
  | extractToScratch name handle entry =>
    exact withSession_withHandle_moves handle (fun _ hsession => .session rfl hsession)
      fun session source => session.extractToScratch_session workspace.tree source entry
  | findAndExtract name path wanted =>
    exact findAndExtract_moves h path wanted _ fun _ hsession => .session rfl hsession
  | extractInto name handle entry buffer =>
    exact withSession_withHandle_moves handle (fun _ hsession => .session rfl hsession)
      fun session source => session.extractToScratch_session workspace.tree source entry
  | findAndExtractInto name path wanted buffer =>
    exact findAndExtract_moves h path wanted _ fun _ hsession => .session rfl hsession
  | writeScratch name entry bytes checksum =>
    simp only [step, writeScratch]
    cases (Feed.ofDelivery ⟨bytes, none⟩).verified entry bytes.length checksum with
    | error failure =>
      simp only [withSession]
      split <;> exact .refl
    | ok contents =>
      exact withSession_moves (fun _ hsession => .session rfl hsession) fun session => ⟨_, rfl⟩
  | reservePath name entry =>
    exact withSession_moves (fun _ hsession => .session rfl hsession) fun session => ⟨_, rfl⟩
  | countOpen name =>
    simp only [step, withSession]
    split <;> exact .refl
  | closeAll name =>
    simp only [step, withSession]
    split
    · exact (Move.closedAll ‹_› (.session rfl ‹_›)).moves
    · exact .refl

end Workspace

end RomArchive
