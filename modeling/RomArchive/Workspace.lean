import RomArchive.Session

/-!
# Workspaces

A workspace is a tree of files with any number of sessions and handles in it, each under a name.
Sessions and handles come and go independently: a handle outlives the session that opened it, and
an operation may combine any session with any handle. The files may change between operations.

`Workspace.step` performs one command. A run of commands is a fold over it, so what holds in every
reachable workspace is shown by looking at each command once.

## Main definitions

* `Workspace` — the tree, the sessions and the handles.
* `Command`, `Reply` — what can be asked for, and what is answered.
* `Workspace.step` — one command.
* `Workspace.run` — a run of commands.
-/

namespace RomArchive

/-- A tree of files with sessions and handles in it. `started` is the number of sessions so
far. -/
structure Workspace where
  tree : FileTree
  sessions : List (String × Session)
  handles : List (String × Handle)
  started : Nat
  deriving DecidableEq

/-- What can be asked of a workspace. -/
inductive Command where
  | startSession (name : String) (settings : Settings) (token : String)
  | dropSession (name : String)
  | writeFile (path : String) (bytes : Bytes)
  | makeDirectory (path : String)
  | removeFile (path : String)
  | openContainer (session path handle : String)
  | dropHandle (handle : String)
  | closeHandle (handle : String)
  | info (handle : String)
  | entries (handle : String)
  | exists? (handle name : String)
  | findMedia (handle : String) (wanted : Option (List String))
  | extract (handle name : String)
  | extractToScratch (session handle name : String)
  | findAndExtract (session path : String) (wanted : Option (List String))
  | extractInto (session handle name : String) (buffer : Bytes)
  | findAndExtractInto (session path : String) (wanted : Option (List String)) (buffer : Bytes)
  | writeScratch (session name : String) (bytes : Bytes) (checksum : UInt32)
  | reservePath (session name : String)
  | countOpen (session : String)
  | closeAll (session : String)

/-- What a workspace answers. -/
inductive Reply where
  | noSuchSession
  | noSuchHandle
  | done
  | flag (value : Bool)
  | count (value : Nat)
  | failed (failure : Failure)
  | session (settings : Settings)
  | handle (id : Nat)
  | info (id : Nat) (isOpen : Bool) (path : String)
  | catalog (entries : List CatalogEntry)
  | name (value : String)
  | contents (value : VerifiedBytes)
  | path (value : String)
  | report (isDone : Bool) (buffer : Bytes)
  deriving DecidableEq

/-- The reply to a command that gives a value or fails. -/
def Reply.ofResult {α : Type} (reply : α → Reply) : Except Failure α → Reply
  | .ok value => reply value
  | .error failure => .failed failure

/-- The reply to a caller who gave a buffer for a path. -/
def Reply.ofReport (buffer : Bytes) (result : Except Failure String) : Reply :=
  let (isDone, filled) := reportInto result buffer
  .report isDone filled

namespace Workspace

/-- A workspace without sessions and handles. -/
def ofTree (tree : FileTree) : Workspace :=
  ⟨tree, [], [], 0⟩

/-! ### Names -/

def session? (workspace : Workspace) (name : String) : Option Session :=
  workspace.sessions.lookup name

def handle? (workspace : Workspace) (name : String) : Option Handle :=
  workspace.handles.lookup name

/-- How many handles of each session are open. -/
def openCounts (workspace : Workspace) : List (String × Nat) :=
  workspace.sessions.map fun (name, session) => (name, session.openCount)

/-! ### Closing -/

/-- The workspace after a handle told its session, if that is still there, that it is closed. -/
def forget (workspace : Workspace) (handle : Handle) : Workspace :=
  { workspace with
    sessions := workspace.sessions.map fun (name, session) =>
      (name, if session.serial = handle.owner then session.forget handle.id else session) }

/-- The workspace after a handle was closed. A handle that was closed before stays as it is. -/
def closeHandle (workspace : Workspace) (name : String) : Workspace :=
  match workspace.handle? name with
  | some handle =>
    if handle.isOpen then
      { workspace.forget handle with
        handles := workspace.handles.map fun (other, candidate) =>
          (other, if other = name then candidate.closed else candidate) }
    else workspace
  | none => workspace

/-- The workspace after a handle was closed and given up. -/
def dropHandle (workspace : Workspace) (name : String) : Workspace :=
  let closed := workspace.closeHandle name
  { closed with handles := closed.handles.filter (·.1 ≠ name) }

/-- What closing some handles comes to: the workspace afterwards, how many of them were open, and a
warning for each of these. -/
structure Closing where
  workspace : Workspace
  closed : Nat
  warnings : List Warning

/-- Is this the handle to which a session gave a number? -/
def isNumbered (serial id : Nat) (handle : Handle) : Bool :=
  handle.owner = serial && handle.id = id

/-- Close one handle more. One that was given up, or closed before, is passed over. -/
def Closing.next (serial : Nat) (closing : Closing) (id : Nat) : Closing :=
  if closing.workspace.handles.any fun (_, handle) => isNumbered serial id handle && handle.isOpen
  then
    { workspace := { closing.workspace with
        handles := closing.workspace.handles.map fun (name, handle) =>
          (name, if isNumbered serial id handle then handle.closed else handle) }
      closed := closing.closed + 1
      warnings := closing.warnings ++ [.leftOpen id] }
  else closing

/-- The workspace after a session forgot all of its handles. -/
def forgetAll (workspace : Workspace) (session : Session) : Workspace :=
  { workspace with
    sessions := workspace.sessions.map fun (name, candidate) =>
      (name, if candidate.serial = session.serial then { candidate with live := [] }
        else candidate) }

/-- Let a session forget its handles, and close those with the given numbers one after the other. -/
def closeInTurn (workspace : Workspace) (session : Session) (ids : List Nat) : Closing :=
  ids.foldl (Closing.next session.serial) ⟨workspace.forgetAll session, 0, []⟩

/-- The workspace after all handles that a session lists were closed, and a warning for each that was
open; how many these were, a session does not pass on. It keeps its list in no order that anyone
could rely on. Here they are closed in the order in which they were opened. -/
def closeAll (workspace : Workspace) (session : Session) : Workspace × List Warning :=
  let closing := workspace.closeInTurn session session.live
  (closing.workspace, closing.warnings)

/-- The workspace after a session ended; its handles are closed first. -/
def dropSession (workspace : Workspace) (name : String) : Workspace × List Warning :=
  match workspace.session? name with
  | some session =>
    let (closed, warnings) := workspace.closeAll session
    ({ closed with sessions := closed.sessions.filter (·.1 ≠ name) }, warnings)
  | none => (workspace, [])

/-! ### Commands -/

/-- The workspace after an operation of the session `name`. -/
def after {α : Type} (workspace : Workspace) (name : String) (outcome : Session.Outcome α) :
    Workspace :=
  { workspace with
    tree := outcome.tree
    sessions := workspace.sessions.map fun (other, session) =>
      (other, if other = name then outcome.session else session) }

/-- What is answered to a command, the workspace after it, and the warnings it gave. -/
structure Step where
  reply : Reply
  workspace : Workspace
  warnings : List Warning

/-- A step that changes nothing. -/
def answer (workspace : Workspace) (reply : Reply) : Step :=
  ⟨reply, workspace, []⟩

/-- The step of a command about a session. -/
def withSession (workspace : Workspace) (name : String) (step : Session → Step) : Step :=
  match workspace.session? name with
  | some session => step session
  | none => workspace.answer .noSuchSession

/-- The step of a command about a handle. -/
def withHandle (workspace : Workspace) (name : String) (step : Handle → Step) : Step :=
  match workspace.handle? name with
  | some handle => step handle
  | none => workspace.answer .noSuchHandle

/-- The step of an operation of the session `name`. -/
def stepOf {α : Type} (workspace : Workspace) (name : String) (outcome : Session.Outcome α)
    (reply : Except Failure α → Reply) : Step :=
  ⟨reply outcome.result, workspace.after name outcome, outcome.warnings⟩

/-- Start a session. One that has its name ends after the new one was made. -/
def startSession (workspace : Workspace) (name : String) (settings : Settings)
    (token : String) : Step :=
  let session := Session.new workspace.started settings token
  let (ended, warnings) := workspace.dropSession name
  { reply := .session settings
    workspace := { ended with
      sessions := ended.sessions ++ [(name, session)]
      started := ended.started + 1 }
    warnings := warnings }

/-- Open a container and keep its handle under a name. A handle that has the name is given up after
the container was opened, and stays if that fails. -/
def openContainer (workspace : Workspace) (sessionName path handleName : String) : Step :=
  workspace.withSession sessionName fun session =>
    let outcome := session.openContainer workspace.tree path
    let opened := workspace.after sessionName outcome
    match outcome.result with
    | .error failure => ⟨.failed failure, opened, outcome.warnings⟩
    | .ok handle =>
      let freed := opened.dropHandle handleName
      { reply := .handle handle.id
        workspace := { freed with handles := freed.handles ++ [(handleName, handle)] }
        warnings := outcome.warnings }

/-- Check some bytes against a checksum and write them to a new scratch file. -/
def writeScratch (workspace : Workspace) (sessionName name : String) (bytes : Bytes)
    (checksum : UInt32) : Step :=
  workspace.withSession sessionName fun session =>
    match (Feed.ofDelivery ⟨bytes, none⟩).verified name bytes.length checksum with
    | .error failure => workspace.answer (.failed failure)
    | .ok contents =>
      workspace.stepOf sessionName (session.writeScratch workspace.tree contents)
        (Reply.ofResult .path)

/-- One command. -/
def step (workspace : Workspace) : Command → Step
  | .startSession name settings token => workspace.startSession name settings token
  | .dropSession name =>
    let (ended, warnings) := workspace.dropSession name
    ⟨.flag (workspace.session? name).isSome, ended, warnings⟩
  | .writeFile path bytes =>
    ⟨.done, { workspace with tree := workspace.tree.provide path bytes }, []⟩
  | .makeDirectory path =>
    ⟨.done, { workspace with tree := (workspace.tree.createDirectories path).2 }, []⟩
  | .removeFile path => ⟨.done, { workspace with tree := workspace.tree.remove path }, []⟩
  | .openContainer session path handle => workspace.openContainer session path handle
  | .dropHandle handle =>
    ⟨.flag (workspace.handle? handle).isSome, workspace.dropHandle handle, []⟩
  | .closeHandle handle =>
    workspace.withHandle handle fun _ => ⟨.flag false, workspace.closeHandle handle, []⟩
  | .info handle =>
    workspace.withHandle handle fun found =>
      workspace.answer (.info found.id found.isOpen found.sourcePath)
  | .entries handle =>
    workspace.withHandle handle fun found =>
      workspace.answer (Reply.ofResult .catalog found.entries)
  | .exists? handle name =>
    workspace.withHandle handle fun found => workspace.answer (.flag (found.exists? name))
  | .findMedia handle wanted =>
    workspace.withHandle handle fun found =>
      workspace.answer (Reply.ofResult .name (found.findMedia wanted))
  | .extract handle name =>
    workspace.withHandle handle fun found =>
      workspace.answer (Reply.ofResult .contents (found.extract workspace.tree name))
  | .extractToScratch session handle name =>
    workspace.withSession session fun found =>
      workspace.withHandle handle fun source =>
        workspace.stepOf session (found.extractToScratch workspace.tree source name)
          (Reply.ofResult .path)
  | .findAndExtract session path wanted =>
    workspace.withSession session fun found =>
      workspace.stepOf session (found.findAndExtract workspace.tree path wanted)
        (Reply.ofResult .path)
  | .extractInto session handle name buffer =>
    workspace.withSession session fun found =>
      workspace.withHandle handle fun source =>
        workspace.stepOf session (found.extractToScratch workspace.tree source name)
          (Reply.ofReport buffer)
  | .findAndExtractInto session path wanted buffer =>
    workspace.withSession session fun found =>
      workspace.stepOf session (found.findAndExtract workspace.tree path wanted)
        (Reply.ofReport buffer)
  | .writeScratch session name bytes checksum =>
    workspace.writeScratch session name bytes checksum
  | .reservePath session name =>
    workspace.withSession session fun found =>
      let (path, scratch) := found.scratch.reserve name
      workspace.stepOf session ⟨.ok path, { found with scratch := scratch }, workspace.tree, []⟩
        (Reply.ofResult .path)
  | .countOpen session =>
    workspace.withSession session fun found => workspace.answer (.count found.openCount)
  | .closeAll session =>
    workspace.withSession session fun found =>
      let (closed, warnings) := workspace.closeAll found
      ⟨.done, closed, warnings⟩

/-- The workspace after a run of commands. -/
def run (workspace : Workspace) (commands : List Command) : Workspace :=
  commands.foldl (fun workspace command => (workspace.step command).workspace) workspace

end Workspace

end RomArchive
