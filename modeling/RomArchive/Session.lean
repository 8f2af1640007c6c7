import RomArchive.Handle
import RomArchive.Scratch

/-!
# Sessions

A session owns the settings, the scratch directory, and the list of the handles that were opened
through it and are still open. Handles belong to whoever opened them; the session only keeps their
numbers, so that it can count them and close them.

An operation may change the session and the tree of files whether or not it succeeds, so both are
part of its outcome.

## Main definitions

* `Session` — settings, scratch directory, and the numbers of open handles.
* `Session.Outcome` — the result of an operation and what it leaves behind.
* `Session.openContainer` — a new handle.
* `Session.extractToScratch`, `Session.findAndExtract` — entries as scratch files.
* `reportInto` — a result as a yes or no and a path in a buffer.
-/

namespace RomArchive

/-- A session. `serial` tells it from all other sessions, `issued` is the number of handles opened
so far, `live` are the numbers of those still open. A machine counts in 64 bits; that a session opens
fewer than `2 ^ 64` handles is taken for granted. -/
structure Session where
  serial : Nat
  settings : Settings
  issued : Nat
  live : List Nat
  scratch : Scratch
  deriving DecidableEq

namespace Session

/-- A session without handles. -/
def new (serial : Nat) (settings : Settings) (token : String) : Session where
  serial := serial
  settings := settings
  issued := 0
  live := []
  scratch := Scratch.ofSettings settings token

def openCount (session : Session) : Nat :=
  session.live.length

/-- The session after one of its handles was closed. -/
def forget (session : Session) (id : Nat) : Session :=
  { session with live := session.live.filter (· ≠ id) }

/-- The result of an operation and what it leaves behind. -/
structure Outcome (α : Type) where
  result : Except Failure α
  session : Session
  tree : FileTree
  warnings : List Warning

/-- Open the container at a path. A number is used up only when that succeeds. -/
def openContainer (session : Session) (tree : FileTree) (path : String) : Outcome Handle :=
  match OpenContainer.capture tree session.settings.unreadable path with
  | (.error failure, warnings) => ⟨.error failure, session, tree, warnings⟩
  | (.ok container, warnings) =>
    let id := session.issued + 1
    { result := .ok ⟨session.serial, id, path, session.settings.maxEntrySize, some container⟩
      session := { session with issued := id, live := session.live ++ [id] }
      tree := tree
      warnings := warnings }

/-- Write contents to a new scratch file. -/
def writeScratch (session : Session) (tree : FileTree) (contents : VerifiedBytes) :
    Outcome String :=
  let (result, scratch, tree) := session.scratch.write tree contents
  ⟨result, { session with scratch := scratch }, tree, []⟩

/-- Extract an entry to a new scratch file. -/
def extractToScratch (session : Session) (tree : FileTree) (handle : Handle) (name : String) :
    Outcome String :=
  match handle.extract tree name with
  | .error failure => ⟨.error failure, session, tree, []⟩
  | .ok contents => session.writeScratch tree contents

/-- Extract the first entry with a wanted extension to a new scratch file. -/
def extractMedia (session : Session) (tree : FileTree) (handle : Handle)
    (wanted : Option (List String)) : Outcome String :=
  match handle.findMedia wanted with
  | .error failure => ⟨.error failure, session, tree, []⟩
  | .ok name => session.extractToScratch tree handle name

/-- Open the container at a path, extract its first entry with a wanted extension, and close it
again, whatever came of that. -/
def findAndExtract (session : Session) (tree : FileTree) (path : String)
    (wanted : Option (List String)) : Outcome String :=
  let opening := session.openContainer tree path
  match opening.result with
  | .error failure => ⟨.error failure, opening.session, opening.tree, opening.warnings⟩
  | .ok handle =>
    let extraction := opening.session.extractMedia opening.tree handle wanted
    { extraction with
      session := extraction.session.forget handle.id
      warnings := opening.warnings ++ extraction.warnings }

end Session

/-- Report a path to a caller who gave a buffer: was there a path, did it fit, and the buffer
afterwards. -/
def reportInto (result : Except Failure String) (buffer : Bytes) : Bool × Bytes :=
  match result with
  | .error _ => (false, buffer)
  | .ok path =>
    match PathText.copyInto path buffer with
    | .error _ => (false, buffer)
    | .ok (_, filled) => (true, filled)

end RomArchive
