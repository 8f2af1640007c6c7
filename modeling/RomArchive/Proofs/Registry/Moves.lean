import RomArchive.Workspace
import RomArchive.Proofs.Keyed

/-!
# Moves of a workspace

Whether a handle is open is kept in two places: the handle has its container or has not, and its
session lists its number or does not. Commands change both, in different orders and by different
paths. What all of them come to is said here once: a command is a sequence of moves, and each move
changes the two places together.

A move carries two things with it. The serial numbers that it may touch are those it was given, and
everything about all others stays as it was. The numbers that it gives out to handles are listed, so
that a run has a list of all that were ever given out.

## Main definitions

* `Workspace.openIds` — the numbers of the open handles of a session, in the order of the handles
* `Workspace.Sound` — names and numbers are unique, and the two places agree
* `Workspace.Move`, `Workspace.Moves` — one move, and moves one after the other

## Main results

* `Workspace.workspace_closeInTurn` — it does not count in which order handles are closed
* `Workspace.foldl_next_of_isOpen` — handles that are open are counted as they are closed
-/

namespace RomArchive

@[simp] theorem Handle.isOpen_closed (handle : Handle) : handle.closed.isOpen = false := rfl

@[simp] theorem Handle.owner_closed (handle : Handle) : handle.closed.owner = handle.owner := rfl

@[simp] theorem Handle.id_closed (handle : Handle) : handle.closed.id = handle.id := rfl

@[simp] theorem Handle.closed_closed (handle : Handle) : handle.closed.closed = handle.closed := rfl

theorem Handle.closed_of_not_isOpen {handle : Handle} (h : handle.isOpen = false) :
    handle.closed = handle := by
  obtain ⟨owner, id, path, size, container⟩ := handle
  cases container with
  | none => rfl
  | some container => cases h

/-- The session after it gave out the next number. -/
def Session.issue (session : Session) : Session :=
  { session with
    issued := session.issued + 1
    live := session.live ++ [session.issued + 1] }

namespace Workspace

/-! ### What is said of a workspace -/

/-- The numbers of the open handles of a session, in the order of the handles. -/
def openIds (handles : List (String × Handle)) (serial : Nat) : List Nat :=
  (handles.filter fun entry => entry.2.owner = serial && entry.2.isOpen).map (·.2.id)

/-- The sessions with a serial number. -/
def sessionsOf (workspace : Workspace) (serial : Nat) : List (String × Session) :=
  workspace.sessions.filter (·.2.serial = serial)

/-- The handles that a session opened. -/
def handlesOf (workspace : Workspace) (serial : Nat) : List (String × Handle) :=
  workspace.handles.filter (·.2.owner = serial)

/-- Names and numbers are unique, and each session lists exactly the numbers of its open handles.
The numbers ascend in the order of the handles, so the two lists agree in order as well. -/
structure Sound (workspace : Workspace) : Prop where
  sessionNames : workspace.sessions.Pairwise fun a b => a.1 ≠ b.1
  serials : workspace.sessions.Pairwise fun a b => a.2.serial ≠ b.2.serial
  handleNames : workspace.handles.Pairwise fun a b => a.1 ≠ b.1
  ascending : workspace.handles.Pairwise fun a b => a.2.owner = b.2.owner → a.2.id < b.2.id
  serial_lt : ∀ entry ∈ workspace.sessions, entry.2.serial < workspace.started
  owner_lt : ∀ entry ∈ workspace.handles, entry.2.owner < workspace.started
  issued : ∀ session ∈ workspace.sessions, ∀ entry ∈ workspace.handles,
    entry.2.owner = session.2.serial → entry.2.id ≤ session.2.issued
  live : ∀ session ∈ workspace.sessions,
    session.2.live = openIds workspace.handles session.2.serial
  orphans : ∀ entry ∈ workspace.handles, entry.2.isOpen = true →
    ∃ session ∈ workspace.sessions, session.2.serial = entry.2.owner

variable {workspace : Workspace} {name : String}

/-! ### Commands whose session or handle is there -/

@[simp] theorem withSession_of_some {session : Session}
    (hsession : workspace.session? name = some session) (step : Session → Step) :
    workspace.withSession name step = step session := by
  simp only [withSession, hsession]

@[simp] theorem withHandle_of_some {handle : Handle}
    (hhandle : workspace.handle? name = some handle) (step : Handle → Step) :
    workspace.withHandle name step = step handle := by
  simp only [withHandle, hhandle]

/-! ### Closing, entry by entry -/

/-- The sessions after one of them, if it is still there, was told that a handle is closed. -/
def forgetHandle (handle : Handle) (entry : String × Session) : String × Session :=
  (entry.1, if entry.2.serial = handle.owner then entry.2.forget handle.id else entry.2)

theorem forgetHandle_key (handle : Handle) (entry : String × Session) :
    (forgetHandle handle entry).2.serial = entry.2.serial ∧
      (forgetHandle handle entry).2.issued = entry.2.issued ∧
      (forgetHandle handle entry).2.settings = entry.2.settings := by
  rw [forgetHandle]
  split <;> exact ⟨rfl, rfl, rfl⟩

/-- The handles after the one under a name was closed. -/
def closeName (name : String) (entry : String × Handle) : String × Handle :=
  (entry.1, if entry.1 = name then entry.2.closed else entry.2)

theorem closeName_key (name : String) (entry : String × Handle) :
    (closeName name entry).1 = entry.1 ∧ (closeName name entry).2.owner = entry.2.owner ∧
      (closeName name entry).2.id = entry.2.id := by
  refine ⟨rfl, ?_, ?_⟩
  · rw [closeName]
    split <;> rfl
  · rw [closeName]
    split <;> rfl

theorem isOpen_of_closeName {entry : String × Handle}
    (h : (closeName name entry).2.isOpen = true) : entry.1 ≠ name ∧ entry.2.isOpen = true := by
  by_cases hname : entry.1 = name
  · rw [closeName, if_pos hname] at h
    cases h
  · rw [closeName, if_neg hname] at h
    exact ⟨hname, h⟩

/-- The workspace after an open handle was closed. -/
theorem closeHandle_of_isOpen {handle : Handle}
    (hhandle : workspace.handle? name = some handle) (hopen : handle.isOpen = true) :
    workspace.closeHandle name = { workspace with
      sessions := workspace.sessions.map (forgetHandle handle)
      handles := workspace.handles.map (closeName name) } := by
  rw [closeHandle, hhandle]
  exact if_pos hopen

theorem closeHandle_of_none (hhandle : workspace.handle? name = none) :
    workspace.closeHandle name = workspace := by
  rw [closeHandle, hhandle]

theorem closeHandle_of_not_isOpen {handle : Handle}
    (hhandle : workspace.handle? name = some handle) (hclosed : handle.isOpen = false) :
    workspace.closeHandle name = workspace := by
  rw [closeHandle, hhandle]
  exact if_neg (by rw [hclosed]; exact Bool.false_ne_true)

/-- The sessions after all handles of one were closed. -/
def clearLive (session : Session) (entry : String × Session) : String × Session :=
  (entry.1, if entry.2.serial = session.serial then { entry.2 with live := [] } else entry.2)

theorem forgetAll_eq (workspace : Workspace) (session : Session) : workspace.forgetAll session
    = { workspace with sessions := workspace.sessions.map (clearLive session) } := rfl

/-- Is this one of the handles that a session still lists? -/
def isListed (session : Session) (handle : Handle) : Bool :=
  handle.owner = session.serial && session.live.contains handle.id

/-- The handles after those that a session lists were closed. -/
def closeListed (session : Session) (entry : String × Handle) : String × Handle :=
  (entry.1, if isListed session entry.2 then entry.2.closed else entry.2)

theorem isListed_iff {session : Session} {handle : Handle} : isListed session handle = true ↔
    handle.owner = session.serial ∧ handle.id ∈ session.live := by
  simp [isListed]

theorem closeListed_key (session : Session) (entry : String × Handle) :
    (closeListed session entry).1 = entry.1 ∧
      (closeListed session entry).2.owner = entry.2.owner ∧
      (closeListed session entry).2.id = entry.2.id := by
  refine ⟨rfl, ?_, ?_⟩
  · rw [closeListed]
    split <;> rfl
  · rw [closeListed]
    split <;> rfl

/-! ### Closing one after the other -/

/-- The handles after those to which a session gave some numbers were closed. -/
def closeNumbered (serial : Nat) (ids : List Nat) (entry : String × Handle) : String × Handle :=
  (entry.1, if entry.2.owner = serial && ids.contains entry.2.id then entry.2.closed else entry.2)

theorem closeNumbered_nil (serial : Nat) (entry : String × Handle) :
    closeNumbered serial [] entry = entry := by
  simp [closeNumbered]

/-- One number after the other, or all of them at once. -/
theorem closeNumbered_cons (serial id : Nat) (ids : List Nat) (entry : String × Handle) :
    closeNumbered serial ids (closeNumbered serial [id] entry)
      = closeNumbered serial (id :: ids) entry := by
  by_cases howner : entry.2.owner = serial
  · by_cases hid : entry.2.id = id
    · simp [closeNumbered, howner, hid]
    · simp [closeNumbered, howner, hid]
  · simp [closeNumbered, howner]

/-- It does not count in which order the numbers come. -/
theorem closeNumbered_perm (serial : Nat) {ids more : List Nat} (h : ids.Perm more) :
    closeNumbered serial ids = closeNumbered serial more := by
  funext entry
  have hcontains : ids.contains entry.2.id = more.contains entry.2.id := by
    simp [h.mem_iff]
  rw [closeNumbered, closeNumbered, hcontains]

/-- A turn in which there is nothing to close changes nothing, so every turn can be described as if
there were. -/
theorem workspace_next (serial : Nat) (closing : Closing) (id : Nat) :
    (closing.next serial id).workspace = { closing.workspace with
      handles := closing.workspace.handles.map (closeNumbered serial [id]) } := by
  have hnumbered : closeNumbered serial [id]
      = fun entry => (entry.1, if isNumbered serial id entry.2 then entry.2.closed else entry.2) := by
    funext entry
    simp [closeNumbered, isNumbered]
  rw [Closing.next, hnumbered]
  split
  · rfl
  · rename_i hnone
    have hsame : closing.workspace.handles.map (fun entry =>
        (entry.1, if isNumbered serial id entry.2 then entry.2.closed else entry.2))
          = closing.workspace.handles := by
      refine (List.map_congr_left fun entry hentry => ?_).trans (List.map_id _)
      split
      · rename_i hthis
        have hclosed : entry.2.isOpen = false := by
          refine Bool.eq_false_iff.2 fun hopen => hnone ?_
          exact List.any_eq_true.2 ⟨entry, hentry, by simp [hthis, hopen]⟩
        exact Prod.ext rfl (Handle.closed_of_not_isOpen hclosed)
      · rfl
    rw [hsame]

theorem workspace_foldl_next (serial : Nat) (ids : List Nat) : ∀ closing : Closing,
    (ids.foldl (Closing.next serial) closing).workspace = { closing.workspace with
      handles := closing.workspace.handles.map (closeNumbered serial ids) } := by
  induction ids with
  | nil =>
    intro closing
    rw [funext (closeNumbered_nil serial), List.map_id']
    rfl
  | cons id ids ih =>
    intro closing
    rw [List.foldl_cons, ih, workspace_next]
    simp only [List.map_map]
    rw [← funext (closeNumbered_cons serial id ids)]
    rfl

/-- What is closed does not depend on the order in which that is done. -/
theorem workspace_closeInTurn (workspace : Workspace) (session : Session) {ids : List Nat}
    (h : ids.Perm session.live) :
    (workspace.closeInTurn session ids).workspace = { workspace with
      sessions := workspace.sessions.map (clearLive session)
      handles := workspace.handles.map (closeListed session) } := by
  rw [closeInTurn, workspace_foldl_next, closeNumbered_perm session.serial h]
  rfl

theorem closeAll_fst (workspace : Workspace) (session : Session) :
    (workspace.closeAll session).1 = { workspace with
      sessions := workspace.sessions.map (clearLive session)
      handles := workspace.handles.map (closeListed session) } :=
  workspace.workspace_closeInTurn session (.refl session.live)

@[simp] theorem tree_closeAll (workspace : Workspace) (session : Session) :
    (workspace.closeAll session).1.tree = workspace.tree := by
  rw [closeAll_fst]

@[simp] theorem started_closeAll (workspace : Workspace) (session : Session) :
    (workspace.closeAll session).1.started = workspace.started := by
  rw [closeAll_fst]

/-- Numbers of open handles, no two of them the same, are closed one by one, and each is counted. -/
theorem foldl_next_of_isOpen (serial : Nat) (ids : List Nat) (hdistinct : ids.Nodup) :
    ∀ closing : Closing,
      (∀ id ∈ ids, ∃ entry ∈ closing.workspace.handles,
        entry.2.owner = serial ∧ entry.2.id = id ∧ entry.2.isOpen = true) →
      (ids.foldl (Closing.next serial) closing).closed = closing.closed + ids.length ∧
        (ids.foldl (Closing.next serial) closing).warnings
          = closing.warnings ++ ids.map Warning.leftOpen := by
  induction ids with
  | nil =>
    intro closing _
    simp
  | cons id ids ih =>
    intro closing hopen
    obtain ⟨hother, hrest⟩ := List.nodup_cons.1 hdistinct
    have hthis : (closing.workspace.handles.any fun entry =>
        isNumbered serial id entry.2 && entry.2.isOpen) = true := by
      obtain ⟨entry, hentry, howner, hid, hisOpen⟩ := hopen id List.mem_cons_self
      exact List.any_eq_true.2 ⟨entry, hentry, by simp [isNumbered, howner, hid, hisOpen]⟩
    have hnext := ih hrest (closing.next serial id) fun more hmore => by
      obtain ⟨entry, hentry, howner, hid, hisOpen⟩ := hopen more (List.mem_cons_of_mem _ hmore)
      have hne : entry.2.id ≠ id := fun hsame => hother (hsame ▸ hid ▸ hmore)
      refine ⟨entry, ?_, howner, hid, hisOpen⟩
      rw [workspace_next]
      exact List.mem_map.2 ⟨entry, hentry, by simp [closeNumbered, hne]⟩
    have hcounted : (closing.next serial id).closed = closing.closed + 1 := by
      rw [Closing.next, if_pos hthis]
    have hwarned : (closing.next serial id).warnings = closing.warnings ++ [.leftOpen id] := by
      rw [Closing.next, if_pos hthis]
    rw [hcounted, hwarned] at hnext
    rw [List.foldl_cons, List.length_cons, List.map_cons]
    refine ⟨hnext.1.trans (by omega), hnext.2.trans ?_⟩
    rw [List.append_assoc, List.singleton_append]

/-! ### Moves -/

/-- The workspace with another session under a name. -/
def replace (workspace : Workspace) (name : String) (session : Session) : Workspace :=
  { workspace with
    sessions := workspace.sessions.map fun entry =>
      (entry.1, if entry.1 = name then session else entry.2) }

/-- The handle that a session opens. -/
def newHandle (session : Session) (path : String) (container : OpenContainer) : Handle :=
  ⟨session.serial, session.issued + 1, path, session.settings.maxEntrySize, some container⟩

/-- One move, with the serial numbers that it may touch and the numbers that it gives out. -/
inductive Move (touched : Nat → Prop) (workspace : Workspace) :
    List (Nat × Nat) → Workspace → Prop
  /-- The files change. -/
  | files (tree : FileTree) : Move touched workspace [] { workspace with tree := tree }
  /-- A session writes a scratch file, or reserves a name for one. -/
  | written {name : String} {session : Session} (scratch : Scratch)
      (hsession : workspace.session? name = some session) (htouched : touched session.serial) :
      Move touched workspace [] (workspace.replace name { session with scratch := scratch })
  /-- A session gives out a number to a handle that is closed before anyone sees it. -/
  | spent {name : String} {session : Session} (scratch : Scratch)
      (hsession : workspace.session? name = some session) (htouched : touched session.serial) :
      Move touched workspace [(session.serial, session.issued + 1)]
        (workspace.replace name
          { session with issued := session.issued + 1, scratch := scratch })
  /-- A session opens a container under a name that no handle has. -/
  | opened {name : String} {session : Session} (handleName path : String)
      (container : OpenContainer) (hsession : workspace.session? name = some session)
      (hvacant : workspace.handle? handleName = none) (htouched : touched session.serial) :
      Move touched workspace [(session.serial, session.issued + 1)]
        { workspace.replace name session.issue with
          handles := workspace.handles ++ [(handleName, newHandle session path container)] }
  /-- A handle is closed. -/
  | closed {name : String} {handle : Handle} (hhandle : workspace.handle? name = some handle)
      (htouched : touched handle.owner) :
      Move touched workspace [] (workspace.closeHandle name)
  /-- A closed handle is given up. -/
  | removed {name : String}
      (hclosed : ∀ handle, workspace.handle? name = some handle →
        handle.isOpen = false ∧ touched handle.owner) :
      Move touched workspace []
        { workspace with handles := workspace.handles.filter (·.1 ≠ name) }
  /-- All handles of a session are closed. -/
  | closedAll {name : String} {session : Session}
      (hsession : workspace.session? name = some session) (htouched : touched session.serial) :
      Move touched workspace [] (workspace.closeAll session).1
  /-- A session without open handles ends. -/
  | ended {name : String} {session : Session}
      (hsession : workspace.session? name = some session) (hidle : session.live = [])
      (htouched : touched session.serial) :
      Move touched workspace []
        { workspace with sessions := workspace.sessions.filter (·.1 ≠ name) }
  /-- A session starts under a name that no session has. -/
  | started {name : String} (settings : Settings) (token : String)
      (hvacant : workspace.session? name = none) (htouched : touched workspace.started) :
      Move touched workspace []
        { workspace with
          sessions := workspace.sessions ++ [(name, Session.new workspace.started settings token)]
          started := workspace.started + 1 }

/-- Moves one after the other. -/
inductive Moves (touched : Nat → Prop) (workspace : Workspace) :
    List (Nat × Nat) → Workspace → Prop
  | refl : Moves touched workspace [] workspace
  | tail {ids more : List (Nat × Nat)} {middle last : Workspace} :
      Moves touched workspace ids middle → Move touched middle more last →
      Moves touched workspace (ids ++ more) last

end Workspace

end RomArchive
