import RomArchive.Proofs.Registry.Steps

/-!
# Open handles along a run

In every workspace that a run of commands leads to, sessions and handles agree on what is open. A
run starts without sessions and handles, each command is a sequence of moves, and the moves were
looked at one by one; what remains is to say what this comes to for whoever gives the commands.

## Main definitions

* `Workspace.openings` — the numbers that a run gives out, in order
* `Workspace.Keeps` — what holds of the open handles in a workspace

## Main results

* `Workspace.Sound.run`, `Workspace.Given.run`, `Workspace.Settled.run`, `Workspace.Retired.run` —
  what runs preserve
* `Workspace.Sound.handle?_closeAll` — closing all closes exactly the handles of one session
* `Workspace.Sound.closeInTurn_eq` — and finds as many open as the session counts, in any order
* `Workspace.keeps_run` — every run keeps the open handles in order
-/

namespace RomArchive

/-! ### A closed handle -/

namespace Handle

variable {handle : Handle}

theorem opened_of_not_isOpen (h : handle.isOpen = false) :
    handle.opened = .error .handleClosed := by
  obtain ⟨owner, id, path, size, container⟩ := handle
  cases container with
  | none => rfl
  | some container => cases h

theorem entries_of_not_isOpen (h : handle.isOpen = false) :
    handle.entries = .error .handleClosed := by
  rw [entries, opened_of_not_isOpen h]
  rfl

theorem exists?_of_not_isOpen (h : handle.isOpen = false) (name : String) :
    handle.exists? name = false := by
  rw [exists?, entries_of_not_isOpen h]

theorem findMedia_of_not_isOpen (h : handle.isOpen = false) (wanted : Option (List String)) :
    handle.findMedia wanted = .error .handleClosed := by
  rw [findMedia, entries_of_not_isOpen h]
  rfl

/-- An empty name is refused first, as on an open handle. -/
theorem extract_of_not_isOpen (h : handle.isOpen = false) (tree : FileTree) {name : String}
    (hname : name ≠ "") : handle.extract tree name = .error .handleClosed := by
  rw [extract, locate, if_neg hname, opened_of_not_isOpen h]
  rfl

end Handle

namespace Workspace

variable {workspace : Workspace} {name : String} {session : Session}

/-! ### Closing all handles of a session -/

/-- A handle after those of one session were closed. -/
def closeOwned (serial : Nat) (handle : Handle) : Handle :=
  if handle.owner = serial then handle.closed else handle

/-- **Closing all closes exactly the handles of one session.** -/
theorem Sound.handle?_closeAll (h : workspace.Sound)
    (hsession : workspace.session? name = some session) (handleName : String) :
    (workspace.closeAll session).1.handle? handleName
      = (workspace.handle? handleName).map (closeOwned session.serial) := by
  have hlookup := lookup_map (fun entry => (closeListed session entry).2) workspace.handles
    handleName
  rw [closeAll_fst]
  refine hlookup.trans ?_
  show (workspace.handle? handleName).map _ = _
  cases hhandle : workspace.handle? handleName with
  | none => rfl
  | some handle =>
    refine congrArg some ?_
    show (if isListed session handle then handle.closed else handle)
      = if handle.owner = session.serial then handle.closed else handle
    by_cases howner : handle.owner = session.serial
    · have hclosed := h.isOpen_closeListed hsession (mem_of_lookup hhandle) howner
      rw [if_pos howner]
      rw [closeListed] at hclosed
      by_cases hlisted : isListed session handle = true
      · exact if_pos hlisted
      · rw [if_neg hlisted] at hclosed ⊢
        exact (Handle.closed_of_not_isOpen hclosed).symm
    · have hlisted : ¬ isListed session handle = true :=
        fun hlisted => howner (isListed_iff.1 hlisted).1
      rw [if_neg howner, if_neg hlisted]

/-- A session lists no number twice. -/
theorem Sound.nodup_live (h : workspace.Sound) (hsession : workspace.session? name = some session) :
    session.live.Nodup := by
  rw [h.live _ (mem_of_lookup hsession), openIds]
  refine List.pairwise_map.2 ((h.ascending.filter _).imp_of_mem fun ha hb hlt => ?_)
  have howned : ∀ {entry : String × Handle}, entry ∈ (workspace.handles.filter fun entry =>
      entry.2.owner = session.serial && entry.2.isOpen) → entry.2.owner = session.serial := by
    intro entry hentry
    have htest := (List.mem_filter.1 hentry).2
    simp only [Bool.and_eq_true, decide_eq_true_eq] at htest
    exact htest.1
  exact Nat.ne_of_lt (hlt ((howned ha).trans (howned hb).symm))

/-- **All that a session lists is open**, so in whatever order its handles are closed, each of them
is counted, and the count is that of the session. -/
theorem Sound.closeInTurn_eq (h : workspace.Sound)
    (hsession : workspace.session? name = some session) {ids : List Nat}
    (hids : ids.Perm session.live) : workspace.closeInTurn session ids
      = ⟨(workspace.closeAll session).1, session.openCount, ids.map Warning.leftOpen⟩ := by
  have hopen : ∀ id ∈ ids, ∃ entry ∈ workspace.handles,
      entry.2.owner = session.serial ∧ entry.2.id = id ∧ entry.2.isOpen = true := by
    intro id hid
    have hlisted := hids.mem_iff.1 hid
    rw [h.live _ (mem_of_lookup hsession)] at hlisted
    obtain ⟨entry, hentry, howner, hisOpen, hsame⟩ := mem_openIds.1 hlisted
    exact ⟨entry, hentry, howner, hsame, hisOpen⟩
  have hdistinct : ids.Nodup := hids.nodup_iff.2 (h.nodup_live hsession)
  have hworkspace := workspace.workspace_closeInTurn session hids
  obtain ⟨hcounted, hwarned⟩ := foldl_next_of_isOpen session.serial ids hdistinct
    ⟨workspace.forgetAll session, 0, []⟩ hopen
  rw [← closeAll_fst] at hworkspace
  rw [Nat.zero_add, hids.length_eq] at hcounted
  calc
    workspace.closeInTurn session ids
      = ⟨(workspace.closeInTurn session ids).workspace, (workspace.closeInTurn session ids).closed,
          (workspace.closeInTurn session ids).warnings⟩ := rfl
    _ = _ := by rw [hworkspace, closeInTurn, hcounted, hwarned]; rfl

/-- There is a warning for each number that the session listed. -/
theorem Sound.warnings_closeAll (h : workspace.Sound)
    (hsession : workspace.session? name = some session) :
    (workspace.closeAll session).2 = session.live.map Warning.leftOpen := by
  rw [Workspace.closeAll, h.closeInTurn_eq hsession (.refl session.live)]

/-- A second time there is nothing to close. -/
theorem closeInTurn_closeAll (workspace : Workspace) (session : Session) :
    (workspace.closeAll session).1.closeInTurn { session with live := [] } []
      = ⟨(workspace.closeAll session).1, 0, []⟩ := by
  have hsessions : (workspace.sessions.map (clearLive session)).map
      (clearLive { session with live := [] }) = workspace.sessions.map (clearLive session) := by
    rw [List.map_map]
    refine List.map_congr_left fun entry _ => ?_
    show clearLive session (clearLive session entry) = clearLive session entry
    rw [clearLive, clearLive]
    by_cases hserial : entry.2.serial = session.serial
    · simp only [if_pos hserial]
    · simp only [if_neg hserial]
  have hforgotten : (workspace.closeAll session).1.forgetAll { session with live := [] }
      = (workspace.closeAll session).1 := by
    rw [closeAll_fst, forgetAll_eq]
    simp only [hsessions]
  rw [closeInTurn, List.foldl_nil, hforgotten]

/-! ### What runs preserve -/

/-- The numbers that a run gives out, in order. -/
def openings : Workspace → List Command → List (Nat × Nat)
  | _, [] => []
  | workspace, command :: commands =>
    workspace.opening command ++ openings (workspace.step command).workspace commands

theorem sound_ofTree (tree : FileTree) : (ofTree tree).Sound where
  sessionNames := List.Pairwise.nil
  serials := List.Pairwise.nil
  handleNames := List.Pairwise.nil
  ascending := List.Pairwise.nil
  serial_lt := fun _ hmem => absurd hmem List.not_mem_nil
  owner_lt := fun _ hmem => absurd hmem List.not_mem_nil
  issued := fun _ hmem => absurd hmem List.not_mem_nil
  live := fun _ hmem => absurd hmem List.not_mem_nil
  orphans := fun _ hmem => absurd hmem List.not_mem_nil

theorem given_ofTree (tree : FileTree) : (ofTree tree).Given [] where
  ascending := List.Pairwise.nil
  serial_lt := fun _ hmem => absurd hmem List.not_mem_nil
  issued := fun _ hmem => absurd hmem List.not_mem_nil
  handles := fun _ hmem => absurd hmem List.not_mem_nil

theorem Sound.run (h : workspace.Sound) (commands : List Command) :
    (workspace.run commands).Sound := by
  induction commands generalizing workspace with
  | nil => exact h
  | cons command commands ih => exact ih ((step_moves h command).sound h)

theorem Given.run (h : workspace.Sound) {given : List (Nat × Nat)} (hgiven : workspace.Given given)
    (commands : List Command) :
    (workspace.run commands).Given (given ++ workspace.openings commands) := by
  induction commands generalizing workspace given with
  | nil => rwa [openings, List.append_nil]
  | cons command commands ih =>
    have hmoves := step_moves h command
    rw [openings, ← List.append_assoc]
    exact ih (hmoves.sound h) (hmoves.given h hgiven)

theorem Settled.run {serial id : Nat} {these : String × Handle → Prop} (h : workspace.Sound)
    (hclosed : ∀ entry, these entry → these (entry.1, entry.2.closed))
    (hsettled : workspace.Settled serial id these) (commands : List Command) :
    (workspace.run commands).Settled serial id these := by
  induction commands generalizing workspace with
  | nil => exact hsettled
  | cons command commands ih =>
    have hmoves := step_moves h command
    exact ih (hmoves.sound h) (hmoves.settled hclosed hsettled)

/-- **A handle that was closed stays closed**: nothing opens a number that was given out before. -/
theorem Retired.run {serial id : Nat} (h : workspace.Sound) (hretired : workspace.Retired serial id)
    (commands : List Command) : (workspace.run commands).Retired serial id :=
  retired_iff_settled.2 (Settled.run h (fun _ _ => rfl) (retired_iff_settled.1 hretired) commands)

/-- The number of a handle was given out, and no other handle has it. -/
theorem Sound.settled (h : workspace.Sound) {handle : Handle}
    (hhandle : workspace.handle? name = some handle) {these : String × Handle → Prop}
    (hthese : these (name, handle)) : workspace.Settled handle.owner handle.id these where
  serial_lt := h.owner_lt _ (mem_of_lookup hhandle)
  issued := fun session hsession hserial =>
    h.issued session hsession _ (mem_of_lookup hhandle) hserial.symm
  handles := by
    intro entry hentry howner hid
    rwa [h.eq_of_id_eq hentry (mem_of_lookup hhandle) howner hid]

/-- The number of a closed handle is retired. -/
theorem Sound.retired (h : workspace.Sound) {handle : Handle}
    (hhandle : workspace.handle? name = some handle) (hclosed : handle.isOpen = false) :
    workspace.Retired handle.owner handle.id :=
  retired_iff_settled.2 (h.settled hhandle hclosed)

/-! ### The open handles in a workspace -/

/-- What holds of the open handles in a workspace, when `given` are the numbers that were given out
so far. -/
structure Keeps (workspace : Workspace) (given : List (Nat × Nat)) : Prop where
  /-- A session lists the numbers of its open handles, and so counts them. -/
  listed : ∀ name session, workspace.session? name = some session →
    (∀ id, id ∈ session.live ↔ ∃ handleName handle,
      workspace.handle? handleName = some handle ∧ handle.owner = session.serial ∧
        handle.id = id ∧ handle.isOpen = true) ∧
    session.openCount
      = ((workspace.handlesOf session.serial).filter fun entry => entry.2.isOpen).length
  /-- The numbers of one session ascend in the order they were given out. -/
  ascending : given.Pairwise fun a b => a.1 = b.1 → a.2 < b.2
  /-- Every handle has a number that was given out, and no other handle has it. -/
  numbered : ∀ name handle, workspace.handle? name = some handle →
    (handle.owner, handle.id) ∈ given ∧
    ∀ other same, workspace.handle? other = some same → same.owner = handle.owner →
      same.id = handle.id → other = name
  /-- A closed handle fails at everything, and is not opened again by any later commands. -/
  closed : ∀ name handle, workspace.handle? name = some handle → handle.isOpen = false →
    (handle.entries = .error .handleClosed ∧
      (∀ wanted, handle.findMedia wanted = .error .handleClosed) ∧
      (∀ tree entry, entry ≠ "" → handle.extract tree entry = .error .handleClosed) ∧
      ∀ entry, handle.exists? entry = false) ∧
    ∀ commands other later, (workspace.run commands).handle? other = some later →
      later.owner = handle.owner → later.id = handle.id → later.isOpen = false
  /-- Closing all handles of a session closes these and no others, and leaves nothing to close. In
  whatever order they are come by, as many are found open as the session counted, and there is a
  warning for each. -/
  closeAll : ∀ name session, workspace.session? name = some session →
    ∃ closed warnings, workspace.step (.closeAll name) = ⟨.done, closed, warnings⟩ ∧
      (∀ ids, ids.Perm session.live → ∃ inTurn, inTurn.Perm warnings ∧
        workspace.closeInTurn session ids = ⟨closed, session.openCount, inTurn⟩) ∧
      warnings.Perm (session.live.map Warning.leftOpen) ∧
      (∀ handleName, closed.handle? handleName
        = (workspace.handle? handleName).map (closeOwned session.serial)) ∧
      closed.session? name = some { session with live := [] } ∧
      closed.closeInTurn { session with live := [] } [] = ⟨closed, 0, []⟩ ∧
      closed.step (.closeAll name) = ⟨.done, closed, []⟩
  /-- A session that ends, or is replaced by another of its name, closes its handles and no
  others. -/
  ended : ∀ name session, workspace.session? name = some session →
    ∀ command, (command = .dropSession name ∨
        ∃ settings token, command = .startSession name settings token) →
      (∀ handleName, (workspace.step command).workspace.handle? handleName
        = (workspace.handle? handleName).map (closeOwned session.serial)) ∧
      (workspace.step command).workspace.sessionsOf session.serial = []
  /-- What a command does not touch stays as it was. -/
  frame : ∀ command serial, ¬ workspace.touches command serial →
    (workspace.step command).workspace.sessionsOf serial = workspace.sessionsOf serial ∧
      (workspace.step command).workspace.handlesOf serial = workspace.handlesOf serial

/-- A session that is there has its name and its number to itself. -/
theorem Sound.sessionsOf_dropSession (h : workspace.Sound)
    (hsession : workspace.session? name = some session) :
    (workspace.dropSession name).1.sessionsOf session.serial = [] := by
  rw [dropSession, hsession]
  refine List.filter_eq_nil_iff.2 fun entry hentry hserial => ?_
  obtain ⟨hmem, hname⟩ := List.mem_filter.1 hentry
  rw [closeAll_fst] at hmem
  obtain ⟨old, hold, rfl⟩ := List.mem_map.1 hmem
  refine h.serial_ne hsession hold (of_decide_eq_true hname) ?_
  rw [← of_decide_eq_true hserial]
  show _ = (clearLive session old).2.serial
  rw [clearLive]
  split <;> rfl

theorem Sound.handle?_dropSession (h : workspace.Sound)
    (hsession : workspace.session? name = some session) (handleName : String) :
    (workspace.dropSession name).1.handle? handleName
      = (workspace.handle? handleName).map (closeOwned session.serial) := by
  rw [dropSession, hsession]
  exact h.handle?_closeAll hsession handleName

theorem Sound.sessionsOf_startSession (h : workspace.Sound) (settings : Settings) (token : String)
    (hsession : workspace.session? name = some session) :
    (workspace.startSession name settings token).workspace.sessionsOf session.serial = [] := by
  have hfresh : workspace.started ≠ session.serial :=
    (Nat.ne_of_lt (h.serial_lt _ (mem_of_lookup hsession))).symm
  have hended := h.sessionsOf_dropSession hsession
  rw [← hended]
  exact filter_append_singleton (decide_eq_false hfresh)

/-- The open handles of a session, by name. -/
theorem Sound.mem_live_iff (h : workspace.Sound) (hsession : workspace.session? name = some session)
    (id : Nat) : id ∈ session.live ↔ ∃ handleName handle,
      workspace.handle? handleName = some handle ∧ handle.owner = session.serial ∧
        handle.id = id ∧ handle.isOpen = true := by
  rw [h.live _ (mem_of_lookup hsession), mem_openIds]
  constructor
  · rintro ⟨⟨handleName, handle⟩, hmem, howner, hopen, hid⟩
    exact ⟨handleName, handle, lookup_of_mem h.handleNames hmem, howner, hid, hopen⟩
  · rintro ⟨handleName, handle, hhandle, howner, hid, hopen⟩
    exact ⟨_, mem_of_lookup hhandle, howner, hopen, hid⟩

theorem Sound.openCount_eq (h : workspace.Sound)
    (hsession : workspace.session? name = some session) : session.openCount
      = ((workspace.handlesOf session.serial).filter fun entry => entry.2.isOpen).length := by
  rw [Session.openCount, h.live _ (mem_of_lookup hsession), openIds, List.length_map, handlesOf,
    List.filter_filter]
  exact congrArg _ (List.filter_congr fun entry _ => Bool.and_comm _ _)

/-- Closing all as a command, once and again. -/
theorem Sound.step_closeAll (h : workspace.Sound)
    (hsession : workspace.session? name = some session) :
    workspace.step (.closeAll name)
        = ⟨.done, (workspace.closeAll session).1, session.live.map Warning.leftOpen⟩ ∧
      (workspace.closeAll session).1.step (.closeAll name)
        = ⟨.done, (workspace.closeAll session).1, []⟩ := by
  constructor
  · simp only [step, withSession, hsession, h.warnings_closeAll hsession]
  · have hagain := workspace.closeInTurn_closeAll session
    simp only [step, withSession, session?_closeAll hsession]
    rw [Workspace.closeAll, hagain]

/-- **Every run keeps the open handles in order**, whatever the commands and whatever their
order. -/
theorem keeps_run (tree : FileTree) (commands : List Command) :
    ((ofTree tree).run commands).Keeps ((ofTree tree).openings commands) := by
  have h := (sound_ofTree tree).run commands
  have hgiven := (given_ofTree tree).run (sound_ofTree tree) commands
  rw [List.nil_append] at hgiven
  refine ⟨fun name session hsession => ?_, hgiven.ascending, fun name handle hhandle => ?_,
    fun name handle hhandle hclosed => ?_, fun name session hsession => ?_,
    fun name session hsession command hcommand => ?_, fun command serial huntouched => ?_⟩
  · exact ⟨h.mem_live_iff hsession, h.openCount_eq hsession⟩
  · refine ⟨hgiven.handles _ (mem_of_lookup hhandle), fun other same hsame howner hid => ?_⟩
    exact (h.name_iff hhandle (mem_of_lookup hsame)).2 ⟨howner, hid⟩
  · refine ⟨⟨Handle.entries_of_not_isOpen hclosed, Handle.findMedia_of_not_isOpen hclosed,
      fun files entry hentry => Handle.extract_of_not_isOpen hclosed files hentry,
      Handle.exists?_of_not_isOpen hclosed⟩, fun more other later hlater howner hid => ?_⟩
    exact ((h.retired hhandle hclosed).run h more).closed _ (mem_of_lookup hlater) howner hid
  · obtain ⟨hstep, hagain⟩ := h.step_closeAll hsession
    refine ⟨_, _, hstep, fun ids hids => ?_, .refl _, h.handle?_closeAll hsession,
      session?_closeAll hsession, closeInTurn_closeAll _ session, hagain⟩
    exact ⟨_, hids.map Warning.leftOpen, h.closeInTurn_eq hsession hids⟩
  · rcases hcommand with rfl | ⟨settings, token, rfl⟩
    · exact ⟨h.handle?_dropSession hsession, h.sessionsOf_dropSession hsession⟩
    · exact ⟨h.handle?_dropSession hsession, h.sessionsOf_startSession settings token hsession⟩
  · exact (step_moves h command).frame h huntouched

end Workspace

end RomArchive
