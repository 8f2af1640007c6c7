import RomArchive.Proofs.Registry.Runs
import RomArchive.Proofs.RoundTrip

/-!
# Finding and extracting in one call

A session can open a container, look for a wanted entry, extract it and close the container again,
all in one call. The same takes four calls to whoever wants to do it step by step, with a handle in
hand between them. The one call never shows its handle to anyone, so what has to be seen is that
nothing of it is left, whichever of the steps was the last that succeeded.

Between opening and closing, a workspace differs from what it was by one handle, by the session that
opened it and by the files. Each of the calls is looked at once in such a workspace. Closing makes
no difference between calls before it that failed and those that did not, so the exits need not be
counted one by one.

## Main definitions

* `Workspace.Step.andThen`, `Workspace.separately` — the four calls
* `Workspace.holding` — a workspace with one handle more
* `Workspace.Composed` — what the one call and the four have in common

## Main results

* `Workspace.Sound.exists_separately` — the four calls are the one call, and at most a closed handle
  more
* `Workspace.composed_run` — the one call does what the four calls do, and leaves no handle behind
-/

namespace RomArchive

namespace Workspace

/-! ### One call after another -/

/-- A step, and another that depends on what was answered. -/
def Step.andThen (first : Step) (next : Reply → Workspace → Step) : Step :=
  let second := next first.reply first.workspace
  { second with warnings := first.warnings ++ second.warnings }

/-- Ask a handle for a wanted entry, and extract that if there is one. -/
def findThenExtract (workspace : Workspace) (session handle : String)
    (wanted : Option (List String)) : Step :=
  (workspace.step (.findMedia handle wanted)).andThen fun
    | .name entry, asked => asked.step (.extractToScratch session handle entry)
    | failure, asked => asked.answer failure

/-- Open a container, find and extract, and close the handle if there is one. The first failure is
what is answered. -/
def separately (workspace : Workspace) (session path : String) (wanted : Option (List String))
    (handle : String) : Step :=
  (workspace.step (.openContainer session path handle)).andThen fun
    | .handle _, opened =>
      (opened.findThenExtract session handle wanted).andThen fun reply extracted =>
        { extracted.step (.closeHandle handle) with reply := reply }
    | failure, unopened => unopened.answer failure

variable {workspace : Workspace} {name path handleName : String} {session other : Session}
  {tree : FileTree} {handle : Handle} {wanted : Option (List String)}

/-! ### One session changed -/

theorem session?_replace (hsession : workspace.session? name = some session) :
    (workspace.replace name other).session? name = some other := by
  refine (lookup_map (fun entry => if entry.1 = name then other else entry.2) _ name).trans ?_
  rw [show workspace.sessions.lookup name = some session from hsession]
  exact congrArg some (if_pos rfl)

/-- What is kept under other names stays. -/
theorem session?_replace_of_ne {another : String} (hne : another ≠ name) :
    (workspace.replace name other).session? another = workspace.session? another := by
  refine (lookup_map (fun entry => if entry.1 = name then other else entry.2) _ another).trans ?_
  show (workspace.session? another).map _ = _
  cases workspace.session? another with
  | none => rfl
  | some found => exact congrArg some (if_neg hne)

/-! ### One handle more -/

/-- A workspace in which a session and the files have changed, and which has one handle more. -/
def holding (workspace : Workspace) (name : String) (session : Session) (tree : FileTree)
    (handleName : String) (handle : Handle) : Workspace :=
  { workspace.replace name session with
    tree := tree
    handles := workspace.handles ++ [(handleName, handle)] }

theorem session?_holding (hsession : workspace.session? name = some session) :
    (workspace.holding name other tree handleName handle).session? name = some other :=
  (session?_replace hsession : (workspace.replace name other).session? name = some other)

/-- Under a name that was free there is what was added. -/
theorem handle?_append (hvacant : workspace.handle? handleName = none)
    (more : List (String × Handle)) :
    Workspace.handle? { workspace with handles := workspace.handles ++ more } handleName
      = more.lookup handleName := by
  rw [handle?, List.lookup_append, show workspace.handles.lookup handleName = none from hvacant,
    Option.none_or]

theorem handle?_holding (hvacant : workspace.handle? handleName = none) :
    (workspace.holding name other tree handleName handle).handle? handleName = some handle :=
  (handle?_append hvacant [(handleName, handle)]).trans List.lookup_cons_self

/-- An operation of the session is an operation on what has changed already. -/
theorem after_holding {α : Type} (outcome : Session.Outcome α) :
    (workspace.holding name other tree handleName handle).after name outcome
      = workspace.holding name outcome.session outcome.tree handleName handle := by
  have hsessions : ∀ entry : String × Session,
      (entry.1, if entry.1 = name then outcome.session
          else if entry.1 = name then other else entry.2)
        = (entry.1, if entry.1 = name then outcome.session else entry.2) := by
    intro entry
    split <;> simp [*]
  simp only [after, holding, replace, List.map_map, Function.comp_def, hsessions]

/-- There is nothing to give up under a name that is free. -/
theorem filter_handles (hvacant : workspace.handle? handleName = none) :
    workspace.handles.filter (·.1 ≠ handleName) = workspace.handles :=
  List.filter_eq_self.2 fun entry hentry =>
    decide_eq_true (fst_ne_of_lookup hvacant entry hentry)

/-- The other sessions have other numbers, so they have nothing to forget. -/
theorem Sound.forget_replace (h : workspace.Sound)
    (hsession : workspace.session? name = some session) (hserial : other.serial = session.serial)
    (howner : handle.owner = session.serial) :
    (workspace.replace name other).sessions.map (forgetHandle handle)
      = (workspace.replace name (other.forget handle.id)).sessions := by
  rw [Workspace.replace, List.map_map]
  refine List.map_congr_left fun entry hentry => ?_
  by_cases hname : entry.1 = name
  · simp [forgetHandle, hname, hserial, howner]
  · simp [forgetHandle, hname, howner, h.serial_ne hsession hentry hname]

/-- **Closing the handle changes its session and nothing else.** -/
theorem Sound.closeHandle_holding (h : workspace.Sound)
    (hsession : workspace.session? name = some session)
    (hvacant : workspace.handle? handleName = none) (hserial : other.serial = session.serial)
    (howner : handle.owner = session.serial) (hopen : handle.isOpen = true) :
    (workspace.holding name other tree handleName handle).closeHandle handleName
      = workspace.holding name (other.forget handle.id) tree handleName handle.closed := by
  have hhandles : workspace.handles.map (closeName handleName) = workspace.handles := by
    refine (List.map_congr_left fun entry hentry => ?_).trans (List.map_id _)
    simp [closeName, fst_ne_of_lookup hvacant entry hentry]
  rw [closeHandle_of_isOpen (handle?_holding hvacant) hopen]
  simp only [holding, h.forget_replace hsession hserial howner, List.map_append, hhandles]
  simp [closeName, Workspace.replace]

theorem Sound.step_closeHandle_holding (h : workspace.Sound)
    (hsession : workspace.session? name = some session)
    (hvacant : workspace.handle? handleName = none) (hserial : other.serial = session.serial)
    (howner : handle.owner = session.serial) (hopen : handle.isOpen = true) :
    (workspace.holding name other tree handleName handle).step (.closeHandle handleName)
      = ⟨.flag false, workspace.holding name (other.forget handle.id) tree handleName
          handle.closed, []⟩ := by
  rw [step, withHandle_of_some (handle?_holding hvacant),
    h.closeHandle_holding hsession hvacant hserial howner hopen]

/-- Closed handles under a name of their own can be given up without a trace. -/
theorem dropHandle_append (hvacant : workspace.handle? handleName = none)
    {more : List (String × Handle)}
    (hmore : ∀ entry ∈ more, entry.1 = handleName ∧ entry.2.isOpen = false) :
    Workspace.dropHandle { workspace with handles := workspace.handles ++ more } handleName
      = workspace := by
  have hlookup := handle?_append hvacant more
  have hclosed : Workspace.closeHandle { workspace with handles := workspace.handles ++ more }
      handleName = { workspace with handles := workspace.handles ++ more } := by
    cases hhandle : more.lookup handleName with
    | none => exact closeHandle_of_none (hlookup.trans hhandle)
    | some handle =>
      exact closeHandle_of_not_isOpen (hlookup.trans hhandle) (hmore _ (mem_of_lookup hhandle)).2
  have hgone : more.filter (·.1 ≠ handleName) = [] :=
    List.filter_eq_nil_iff.2 fun entry hentry => by simp [(hmore entry hentry).1]
  rw [dropHandle, hclosed]
  simp only [List.filter_append, filter_handles hvacant, hgone, List.append_nil]

/-! ### The four calls -/

theorem step_openContainer_of_error (hsession : workspace.session? name = some session)
    {failure : Failure}
    (hresult : (session.openContainer workspace.tree path).result = .error failure) :
    workspace.step (.openContainer name path handleName)
      = ⟨.failed failure, workspace.after name (session.openContainer workspace.tree path),
          (session.openContainer workspace.tree path).warnings⟩ := by
  simp [step, openContainer, hsession, hresult]

/-- A container that was opened has its handle under the name that was free. -/
theorem step_openContainer_of_ok (hsession : workspace.session? name = some session)
    (hvacant : workspace.handle? handleName = none)
    (hresult : (session.openContainer workspace.tree path).result = .ok handle) :
    workspace.step (.openContainer name path handleName)
      = ⟨.handle handle.id,
          workspace.holding name (session.openContainer workspace.tree path).session
            (session.openContainer workspace.tree path).tree handleName handle,
          (session.openContainer workspace.tree path).warnings⟩ := by
  have hnone : (workspace.after name (session.openContainer workspace.tree path)).handle?
      handleName = none := hvacant
  simp only [step, openContainer, withSession_of_some hsession, hresult, dropHandle,
    closeHandle_of_none hnone, filter_handles hnone]
  rfl

/-- The two calls in the middle are one operation of the session. -/
theorem findThenExtract_holding (hsession : workspace.session? name = some session)
    (hvacant : workspace.handle? handleName = none) :
    (workspace.holding name other tree handleName handle).findThenExtract name handleName wanted
      = ⟨Reply.ofResult .path (other.extractMedia tree handle wanted).result,
          workspace.holding name (other.extractMedia tree handle wanted).session
            (other.extractMedia tree handle wanted).tree handleName handle,
          (other.extractMedia tree handle wanted).warnings⟩ := by
  have hthis : (workspace.holding name other tree handleName handle).session? name = some other :=
    session?_holding hsession
  have hheld : (workspace.holding name other tree handleName handle).handle? handleName
      = some handle := handle?_holding hvacant
  cases hfound : handle.findMedia wanted with
  | error failure =>
    simp [findThenExtract, Step.andThen, step, answer, Reply.ofResult, Session.extractMedia,
      hheld, hfound]
  | ok entry =>
    simp only [findThenExtract, Step.andThen, step, answer, Reply.ofResult, Session.extractMedia,
      withHandle_of_some hheld, withSession_of_some hthis, hfound]
    simp only [stepOf, after_holding]
    rfl

theorem step_findAndExtract (hsession : workspace.session? name = some session) :
    workspace.step (.findAndExtract name path wanted)
      = workspace.stepOf name (session.findAndExtract workspace.tree path wanted)
          (Reply.ofResult .path) := by
  rw [step, withSession_of_some hsession]

/-- If the container cannot be opened, neither goes any further. -/
theorem separately_of_error (hsession : workspace.session? name = some session)
    {failure : Failure}
    (hresult : (session.openContainer workspace.tree path).result = .error failure) :
    workspace.separately name path wanted handleName
      = workspace.step (.findAndExtract name path wanted) := by
  rw [separately, step_openContainer_of_error hsession hresult, step_findAndExtract hsession]
  simp [Step.andThen, answer, stepOf, Session.findAndExtract, hresult, after, Reply.ofResult]

/-- If it can be opened, the four calls leave its handle behind. -/
theorem Sound.separately_of_ok (h : workspace.Sound)
    (hsession : workspace.session? name = some session)
    (hvacant : workspace.handle? handleName = none) {container : OpenContainer}
    (hresult : (session.openContainer workspace.tree path).result
      = .ok (newHandle session path container)) :
    workspace.separately name path wanted handleName
      = ⟨Reply.ofResult .path (session.findAndExtract workspace.tree path wanted).result,
          workspace.holding name (session.findAndExtract workspace.tree path wanted).session
            (session.findAndExtract workspace.tree path wanted).tree handleName
            (newHandle session path container).closed,
          (session.findAndExtract workspace.tree path wanted).warnings⟩ := by
  rcases session.openContainer_cases workspace.tree path with
    ⟨failure, hfails, -, -⟩ | ⟨_, -, -, hissue, htree⟩
  · cases hresult.symm.trans hfails
  · obtain ⟨scratch, hscratch⟩ := session.issue.extractMedia_session workspace.tree
      (newHandle session path container) wanted
    have hserial : (session.issue.extractMedia workspace.tree (newHandle session path container)
        wanted).session.serial = session.serial := by
      rw [hscratch]
      rfl
    rw [separately, step_openContainer_of_ok hsession hvacant hresult]
    simp only [Step.andThen, hissue, htree, findThenExtract_holding hsession hvacant]
    rw [h.step_closeHandle_holding hsession hvacant hserial rfl rfl]
    simp only [Session.findAndExtract, hresult, hissue, htree, List.append_nil]

/-- **The four calls are the one call, and at most a closed handle more.** -/
theorem Sound.exists_separately (h : workspace.Sound)
    (hsession : workspace.session? name = some session)
    (hvacant : workspace.handle? handleName = none) (path : String)
    (wanted : Option (List String)) : ∃ more : List (String × Handle),
      (∀ entry ∈ more, entry.1 = handleName ∧ entry.2.isOpen = false) ∧
      workspace.separately name path wanted handleName
        = { workspace.step (.findAndExtract name path wanted) with
            workspace := { (workspace.step (.findAndExtract name path wanted)).workspace with
              handles := (workspace.step (.findAndExtract name path wanted)).workspace.handles
                ++ more } } := by
  rcases session.openContainer_cases workspace.tree path with
    ⟨failure, hresult, -⟩ | ⟨container, -, hresult, -⟩
  · refine ⟨[], List.forall_mem_nil _, ?_⟩
    rw [separately_of_error hsession hresult, step_findAndExtract hsession, List.append_nil]
  · refine ⟨[(handleName, (newHandle session path container).closed)], ?_, ?_⟩
    · simp
    · rw [h.separately_of_ok hsession hvacant hresult, step_findAndExtract hsession]
      rfl

/-! ### The one call -/

/-- A session that lists the same handles counts the same. -/
theorem Sound.openCounts_replace (h : workspace.Sound)
    (hsession : workspace.session? name = some session) (hlive : other.live = session.live) :
    (workspace.replace name other).openCounts = workspace.openCounts := by
  rw [openCounts, openCounts, Workspace.replace, List.map_map]
  refine List.map_congr_left fun entry hentry => Prod.ext rfl ?_
  show (if entry.1 = name then other else entry.2).openCount = entry.2.openCount
  by_cases hname : entry.1 = name
  · rw [if_pos hname, eq_of_lookup h.sessionNames hsession hentry hname, Session.openCount,
      Session.openCount, hlive]
  · rw [if_neg hname]

/-- What the one call and the four have in common, and what the one call leaves behind. The four
need a name for the handle. -/
structure Composed (workspace : Workspace) (name path : String) (wanted : Option (List String))
    (handleName : String) (session : Session) : Prop where
  /-- Both answer the same, and give the same warnings. -/
  reply : (workspace.step (.findAndExtract name path wanted)).reply
    = (workspace.separately name path wanted handleName).reply
  warnings : (workspace.step (.findAndExtract name path wanted)).warnings
    = (workspace.separately name path wanted handleName).warnings
  /-- They leave the same files behind, and the same sessions with the same counters. -/
  tree : (workspace.step (.findAndExtract name path wanted)).workspace.tree
    = (workspace.separately name path wanted handleName).workspace.tree
  sessions : (workspace.step (.findAndExtract name path wanted)).workspace.sessions
    = (workspace.separately name path wanted handleName).workspace.sessions
  /-- What the four leave behind besides is at most a handle that is closed. -/
  closed : ∀ handle,
    (workspace.separately name path wanted handleName).workspace.handle? handleName = some handle →
    handle.isOpen = false
  dropped : (workspace.separately name path wanted handleName).workspace.dropHandle handleName
    = (workspace.step (.findAndExtract name path wanted)).workspace
  /-- After the one call the handles are those that there were, and as many of each session are
  open. -/
  handles : (workspace.step (.findAndExtract name path wanted)).workspace.handles
    = workspace.handles
  openCounts : (workspace.step (.findAndExtract name path wanted)).workspace.openCounts
    = workspace.openCounts
  /-- The session lists the handles that it listed before. A number was used up if the container
  could be opened, and only then. -/
  counted : ∃ later,
    (workspace.step (.findAndExtract name path wanted)).workspace.session? name = some later ∧
    later.live = session.live ∧
    (later.issued = session.issued + 1 ∨ later.issued = session.issued) ∧
    (later.issued = session.issued + 1 ↔
      ∃ id, (workspace.step (.openContainer name path handleName)).reply = .handle id)
  /-- No other session has changed. -/
  others : ∀ another, another ≠ name →
    (workspace.step (.findAndExtract name path wanted)).workspace.session? another
      = workspace.session? another

/-- A number is used up if the container can be opened, and the list is as it was in any case. -/
theorem Sound.counted (h : workspace.Sound) (hsession : workspace.session? name = some session)
    (hvacant : workspace.handle? handleName = none) (path : String)
    (wanted : Option (List String)) :
    (session.findAndExtract workspace.tree path wanted).session.live = session.live ∧
    ((session.findAndExtract workspace.tree path wanted).session.issued = session.issued + 1 ∨
      (session.findAndExtract workspace.tree path wanted).session.issued = session.issued) ∧
    ((session.findAndExtract workspace.tree path wanted).session.issued = session.issued + 1 ↔
      ∃ id, (workspace.step (.openContainer name path handleName)).reply = .handle id) := by
  rcases session.findAndExtract_cases workspace.tree path wanted (h.next_notMem hsession) with
    ⟨failure, hresult, hsame⟩ | ⟨container, scratch, hresult, hspent⟩
  · rw [step_openContainer_of_error hsession hresult, hsame]
    simp
  · rw [step_openContainer_of_ok hsession hvacant hresult, hspent]
    simp

theorem Sound.composed (h : workspace.Sound) (hsession : workspace.session? name = some session)
    (hvacant : workspace.handle? handleName = none) (path : String)
    (wanted : Option (List String)) :
    workspace.Composed name path wanted handleName session := by
  obtain ⟨more, hmore, heq⟩ := h.exists_separately hsession hvacant path wanted
  obtain ⟨hlive, hcounted⟩ := h.counted hsession hvacant path wanted
  have hstep : workspace.step (.findAndExtract name path wanted) = _ :=
    step_findAndExtract hsession
  have hnone : (workspace.step (.findAndExtract name path wanted)).workspace.handle? handleName
      = none := by
    rw [hstep]
    exact hvacant
  refine ⟨by rw [heq], by rw [heq], by rw [heq], by rw [heq], fun handle hhandle => ?_, ?_, ?_, ?_,
    ⟨_, ?_, hlive, hcounted⟩, fun another hne => ?_⟩
  · rw [heq, handle?_append hnone more] at hhandle
    exact (hmore _ (mem_of_lookup hhandle)).2
  · rw [heq]
    exact dropHandle_append hnone hmore
  · rw [hstep]
    rfl
  · rw [hstep]
    exact h.openCounts_replace hsession hlive
  · rw [hstep]
    exact session?_replace hsession
  · rw [hstep]
    exact session?_replace_of_ne hne

/-- **The one call does what the four calls do, and leaves no handle behind**, in every workspace
that a run leads to and whatever fails on the way. -/
theorem composed_run (files : FileTree) (commands : List Command) (name handleName path : String)
    (wanted : Option (List String)) {session : Session}
    (hsession : ((ofTree files).run commands).session? name = some session)
    (hvacant : ((ofTree files).run commands).handle? handleName = none) :
    ((ofTree files).run commands).Composed name path wanted handleName session :=
  ((sound_ofTree files).run commands).composed hsession hvacant path wanted

/-- A session starts, and the sample container is there. -/
def withSample : List Command :=
  [.startSession "s" ⟨"out", .counter, .overwrite, .skip, 1000⟩ "0123abcd",
    .writeFile "games.zip" Packing.sample.bytes]

/-- There is no cartridge in it. -/
def unwanted : Command :=
  .findAndExtract "s" "games.zip" (some [".crt"])

/-- There is something that counts as media. -/
def anyMedia : Command :=
  .findAndExtract "s" "games.zip" none

/-- Two of the exits. If nothing in the container is wanted, a number is used up and nothing is
written. Otherwise the four calls write the entry as the one call does, and a name is used up as
well. No handle is open either way. -/
theorem composed_run_exits :
    ((((ofTree .empty).run withSample).step unwanted).reply = .failed (.noMedia "games.zip") ∧
      (((ofTree .empty).run withSample).separately "s" "games.zip" (some [".crt"]) "h").reply
        = .failed (.noMedia "games.zip") ∧
      (((ofTree .empty).run withSample).step unwanted).workspace.openCounts = [("s", 0)] ∧
      ∃ later, (((ofTree .empty).run withSample).step unwanted).workspace.session? "s"
          = some later ∧ later.issued = 1) ∧
    (((ofTree .empty).run withSample).separately "s" "games.zip" none "h").reply
        = .path "out/temp_1_GAME.PRG" ∧
      (((ofTree .empty).run withSample).separately "s" "games.zip" none
        "h").workspace.tree.contentsAt? "out/temp_1_GAME.PRG" = some [1, 2, 3] ∧
      ((((ofTree .empty).run withSample).separately "s" "games.zip" none
        "h").workspace.sessions.map fun entry => (entry.2.scratch.counter, entry.2.issued))
          = [(1, 1)] ∧
      (((ofTree .empty).run withSample).step anyMedia).workspace.openCounts = [("s", 0)] := by
  obtain ⟨session, hsession, hissued⟩ : ∃ session,
      ((ofTree .empty).run withSample).session? "s" = some session ∧ session.issued = 0 :=
    ⟨Session.new 0 ⟨"out", .counter, .overwrite, .skip, 1000⟩ "0123abcd", by decide +kernel, rfl⟩
  have hvacant : ((ofTree .empty).run withSample).handle? "h" = none := by decide +kernel
  have hcounts : ((ofTree .empty).run withSample).openCounts = [("s", 0)] := by decide +kernel
  refine ⟨?unwanted, ?written⟩
  case unwanted =>
    have hcomposed := composed_run .empty withSample "s" "h" "games.zip" (some [".crt"]) hsession
      hvacant
    have hreply : (((ofTree .empty).run withSample).step unwanted).reply
        = .failed (.noMedia "games.zip") := by decide +kernel
    have hopens : (((ofTree .empty).run withSample).step
        (.openContainer "s" "games.zip" "h")).reply = .handle 1 := by decide +kernel
    obtain ⟨later, hlater, -, -, hcount⟩ := hcomposed.counted
    refine ⟨hreply, hcomposed.reply.symm.trans hreply, hcomposed.openCounts.trans hcounts, later,
      hlater, ?_⟩
    rw [hcount.2 ⟨1, hopens⟩, hissued]
  case written =>
    have hcomposed := composed_run .empty withSample "s" "h" "games.zip" none hsession hvacant
    have hreply : (((ofTree .empty).run withSample).step anyMedia).reply
        = .path "out/temp_1_GAME.PRG" := by decide +kernel
    have hfile : (((ofTree .empty).run withSample).step anyMedia).workspace.tree.contentsAt?
        "out/temp_1_GAME.PRG" = some [1, 2, 3] := by decide +kernel
    have hcounters : (((ofTree .empty).run withSample).step anyMedia).workspace.sessions.map
        (fun entry => (entry.2.scratch.counter, entry.2.issued)) = [(1, 1)] := by decide +kernel
    refine ⟨hcomposed.reply.symm.trans hreply, ?_, ?_, hcomposed.openCounts.trans hcounts⟩
    · rw [← hcomposed.tree]
      exact hfile
    · rw [← hcomposed.sessions]
      exact hcounters

end Workspace

end RomArchive
