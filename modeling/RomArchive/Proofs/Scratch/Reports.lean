import RomArchive.Proofs.Scratch.Runs

/-!
# Reports to callers with a buffer

A caller who cannot take a path is told yes or no, and gets the path in a buffer of its own. The
answer is no if there is no path, and it is also no if the path does not fit the buffer. The first
comes of a failure, and a failure leaves all files as they were. The second is found out last, when
the file has been written: it stays where it is, all of it, and the caller is not told where.

So a no can mean that nothing was written, and it can mean that a file was. Which of the two it was
cannot be seen from the answer, but there is nothing between them. The buffer is left alone in both
cases.

## Main definitions

* `Command.buffer?` — the buffer that a command gets for a path
* `Workspace.Refused` — what a command leaves behind when the answer is no

## Main results

* `Session.atomic_extractToScratch`, `Session.atomic_findAndExtract` — both operations write all of
  a file or nothing
* `Workspace.refused_of_report` — the answer no leaves all files as they were, or one file more
-/

namespace RomArchive

/-- A path that fits stands in the buffer with a NUL behind it. -/
theorem reportInto_of_le {path : String} {buffer : Bytes}
    (hroom : (PathText.bytes path).length + 1 ≤ buffer.length) :
    reportInto (.ok path) buffer
      = (true, PathText.bytes path ++ 0 :: buffer.drop ((PathText.bytes path).length + 1)) := by
  simp only [reportInto, PathText.copyInto, if_neg (Nat.not_lt.2 hroom)]

theorem reportInto_of_lt {path : String} {buffer : Bytes}
    (hroom : buffer.length < (PathText.bytes path).length + 1) :
    reportInto (.ok path) buffer = (false, buffer) := by
  simp only [reportInto, PathText.copyInto, if_pos hroom]

/-- The answer is no if there is no path, or if it does not fit. -/
theorem reportInto_eq_false {result : Except Failure String} {buffer : Bytes}
    (h : (reportInto result buffer).1 = false) : (reportInto result buffer).2 = buffer ∧
      ((∃ failure, result = .error failure) ∨
        ∃ path, result = .ok path ∧ buffer.length ≤ (PathText.bytes path).length) := by
  cases result with
  | error failure => exact ⟨rfl, Or.inl ⟨failure, rfl⟩⟩
  | ok path =>
    by_cases hlong : buffer.length < (PathText.bytes path).length + 1
    · rw [reportInto_of_lt hlong]
      exact ⟨rfl, Or.inr ⟨path, rfl, Nat.lt_succ_iff.1 hlong⟩⟩
    · rw [reportInto_of_le (Nat.not_lt.1 hlong)] at h
      cases h

/-! ### Operations write all or nothing -/

namespace Session

variable {session : Session} {tree : FileTree}

theorem atomic_extractToScratch (htree : tree.Unlinked)
    (htoken : Scratch.IsToken session.scratch.token) (handle : Handle) (name : String) :
    ∃ extraction, session.scratch.Atomic tree extraction
      (session.extractToScratch tree handle name).result
      (session.extractToScratch tree handle name).tree := by
  rw [extractToScratch]
  cases handle.extract tree name with
  | error failure => exact ⟨.error failure, .of_grown (.refl _ tree) failure⟩
  | ok contents =>
    exact ⟨.ok contents, (session.course_writeScratch tree contents).atomic htree htoken⟩

theorem atomic_extractMedia (htree : tree.Unlinked)
    (htoken : Scratch.IsToken session.scratch.token) (handle : Handle)
    (wanted : Option (List String)) :
    ∃ extraction, session.scratch.Atomic tree extraction
      (session.extractMedia tree handle wanted).result
      (session.extractMedia tree handle wanted).tree := by
  rw [extractMedia]
  cases handle.findMedia wanted with
  | error failure => exact ⟨.error failure, .of_grown (.refl _ tree) failure⟩
  | ok name => exact atomic_extractToScratch htree htoken handle name

/-- Opening the container writes nothing. -/
theorem atomic_findAndExtract (htree : tree.Unlinked)
    (htoken : Scratch.IsToken session.scratch.token) (path : String)
    (wanted : Option (List String)) :
    ∃ extraction, session.scratch.Atomic tree extraction
      (session.findAndExtract tree path wanted).result
      (session.findAndExtract tree path wanted).tree := by
  rcases session.openContainer_cases tree path with
    ⟨failure, hresult, -, hsame⟩ | ⟨container, -, hresult, hsession, hsame⟩
  · simp only [findAndExtract, hresult, hsame]
    exact ⟨.error failure, .of_grown (.refl _ tree) failure⟩
  · simp only [findAndExtract, hresult, hsession, hsame]
    exact session.issue.atomic_extractMedia htree htoken _ wanted

end Session

/-! ### What a refusal leaves behind -/

/-- The buffer that a command gets for a path. -/
def Command.buffer? : Command → Option Bytes
  | .extractInto _ _ _ buffer => some buffer
  | .findAndExtractInto _ _ _ buffer => some buffer
  | _ => none

namespace Workspace

variable {workspace : Workspace} {session : Session} {buffer filled : Bytes}

/-- What a command leaves behind when the answer is no. -/
inductive Refused (workspace : Workspace) (command : Command) (buffer : Bytes) : Prop
  /-- There is no path, and all files are as they were. -/
  | failed (hnone : ∀ session path, ¬ workspace.Writes command session path)
      (hcontents : (workspace.step command).workspace.tree.contents = workspace.tree.contents)
      (hfiles : ∀ place, (workspace.step command).workspace.tree.fileAt? place
        = workspace.tree.fileAt? place)
  /-- The path does not fit. The whole file is there, and all others are as they were. -/
  | unfit {session : Session} {path : String} {bytes : Bytes}
      (hwrites : workspace.Writes command session path)
      (hlong : buffer.length ≤ (PathText.bytes path).length)
      (hwritten : (workspace.step command).workspace.tree.contentsAt? path = some bytes)
      (hfiles : ∀ place, (workspace.step command).workspace.tree.fileAt? place
        = if place = FileTree.placeOf path then some bytes else workspace.tree.fileAt? place)

/-- What the answer no leaves behind when the operation behind the command writes all of a file or
nothing. -/
theorem refused_of_atomic {command : Command} {scratch : Scratch}
    {extraction : Except Failure VerifiedBytes} {outcome : Session.Outcome String}
    (hatomic : scratch.Atomic workspace.tree extraction outcome.result outcome.tree)
    (htree : (workspace.step command).workspace.tree = outcome.tree)
    (hwrites : ∀ path, outcome.result = .ok path → workspace.Writes command session path)
    (hpath : ∀ writer path, workspace.Writes command writer path → outcome.result = .ok path)
    (hreply : Reply.ofReport buffer outcome.result = .report false filled) :
    filled = buffer ∧ workspace.Refused command buffer := by
  obtain ⟨hdone, hfilled⟩ := Reply.report.inj hreply
  obtain ⟨hbuffer, hcases⟩ := reportInto_eq_false hdone
  refine ⟨hfilled.symm.trans hbuffer, ?_⟩
  rcases hcases with ⟨failure, hresult⟩ | ⟨path, hresult, hlong⟩
  · obtain ⟨hcontents, hfiles⟩ := hatomic.failed failure hresult
    refine .failed (fun writer path hwritten => ?_) (htree ▸ hcontents) (htree ▸ hfiles)
    cases hresult.symm.trans (hpath writer path hwritten)
  · obtain ⟨contents, -, -, -, hwritten, hfiles⟩ := hatomic.written path hresult
    exact .unfit (hwrites path hresult) hlong (htree ▸ hwritten) (htree ▸ hfiles)

theorem refused_extractInto (htree : workspace.tree.Unlinked)
    (htokens : ∀ entry ∈ workspace.sessions, Scratch.IsToken entry.2.scratch.token)
    {name handleName entry : String}
    (hreply : (workspace.step (.extractInto name handleName entry buffer)).reply
      = .report false filled) :
    filled = buffer ∧ workspace.Refused (.extractInto name handleName entry buffer) buffer := by
  cases hsession : workspace.session? name with
  | none =>
    simp only [step, withSession, hsession] at hreply
    cases hreply
  | some session =>
    cases hhandle : workspace.handle? handleName with
    | none =>
      simp only [step, withSession, withHandle, hsession, hhandle] at hreply
      cases hreply
    | some handle =>
      have hstep : workspace.step (.extractInto name handleName entry buffer)
          = workspace.stepOf name (session.extractToScratch workspace.tree handle entry)
              (Reply.ofReport buffer) := by
        simp only [step, withSession, withHandle, hsession, hhandle]
      rw [hstep] at hreply
      obtain ⟨extraction, hatomic⟩ := Session.atomic_extractToScratch htree
        (htokens _ (mem_of_lookup hsession)) handle entry
      refine refused_of_atomic hatomic (by rw [hstep]; rfl)
        (fun path hresult => .extractInto buffer hsession hhandle hresult)
        (fun writer path hwrites => ?_) hreply
      cases hwrites with
      | extractInto _ hwriter hsource hwritten =>
        cases hsession.symm.trans hwriter
        cases hhandle.symm.trans hsource
        exact hwritten

theorem refused_findAndExtractInto (htree : workspace.tree.Unlinked)
    (htokens : ∀ entry ∈ workspace.sessions, Scratch.IsToken entry.2.scratch.token)
    {name container : String} {wanted : Option (List String)}
    (hreply : (workspace.step (.findAndExtractInto name container wanted buffer)).reply
      = .report false filled) :
    filled = buffer ∧
      workspace.Refused (.findAndExtractInto name container wanted buffer) buffer := by
  cases hsession : workspace.session? name with
  | none =>
    simp only [step, withSession, hsession] at hreply
    cases hreply
  | some session =>
    have hstep : workspace.step (.findAndExtractInto name container wanted buffer)
        = workspace.stepOf name (session.findAndExtract workspace.tree container wanted)
            (Reply.ofReport buffer) := by
      simp only [step, withSession, hsession]
    rw [hstep] at hreply
    obtain ⟨extraction, hatomic⟩ := Session.atomic_findAndExtract htree
      (htokens _ (mem_of_lookup hsession)) container wanted
    refine refused_of_atomic hatomic (by rw [hstep]; rfl)
      (fun path hresult => .findAndExtractInto buffer hsession hresult)
      (fun writer path hwrites => ?_) hreply
    cases hwrites with
    | findAndExtractInto _ hwriter hwritten =>
      cases hsession.symm.trans hwriter
      exact hwritten

/-- **The answer no leaves all files as they were, or one file more**, whose path did not fit the
buffer. The buffer is as it was in either case. -/
theorem refused_of_report (htree : workspace.tree.Unlinked)
    (htokens : ∀ entry ∈ workspace.sessions, Scratch.IsToken entry.2.scratch.token)
    {command : Command} (hcommand : command.buffer? = some buffer)
    (hreply : (workspace.step command).reply = .report false filled) :
    filled = buffer ∧ workspace.Refused command buffer := by
  cases command with
  | extractInto name handleName entry given =>
    cases hcommand
    exact refused_extractInto htree htokens hreply
  | findAndExtractInto name container wanted given =>
    cases hcommand
    exact refused_findAndExtractInto htree htokens hreply
  | _ => cases hcommand

/-! ### A buffer that is too small -/

/-- A session that counts its files, and the sample container. -/
def beforeReport : Workspace :=
  (ofTree .empty).run [.startSession "s" ⟨"out", .counter, .overwrite, .skip, 1000⟩ "0123abcd",
    .writeFile "games.zip" Packing.sample.bytes]

/-- Eight bytes for the path of a scratch file. -/
def tooSmall : Command :=
  .findAndExtractInto "s" "games.zip" none (List.replicate 8 0)

theorem unlinked_beforeReport : beforeReport.tree.Unlinked :=
  (advances_run _ _).unlinked FileTree.unlinked_empty

theorem isToken_beforeReport :
    ∀ entry ∈ beforeReport.sessions, Scratch.IsToken entry.2.scratch.token := by
  have htokens : beforeReport.sessions.map (·.2.scratch.token) = ["0123abcd"] := by
    decide +kernel
  intro entry hentry
  have hmem := List.mem_map_of_mem (f := (·.2.scratch.token)) hentry
  rw [htokens] at hmem
  rw [List.mem_singleton.1 hmem]
  exact ⟨by decide, by decide⟩

theorem reply_tooSmall :
    (beforeReport.step tooSmall).reply = .report false (List.replicate 8 0) := by
  decide +kernel

/-- The path has nineteen bytes, so this refusal leaves a file behind. -/
theorem refused_of_report_tooSmall :
    (beforeReport.step tooSmall).reply = .report false (List.replicate 8 0) ∧
      beforeReport.Refused tooSmall (List.replicate 8 0) :=
  ⟨reply_tooSmall, (refused_of_report unlinked_beforeReport isToken_beforeReport rfl
    reply_tooSmall).2⟩

/-- The answer no does not mean that nothing was written. -/
theorem not_forall_unchanged :
    ¬ ∀ (workspace : Workspace) (command : Command) (buffer filled : Bytes),
      workspace.tree.Unlinked →
      (∀ entry ∈ workspace.sessions, Scratch.IsToken entry.2.scratch.token) →
      command.buffer? = some buffer → (workspace.step command).reply = .report false filled →
      ∀ place, (workspace.step command).workspace.tree.fileAt? place
        = workspace.tree.fileAt? place := by
  intro h
  have hsame := h beforeReport tooSmall _ _ unlinked_beforeReport isToken_beforeReport rfl
    reply_tooSmall ["out", "temp_1_GAME.PRG"]
  have hbefore : beforeReport.tree.fileAt? ["out", "temp_1_GAME.PRG"] = none := by decide +kernel
  have hafter : (beforeReport.step tooSmall).workspace.tree.fileAt? ["out", "temp_1_GAME.PRG"]
      = some [1, 2, 3] := by decide +kernel
  rw [hbefore, hafter] at hsame
  cases hsame

end Workspace

end RomArchive
