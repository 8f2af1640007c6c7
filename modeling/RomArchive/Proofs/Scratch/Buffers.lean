import RomArchive.Proofs.Scratch.Reports
import RomArchive.Proofs.Text

/-!
# What callers with a buffer get

A caller with a buffer reads a path up to the first NUL, since nothing else tells how long it is.
That this is the whole path and no more takes two things: the path that was copied has no NUL, and
there is one behind it. Neither is a matter of the copying. The second is seen to when the room is
counted. The first has been seen to by then, since no file can be created under a path with a NUL,
and a path is given back only for a file that was.

So the bytes up to the NUL lead to the file, and the file holds what was extracted. It is enough for
this that every file has contents: it does not matter whether the file has other names, nor what the
token of the session looks like.

## Main definitions

* `FileTree.Stocked` — every file has contents
* `Session.wantedContents` — what is written when a container is searched
* `Workspace.Reports` — what a caller with a buffer gets, next to a caller without

## Main results

* `Scratch.Course.readable` — a path that is given back has no NUL and leads to the contents
* `Workspace.reports_exactly` — the buffer has the path where it fits, and is left alone otherwise
-/

namespace RomArchive

/-! ### Files that can be read under their paths -/

namespace FileTree

variable {tree before after : FileTree} {path : String} {bytes : Bytes}

/-- Every file has contents. -/
def Stocked (tree : FileTree) : Prop :=
  ∀ place number, tree.node? place = some (.file number) → number < tree.contents.length

theorem Stocked.grown {paths : List String} (h : before.Stocked)
    (hgrown : Grown paths before after) : after.Stocked := by
  intro place number hnode
  rw [hgrown.contents]
  exact h place number (hgrown.file_iff.1 hnode)

/-- A path with a NUL leads nowhere. -/
theorem nul_notMem_of_resolve {target : Target} (h : tree.resolve path = .ok target) :
    '\x00' ∉ path.toList := by
  intro hnul
  have hreach := reach_of_resolve h
  rw [reach, if_pos hnul] at hreach
  cases hreach

theorem readable_of_createNew (hslash : PathText.endsWithSlash path = false)
    (hwrite : before.createNew path bytes = .ok after) :
    '\x00' ∉ path.toList ∧ after.contentsAt? path = some bytes := by
  obtain ⟨inside, name, hresolve, rfl⟩ := exists_of_createNew hwrite
  exact ⟨nul_notMem_of_resolve hresolve, contentsAt?_addFile hresolve hslash bytes⟩

theorem readable_of_overwrite (hslash : PathText.endsWithSlash path = false)
    (hwrite : before.overwrite path bytes = .ok after) :
    '\x00' ∉ path.toList ∧ (before.Stocked → after.contentsAt? path = some bytes) := by
  rcases cases_of_overwrite hwrite with
    ⟨inside, name, hresolve, rfl⟩ | ⟨place, number, hresolve, rfl⟩
  · exact ⟨nul_notMem_of_resolve hresolve, fun _ => contentsAt?_addFile hresolve hslash bytes⟩
  · refine ⟨nul_notMem_of_resolve hresolve, fun hstocked => ?_⟩
    exact contentsAt?_setContents hresolve hslash
      (hstocked _ _ (node?_of_resolve_file hresolve).2) bytes

end FileTree

namespace Scratch

variable {scratch : Scratch} {tree : FileTree} {contents : VerifiedBytes} {path : String}

/-- The base name comes last in a path that is given out, whatever stands in front of it. -/
theorem endsWithSlash_nextPath (scratch : Scratch) {name : String}
    (hbase : EntryName.base name ≠ "") :
    PathText.endsWithSlash (scratch.nextPath name) = false := by
  have hname : (scratch.nextPath name).toList = PathText.lead scratch.root
      ++ scratch.front (scratch.counter + 1) ++ (EntryName.base name).toList := by
    rw [nextPath, PathText.toList_join, toList_fileName_front, List.append_assoc]
  exact PathText.endsWithSlash_of_append hname (fun h => hbase (String.toList_inj.1 h))
    (EntryName.slash_notMem_base name)

theorem readable_of_place {grown files : FileTree} {bytes : Bytes}
    (hslash : PathText.endsWithSlash path = false)
    (h : scratch.place grown path bytes = .ok files) :
    '\x00' ∉ path.toList ∧ (grown.Stocked → files.contentsAt? path = some bytes) := by
  rcases overwrite_of_place h with hwrite | ⟨-, hwrite⟩
  · obtain ⟨hnul, hread⟩ := FileTree.readable_of_createNew hslash hwrite
    exact ⟨hnul, fun _ => hread⟩
  · exact FileTree.readable_of_overwrite hslash hwrite

/-- **A path that is given back has no NUL and leads to the contents.** -/
theorem Course.readable {later : Scratch} {files : FileTree}
    (h : scratch.Course tree contents (.ok path) later files) :
    '\x00' ∉ path.toList ∧ (tree.Stocked → files.contentsAt? path = some contents.bytes) := by
  cases h with
  | written hbase hroot hplace =>
    obtain ⟨hnul, hread⟩ := readable_of_place (scratch.endsWithSlash_nextPath hbase) hplace
    have hgrown := FileTree.grown_createDirectories tree scratch.root
    rw [hroot] at hgrown
    exact ⟨hnul, fun hstocked => hread (hstocked.grown hgrown)⟩

end Scratch

/-! ### What operations extract -/

namespace Session

variable {session : Session} {tree : FileTree}

/-- What is written when a container is searched: the contents of its first wanted entry. -/
def wantedContents (session : Session) (tree : FileTree) (container : String)
    (wanted : Option (List String)) : Except Failure VerifiedBytes := do
  let handle ← (session.openContainer tree container).result
  let entry ← handle.findMedia wanted
  handle.extract tree entry

/-- What a path that an operation gives back is good for: it has no NUL, and the file that it leads
to holds what was extracted. -/
def Readable (tree : FileTree) (extraction : Except Failure VerifiedBytes)
    (outcome : Outcome String) : Prop :=
  ∀ path, outcome.result = .ok path → '\x00' ∉ path.toList ∧
    ∃ contents, extraction = .ok contents ∧
      (tree.Stocked → outcome.tree.contentsAt? path = some contents.bytes)

theorem readable_extractToScratch (session : Session) (tree : FileTree) (handle : Handle)
    (name : String) :
    Readable tree (handle.extract tree name) (session.extractToScratch tree handle name) := by
  intro path hresult
  rw [extractToScratch] at hresult ⊢
  cases hextract : handle.extract tree name with
  | error failure =>
    rw [hextract] at hresult
    cases hresult
  | ok contents =>
    rw [hextract] at hresult
    have hcourse := session.course_writeScratch tree contents
    rw [show (session.writeScratch tree contents).result = .ok path from hresult] at hcourse
    obtain ⟨hnul, hread⟩ := hcourse.readable
    exact ⟨hnul, contents, rfl, hread⟩

theorem wantedContents_of_ok {container entry : String} {wanted : Option (List String)}
    {handle : Handle} (hopening : (session.openContainer tree container).result = .ok handle)
    (hfound : handle.findMedia wanted = .ok entry) :
    session.wantedContents tree container wanted = handle.extract tree entry := by
  rw [wantedContents, hopening]
  show (handle.findMedia wanted >>= fun found => handle.extract tree found) = _
  rw [hfound]
  rfl

theorem readable_findAndExtract (session : Session) (tree : FileTree) (container : String)
    (wanted : Option (List String)) :
    Readable tree (session.wantedContents tree container wanted)
      (session.findAndExtract tree container wanted) := by
  intro path hresult
  rcases session.openContainer_cases tree container with
    ⟨failure, hopening, -⟩ | ⟨opened, -, hopening, hissue, htree⟩
  · simp only [findAndExtract, hopening] at hresult
    cases hresult
  · simp only [findAndExtract, hopening, hissue, htree, extractMedia] at hresult ⊢
    cases hfound : (Workspace.newHandle session container opened).findMedia wanted with
    | error failure =>
      rw [hfound] at hresult
      cases hresult
    | ok entry =>
      rw [wantedContents_of_ok hopening hfound]
      simp only [hfound] at hresult ⊢
      exact session.issue.readable_extractToScratch tree _ entry path hresult

end Session

/-! ### Reports -/

/-- What stands before the first NUL. -/
def untilNul (bytes : Bytes) : Bytes :=
  bytes.takeWhile (· ≠ 0)

/-- A text is read back up to the NUL behind it if it has none of its own. -/
theorem untilNul_append {text : Bytes} (htext : 0 ∉ text) (rest : Bytes) :
    untilNul (text ++ 0 :: rest) = text := by
  have hall : ∀ b ∈ text, decide (b ≠ 0) = true := fun b hb =>
    decide_eq_true fun hzero => htext (hzero ▸ hb)
  rw [untilNul, List.takeWhile_append_of_pos hall, List.takeWhile_cons_of_neg (by simp),
    List.append_nil]

namespace Workspace

variable {workspace : Workspace}

/-- Trees without links stay so, so all files that a run leads to have contents. -/
theorem stocked_run {files : FileTree} (h : files.Unlinked) (commands : List Command) :
    ((ofTree files).run commands).tree.Stocked :=
  ((advances_run (ofTree files) commands).unlinked h).stored

/-- What a caller with a buffer gets, next to a caller who is given the path. `plain` is the command
of the latter, `reporting` is the same with a buffer, and `extraction` is what is to be written. -/
structure Reports (workspace : Workspace) (plain reporting : Command) (buffer : Bytes)
    (extraction : Except Failure VerifiedBytes) (isDone : Bool) (filled : Bytes) : Prop where
  reply : (workspace.step reporting).reply = .report isDone filled
  /-- The answer is yes if there is a path, and if there is room for it and a NUL. -/
  isDone_iff : isDone = true ↔ ∃ path, (workspace.step plain).reply = .path path ∧
    (PathText.bytes path).length + 1 ≤ buffer.length
  /-- The buffer makes no difference to anything else. -/
  same : (workspace.step reporting).workspace = (workspace.step plain).workspace
  warnings : (workspace.step reporting).warnings = (workspace.step plain).warnings
  /-- After a yes the path and a NUL stand in front of what was in the buffer before. -/
  written : isDone = true → ∀ path, (workspace.step plain).reply = .path path →
    filled = PathText.bytes path ++ 0 :: buffer.drop ((PathText.bytes path).length + 1) ∧
    untilNul filled = PathText.bytes path
  /-- What stands before the first NUL is then the path of a file that holds what was extracted. -/
  readable : isDone = true → ∃ contents, extraction = .ok contents ∧
    (workspace.tree.Stocked → (workspace.step reporting).workspace.tree.contentsAt?
      (LossyText.decode (untilNul filled)) = some contents.bytes)
  /-- After a no the buffer is as it was. -/
  untouched : isDone = false → filled = buffer

/-- The answer is no if there is no path that would fit. -/
theorem reports_no {plain reporting : Command} {buffer : Bytes}
    {extraction : Except Failure VerifiedBytes}
    (hreply : (workspace.step reporting).reply = .report false buffer)
    (hlong : ∀ path, (workspace.step plain).reply = .path path →
      buffer.length < (PathText.bytes path).length + 1)
    (hworkspace : (workspace.step reporting).workspace = (workspace.step plain).workspace)
    (hwarnings : (workspace.step reporting).warnings = (workspace.step plain).warnings) :
    workspace.Reports plain reporting buffer extraction false buffer where
  reply := hreply
  isDone_iff := by
    refine ⟨nofun, ?_⟩
    rintro ⟨path, hpath, hroom⟩
    exact absurd hroom (Nat.not_le.2 (hlong path hpath))
  same := hworkspace
  warnings := hwarnings
  written := nofun
  readable := nofun
  untouched := fun _ => rfl

/-- The answer is yes if there is a path that fits. -/
theorem reports_yes {plain reporting : Command} {buffer : Bytes} {path : String}
    {extraction : Except Failure VerifiedBytes}
    (hreply : (workspace.step reporting).reply = .report true
      (PathText.bytes path ++ 0 :: buffer.drop ((PathText.bytes path).length + 1)))
    (hpath : (workspace.step plain).reply = .path path)
    (hroom : (PathText.bytes path).length + 1 ≤ buffer.length)
    (hworkspace : (workspace.step reporting).workspace = (workspace.step plain).workspace)
    (hwarnings : (workspace.step reporting).warnings = (workspace.step plain).warnings)
    (hnul : '\x00' ∉ path.toList)
    (hread : ∃ contents, extraction = .ok contents ∧ (workspace.tree.Stocked →
      (workspace.step reporting).workspace.tree.contentsAt? path = some contents.bytes)) :
    workspace.Reports plain reporting buffer extraction true
      (PathText.bytes path ++ 0 :: buffer.drop ((PathText.bytes path).length + 1)) := by
  have huntil : untilNul (PathText.bytes path
      ++ 0 :: buffer.drop ((PathText.bytes path).length + 1)) = PathText.bytes path :=
    untilNul_append (fun hzero => hnul ((LossyText.nul_mem_bytes_iff path).1 hzero)) _
  refine ⟨hreply, ⟨fun _ => ⟨path, hpath, hroom⟩, fun _ => rfl⟩, hworkspace, hwarnings,
    fun _ other hother => ?_, fun _ => ?_, nofun⟩
  · obtain rfl : path = other := Reply.path.inj (hpath.symm.trans hother)
    exact ⟨rfl, huntil⟩
  · rwa [huntil, LossyText.decode_bytes]

/-- Two commands that are one operation but for the reply. -/
theorem exists_reports {plain reporting : Command} {outcome : Session.Outcome String}
    {extraction : Except Failure VerifiedBytes} (name : String) (buffer : Bytes)
    (hplain : workspace.step plain = workspace.stepOf name outcome (Reply.ofResult .path))
    (hreporting : workspace.step reporting
      = workspace.stepOf name outcome (Reply.ofReport buffer))
    (hreadable : Session.Readable workspace.tree extraction outcome) :
    ∃ isDone filled, workspace.Reports plain reporting buffer extraction isDone filled := by
  have hworkspace : (workspace.step reporting).workspace = (workspace.step plain).workspace := by
    rw [hplain, hreporting]
    rfl
  have hwarnings : (workspace.step reporting).warnings = (workspace.step plain).warnings := by
    rw [hplain, hreporting]
    rfl
  have hanswer : (workspace.step plain).reply = Reply.ofResult .path outcome.result := by
    rw [hplain]
    rfl
  have hreply : (workspace.step reporting).reply = .report (reportInto outcome.result buffer).1
      (reportInto outcome.result buffer).2 := by
    rw [hreporting]
    rfl
  cases hresult : outcome.result with
  | error failure =>
    rw [hresult] at hanswer hreply
    refine ⟨false, buffer, reports_no hreply (fun path hpath => ?_) hworkspace hwarnings⟩
    cases hanswer.symm.trans hpath
  | ok path =>
    obtain ⟨hnul, contents, hextraction, hread⟩ := hreadable path hresult
    rw [hresult] at hanswer hreply
    by_cases hroom : (PathText.bytes path).length + 1 ≤ buffer.length
    · rw [reportInto_of_le hroom] at hreply
      have htree : (workspace.step reporting).workspace.tree = outcome.tree := by
        rw [hreporting]
        rfl
      exact ⟨true, _, reports_yes hreply hanswer hroom hworkspace hwarnings hnul
        ⟨contents, hextraction, htree ▸ hread⟩⟩
    · rw [reportInto_of_lt (Nat.not_le.1 hroom)] at hreply
      refine ⟨false, buffer, reports_no hreply (fun other hother => ?_) hworkspace hwarnings⟩
      obtain rfl : path = other := Reply.path.inj (hanswer.symm.trans hother)
      exact Nat.not_le.1 hroom

/-- **The buffer has the path where it fits, and is left alone otherwise.** This holds of entries of
an open handle, and of containers that are searched. -/
theorem reports_exactly (workspace : Workspace) (name : String) {session : Session}
    (buffer : Bytes) (hsession : workspace.session? name = some session) :
    (∀ handleName handle entry, workspace.handle? handleName = some handle →
      ∃ isDone filled, workspace.Reports (.extractToScratch name handleName entry)
        (.extractInto name handleName entry buffer) buffer (handle.extract workspace.tree entry)
        isDone filled) ∧
    ∀ path wanted, ∃ isDone filled, workspace.Reports (.findAndExtract name path wanted)
      (.findAndExtractInto name path wanted buffer) buffer
      (session.wantedContents workspace.tree path wanted) isDone filled := by
  constructor
  · intro handleName handle entry hhandle
    refine exists_reports name buffer ?_ ?_
      (session.readable_extractToScratch workspace.tree handle entry)
    · rw [step, withSession_of_some hsession, withHandle_of_some hhandle]
    · rw [step, withSession_of_some hsession, withHandle_of_some hhandle]
  · intro path wanted
    refine exists_reports name buffer ?_ ?_
      (session.readable_findAndExtract workspace.tree path wanted)
    · rw [step, withSession_of_some hsession]
    · rw [step, withSession_of_some hsession]

/-- The session that `beforeReport` starts. -/
def startedSession : Session :=
  Session.new 0 ⟨"out", .counter, .overwrite, .skip, 1000⟩ "0123abcd"

/-- One byte more than the path and a NUL need. -/
def roomy : Bytes :=
  List.replicate 21 7

/-- The byte behind the NUL is left as it was, and what stands before it leads to the file. -/
theorem reports_exactly_roomy :
    (beforeReport.step (.findAndExtractInto "s" "games.zip" none roomy)).reply
      = .report true (PathText.bytes "out/temp_1_GAME.PRG" ++ [0, 7]) ∧
    (beforeReport.step (.findAndExtractInto "s" "games.zip" none
      roomy)).workspace.tree.contentsAt? "out/temp_1_GAME.PRG" = some [1, 2, 3] := by
  have hsession : beforeReport.session? "s" = some startedSession := by decide +kernel
  obtain ⟨isDone, filled, hreports⟩ :=
    (reports_exactly beforeReport "s" roomy hsession).2 "games.zip" none
  have hpath : (beforeReport.step (.findAndExtract "s" "games.zip" none)).reply
      = .path "out/temp_1_GAME.PRG" := by decide +kernel
  have hdone : isDone = true := hreports.isDone_iff.2 ⟨_, hpath, by decide⟩
  obtain ⟨hfilled, huntil⟩ := hreports.written hdone _ hpath
  obtain ⟨contents, hcontents, hread⟩ := hreports.readable hdone
  have hwanted : startedSession.wantedContents beforeReport.tree "games.zip" none
      = .ok ⟨"GAME.PRG", [1, 2, 3]⟩ := eq_ok_of_toOption (by decide +kernel)
  obtain rfl : ⟨"GAME.PRG", [1, 2, 3]⟩ = contents :=
    Except.ok.inj (hwanted.symm.trans hcontents)
  refine ⟨?_, ?_⟩
  · rw [hreports.reply, hdone, hfilled]
    rfl
  · rw [huntil, LossyText.decode_bytes] at hread
    exact hread (stocked_run FileTree.unlinked_empty _)

end Workspace

end RomArchive
