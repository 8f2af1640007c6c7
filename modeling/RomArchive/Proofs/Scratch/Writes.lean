import RomArchive.Proofs.Extraction
import RomArchive.Proofs.Files.Changes
import RomArchive.Proofs.Scratch.Names

/-!
# Writing scratch files

An entry that is extracted to a scratch file passes through several hands: it is read and verified,
the scratch directory is created, a name is used up, and the file is created or overwritten. Any of
these may fail, and the file that is in the way may be one that somebody cares for. What is shown
here is that there is nothing in between. Either the file is there with all of its bytes and nothing
else has changed, or no file has changed at all; directories that lead to the scratch directory may
have been created in both cases.

The courses that writing can take are told apart once, in `Scratch.Course`, and everything else is a
look at each of them.

## Main definitions

* `Scratch.Course` — the courses that writing a scratch file can take
* `Scratch.Atomic` — all of a file, or nothing
* `Scratch.Accounts` — when a name is used up

## Main results

* `Scratch.course_write` — writing takes one of these courses
* `Scratch.all_or_nothing` — scratch files are written as a whole or not at all
-/

namespace RomArchive

namespace Scratch

variable {scratch : Scratch} {tree files : FileTree} {contents : VerifiedBytes}

/-! ### The courses of a write -/

/-- The courses that writing a scratch file can take, with the result, the scratch directory and the
files that each of them leaves. -/
inductive Course (scratch : Scratch) (tree : FileTree) (contents : VerifiedBytes) :
    Except Failure String → Scratch → FileTree → Prop
  /-- The entry has no base name to go by. -/
  | nameless (hbase : EntryName.base contents.name = "") :
      Course scratch tree contents (.error (.entryNotFound contents.name)) scratch tree
  /-- The scratch directory cannot be created. -/
  | rootless {fault : DeviceFault} {grown : FileTree}
      (hbase : EntryName.base contents.name ≠ "")
      (hroot : tree.createDirectories scratch.root = (.error fault, grown)) :
      Course scratch tree contents (.error (.device fault)) scratch grown
  /-- A name was used up, but there is no file of that name to be had. -/
  | refused {failure : Failure} {grown : FileTree}
      (hbase : EntryName.base contents.name ≠ "")
      (hroot : tree.createDirectories scratch.root = (.ok (), grown))
      (hplace : scratch.place grown (scratch.nextPath contents.name) contents.bytes
        = .error failure) :
      Course scratch tree contents (.error failure) scratch.advanced grown
  /-- The file is written. -/
  | written {grown files : FileTree}
      (hbase : EntryName.base contents.name ≠ "")
      (hroot : tree.createDirectories scratch.root = (.ok (), grown))
      (hplace : scratch.place grown (scratch.nextPath contents.name) contents.bytes = .ok files) :
      Course scratch tree contents (.ok (scratch.nextPath contents.name)) scratch.advanced files

/-- A file is placed after its name was used up, which makes no difference to the placing. -/
theorem place_advanced (scratch : Scratch) : scratch.advanced.place = scratch.place :=
  rfl

/-- **Writing takes one of these courses.** -/
theorem course_write (scratch : Scratch) (tree : FileTree) (contents : VerifiedBytes) :
    scratch.Course tree contents (scratch.write tree contents).1 (scratch.write tree contents).2.1
      (scratch.write tree contents).2.2 := by
  by_cases hbase : EntryName.base contents.name = ""
  · have hwrite : scratch.write tree contents
        = (.error (.entryNotFound contents.name), scratch, tree) := by
      rw [write, if_pos hbase]
    rw [hwrite]
    exact .nameless hbase
  · rcases hroot : tree.createDirectories scratch.root with ⟨created, grown⟩
    cases created with
    | error fault =>
      have hwrite : scratch.write tree contents = (.error (.device fault), scratch, grown) := by
        rw [write, if_neg hbase, hroot]
      rw [hwrite]
      exact .rootless hbase hroot
    | ok =>
      cases hplace : scratch.place grown (scratch.nextPath contents.name) contents.bytes with
      | error failure =>
        have hwrite : scratch.write tree contents = (.error failure, scratch.advanced, grown) := by
          simp only [write, if_neg hbase, hroot, reserve, place_advanced, hplace]
        rw [hwrite]
        exact .refused hbase hroot hplace
      | ok files =>
        have hwrite : scratch.write tree contents
            = (.ok (scratch.nextPath contents.name), scratch.advanced, files) := by
          simp only [write, if_neg hbase, hroot, reserve, place_advanced, hplace]
        rw [hwrite]
        exact .written hbase hroot hplace

/-! ### Placing a file -/

theorem overwrite_of_place {grown : FileTree} {path : String} {bytes : Bytes}
    (h : scratch.place grown path bytes = .ok files) :
    grown.createNew path bytes = .ok files ∨
      scratch.existing = .overwrite ∧ grown.overwrite path bytes = .ok files := by
  rw [place] at h
  cases hexisting : scratch.existing with
  | overwrite =>
    rw [hexisting] at h
    cases hwrite : grown.overwrite path bytes with
    | error fault =>
      simp only [hwrite] at h
      cases h
    | ok written =>
      simp only [hwrite] at h
      cases h
      exact Or.inr ⟨rfl, rfl⟩
  | fail =>
    rw [hexisting] at h
    simp only at h
    split at h
    · rename_i hwrite
      cases h
      exact Or.inl hwrite
    · cases h
    · cases h

/-- A name that was used up is missed for one of two reasons. -/
theorem failure_of_place {grown : FileTree} {path : String} {bytes : Bytes} {failure : Failure}
    (h : scratch.place grown path bytes = .error failure) :
    failure = .scratchExists path ∨ ∃ fault, failure = .device fault := by
  rw [place] at h
  split at h
  · cases hwrite : grown.overwrite path bytes with
    | error fault =>
      rw [hwrite] at h
      cases h
      exact Or.inr ⟨fault, rfl⟩
    | ok written =>
      rw [hwrite] at h
      cases h
  · split at h
    · cases h
    · cases h
      exact Or.inl rfl
    · rename_i fault _ _
      cases h
      exact Or.inr ⟨fault, rfl⟩

/-- A file that was placed is there, and nothing else has changed. -/
theorem stored_of_place {grown : FileTree} {path : String} {bytes : Bytes} (hgrown : grown.Unlinked)
    (hslash : PathText.endsWithSlash path = false)
    (h : scratch.place grown path bytes = .ok files) : FileTree.Stored path bytes grown files := by
  rcases overwrite_of_place h with hwrite | ⟨-, hwrite⟩
  · exact hgrown.stored_of_createNew hslash hwrite
  · exact hgrown.stored_of_overwrite hslash hwrite

theorem unlinked_of_place {grown : FileTree} {path : String} {bytes : Bytes}
    (hgrown : grown.Unlinked) (h : scratch.place grown path bytes = .ok files) :
    files.Unlinked := by
  rcases overwrite_of_place h with hwrite | ⟨-, hwrite⟩
  · exact hgrown.createNew hwrite
  · exact hgrown.overwrite hwrite

/-! ### All or nothing -/

/-- All of a file, or nothing. `extraction` is what was to be written, and `files` is what writing
it left behind, with `result`. -/
structure Atomic (scratch : Scratch) (tree : FileTree)
    (extraction : Except Failure VerifiedBytes) (result : Except Failure String)
    (files : FileTree) : Prop where
  /-- A path is given back only for a file that has all of the bytes. It is the next one in line, it
  lies in the scratch directory, and all other files are as they were. -/
  written : ∀ path, result = .ok path → ∃ contents, extraction = .ok contents ∧
    path = scratch.nextPath contents.name ∧
    IsChild scratch.root (scratch.fileName (scratch.counter + 1) contents.name) path ∧
    files.contentsAt? path = some contents.bytes ∧
    ∀ place, files.fileAt? place
      = if place = FileTree.placeOf path then some contents.bytes else tree.fileAt? place
  /-- After a failure all files are as they were. -/
  failed : ∀ failure, result = .error failure →
    files.contents = tree.contents ∧ ∀ place, files.fileAt? place = tree.fileAt? place
  /-- In either case directories are added at most where the scratch directory or one above it
  lies. -/
  directories : ∀ place,
    (tree.node? place = some .directory → files.node? place = some .directory) ∧
    (files.node? place = some .directory → tree.node? place = some .directory ∨
      tree.node? place = none ∧
        ∃ path ∈ PathText.ancestors scratch.root, FileTree.placeOf path = place)
  /-- If files are not to be overwritten, no file that was there has changed. -/
  kept : scratch.existing = .fail → ∀ place bytes, tree.fileAt? place = some bytes →
    files.fileAt? place = some bytes

/-- A failure after which there are only more directories. -/
theorem Atomic.of_grown {extraction : Except Failure VerifiedBytes}
    (hgrown : FileTree.Grown (PathText.ancestors scratch.root) tree files) (failure : Failure) :
    scratch.Atomic tree extraction (.error failure) files where
  written := nofun
  failed := fun _ _ => ⟨hgrown.contents, hgrown.fileAt?⟩
  directories := hgrown.directories
  kept := fun _ place _ hfile => (hgrown.fileAt? place).trans hfile

/-- A file that was placed after there were more directories. -/
theorem Atomic.of_place {grown : FileTree} (htree : tree.Unlinked) (htoken : IsToken scratch.token)
    (hgrown : FileTree.Grown (PathText.ancestors scratch.root) tree grown)
    (hplace : scratch.place grown (scratch.nextPath contents.name) contents.bytes = .ok files) :
    scratch.Atomic tree (.ok contents) (.ok (scratch.nextPath contents.name)) files := by
  have hchild := isChild_join htoken (scratch.counter + 1) contents.name
  have hslash : PathText.endsWithSlash (scratch.nextPath contents.name) = false :=
    PathText.endsWithSlash_join hchild.component scratch.root
  have hstored := stored_of_place (htree.grown hgrown) hslash hplace
  have hfiles : ∀ place, files.fileAt? place
      = if place = FileTree.placeOf (scratch.nextPath contents.name) then some contents.bytes
        else tree.fileAt? place := by
    intro place
    rw [hstored.fileAt? place, hgrown.fileAt? place]
  refine ⟨?_, nofun, fun place => ?_, fun hfail place bytes hfile => ?_⟩
  · rintro _ ⟨⟩
    exact ⟨contents, rfl, rfl, hchild, hstored.contentsAt?, hfiles⟩
  · rw [hstored.directory_iff place]
    exact hgrown.directories place
  · rcases overwrite_of_place hplace with hwrite | ⟨hoverwrite, -⟩
    · -- Nothing was where the new file is.
      have hvacant := FileTree.fileAt?_of_createNew hwrite
      rw [hgrown.fileAt?] at hvacant
      have hne : place ≠ FileTree.placeOf (scratch.nextPath contents.name) := by
        rintro rfl
        rw [hvacant] at hfile
        cases hfile
      rw [hfiles, if_neg hne, hfile]
    · rw [hfail] at hoverwrite
      cases hoverwrite

/-- A course that ends in a failure adds directories at most. -/
theorem Course.grown_of_failure {failure : Failure} {later : Scratch}
    (h : scratch.Course tree contents (.error failure) later files) :
    FileTree.Grown (PathText.ancestors scratch.root) tree files := by
  have hgrown := FileTree.grown_createDirectories tree scratch.root
  cases h with
  | nameless hbase => exact .refl _ tree
  | rootless hbase hroot =>
    rw [hroot] at hgrown
    exact hgrown
  | refused hbase hroot hplace =>
    rw [hroot] at hgrown
    exact hgrown

/-- Whichever course it takes, writing is all or nothing. -/
theorem Course.atomic {result : Except Failure String} {later : Scratch}
    (h : scratch.Course tree contents result later files) (htree : tree.Unlinked)
    (htoken : IsToken scratch.token) : scratch.Atomic tree (.ok contents) result files := by
  cases result with
  | error failure => exact .of_grown h.grown_of_failure failure
  | ok path =>
    have hgrown := FileTree.grown_createDirectories tree scratch.root
    cases h with
    | written hbase hroot hplace =>
      rw [hroot] at hgrown
      exact .of_place htree htoken hgrown hplace

/-! ### Names that are used up -/

/-- When a name is used up, and when it is not. `extraction` is what was to be written, and `later`
is the scratch directory that writing it left behind, with `result`. -/
structure Accounts (scratch : Scratch) (tree : FileTree)
    (extraction : Except Failure VerifiedBytes) (result : Except Failure String)
    (later : Scratch) : Prop where
  /-- Nothing was extracted. -/
  unread : ∀ failure, extraction = .error failure → later = scratch ∧ result = .error failure
  /-- There is no base name. -/
  nameless : ∀ contents, extraction = .ok contents → EntryName.base contents.name = "" →
    later = scratch ∧ result = .error (.entryNotFound contents.name)
  /-- There is no directory to write to. -/
  rootless : ∀ contents fault, extraction = .ok contents → EntryName.base contents.name ≠ "" →
    (tree.createDirectories scratch.root).1 = .error fault →
    later = scratch ∧ result = .error (.device fault)
  /-- In all other cases one name is used up. What can still go wrong is that a file of that name is
  there, or cannot be opened. -/
  reserved : ∀ contents, extraction = .ok contents → EntryName.base contents.name ≠ "" →
    (tree.createDirectories scratch.root).1 = .ok () →
    later = scratch.advanced ∧ (result = .ok (scratch.nextPath contents.name) ∨
      result = .error (.scratchExists (scratch.nextPath contents.name)) ∨
      ∃ fault, result = .error (.device fault))

/-- Nothing was extracted, and no name is used up. -/
theorem Accounts.of_failure (scratch : Scratch) (tree : FileTree) (failure : Failure) :
    scratch.Accounts tree (.error failure) (.error failure) scratch where
  unread := by
    rintro _ ⟨⟩
    exact ⟨rfl, rfl⟩
  nameless := nofun
  rootless := nofun
  reserved := nofun

/-- Each course has its own end. -/
theorem Course.accounts {result : Except Failure String} {later : Scratch}
    (h : scratch.Course tree contents result later files) :
    scratch.Accounts tree (.ok contents) result later := by
  refine ⟨nofun, ?_, ?_, ?_⟩
  · rintro _ ⟨⟩ hnameless
    cases h with
    | nameless hbase => exact ⟨rfl, rfl⟩
    | rootless hbase => exact absurd hnameless hbase
    | refused hbase => exact absurd hnameless hbase
    | written hbase => exact absurd hnameless hbase
  · rintro _ fault ⟨⟩ hnamed hfails
    cases h with
    | nameless hbase => exact absurd hbase hnamed
    | rootless hbase hroot =>
      rw [hroot] at hfails
      cases hfails
      exact ⟨rfl, rfl⟩
    | refused hbase hroot =>
      rw [hroot] at hfails
      cases hfails
    | written hbase hroot =>
      rw [hroot] at hfails
      cases hfails
  · rintro _ ⟨⟩ hnamed hcreated
    cases h with
    | nameless hbase => exact absurd hbase hnamed
    | rootless hbase hroot =>
      rw [hroot] at hcreated
      cases hcreated
    | refused hbase hroot hplace =>
      rcases failure_of_place hplace with rfl | ⟨fault, rfl⟩
      · exact ⟨rfl, Or.inr (Or.inl rfl)⟩
      · exact ⟨rfl, Or.inr (Or.inr ⟨fault, rfl⟩)⟩
    | written => exact ⟨rfl, Or.inl rfl⟩

theorem writeScratch_eq (session : Session) (tree : FileTree) (contents : VerifiedBytes) :
    session.writeScratch tree contents =
      { result := (session.scratch.write tree contents).1
        session := { session with scratch := (session.scratch.write tree contents).2.1 }
        tree := (session.scratch.write tree contents).2.2
        warnings := [] } := by
  rw [Session.writeScratch]

/-- **Scratch files are written as a whole or not at all**, and a name is used up when all that was
missing is the file. This holds of contents that are at hand, and of entries that a session
extracts, which it writes under the name they were asked for. -/
theorem all_or_nothing {tree : FileTree} (htree : tree.Unlinked) :
    (∀ (scratch : Scratch) (contents : VerifiedBytes), IsToken scratch.token →
      scratch.Atomic tree (.ok contents) (scratch.write tree contents).1
          (scratch.write tree contents).2.2 ∧
        scratch.Accounts tree (.ok contents) (scratch.write tree contents).1
          (scratch.write tree contents).2.1) ∧
    ∀ (session : Session) (handle : Handle) (name : String), IsToken session.scratch.token →
      session.scratch.Atomic tree (handle.extract tree name)
          (session.extractToScratch tree handle name).result
          (session.extractToScratch tree handle name).tree ∧
        session.scratch.Accounts tree (handle.extract tree name)
          (session.extractToScratch tree handle name).result
          (session.extractToScratch tree handle name).session.scratch ∧
        ∀ contents, handle.extract tree name = .ok contents → contents.name = name := by
  refine ⟨fun scratch contents htoken => ?_, fun session handle name htoken => ?_⟩
  · have hcourse := course_write scratch tree contents
    exact ⟨hcourse.atomic htree htoken, hcourse.accounts⟩
  · have hname : ∀ contents, handle.extract tree name = .ok contents → contents.name = name := by
      intro contents hextract
      obtain ⟨-, -, hname, -⟩ := Handle.yields_of_extract hextract
      exact hname
    rw [Session.extractToScratch]
    cases hextract : handle.extract tree name with
    | error failure =>
      exact ⟨.of_grown (.refl _ tree) failure, .of_failure session.scratch tree failure,
        hextract ▸ hname⟩
    | ok contents =>
      have hcourse := course_write session.scratch tree contents
      simp only [writeScratch_eq]
      exact ⟨hcourse.atomic htree htoken, hcourse.accounts, hextract ▸ hname⟩

/-- The sample container, and a file where its first entry is going to be written. -/
def sampleTree : FileTree :=
  (FileTree.empty.provide "games.zip" Packing.sample.bytes).provide "out/temp_1_GAME.PRG" [9]

def sampleHandle : Handle :=
  ⟨0, 1, "games.zip", 1000, (OpenContainer.capture sampleTree .skip "games.zip").1.toOption⟩

/-- The session counts its files, and this is the first one. -/
def sampleSession (existing : ExistingPolicy) : Session :=
  Session.new 0 ⟨"out", .counter, existing, .skip, 1000⟩ "0123abcd"

def sampleOutcome (existing : ExistingPolicy) : Session.Outcome String :=
  (sampleSession existing).extractToScratch sampleTree sampleHandle "GAME.PRG"

/-- If files are not to be overwritten, the one in the way stays, otherwise it gets the bytes of the
entry. A name is used up in both cases. -/
theorem all_or_nothing_sample :
    (sampleOutcome .fail).result.toOption = none ∧
    (sampleOutcome .fail).session.scratch.counter = 1 ∧
    (sampleOutcome .fail).tree.contents = sampleTree.contents ∧
    (sampleOutcome .overwrite).result = .ok "out/temp_1_GAME.PRG" ∧
    (sampleOutcome .overwrite).session.scratch.counter = 1 ∧
    (sampleOutcome .overwrite).tree.contentsAt? "out/temp_1_GAME.PRG" = some [1, 2, 3] := by
  have htree : sampleTree.Unlinked :=
    (FileTree.unlinked_empty.provide "games.zip" Packing.sample.bytes).provide _ _
  have htoken : IsToken "0123abcd" := ⟨by decide, by decide⟩
  have hextract : sampleHandle.extract sampleTree "GAME.PRG" = .ok ⟨"GAME.PRG", [1, 2, 3]⟩ :=
    eq_ok_of_toOption (by decide +kernel)
  have hroot : (sampleTree.createDirectories "out").1 = .ok () :=
    eq_ok_of_toOption (by decide +kernel)
  have hnone : (sampleOutcome .fail).result.toOption = none := by decide +kernel
  have hpath : (sampleOutcome .overwrite).result = .ok "out/temp_1_GAME.PRG" :=
    eq_ok_of_toOption (by decide +kernel)
  have hatomic : ∀ existing, (sampleSession existing).scratch.Atomic sampleTree
      (sampleHandle.extract sampleTree "GAME.PRG") (sampleOutcome existing).result
      (sampleOutcome existing).tree := by
    intro existing
    rw [sampleOutcome]
    exact ((all_or_nothing htree).2 (sampleSession existing) sampleHandle "GAME.PRG" htoken).1
  have hcounter : ∀ existing, (sampleOutcome existing).session.scratch.counter = 1 := by
    intro existing
    obtain ⟨-, haccounts, -⟩ :=
      (all_or_nothing htree).2 (sampleSession existing) sampleHandle "GAME.PRG" htoken
    rw [sampleOutcome, (haccounts.reserved _ hextract (by decide) hroot).1]
    rfl
  refine ⟨hnone, hcounter .fail, ?_, hpath, hcounter .overwrite, ?_⟩
  · obtain ⟨failure, hfails⟩ := exists_error_of_toOption hnone
    exact ((hatomic .fail).failed failure hfails).1
  · obtain ⟨contents, hcontents, -, -, hbytes, -⟩ := (hatomic .overwrite).written _ hpath
    obtain rfl : ⟨"GAME.PRG", [1, 2, 3]⟩ = contents := Except.ok.inj (hextract.symm.trans hcontents)
    exact hbytes

end Scratch

end RomArchive
