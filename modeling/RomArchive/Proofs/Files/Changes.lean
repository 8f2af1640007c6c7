import RomArchive.Proofs.Files.Paths
import RomArchive.Proofs.Keyed

/-!
# How trees change

A tree is looked at here through its places: what is at a place, and which bytes the file there has.
Operations change a tree in two ways. Creating directories only adds directories, and each of them
lies where one of the paths asked for leads. Writing a file changes what is at the place of its path
and nothing else.

The second needs the tree to be without links. A file's contents are kept under a number, and
writing a file in place writes under its number, so a number that two places share would change at
both. No operation makes a place share its number with another, so a tree that starts without links
stays so.

## Main definitions

* `FileTree.Unlinked` — every file has its contents to itself
* `FileTree.Grown` — directories were added at the places of some paths
* `FileTree.Stored` — some bytes were written at the place of a path

## Main results

* `FileTree.grown_createChain` — creating directories adds directories
* `FileTree.Unlinked.stored_of_createNew`, `FileTree.Unlinked.stored_of_overwrite` — writing a file
  writes that file
* `FileTree.Unlinked.provide`, `FileTree.Unlinked.remove` — trees stay without links
-/

namespace RomArchive

namespace FileTree

variable {tree before middle after : FileTree} {path : String} {place directory : Place}
  {bytes : Bytes}

/-! ### What resolving a path finds -/

theorem reach_eq_follow {target : Target} (h : tree.reach path = .ok target) (after : FileTree) :
    after.reach path = after.follow (origin path) (PathText.components path) := by
  rw [reach] at h ⊢
  split at h
  · cases h
  · rename_i hnul
    split at h
    · cases h
    · rename_i hempty
      split at h
      · cases h
      · rename_i hlength
        rw [if_neg hnul, if_neg hempty, if_neg hlength]
        rfl

theorem follow_of_reach {target : Target} (h : tree.reach path = .ok target) :
    tree.follow (origin path) (PathText.components path) = .ok target :=
  (reach_eq_follow h tree).symm.trans h

theorem reach_of_resolve {target : Target} (h : tree.resolve path = .ok target) :
    tree.reach path = .ok target := by
  rw [resolve] at h
  split at h
  · rename_i hreach
    split at h
    · cases h
    · rw [hreach, ← h]
  · exact h

/-- **A path leads to its place**, whatever the tree. -/
theorem place_of_reach {target : Target} (h : tree.reach path = .ok target) :
    target.place = placeOf path :=
  place_of_follow (follow_of_reach h)

/-- What following components finds at the end is there. -/
theorem node?_of_follow_file {names : List String} {number : Nat}
    (h : tree.follow directory names = .ok (.existing place (.file number))) :
    tree.node? place = some (.file number) := by
  fun_induction follow tree directory names with
  | case1 => cases h
  | case2 _ _ ih => exact ih h
  | case3 _ _ _ ih => exact ih h
  | case4 => cases h
  | case5 _ _ _ _ _ _ _ ih => exact ih h
  | case6 _ _ _ _ _ _ hnode =>
    cases h
    exact hnode
  | case7 => cases h
  | case8 => cases h
  | case9 => cases h

/-- What it finds missing is not there. -/
theorem node?_of_follow_vacant {names : List String} {name : String} {inside : Place}
    (h : tree.follow directory names = .ok (.vacant inside name)) :
    tree.node? (inside ++ [name]) = none := by
  fun_induction follow tree directory names with
  | case1 => cases h
  | case2 _ _ ih => exact ih h
  | case3 _ _ _ ih => exact ih h
  | case4 => cases h
  | case5 _ _ _ _ _ _ _ ih => exact ih h
  | case6 => cases h
  | case7 => cases h
  | case8 _ _ _ _ _ hnode =>
    cases h
    exact hnode
  | case9 => cases h

/-- The file that a path leads to. -/
theorem node?_of_resolve_file {number : Nat}
    (h : tree.resolve path = .ok (.existing place (.file number))) :
    place = placeOf path ∧ tree.node? place = some (.file number) :=
  ⟨place_of_reach (reach_of_resolve h), node?_of_follow_file (follow_of_reach (reach_of_resolve h))⟩

/-- The gap that a path leads to. -/
theorem node?_of_resolve_vacant {name : String}
    (h : tree.resolve path = .ok (.vacant directory name)) :
    directory ++ [name] = placeOf path ∧ tree.node? (directory ++ [name]) = none :=
  ⟨place_of_reach (reach_of_resolve h),
    node?_of_follow_vacant (follow_of_reach (reach_of_resolve h))⟩

/-! ### Files at places -/

/-- A place has the same file in two trees that have the same there, with the same contents. -/
theorem fileAt?_congr (hnode : after.node? place = before.node? place)
    (hcontents : ∀ number, before.node? place = some (.file number) →
      after.contentsOf number = before.contentsOf number) :
    after.fileAt? place = before.fileAt? place := by
  rw [fileAt?, fileAt?, hnode]
  cases hold : before.node? place with
  | none => rfl
  | some node =>
    cases node with
    | directory => rfl
    | file number => exact congrArg some (hcontents number hold)

theorem fileAt?_of_file {number : Nat} (h : tree.node? place = some (.file number)) :
    tree.fileAt? place = some (tree.contentsOf number) := by
  rw [fileAt?, h]

/-! ### One more node -/

/-- What was vacant is taken, and everything else is as it was. -/
theorem node?_insert {node : Node} (hnodes : after.nodes = before.nodes ++ [(place, node)])
    (hvacant : before.node? place = none) (other : Place) :
    after.node? other = if other = place then some node else before.node? other := by
  rw [node?] at hvacant
  split at hvacant
  · cases hvacant
  · rename_i hplace
    rw [node?, node?, hnodes, List.lookup_append]
    by_cases hother : other = place
    · subst hother
      rw [if_neg hplace, if_pos rfl, hvacant, List.lookup_cons_self]
      rfl
    · have hlast : List.lookup other [(place, node)] = none := by
        rw [List.lookup_cons, beq_eq_false_iff_ne.2 hother]
        rfl
      rw [if_neg hother, hlast, Option.or_none]

/-- Following leads to the new file where it led to a gap before. -/
theorem follow_insert {names : List String} {name : String} {inside : Place} {number : Nat}
    (hnodes : after.nodes = before.nodes ++ [(inside ++ [name], .file number)])
    (h : before.follow directory names = .ok (.vacant inside name)) :
    after.follow directory names = .ok (.existing (inside ++ [name]) (.file number)) := by
  have hinsert := node?_insert hnodes (node?_of_follow_vacant h)
  fun_induction follow before directory names with
  | case1 => cases h
  | case2 _ _ ih =>
    rw [follow, if_pos rfl]
    exact ih h
  | case3 _ _ hdot ih =>
    rw [follow, if_neg hdot, if_pos rfl]
    exact ih h
  | case4 => cases h
  | case5 directory next names hdot hdots hlength hnode ih =>
    have hne : directory ++ [next] ≠ inside ++ [name] := by
      intro heq
      rw [heq, node?_of_follow_vacant h] at hnode
      cases hnode
    have hafter : after.node? (directory ++ [next]) = some .directory := by
      rw [hinsert, if_neg hne, hnode]
    rw [follow, if_neg hdot, if_neg hdots, if_neg hlength, hafter]
    exact ih h
  | case6 => cases h
  | case7 => cases h
  | case8 _ _ hdot hdots hlength _ =>
    cases h
    have hafter : after.node? (inside ++ [name]) = some (.file number) := by
      rw [hinsert, if_pos rfl]
    rw [follow, if_neg hdot, if_neg hdots, if_neg hlength, hafter]
    exact if_pos rfl
  | case9 => cases h

/-! ### Creating directories -/

/-- Directories were added, each where one of these paths leads, and nothing else happened. -/
structure Grown (paths : List String) (before after : FileTree) : Prop where
  contents : after.contents = before.contents
  node? : ∀ place, after.node? place = before.node? place ∨
    before.node? place = none ∧ after.node? place = some .directory ∧
      ∃ path ∈ paths, placeOf path = place

section Grown

variable {paths more : List String}

theorem Grown.refl (paths : List String) (tree : FileTree) : Grown paths tree tree :=
  ⟨rfl, fun _ => Or.inl rfl⟩

theorem Grown.trans (hfirst : Grown paths before middle) (hsecond : Grown paths middle after) :
    Grown paths before after where
  contents := hsecond.contents.trans hfirst.contents
  node? := by
    intro place
    rcases hsecond.node? place with hsame | ⟨hvacant, hnew, hleads⟩
    · rw [hsame]
      exact hfirst.node? place
    · rcases hfirst.node? place with hold | ⟨-, hmiddle, -⟩
      · exact Or.inr ⟨hold ▸ hvacant, hnew, hleads⟩
      · rw [hmiddle] at hvacant
        cases hvacant

theorem Grown.mono (h : Grown paths before after) (hpaths : paths ⊆ more) :
    Grown more before after where
  contents := h.contents
  node? := by
    intro place
    rcases h.node? place with hsame | ⟨hvacant, hnew, path, hpath, hplace⟩
    · exact Or.inl hsame
    · exact Or.inr ⟨hvacant, hnew, path, hpaths hpath, hplace⟩

theorem Grown.file_iff (h : Grown paths before after) {number : Nat} :
    after.node? place = some (.file number) ↔ before.node? place = some (.file number) := by
  rcases h.node? place with hsame | ⟨hvacant, hnew, -⟩
  · rw [hsame]
  · rw [hvacant, hnew]
    exact ⟨nofun, nofun⟩

/-- Files are not created, not changed and not removed. -/
theorem Grown.fileAt? (h : Grown paths before after) (place : Place) :
    after.fileAt? place = before.fileAt? place := by
  rcases h.node? place with hsame | ⟨hvacant, hnew, -⟩
  · refine fileAt?_congr hsame fun number _ => ?_
    rw [contentsOf, contentsOf, h.contents]
  · rw [FileTree.fileAt?, FileTree.fileAt?, hvacant, hnew]

/-- Directories stay, and those that come to be are where one of the paths leads. -/
theorem Grown.directories (h : Grown paths before after) (place : Place) :
    (before.node? place = some .directory → after.node? place = some .directory) ∧
      (after.node? place = some .directory → before.node? place = some .directory ∨
        before.node? place = none ∧ ∃ path ∈ paths, placeOf path = place) := by
  rcases h.node? place with hsame | ⟨hvacant, hnew, hleads⟩
  · rw [hsame]
    exact ⟨id, Or.inl⟩
  · exact ⟨fun _ => hnew, fun _ => Or.inr ⟨hvacant, hleads⟩⟩

theorem grown_createDirectory (h : before.createDirectory path = .ok after)
    (hpath : path ∈ paths) : Grown paths before after := by
  rw [createDirectory] at h
  split at h
  · cases h
  · cases h
  · rename_i directory name hreach
    cases h
    have hvacant := node?_of_follow_vacant (follow_of_reach hreach)
    refine ⟨rfl, fun place => ?_⟩
    rw [node?_insert rfl hvacant]
    by_cases hplace : place = directory ++ [name]
    · rw [if_pos hplace, hplace]
      exact Or.inr ⟨hvacant, rfl, path, hpath, (place_of_reach hreach).symm⟩
    · rw [if_neg hplace]
      exact Or.inl rfl

/-- **Creating directories adds directories**, whether or not it succeeds. The induction is on the
directories above that may have to be created first. -/
theorem grown_createChain (paths : List String) :
    ∀ tree : FileTree, Grown paths tree (tree.createChain paths).2 := by
  induction paths with
  | nil => exact Grown.refl []
  | cons path above ih =>
    have hsettled : ∀ {p : Prop} [Decidable p] {fault : DeviceFault} (tree : FileTree),
        (if p then ((.ok () : Except DeviceFault Unit), tree) else (.error fault, tree)).2
          = tree := by
      intro p _ fault tree
      split <;> rfl
    intro tree
    rw [createChain]
    simp only
    split
    · rename_i hcreated
      exact grown_createDirectory hcreated List.mem_cons_self
    · have habove := (ih tree).mono (List.subset_cons_self path above)
      split
      · rename_i hchain
        rwa [hchain] at habove
      · rename_i hchain
        rw [hchain] at habove
        split
        · rename_i hcreated
          exact habove.trans (grown_createDirectory hcreated List.mem_cons_self)
        · rw [hsettled]
          exact habove
    · rw [hsettled]
      exact Grown.refl _ _

theorem grown_createDirectories (tree : FileTree) (path : String) :
    Grown (PathText.ancestors path) tree (tree.createDirectories path).2 :=
  grown_createChain (PathText.ancestors path) tree

end Grown

/-! ### Trees without links -/

/-- Every file has its contents to itself, under a number that stands for some. -/
structure Unlinked (tree : FileTree) : Prop where
  stored : ∀ place number, tree.node? place = some (.file number) → number < tree.contents.length
  apart : ∀ place other number, tree.node? place = some (.file number) →
    tree.node? other = some (.file number) → place = other

theorem unlinked_empty : Unlinked empty := by
  have hnone : ∀ place number, empty.node? place ≠ some (.file number) := by
    intro place number h
    rw [node?] at h
    split at h
    · cases h
    · cases h
  exact ⟨fun place number h => absurd h (hnone place number),
    fun place _ number h => absurd h (hnone place number)⟩

/-- Files that are there afterwards were there before, with room for their contents. -/
theorem Unlinked.of_file (h : before.Unlinked)
    (hcontents : before.contents.length ≤ after.contents.length)
    (hfile : ∀ place number, after.node? place = some (.file number) →
      before.node? place = some (.file number)) : after.Unlinked where
  stored := fun place number hnode =>
    Nat.lt_of_lt_of_le (h.stored place number (hfile place number hnode)) hcontents
  apart := fun place other number hplace hother =>
    h.apart place other number (hfile place number hplace) (hfile other number hother)

theorem Unlinked.grown {paths : List String} (h : before.Unlinked)
    (hgrown : Grown paths before after) : after.Unlinked :=
  h.of_file (Nat.le_of_eq (congrArg List.length hgrown.contents.symm))
    fun _ _ => hgrown.file_iff.1

theorem Unlinked.addFile (h : tree.Unlinked) (hvacant : tree.node? place = none) (bytes : Bytes) :
    (tree.addFile place bytes).Unlinked := by
  -- A file is either the new one, under the first free number, or an old one under a smaller one.
  have hnode : ∀ {other number}, (tree.addFile place bytes).node? other = some (.file number) →
      (other = place ∧ number = tree.contents.length) ∨
        tree.node? other = some (.file number) ∧ number < tree.contents.length := by
    intro other number hother
    rw [node?_insert rfl hvacant] at hother
    by_cases heq : other = place
    · rw [if_pos heq] at hother
      cases hother
      exact Or.inl ⟨heq, rfl⟩
    · rw [if_neg heq] at hother
      exact Or.inr ⟨hother, h.stored _ _ hother⟩
  constructor
  · intro other number hother
    have hlength : (tree.addFile place bytes).contents.length = tree.contents.length + 1 :=
      List.length_append
    rcases hnode hother with ⟨-, hnumber⟩ | ⟨-, hnumber⟩ <;> omega
  · intro first second number hfirst hsecond
    rcases hnode hfirst with ⟨rfl, hnumber⟩ | ⟨hfirst, hless⟩
    · rcases hnode hsecond with ⟨rfl, -⟩ | ⟨-, hless⟩
      · rfl
      · omega
    · rcases hnode hsecond with ⟨-, hnumber⟩ | ⟨hsecond, -⟩
      · omega
      · exact h.apart _ _ _ hfirst hsecond

theorem Unlinked.setContents (h : tree.Unlinked) (number : Nat) (bytes : Bytes) :
    (tree.setContents number bytes).Unlinked :=
  h.of_file (Nat.le_of_eq List.length_set.symm) fun _ _ hnode => hnode

/-! ### Writing a file -/

/-- These bytes were written where a path leads, and nothing else happened: the path reads them
back, all other files are as they were, and so are the directories. -/
structure Stored (path : String) (bytes : Bytes) (before after : FileTree) : Prop where
  contentsAt? : after.contentsAt? path = some bytes
  fileAt? : ∀ place, after.fileAt? place
    = if place = placeOf path then some bytes else before.fileAt? place
  directory_iff : ∀ place,
    after.node? place = some .directory ↔ before.node? place = some .directory

/-- A path without a slash at its end reads back the file it leads to. -/
theorem contentsAt?_of_reach {number : Nat}
    (h : tree.reach path = .ok (.existing place (.file number)))
    (hslash : PathText.endsWithSlash path = false) :
    tree.contentsAt? path = some (tree.contentsOf number) := by
  rw [contentsAt?, resolve, h]
  simp only [hslash]
  rfl

/-- Contents have no part in where paths lead. -/
theorem follow_setContents (tree : FileTree) (number : Nat) (bytes : Bytes) (names : List String) :
    ∀ directory, (tree.setContents number bytes).follow directory names
      = tree.follow directory names := by
  induction names with
  | nil => exact fun _ => rfl
  | cons name names ih =>
    intro directory
    rw [follow, follow, ih, ih, ih]
    rfl

theorem reach_setContents (tree : FileTree) (number : Nat) (bytes : Bytes) (path : String) :
    (tree.setContents number bytes).reach path = tree.reach path := by
  rw [reach, reach, follow_setContents]

theorem contentsOf_addFile (tree : FileTree) (place : Place) (bytes : Bytes) :
    (tree.addFile place bytes).contentsOf tree.contents.length = bytes := by
  simp [contentsOf, FileTree.addFile]

theorem contentsOf_setContents {number : Nat} (hless : number < tree.contents.length)
    (bytes : Bytes) : (tree.setContents number bytes).contentsOf number = bytes := by
  simp [contentsOf, FileTree.setContents, hless]

/-- A new file is read under the path that led to a gap. -/
theorem contentsAt?_addFile {inside : Place} {name : String}
    (hresolve : tree.resolve path = .ok (.vacant inside name))
    (hslash : PathText.endsWithSlash path = false) (bytes : Bytes) :
    (tree.addFile (inside ++ [name]) bytes).contentsAt? path = some bytes := by
  have hreach := reach_of_resolve hresolve
  have hfound : (tree.addFile (inside ++ [name]) bytes).reach path
      = .ok (.existing (inside ++ [name]) (.file tree.contents.length)) :=
    (reach_eq_follow hreach _).trans (follow_insert rfl (follow_of_reach hreach))
  rw [contentsAt?_of_reach hfound hslash, contentsOf_addFile]

/-- New contents are read under the path that led to the file. -/
theorem contentsAt?_setContents {number : Nat}
    (hresolve : tree.resolve path = .ok (.existing place (.file number)))
    (hslash : PathText.endsWithSlash path = false) (hless : number < tree.contents.length)
    (bytes : Bytes) : (tree.setContents number bytes).contentsAt? path = some bytes := by
  have hreach := (reach_setContents tree number bytes path).trans (reach_of_resolve hresolve)
  rw [contentsAt?_of_reach hreach hslash, contentsOf_setContents hless]

theorem Unlinked.stored_addFile {inside : Place} {name : String} (h : tree.Unlinked)
    (hresolve : tree.resolve path = .ok (.vacant inside name))
    (hslash : PathText.endsWithSlash path = false) (bytes : Bytes) :
    Stored path bytes tree (tree.addFile (inside ++ [name]) bytes) := by
  obtain ⟨hplace, hvacant⟩ := node?_of_resolve_vacant hresolve
  have hnode : ∀ other, (tree.addFile (inside ++ [name]) bytes).node? other
      = if other = inside ++ [name] then some (.file tree.contents.length) else tree.node? other :=
    node?_insert rfl hvacant
  refine ⟨contentsAt?_addFile hresolve hslash bytes, ?_, ?_⟩
  · intro place
    have hfound := hnode place
    by_cases hother : place = inside ++ [name]
    · rw [if_pos hother] at hfound
      rw [fileAt?_of_file hfound, contentsOf_addFile, if_pos (hother.trans hplace)]
    · rw [if_neg hother] at hfound
      rw [if_neg (hplace ▸ hother)]
      refine fileAt?_congr hfound fun number hold => ?_
      rw [contentsOf, contentsOf, FileTree.addFile]
      simp [List.getElem?_append_left (h.stored _ _ hold)]
  · intro place
    rw [hnode]
    by_cases hother : place = inside ++ [name]
    · rw [if_pos hother, hother, hvacant]
      exact ⟨nofun, nofun⟩
    · rw [if_neg hother]

theorem Unlinked.stored_setContents {number : Nat} (h : tree.Unlinked)
    (hresolve : tree.resolve path = .ok (.existing place (.file number)))
    (hslash : PathText.endsWithSlash path = false) (bytes : Bytes) :
    Stored path bytes tree (tree.setContents number bytes) := by
  obtain ⟨hplace, hnode⟩ := node?_of_resolve_file hresolve
  have hless := h.stored _ _ hnode
  refine ⟨contentsAt?_setContents hresolve hslash hless bytes, ?_, ?_⟩
  · intro other
    have hsame : (tree.setContents number bytes).node? other = tree.node? other := rfl
    by_cases hother : other = place
    · rw [← hother] at hnode
      rw [fileAt?_of_file (hsame.trans hnode), contentsOf_setContents hless,
        if_pos (hother.trans hplace)]
    · rw [if_neg (hplace ▸ hother)]
      refine fileAt?_congr hsame fun found hold => ?_
      have hne : number ≠ found := fun heq => hother (h.apart _ _ _ (heq ▸ hold) hnode)
      rw [contentsOf, contentsOf, FileTree.setContents]
      simp [hne]
  · exact fun _ => Iff.rfl

/-- Creating a file adds it where nothing was. -/
theorem exists_of_createNew (h : before.createNew path bytes = .ok after) :
    ∃ inside name, before.resolve path = .ok (.vacant inside name) ∧
      after = before.addFile (inside ++ [name]) bytes := by
  rw [createNew] at h
  split at h
  · cases h
  · cases h
  · rename_i inside name hresolve
    cases h
    exact ⟨inside, name, hresolve, rfl⟩

/-- Overwriting a file adds it where nothing was, or changes the contents of the one that is
there. -/
theorem cases_of_overwrite (h : before.overwrite path bytes = .ok after) :
    (∃ inside name, before.resolve path = .ok (.vacant inside name) ∧
      after = before.addFile (inside ++ [name]) bytes) ∨
    ∃ place number, before.resolve path = .ok (.existing place (.file number)) ∧
      after = before.setContents number bytes := by
  rw [overwrite] at h
  split at h
  · cases h
  · cases h
  · rename_i place number hresolve
    cases h
    exact Or.inr ⟨place, number, hresolve, rfl⟩
  · rename_i inside name hresolve
    cases h
    exact Or.inl ⟨inside, name, hresolve, rfl⟩

/-- **Creating a file writes that file and nothing else.** -/
theorem Unlinked.stored_of_createNew (h : before.Unlinked)
    (hslash : PathText.endsWithSlash path = false)
    (hwrite : before.createNew path bytes = .ok after) : Stored path bytes before after := by
  obtain ⟨inside, name, hresolve, rfl⟩ := exists_of_createNew hwrite
  exact h.stored_addFile hresolve hslash bytes

/-- Nothing was there before. -/
theorem fileAt?_of_createNew (hwrite : before.createNew path bytes = .ok after) :
    before.fileAt? (placeOf path) = none := by
  obtain ⟨inside, name, hresolve, -⟩ := exists_of_createNew hwrite
  obtain ⟨hplace, hvacant⟩ := node?_of_resolve_vacant hresolve
  rw [← hplace, FileTree.fileAt?, hvacant]

/-- **Overwriting a file writes that file and nothing else.** -/
theorem Unlinked.stored_of_overwrite (h : before.Unlinked)
    (hslash : PathText.endsWithSlash path = false)
    (hwrite : before.overwrite path bytes = .ok after) : Stored path bytes before after := by
  rcases cases_of_overwrite hwrite with
    ⟨inside, name, hresolve, rfl⟩ | ⟨place, number, hresolve, rfl⟩
  · exact h.stored_addFile hresolve hslash bytes
  · exact h.stored_setContents hresolve hslash bytes

/-! ### Trees stay without links -/

theorem Unlinked.createNew (h : before.Unlinked)
    (hwrite : before.createNew path bytes = .ok after) : after.Unlinked := by
  obtain ⟨inside, name, hresolve, rfl⟩ := exists_of_createNew hwrite
  exact h.addFile (node?_of_resolve_vacant hresolve).2 bytes

theorem Unlinked.overwrite (h : before.Unlinked)
    (hwrite : before.overwrite path bytes = .ok after) : after.Unlinked := by
  rcases cases_of_overwrite hwrite with ⟨inside, name, hresolve, rfl⟩ | ⟨place, number, -, rfl⟩
  · exact h.addFile (node?_of_resolve_vacant hresolve).2 bytes
  · exact h.setContents number bytes

theorem Unlinked.createDirectories (h : tree.Unlinked) (path : String) :
    (tree.createDirectories path).2.Unlinked :=
  h.grown (grown_createDirectories tree path)

theorem Unlinked.provide (h : tree.Unlinked) (path : String) (bytes : Bytes) :
    (tree.provide path bytes).Unlinked := by
  have hchain := h.grown (grown_createChain (PathText.ancestors path).tail tree)
  rw [FileTree.provide]
  simp only
  split
  · rename_i hwrite
    exact hchain.overwrite hwrite
  · exact hchain

/-- Removing a file takes its place away from it and from nothing else. -/
theorem Unlinked.remove (h : tree.Unlinked) (path : String) : (tree.remove path).Unlinked := by
  rw [FileTree.remove]
  split
  · rename_i removed _ _
    refine h.of_file (Nat.le_refl _) fun place number hnode => ?_
    rw [FileTree.node?] at hnode ⊢
    split at hnode
    · cases hnode
    · rename_i hplace
      rw [lookup_filter_key (· ≠ removed)] at hnode
      split at hnode
      · rwa [if_neg hplace]
      · cases hnode
  · exact h

end FileTree

end RomArchive
