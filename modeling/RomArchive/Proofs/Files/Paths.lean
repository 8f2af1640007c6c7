import RomArchive.FileTree

/-!
# Where paths lead

A tree without links has a property that other trees lack: where a path leads is decided by its
text. The tree only decides whether anything is there. So the place of a path is defined here on the
text alone, and following the path in a tree leads to that place or fails.

The path of a name inside a directory leads to that name in the place of the directory, provided the
name is a single component: not empty, without slashes, and none of the two names that stand for
other directories.

## Main definitions

* `PathText.IsComponent` — a text that is one component of a path
* `FileTree.walk`, `FileTree.placeOf` — the place that components lead to, and a path
* `FileTree.Target.place` — the place of a target, taken or vacant

## Main results

* `PathText.components_join` — the components of a path inside a directory
* `FileTree.place_of_follow` — following components leads where the text says, in every tree
* `FileTree.placeOf_join` — a name inside a directory leads to that name in its place
-/

namespace RomArchive

/-! ### Components -/

namespace PathText

/-- A text that names something in a directory. -/
structure IsComponent (name : String) : Prop where
  ne_empty : name ≠ ""
  slash_notMem : '/' ∉ name.toList
  ne_dot : name ≠ "."
  ne_dots : name ≠ ".."

theorem parts_ne_nil (text : List Char) : parts text ≠ [] := by
  cases text with
  | nil => exact List.cons_ne_nil _ _
  | cons c cs =>
    rw [parts]
    split
    · exact List.cons_ne_nil _ _
    · split <;> exact List.cons_ne_nil _ _

theorem parts_of_notMem {text : List Char} (h : '/' ∉ text) : parts text = [text] := by
  induction text with
  | nil => rfl
  | cons c cs ih =>
    obtain ⟨hc, hcs⟩ := not_or.1 (fun hmem => h (List.mem_cons.2 hmem))
    rw [parts, if_neg (Ne.symm hc), ih hcs]

/-- A slash separates the parts in front of it from those behind it. -/
theorem parts_append_slash (front back : List Char) :
    parts (front ++ '/' :: back) = parts front ++ parts back := by
  induction front with
  | nil => rfl
  | cons c cs ih =>
    rw [List.cons_append, parts, parts, ih]
    by_cases hc : c = '/'
    · rw [if_pos hc, if_pos hc, List.cons_append]
    · rw [if_neg hc, if_neg hc]
      cases hparts : parts cs with
      | nil => exact absurd hparts (parts_ne_nil cs)
      | cons part others => rfl

/-- What stands in front of a name in its path inside a directory. -/
def lead (root : String) : List Char :=
  if root = "" ∨ endsWithSlash root then root.toList else root.toList ++ ['/']

theorem toList_join (root name : String) : (join root name).toList = lead root ++ name.toList := by
  rw [join, lead]
  split
  · rw [String.toList_append]
  · rw [String.toList_append, String.toList_append]
    rfl

/-- It ends with a slash, which may be the directory's own, unless the directory has no text. -/
theorem lead_cases (root : String) : (root = "" ∧ lead root = []) ∨
    ∃ front, lead root = front ++ ['/'] ∧
      (root.toList = front ++ ['/'] ∨ root ≠ "" ∧ root.toList = front) := by
  by_cases hempty : root = ""
  · refine Or.inl ⟨hempty, ?_⟩
    rw [lead, if_pos (Or.inl hempty), hempty]
    rfl
  · by_cases hslash : endsWithSlash root = true
    · obtain ⟨front, hfront⟩ := List.getLast?_eq_some_iff.1 (beq_iff_eq.1 hslash)
      refine Or.inr ⟨front, ?_, Or.inl hfront⟩
      rw [lead, if_pos (Or.inr hslash), hfront]
    · refine Or.inr ⟨root.toList, ?_, Or.inr ⟨hempty, rfl⟩⟩
      rw [lead, if_neg (not_or.2 ⟨hempty, hslash⟩)]

/-- In one directory, different names have different paths. -/
theorem join_inj {root name other : String} (h : join root name = join root other) :
    name = other := by
  have hlists := congrArg String.toList h
  rw [toList_join, toList_join] at hlists
  exact String.toList_inj.1 (List.append_cancel_left hlists)

/-- A path does not end with a slash if some end of it has none. -/
theorem endsWithSlash_of_append {path : String} {front back : List Char}
    (h : path.toList = front ++ back) (hback : back ≠ []) (hslash : '/' ∉ back) :
    endsWithSlash path = false := by
  have hlast := List.getLast?_eq_some_getLast hback
  rw [endsWithSlash, h, List.getLast?_append, hlast, Option.some_or, ← hlast]
  exact beq_eq_false_iff_ne.2 fun hmem => hslash (List.mem_of_getLast? hmem)

section Component

variable {name : String} (hname : IsComponent name)
include hname

theorem IsComponent.toList_ne_nil : name.toList ≠ [] :=
  fun h => hname.ne_empty (String.toList_inj.1 h)

/-- **The components of a path inside a directory** are those of the directory and the name. -/
theorem components_join (root : String) :
    components (join root name) = components root ++ [name] := by
  have hparts : parts name.toList = [name.toList] := parts_of_notMem hname.slash_notMem
  have hlast : ([name.toList].filter (· ≠ [])).map String.ofList = [name] := by
    rw [List.filter_cons, if_pos (decide_eq_true hname.toList_ne_nil), List.filter_nil,
      List.map_singleton, String.ofList_toList]
  rw [components, components, toList_join]
  rcases lead_cases root with ⟨rfl, hlead⟩ | ⟨front, hlead, hroot⟩
  · rw [hlead, List.nil_append, hparts, hlast]
    rfl
  · -- The part behind a slash at the end of the directory's text is empty, and passed over.
    have hfront : (parts front).filter (· ≠ []) = (parts root.toList).filter (· ≠ []) := by
      rcases hroot with hroot | ⟨-, hroot⟩
      · rw [hroot, parts_append_slash, List.filter_append]
        exact (List.append_nil _).symm
      · rw [hroot]
    rw [hlead, List.append_assoc, List.singleton_append, parts_append_slash, hparts,
      List.filter_append, List.map_append, hfront, hlast]

theorem isAbsolute_join (root : String) : isAbsolute (join root name) = isAbsolute root := by
  rw [isAbsolute, isAbsolute, toList_join]
  rcases lead_cases root with ⟨rfl, hlead⟩ | ⟨front, hlead, hroot⟩
  · have hhead : name.toList.head? ≠ some '/' :=
      fun h => hname.slash_notMem (List.mem_of_head? h)
    rw [hlead, List.nil_append]
    exact beq_eq_false_iff_ne.2 hhead
  · rw [hlead]
    rcases hroot with hroot | ⟨hne, hroot⟩
    · rw [hroot, List.head?_append, List.head?_append]
      simp
    · rw [hroot]
      cases front with
      | nil => exact absurd (String.toList_inj.1 hroot) hne
      | cons c cs => rfl

theorem endsWithSlash_join (root : String) : endsWithSlash (join root name) = false :=
  endsWithSlash_of_append (toList_join root name) hname.toList_ne_nil hname.slash_notMem

end Component

end PathText

/-! ### Places -/

namespace FileTree

/-- Where components lead from a directory, as far as the text decides it. -/
def walk (directory : Place) : List String → Place
  | [] => directory
  | name :: names =>
    if name = "." then walk directory names
    else if name = ".." then walk (parent directory) names
    else walk (directory ++ [name]) names

/-- Where the components of a path are followed from. -/
def origin (path : String) : Place :=
  if PathText.isAbsolute path then root else []

/-- The place that a path leads to, if it leads anywhere. -/
def placeOf (path : String) : Place :=
  walk (origin path) (PathText.components path)

/-- The place of a target: of what is there, or of what is missing. -/
def Target.place : Target → Place
  | existing place _ => place
  | vacant directory name => directory ++ [name]

theorem walk_append (directory : Place) (names more : List String) :
    walk directory (names ++ more) = walk (walk directory names) more := by
  induction names generalizing directory with
  | nil => rfl
  | cons name names ih =>
    rw [List.cons_append, walk, walk]
    split
    · exact ih directory
    · split
      · exact ih (parent directory)
      · exact ih (directory ++ [name])

/-- **A name inside a directory leads to that name in its place.** -/
theorem placeOf_join (path : String) {name : String} (hname : PathText.IsComponent name) :
    placeOf (PathText.join path name) = placeOf path ++ [name] := by
  rw [placeOf, placeOf, origin, origin, PathText.isAbsolute_join hname,
    PathText.components_join hname, walk_append]
  show (if name = "." then _ else if name = ".." then _ else _) = _
  rw [if_neg hname.ne_dot, if_neg hname.ne_dots]
  rfl

variable {tree : FileTree} {path : String} {target : Target}

/-- Following components leads where the text says. -/
theorem place_of_follow {directory : Place} {names : List String}
    (h : tree.follow directory names = .ok target) : target.place = walk directory names := by
  fun_induction follow tree directory names with
  | case1 directory =>
    cases h
    rfl
  | case2 directory names ih =>
    rw [walk, if_pos rfl]
    exact ih h
  | case3 directory names hdot ih =>
    rw [walk, if_neg hdot, if_pos rfl]
    exact ih h
  | case4 => cases h
  | case5 directory name names hdot hdots _ _ ih =>
    rw [walk, if_neg hdot, if_neg hdots]
    exact ih h
  | case6 directory name hdot hdots =>
    cases h
    rw [walk, if_neg hdot, if_neg hdots]
    rfl
  | case7 => cases h
  | case8 directory name hdot hdots =>
    cases h
    rw [walk, if_neg hdot, if_neg hdots]
    rfl
  | case9 => cases h

end FileTree

end RomArchive
