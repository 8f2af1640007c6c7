import RomArchive.Proofs.Files.Paths
import RomArchive.Scratch

/-!
# Names of scratch files

The name of a scratch file is put together from a number, possibly a token, and the base name of an
entry, which comes from the container and may be any text without a slash. It may look like the name
of another scratch file, or like the end of one. Still the number can be read back from the whole:
it is what stands between the mark and the first underscore behind it, since a number has digits
only. Where there is a token, it is the eight characters behind that.

So names with different numbers differ, whatever the entries are called, and so do names with
different tokens. And since none of the parts has a slash, a name is always a single component. That
the slash is the only separator of paths is part of what is said here: where a backslash separates
them as well, the base name of an entry may have several components.

## Main definitions

* `Scratch.IsToken` — what tokens look like
* `Scratch.paths` — the paths that are given out for some entries, one after the other
* `Scratch.IsChild` — a path that leads into a directory and no further

## Main results

* `Scratch.fileName_inj` — the number and what follows it can be read back
* `Scratch.isChild_join` — the paths that are given out lie in the scratch directory
* `Scratch.paths_pairwise`, `Scratch.notMem_paths_of_token` — no path is given out twice
-/

namespace RomArchive

/-! ### Base names -/

namespace EntryName

theorem notMem_afterLast (mark : Char) (text : List Char) : mark ∉ afterLast mark text := by
  intro hmem
  have htest := List.all_eq_true.1 List.all_takeWhile _ (List.mem_reverse.1 hmem)
  simp at htest

theorem slash_notMem_base (name : String) : '/' ∉ (base name).toList := by
  rw [base, String.toList_ofList]
  exact notMem_afterLast '/' name.toList

end EntryName

/-- What stands in front of the first mark, and behind it, can be read back. -/
theorem eq_of_append_mark {α : Type} {mark : α} {front other back behind : List α}
    (hfront : mark ∉ front) (hother : mark ∉ other)
    (h : front ++ mark :: back = other ++ mark :: behind) : front = other ∧ back = behind := by
  induction front generalizing other with
  | nil =>
    cases other with
    | nil => exact ⟨rfl, (List.cons.inj h).2⟩
    | cons c cs => exact absurd (List.cons.inj h).1 (List.ne_of_not_mem_cons hother)
  | cons c cs ih =>
    cases other with
    | nil => exact absurd (List.cons.inj h).1.symm (List.ne_of_not_mem_cons hfront)
    | cons d ds =>
      obtain ⟨rfl, hrest⟩ := List.cons.inj h
      obtain ⟨rfl, hback⟩ := ih (List.not_mem_of_not_mem_cons hfront)
        (List.not_mem_of_not_mem_cons hother) hrest
      exact ⟨rfl, hback⟩

namespace Scratch

variable {scratch other : Scratch}

/-! ### One name -/

def isHexDigit (c : Char) : Bool :=
  c.isDigit || ('a' ≤ c && c ≤ 'f')

/-- A token is eight hexadecimal digits. -/
structure IsToken (token : String) : Prop where
  length : token.toList.length = tokenLength
  digits : token.toList.all isHexDigit = true

/-- What stands behind the number and the underscore. -/
def ending (scratch : Scratch) (name : String) : List Char :=
  match scratch.naming with
  | .counter => (EntryName.base name).toList
  | .unique => scratch.token.toList ++ '_' :: (EntryName.base name).toList

theorem toList_fileName (scratch : Scratch) (number : Nat) (name : String) :
    (scratch.fileName number name).toList
      = mark.toList ++ (Nat.toDigits 10 number ++ '_' :: scratch.ending name) := by
  have hunderscore : "_".toList = ['_'] := rfl
  rw [fileName, ending]
  cases scratch.naming <;>
    simp only [String.toList_append, Nat.toList_repr, hunderscore, List.append_assoc,
      List.cons_append, List.nil_append]

/-- What stands in front of the base name. -/
def front (scratch : Scratch) (number : Nat) : List Char :=
  mark.toList ++ (Nat.toDigits 10 number ++ '_' ::
    match scratch.naming with
    | .counter => []
    | .unique => scratch.token.toList ++ ['_'])

/-- The base name comes last. -/
theorem toList_fileName_front (scratch : Scratch) (number : Nat) (name : String) :
    (scratch.fileName number name).toList
      = scratch.front number ++ (EntryName.base name).toList := by
  rw [toList_fileName, ending, front]
  cases scratch.naming <;> simp

theorem notMem_toDigits {c : Char} (hc : c.isDigit = false) (number : Nat) :
    c ∉ Nat.toDigits 10 number := by
  intro hmem
  have hdigit := Nat.isDigit_of_mem_toDigits (by decide) (by decide) hmem
  rw [hc] at hdigit
  cases hdigit

/-- **The number and what follows it can be read back.** -/
theorem fileName_inj {number count : Nat} {name entry : String}
    (h : scratch.fileName number name = other.fileName count entry) :
    number = count ∧ scratch.ending name = other.ending entry := by
  have hlists := congrArg String.toList h
  rw [toList_fileName, toList_fileName] at hlists
  obtain ⟨hdigits, hending⟩ := eq_of_append_mark (notMem_toDigits rfl number)
    (notMem_toDigits rfl count) (List.append_cancel_left hlists)
  have hnumber : number = count := by
    calc
      number = Nat.ofDigitChars 10 (Nat.toDigits 10 number) 0 :=
        Nat.ofDigitChars_ten_toDigits.symm
      _ = Nat.ofDigitChars 10 (Nat.toDigits 10 count) 0 := by rw [hdigits]
      _ = count := Nat.ofDigitChars_ten_toDigits
  exact ⟨hnumber, hending⟩

/-- So can the token, if there is one. -/
theorem token_inj {name entry : String} (hscratch : scratch.naming = .unique)
    (hother : other.naming = .unique) (htoken : IsToken scratch.token)
    (htokens : IsToken other.token) (h : scratch.ending name = other.ending entry) :
    scratch.token = other.token := by
  rw [ending, ending, hscratch, hother] at h
  have hlength := htoken.length.trans htokens.length.symm
  exact String.toList_inj.1 (List.append_inj h hlength).1

theorem IsToken.slash_notMem {token : String} (h : IsToken token) : '/' ∉ token.toList := by
  intro hmem
  have hdigit := List.all_eq_true.1 h.digits _ hmem
  cases hdigit

theorem mark_isPrefix_fileName (scratch : Scratch) (number : Nat) (name : String) :
    mark.toList <+: (scratch.fileName number name).toList := by
  rw [toList_fileName]
  exact List.prefix_append _ _

theorem slash_notMem_fileName (htoken : IsToken scratch.token) (number : Nat) (name : String) :
    '/' ∉ (scratch.fileName number name).toList := by
  have hending : '/' ∉ scratch.ending name := by
    rw [ending]
    cases scratch.naming with
    | counter => exact EntryName.slash_notMem_base name
    | unique =>
      refine fun hmem => (List.mem_append.1 hmem).elim htoken.slash_notMem fun hrest => ?_
      rcases List.mem_cons.1 hrest with hmark | hbase
      · cases hmark
      · exact EntryName.slash_notMem_base name hbase
  rw [toList_fileName]
  simp only [List.mem_append, List.mem_cons, not_or]
  exact ⟨by decide, notMem_toDigits rfl number, by decide, hending⟩

/-- Whatever an entry is called, its scratch file has a name that stays where it is put. -/
theorem isComponent_fileName (htoken : IsToken scratch.token) (number : Nat) (name : String) :
    PathText.IsComponent (scratch.fileName number name) := by
  have hmark : ∀ text : String, mark.toList <+: text.toList →
      text ≠ "" ∧ text ≠ "." ∧ text ≠ ".." := by
    rintro text ⟨rest, hrest⟩
    refine ⟨?_, ?_, ?_⟩ <;> rintro rfl <;> cases hrest
  obtain ⟨hempty, hdot, hdots⟩ := hmark _ (scratch.mark_isPrefix_fileName number name)
  exact ⟨hempty, slash_notMem_fileName htoken number name, hdot, hdots⟩

/-! ### Paths -/

/-- A path that leads into the directory `root` and no further: to a name of its own there, which
bears the mark. -/
structure IsChild (root name path : String) : Prop where
  path_eq : path = PathText.join root name
  marked : mark.toList <+: name.toList
  component : PathText.IsComponent name
  components : PathText.components path = PathText.components root ++ [name]
  place : FileTree.placeOf path = FileTree.placeOf root ++ [name]

theorem isChild_join (htoken : IsToken scratch.token) (number : Nat) (name : String) :
    IsChild scratch.root (scratch.fileName number name)
      (PathText.join scratch.root (scratch.fileName number name)) where
  path_eq := rfl
  marked := scratch.mark_isPrefix_fileName number name
  component := isComponent_fileName htoken number name
  components := PathText.components_join (isComponent_fileName htoken number name) scratch.root
  place := FileTree.placeOf_join scratch.root (isComponent_fileName htoken number name)

/-- The paths that are given out for these entries, one after the other. -/
def paths (scratch : Scratch) : List String → List String
  | [] => []
  | name :: names => (scratch.reserve name).1 :: (scratch.reserve name).2.paths names

/-- Each is put together from a number that was not used before and one of the entries. -/
theorem exists_of_mem_paths {path : String} {names : List String} (h : path ∈ scratch.paths names) :
    ∃ number name, scratch.counter < number ∧ name ∈ names ∧
      path = PathText.join scratch.root (scratch.fileName number name) := by
  induction names generalizing scratch with
  | nil => cases h
  | cons name names ih =>
    rcases List.mem_cons.1 h with rfl | hlater
    · exact ⟨scratch.counter + 1, name, Nat.lt_succ_self _, List.mem_cons_self, rfl⟩
    · obtain ⟨number, entry, hnumber, hentry, rfl⟩ := ih hlater
      exact ⟨number, entry, Nat.lt_of_succ_lt hnumber, List.mem_cons_of_mem _ hentry, rfl⟩

/-- Under one root, paths with different numbers differ. -/
theorem join_fileName_inj {number count : Nat} {name entry : String}
    (hroot : scratch.root = other.root)
    (h : PathText.join scratch.root (scratch.fileName number name)
      = PathText.join other.root (other.fileName count entry)) :
    number = count ∧ scratch.ending name = other.ending entry :=
  fileName_inj (PathText.join_inj (hroot ▸ h))

/-- **No path is given out twice.** -/
theorem paths_pairwise (scratch : Scratch) (names : List String) :
    (scratch.paths names).Pairwise (· ≠ ·) := by
  induction names generalizing scratch with
  | nil => exact List.Pairwise.nil
  | cons name names ih =>
    refine List.pairwise_cons.2 ⟨fun path hpath heq => ?_, ih _⟩
    obtain ⟨number, entry, hnumber, -, rfl⟩ := exists_of_mem_paths hpath
    have hroot : scratch.root = scratch.advanced.root := rfl
    exact absurd (join_fileName_inj hroot heq).1 (Nat.ne_of_lt hnumber)

/-- **No path is given out under two tokens.** -/
theorem notMem_paths_of_token (hroot : scratch.root = other.root)
    (hscratch : scratch.naming = .unique) (hother : other.naming = .unique)
    (htoken : IsToken scratch.token) (htokens : IsToken other.token)
    (hne : scratch.token ≠ other.token) {path : String} {names entries : List String}
    (hpath : path ∈ scratch.paths names) : path ∉ other.paths entries := by
  intro hmem
  obtain ⟨number, name, -, -, rfl⟩ := exists_of_mem_paths hpath
  obtain ⟨count, entry, -, -, heq⟩ := exists_of_mem_paths hmem
  obtain ⟨-, hending⟩ := join_fileName_inj hroot heq
  exact hne (token_inj hscratch hother htoken htokens hending)

end Scratch

end RomArchive
