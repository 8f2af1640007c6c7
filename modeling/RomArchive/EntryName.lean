/-!
# Entry names

Names of entries are slash-separated paths. A name that ends with a slash marks a directory; the
base name is what follows the last slash, and the extension is what follows the last dot of the
base name. Both are cut off by the same operation, the text after the last occurrence of a
character.

Extensions are compared without regard to ASCII case, and a list of wanted extensions may give
them with or without the leading dot.

## Main definitions

* `EntryName.afterLast` — the longest end of a text without a given character.
* `EntryName.base`, `EntryName.extension?`, `EntryName.isDirectory` — the parts of a name.
* `EntryName.isContainer`, `EntryName.isWanted`, `EntryName.isMedia` — the three tests on the
  extension.
-/

namespace RomArchive

namespace EntryName

/-! ### Parts of a name -/

/-- The longest end of a text in which a character does not occur: what follows its last
occurrence, or the whole text. -/
def afterLast (mark : Char) (text : List Char) : List Char :=
  (text.reverse.takeWhile (· ≠ mark)).reverse

/-- What follows the last slash. -/
def base (name : String) : String :=
  String.ofList (afterLast '/' name.toList)

/-- What follows the last dot, unless that reaches into another component: a dot in a directory's
name is not the start of an extension. -/
def extension? (name : String) : Option String :=
  let ending := afterLast '.' name.toList
  if '.' ∈ name.toList ∧ '/' ∉ ending then some (String.ofList ending) else none

/-- A directory is told by the slash at the end of its name and by nothing else. -/
def isDirectory (name : String) : Bool :=
  name.toList.getLast? == some '/'

/-! ### Tests on the extension -/

/-- Wanted extensions may be given with one leading dot. -/
def withoutDot (wanted : List Char) : List Char :=
  match wanted with
  | '.' :: rest => rest
  | _ => wanted

/-- Equality of an extension with a wanted one, ASCII letters compared without case. -/
def sameExtension (extension wanted : String) : Bool :=
  extension.toList.map Char.toLower == (withoutDot wanted.toList).map Char.toLower

/-- Does the name carry one of the wanted extensions? -/
def isWanted (name : String) (wanted : List String) : Bool :=
  match extension? name with
  | some extension => wanted.any (sameExtension extension)
  | none => false

/-- The extension of the containers. -/
def containerExtension : String := "zip"

/-- Program, tape, disk and cartridge images, the extensions looked for when none are named. -/
def mediaExtensions : List String :=
  [".prg", ".p00", ".t64", ".tap", ".d64", ".d71", ".d81", ".x64", ".g64", ".crt", ".bin", ".rom"]

/-- Is this the name of a container? -/
def isContainer (name : String) : Bool :=
  isWanted name [containerExtension]

/-- Does the name carry one of the media extensions? -/
def isMedia (name : String) : Bool :=
  isWanted name mediaExtensions

/-- The test that a list of wanted extensions stands for; no list stands for the media
extensions, which is not the same as an empty list. -/
def isSelected (wanted : Option (List String)) (name : String) : Bool :=
  isWanted name (wanted.getD mediaExtensions)

end EntryName

end RomArchive
