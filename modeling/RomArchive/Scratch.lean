import RomArchive.Config
import RomArchive.FileTree
import RomArchive.VerifiedBytes

/-!
# Scratch files

Extracted entries are written to files directly under one scratch directory. A file is named by a
counter, which never repeats, then possibly by a token that tells one session from another, and
then by the base name of the entry; whatever slashes and dots the entry's own path holds, it cannot
lead out of the scratch directory.

Nothing is written, and no name is used up, before the entry's name and the directory are found to
be in order. Writing fails when the file is opened or not at all. A device that runs out of space
under a file that is open is not treated, so a file need not be looked at again to see whether all
of it is there.

## Main definitions

* `Scratch` — a scratch directory and the counter of its names.
* `Scratch.fileName`, `Scratch.reserve` — the name for an entry, and a path with it.
* `Scratch.write` — the contents of an entry in a new file.
-/

namespace RomArchive

/-- A scratch directory and how many names it has given out. A machine counts in 64 bits; that fewer
than `2 ^ 64` names are given out is taken for granted. -/
structure Scratch where
  root : String
  naming : ScratchNaming
  existing : ExistingPolicy
  token : String
  counter : Nat
  deriving DecidableEq

namespace Scratch

/-- The scratch directory of a session with these settings. -/
def ofSettings (settings : Settings) (token : String) : Scratch where
  root := settings.scratchRoot
  naming := settings.naming
  existing := settings.existing
  token := token
  counter := 0

/-- The number of characters in a token. -/
def tokenLength : Nat := 8

/-- What all names of scratch files begin with. -/
def mark : String := "temp_"

/-- The name of the `number`-th scratch file, which holds the entry `name`. -/
def fileName (scratch : Scratch) (number : Nat) (name : String) : String :=
  match scratch.naming with
  | .counter => mark ++ number.repr ++ "_" ++ EntryName.base name
  | .unique => mark ++ number.repr ++ "_" ++ scratch.token ++ "_" ++ EntryName.base name

/-- The path of the next scratch file. -/
def nextPath (scratch : Scratch) (name : String) : String :=
  PathText.join scratch.root (scratch.fileName (scratch.counter + 1) name)

/-- The scratch directory after one more name was given out. -/
def advanced (scratch : Scratch) : Scratch :=
  { scratch with counter := scratch.counter + 1 }

/-- Give out the next path. -/
def reserve (scratch : Scratch) (name : String) : String × Scratch :=
  (scratch.nextPath name, scratch.advanced)

/-- The tree with these bytes at a reserved path. -/
def place (scratch : Scratch) (tree : FileTree) (path : String) (bytes : Bytes) :
    Except Failure FileTree :=
  match scratch.existing with
  | .overwrite => (tree.overwrite path bytes).mapError .device
  | .fail =>
    match tree.createNew path bytes with
    | .ok tree => .ok tree
    | .error .alreadyExists => .error (.scratchExists path)
    | .error fault => .error (.device fault)

/-- Write the contents of an entry to a new scratch file. The result is its path. Once the file is
open all bytes are written: that it holds fewer of them afterwards is not among the failures. -/
def write (scratch : Scratch) (tree : FileTree) (contents : VerifiedBytes) :
    Except Failure String × Scratch × FileTree :=
  if EntryName.base contents.name = "" then
    (.error (.entryNotFound contents.name), scratch, tree)
  else
    match tree.createDirectories scratch.root with
    | (.error fault, tree) => (.error (.device fault), scratch, tree)
    | (.ok (), tree) =>
      let (path, scratch) := scratch.reserve contents.name
      match scratch.place tree path contents.bytes with
      | .error failure => (.error failure, scratch, tree)
      | .ok tree => (.ok path, scratch, tree)

end Scratch

end RomArchive
