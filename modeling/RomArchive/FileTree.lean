import RomArchive.PathText
import RomArchive.Source

/-!
# Trees of files

Containers are read from files and extracted entries are written to files. A tree maps paths to
directories and files; the contents of a file are kept apart under a number, since a file that was
opened stays what it is when its path is removed or given to another file, and changes when the
file is written in place.

Paths are resolved as usual: component by component from the working directory or the root, `.`
and `..` included. There are no links. Each operation reports the first thing in its way.

The working directory lies inside other directories, which `..` leads to one after the other.
Nothing is known of them but that they are there: their names are not, nor is what else they hold.

## Main definitions

* `Place`, `FileTree.Node`, `FileTree` — places, what is there, and the tree.
* `FileTree.resolve` — the place that a path text leads to.
* `FileTree.openFile`, `FileTree.source` — a file opened for reading, and its bytes.
* `FileTree.createDirectories`, `FileTree.createNew`, `FileTree.overwrite`, `FileTree.remove` —
  the ways in which a tree changes.
-/

namespace RomArchive

/-- A place in a tree: the names that lead to it from the working directory. A place outside the
working directory has as many `..` in front as it takes to get there, and a path that starts at the
root has the name `/` in front. -/
abbrev Place := List String

namespace FileTree

/-- What is at a place. -/
inductive Node where
  | directory
  | file (number : Nat)
  deriving DecidableEq

end FileTree

/-- A tree of files. The working directory, those above it and the root are always there. -/
structure FileTree where
  nodes : List (Place × FileTree.Node)
  contents : List Bytes
  deriving DecidableEq

/-- A file that was opened for reading, with the size it had then. -/
structure OpenFile where
  number : Nat
  size : Nat
  deriving DecidableEq

namespace FileTree

/-- The tree without any files. -/
def empty : FileTree := ⟨[], []⟩

/-- The place that absolute paths start from. -/
def root : Place := ["/"]

/-- Is this the working directory or one that it lies in? -/
def isEnclosing (place : Place) : Bool :=
  place.all (· = "..")

/-- What is at a place. -/
def node? (tree : FileTree) (place : Place) : Option Node :=
  if isEnclosing place ∨ place = root then some .directory else tree.nodes.lookup place

/-- The contents of a file by number. -/
def contentsOf (tree : FileTree) (number : Nat) : Bytes :=
  tree.contents.getD number []

/-- The contents of the file at a place. -/
def fileAt? (tree : FileTree) (place : Place) : Option Bytes :=
  match tree.node? place with
  | some (.file number) => some (tree.contentsOf number)
  | _ => none

/-! ### Resolving paths -/

/-- Where a path leads: to something that is there, or to a name in a directory that has no such
name. -/
inductive Target where
  | existing (place : Place) (node : Node)
  | vacant (directory : Place) (name : String)
  deriving DecidableEq

/-- The longest component, in bytes. -/
def maxName : Nat := 255

/-- Paths of this many bytes are refused. -/
def maxPath : Nat := 4096

/-- The directory above; nothing is above the root. -/
def parent (place : Place) : Place :=
  if place = root then root
  else if isEnclosing place then ".." :: place
  else place.dropLast

/-- Follow components from a directory. -/
def follow (tree : FileTree) (directory : Place) : List String → Except DeviceFault Target
  | [] => .ok (.existing directory .directory)
  | name :: names =>
    if name = "." then follow tree directory names
    else if name = ".." then follow tree (parent directory) names
    else if maxName < name.utf8ByteSize then .error .nameTooLong
    else
      match tree.node? (directory ++ [name]) with
      | some .directory => follow tree (directory ++ [name]) names
      | some (.file number) =>
        if names = [] then .ok (.existing (directory ++ [name]) (.file number))
        else .error .notADirectory
      | none => if names = [] then .ok (.vacant directory name) else .error .notFound

/-- Where the components of a path lead, whether or not a slash follows the last one. -/
def reach (tree : FileTree) (path : String) : Except DeviceFault Target :=
  if '\x00' ∈ path.toList then .error .nulInPath
  else if path = "" then .error .notFound
  else if maxPath ≤ path.utf8ByteSize then .error .nameTooLong
  else follow tree (if PathText.isAbsolute path then root else []) (PathText.components path)

/-- Where a path leads; with a slash at its end it does not lead to a file. -/
def resolve (tree : FileTree) (path : String) : Except DeviceFault Target :=
  match tree.reach path with
  | .ok (.existing place (.file number)) =>
    if PathText.endsWithSlash path then .error .notADirectory
    else .ok (.existing place (.file number))
  | outcome => outcome

/-- Is there a directory at a path? -/
def isDirectory (tree : FileTree) (path : String) : Bool :=
  match tree.resolve path with
  | .ok (.existing _ .directory) => true
  | _ => false

/-! ### Reading -/

/-- Open the file at a path. -/
def openFile (tree : FileTree) (path : String) : Except DeviceFault OpenFile :=
  match tree.resolve path with
  | .error fault => .error fault
  | .ok (.vacant _ _) => .error .notFound
  | .ok (.existing _ .directory) => .error .isADirectory
  | .ok (.existing _ (.file number)) => .ok ⟨number, (tree.contentsOf number).length⟩

/-- An open file as a source, with the contents that it has now. -/
def source (tree : FileTree) (file : OpenFile) : Source :=
  Source.ofFile (tree.contentsOf file.number) file.size

/-- The contents of the file at a path. -/
def contentsAt? (tree : FileTree) (path : String) : Option Bytes :=
  match tree.resolve path with
  | .ok (.existing _ (.file number)) => some (tree.contentsOf number)
  | _ => none

/-- What is in a directory. -/
def children (tree : FileTree) (directory : Place) : List (String × Node) :=
  tree.nodes.filterMap fun (place, node) =>
    match place.getLast? with
    | some name => if place.dropLast = directory then some (name, node) else none
    | none => none

/-! ### Changing -/

/-- The tree with a new directory. -/
def addDirectory (tree : FileTree) (place : Place) : FileTree :=
  { tree with nodes := tree.nodes ++ [(place, .directory)] }

/-- The tree with a new file. -/
def addFile (tree : FileTree) (place : Place) (bytes : Bytes) : FileTree where
  nodes := tree.nodes ++ [(place, .file tree.contents.length)]
  contents := tree.contents ++ [bytes]

/-- The tree with other contents for a file that is there. -/
def setContents (tree : FileTree) (number : Nat) (bytes : Bytes) : FileTree :=
  { tree with contents := tree.contents.set number bytes }

/-- Create one directory. Its path may end with a slash, so a file in its place is in the way just
as it would be without that slash. -/
def createDirectory (tree : FileTree) (path : String) : Except DeviceFault FileTree :=
  match tree.reach path with
  | .error fault => .error fault
  | .ok (.existing _ _) => .error .alreadyExists
  | .ok (.vacant directory name) => .ok (tree.addDirectory (directory ++ [name]))

/-- Create the first of these directories, and before it as many of the others, each above the
one before it, as are missing. What was created stays, also when a later step fails. -/
def createChain (tree : FileTree) : List String → Except DeviceFault Unit × FileTree
  | [] => (.ok (), tree)
  | path :: above =>
    let settled (tree : FileTree) (fault : DeviceFault) : Except DeviceFault Unit × FileTree :=
      if fault = .alreadyExists ∧ tree.isDirectory path then (.ok (), tree)
      else (.error fault, tree)
    match tree.createDirectory path with
    | .ok tree => (.ok (), tree)
    | .error .notFound =>
      match createChain tree above with
      | (.error fault, tree) => (.error fault, tree)
      | (.ok (), tree) =>
        match tree.createDirectory path with
        | .ok tree => (.ok (), tree)
        | .error fault => settled tree fault
    | .error fault => settled tree fault

/-- Create a directory and those above it that are missing. One that is already there is no
failure. -/
def createDirectories (tree : FileTree) (path : String) : Except DeviceFault Unit × FileTree :=
  tree.createChain (PathText.ancestors path)

/-- Create a file where there is nothing yet. -/
def createNew (tree : FileTree) (path : String) (bytes : Bytes) : Except DeviceFault FileTree :=
  match tree.resolve path with
  | .error fault => .error fault
  | .ok (.existing _ _) => .error .alreadyExists
  | .ok (.vacant directory name) => .ok (tree.addFile (directory ++ [name]) bytes)

/-- Create a file, or give new contents to the one that is there. -/
def overwrite (tree : FileTree) (path : String) (bytes : Bytes) : Except DeviceFault FileTree :=
  match tree.resolve path with
  | .error fault => .error fault
  | .ok (.existing _ .directory) => .error .isADirectory
  | .ok (.existing _ (.file number)) => .ok (tree.setContents number bytes)
  | .ok (.vacant directory name) => .ok (tree.addFile (directory ++ [name]) bytes)

/-- Remove the file at a path. Its contents remain for those who have it open. -/
def remove (tree : FileTree) (path : String) : FileTree :=
  match tree.resolve path with
  | .ok (.existing place (.file _)) =>
    { tree with nodes := tree.nodes.filter fun (other, _) => other ≠ place }
  | _ => tree

/-- Put a file at a path, and create the directories above it that are missing. -/
def provide (tree : FileTree) (path : String) (bytes : Bytes) : FileTree :=
  let (_, tree) := tree.createChain (PathText.ancestors path).tail
  match tree.overwrite path bytes with
  | .ok tree => tree
  | .error _ => tree

end FileTree

end RomArchive
