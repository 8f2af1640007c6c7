import RomArchive.Program

/-!
# Running the program

The outer layer of the program: it looks up the files that a run can come across, hands them to
`Program.run` as a tree, and carries out what the outcome says. The decisions are all made there.

A scratch file's path is known only from a run, so a first run on the container alone tells which
path to look up for the second.

## Main definitions

* `Main.lookUp` — a tree with what is found at a path.
* `Main.carryOut` — the files and the output of an outcome.
* `main` — the program.
-/

namespace RomArchive

namespace Main

/-- The tree with what is found at a path. -/
def lookUp (tree : FileTree) (path : String) : IO FileTree := do
  try
    let bytes ← IO.FS.readBinFile path
    return tree.provide path bytes.toList
  catch fault =>
    match fault with
    | .inappropriateType .. => return (tree.createDirectories path).2
    | _ => return tree

/-- The files of a tree that another does not have, by name. -/
def newFiles (before after : FileTree) : List (String × Bytes) :=
  after.nodes.filterMap fun (place, _) =>
    match place.getLast?, after.fileAt? place with
    | some name, some bytes =>
      if before.fileAt? place = some bytes then none else some (name, bytes)
    | _, _ => none

/-- Write the new files to the scratch directory and print what there is to print. -/
def carryOut (root : String) (before : FileTree) (outcome : Program.Outcome) : IO UInt32 := do
  for (name, bytes) in newFiles before outcome.tree do
    if root ≠ "" then IO.FS.createDirAll root
    IO.FS.writeBinFile (PathText.join root name) (ByteArray.mk bytes.toArray)
  (← IO.getStderr).putStr outcome.messages
  let output ← IO.getStdout
  output.write (ByteArray.mk outcome.output.toArray)
  output.flush
  return UInt32.ofNat outcome.code

/-- Eight hexadecimal digits that differ from run to run. -/
def freshToken : IO String := do
  return checksumText (UInt32.ofNat (← IO.rand 0 0xFFFFFFFF))

/-- Print why a command line is not carried out, or what it asked for instead. -/
def carryOutStop (scratchRoot : Option String) (stop : CommandLine.Stop) : IO UInt32 :=
  carryOut "" FileTree.empty (Program.stopped FileTree.empty scratchRoot stop)

/-- Carry out the options of a command line. -/
def carryOutOptions (options : Options) (temporary : String) : IO UInt32 := do
  let token ← freshToken
  let root := (options.settings temporary).scratchRoot
  let container ← lookUp (← lookUp FileTree.empty root) options.file
  let draft := Program.run options container temporary token
  let tree ← (newFiles container draft.tree).foldlM
    (fun tree file => lookUp tree (PathText.join root file.1)) container
  carryOut root tree (Program.run options tree temporary token)

end Main

end RomArchive

/-- The program. -/
def main (arguments : List String) : IO UInt32 := do
  let temporary := (← IO.getEnv "TMPDIR").getD "/tmp"
  let scratchRoot ← IO.getEnv "ROMZIP_SCRATCH_DIR"
  match RomArchive.CommandLine.parse arguments scratchRoot with
  | .error stop => RomArchive.Main.carryOutStop scratchRoot stop
  | .ok options => RomArchive.Main.carryOutOptions options temporary
