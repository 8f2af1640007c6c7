import RomArchive.CommandLine
import RomArchive.Report
import RomArchive.Session

/-!
# The program

The program opens one container and either prints its catalog, or extracts one entry: the one that
was named, or the first media entry. The entry goes to a scratch file, whose path is printed, or to
the standard output. Nothing else is ever printed there, so the output can be handed on.

The program is a function of its arguments and the tree of files. Its outcome holds all that it
prints, and the tree as it leaves it. Arguments and what the environment says are texts in UTF-8,
and so are the paths among them.

## Main definitions

* `Program.Outcome` — what a run of the program comes to.
* `Program.run` — the program with given options.
* `Program.runArguments` — the program with the arguments it was called with.
-/

namespace RomArchive

namespace Program

/-- What a run of the program comes to. -/
structure Outcome where
  code : Nat
  output : Bytes
  messages : String
  tree : FileTree
  deriving DecidableEq

/-- A text as output. -/
def textBytes (text : String) : Bytes :=
  text.toList.flatMap String.utf8EncodeChar

/-! ### Failures -/

/-- A text whose lines are moved in; the first is moved in by whoever prints it. -/
def indented (text : String) : String :=
  String.ofList (text.toList.flatMap fun c => if c = '\n' then "\n    ".toList else [c])

/-- A failure, and what was being done. -/
structure Problem where
  context : Option String
  cause : Failure
  deriving DecidableEq

def Problem.text (problem : Problem) : String :=
  match problem.context with
  | some context =>
    "Error: " ++ context ++ "\n\nCaused by:\n    " ++ indented problem.cause.message ++ "\n"
  | none => "Error: " ++ problem.cause.message ++ "\n"

/-- A result of something that was being done. -/
def during {α : Type} (context : String) (result : Except Failure α) : Except Problem α :=
  result.mapError fun cause => ⟨some context, cause⟩

/-! ### Runs -/

/-- Print the catalog of a handle. -/
def listEntries (options : Options) (handle : Handle) : Except Problem String :=
  (handle.entries.mapError (Problem.mk none)).map fun entries =>
    if options.verbose then Report.table options.wanted entries else Report.names entries

/-- The name of the entry to extract. -/
def chosenEntry (options : Options) (handle : Handle) : Except Problem String :=
  match options.entry with
  | some name => .ok name
  | none => (handle.findMedia options.wanted).mapError (Problem.mk none)

/-- What is printed after an entry was written to a scratch file: its path, and before that, apart
from the output, its name. -/
def announcement (options : Options) (name path : String) : String × String :=
  if options.isVeryQuiet then ("", "")
  else (path ++ "\n", if options.isQuiet then "" else "  extracting: " ++ name ++ "\n")

/-- The outcome of a run that succeeded. -/
def success (tree : FileTree) (output : Bytes) (messages : String) : Outcome :=
  ⟨0, output, messages, tree⟩

/-- The outcome of a run that failed. -/
def failure (tree : FileTree) (problem : Problem) : Outcome :=
  ⟨1, [], problem.text, tree⟩

/-- Extract an entry of an open handle. -/
def extractEntry (options : Options) (session : Session) (tree : FileTree) (handle : Handle) :
    Outcome :=
  match chosenEntry options handle with
  | .error problem => failure tree problem
  | .ok name =>
    let context := "cannot extract " ++ name
    if options.pipe then
      match during context (handle.extract tree name) with
      | .error problem => failure tree problem
      | .ok contents => success tree contents.bytes ""
    else
      let extraction := session.extractToScratch tree handle name
      match during context extraction.result with
      | .error problem => failure extraction.tree problem
      | .ok path =>
        let (output, messages) := announcement options name path
        success extraction.tree (textBytes output) messages

/-- The program with given options. -/
def run (options : Options) (tree : FileTree) (temporary token : String) : Outcome :=
  let session := Session.new 0 (options.settings temporary) token
  let opening := session.openContainer tree options.file
  match during ("cannot open " ++ options.file) opening.result with
  | .error problem => failure opening.tree problem
  | .ok handle =>
    if options.list || options.verbose then
      match listEntries options handle with
      | .error problem => failure opening.tree problem
      | .ok text => success opening.tree (textBytes text) ""
    else extractEntry options opening.session opening.tree handle

/-! ### Calls -/

def versionText : String := "romzip 0.1.0\n"

/-- The lines of the help text. What the environment says about the scratch directory is shown with
the option that it stands in for. -/
def helpLines (scratchRoot : Option String) : List String :=
  ["Find the ROM inside a ZIP and hand it to a loader as a plain file",
    "",
    "Usage: romzip [OPTIONS] <FILE> [ENTRY]",
    "",
    "Arguments:",
    "  <FILE>   ZIP file path",
    "  [ENTRY]  Entry to extract instead of searching for one",
    "",
    "Options:",
    "  -l                   List entries (short format)",
    "  -v                   List entries verbosely",
    "  -e, --ext <EXT>      Wanted media extensions, most preferred first (default: built-in list)",
    "  -d <DIR>             Scratch directory for extracted files [env: ROMZIP_SCRATCH_DIR="
      ++ scratchRoot.getD "" ++ "]",
    "  -p                   Write the selected entry to stdout instead of the scratch directory",
    "      --counter-names  Name scratch files temp_<n>_<name>, without the per-run token",
    "      --no-overwrite   Fail instead of overwriting an existing scratch file",
    "      --strict         Fail when any entry's metadata is unreadable instead of skipping it",
    "  -q...                Quiet mode (-qq => quieter)",
    "  -h, --help           Print help",
    "  -V, --version        Print version",
    "",
    "Examples:",
    "  romzip games.zip                 extract the first disk/tape/cartridge image",
    "  romzip -e .d64,.t64 games.zip    only consider disk and tape images",
    "  romzip -v games.zip              list entries, marking media files",
    "  romzip -p games.zip | xxd        send the selected image to stdout"]

def helpText (scratchRoot : Option String) : String :=
  String.join ((helpLines scratchRoot).map (· ++ "\n"))

/-- Why a command line was refused, in one line. -/
def refusalText : CommandLine.Stop → String
  | .helpRequested => ""
  | .versionRequested => ""
  | .missingFile => "error: the required argument <FILE> was not provided\n"
  | .unknownArgument => "error: unexpected argument found\n"
  | .invalidValue => "error: a value is required for an option or an argument\n"
  | .repeatedOption => "error: an option cannot be used multiple times\n"
  | .unexpectedValue => "error: unexpected value for an option\n"

/-- The outcome of a call whose command line is not carried out. -/
def stopped (tree : FileTree) (scratchRoot : Option String) : CommandLine.Stop → Outcome
  | .helpRequested => success tree (textBytes (helpText scratchRoot)) ""
  | .versionRequested => success tree (textBytes versionText) ""
  | stop => ⟨2, [], refusalText stop, tree⟩

/-- The program with the arguments it was called with. -/
def runArguments (arguments : List String) (scratchRoot : Option String) (tree : FileTree)
    (temporary token : String) : Outcome :=
  match CommandLine.parse arguments scratchRoot with
  | .error stop => stopped tree scratchRoot stop
  | .ok options => run options tree temporary token

end Program

end RomArchive
