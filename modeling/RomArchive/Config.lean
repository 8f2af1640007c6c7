import RomArchive.Catalog
import RomArchive.PathText

/-!
# Settings

The settings of a session: where extracted entries are written and under which names, what happens
to a file that is already there, what the catalog does with a record it cannot read, and the
largest entry that is extracted at all.

## Main definitions

* `ScratchNaming`, `ExistingPolicy`, `Settings` — the choices.
* `Settings.standard` — the choices made when nothing else is said.
-/

namespace RomArchive

/-- How scratch files are named: by a counter alone, or by a counter and the token of the
session. -/
inductive ScratchNaming where
  | counter
  | unique
  deriving DecidableEq

/-- What happens when a file is already at the path of a scratch file. -/
inductive ExistingPolicy where
  | overwrite
  | fail
  deriving DecidableEq

/-- The settings of a session. -/
structure Settings where
  scratchRoot : String
  naming : ScratchNaming
  existing : ExistingPolicy
  unreadable : UnreadablePolicy
  maxEntrySize : Nat
  deriving DecidableEq

namespace Settings

/-- The name of the scratch directory among the temporary files. -/
def scratchName : String := "romzip"

/-- Entries of more than 256 MiB are refused. -/
def standardMaxEntrySize : Nat := 256 * 1024 * 1024

/-- The scratch directory among the temporary files. -/
def standardScratchRoot (temporary : String) : String :=
  PathText.join temporary scratchName

/-- The settings when nothing is said but where temporary files go. -/
def standard (temporary : String) : Settings where
  scratchRoot := standardScratchRoot temporary
  naming := .unique
  existing := .overwrite
  unreadable := .skip
  maxEntrySize := standardMaxEntrySize

end Settings

end RomArchive
