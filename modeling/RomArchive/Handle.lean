import RomArchive.Catalog
import RomArchive.Directory.Load
import RomArchive.EntryData
import RomArchive.FileTree
import RomArchive.VerifiedBytes

/-!
# Handles of open containers

A handle stands for one open container. What it knows about the container was captured when it was
opened: the file, the directory and the catalog. Only the data of entries is read later, from
whatever the file holds by then, and checked against the captured sizes and checksums.

Once closed, a handle has nothing left of the container and every operation says so.

## Main definitions

* `OpenContainer`, `OpenContainer.capture` — what is captured, and how.
* `Handle` — a handle, open or closed.
* `Handle.entries`, `Handle.exists?`, `Handle.findMedia` — questions to the catalog.
* `Handle.extract` — the contents of an entry.
-/

namespace RomArchive

/-- What is captured of a container when it is opened. -/
structure OpenContainer where
  file : OpenFile
  directory : Directory
  catalog : List CatalogEntry
  deriving DecidableEq

/-- Open the container at a path. Its name is looked at first, then the file, then its directory,
and then the records. -/
def OpenContainer.capture (tree : FileTree) (policy : UnreadablePolicy) (path : String) :
    Except Failure OpenContainer × List Warning :=
  if EntryName.isContainer path = false then (.error (.notAContainer path), [])
  else
    match tree.openFile path with
    | .error fault => (.error (.device fault), [])
    | .ok file =>
      match (tree.source file).directory with
      | .error failure => (.error failure, [])
      | .ok directory =>
        let listing := directory.catalog policy
        (listing.outcome.map fun catalog => ⟨file, directory, catalog⟩, listing.warnings)

/-- A handle: the session that opened it and its number there, the path it was opened with, and the
container as long as it is open. -/
structure Handle where
  owner : Nat
  id : Nat
  sourcePath : String
  maxEntrySize : Nat
  container : Option OpenContainer
  deriving DecidableEq

namespace Handle

def isOpen (handle : Handle) : Bool :=
  handle.container.isSome

/-- The handle after its container was released. -/
def closed (handle : Handle) : Handle :=
  { handle with container := none }

/-- The open container. -/
def opened (handle : Handle) : Except Failure OpenContainer :=
  match handle.container with
  | some container => .ok container
  | none => .error .handleClosed

/-- The catalog, in the order of the directory. -/
def entries (handle : Handle) : Except Failure (List CatalogEntry) := do
  let container ← handle.opened
  return container.catalog

/-- Is there an entry of this name that is no directory? -/
def exists? (handle : Handle) (name : String) : Bool :=
  match handle.entries with
  | .ok entries => entries.any fun entry => entry.name == name && !entry.isDirectory
  | .error _ => false

/-- The name of the first entry with a wanted extension. -/
def findMedia (handle : Handle) (wanted : Option (List String)) : Except Failure String := do
  let entries ← handle.entries
  match findMedia? entries wanted with
  | some entry => return entry.name
  | none => throw (.noMedia handle.sourcePath)

/-- The metadata of the entry to extract under a name. The directory is asked and not the catalog,
so an entry that the catalog left out can be found. -/
def locate (handle : Handle) (name : String) : Except Failure (OpenContainer × Member) :=
  if name = "" then .error .emptyName
  else do
    let container ← handle.opened
    let member ← container.directory.locate name
    if member.isDirectory then throw (.entryNotFound name)
    else if handle.maxEntrySize < member.uncompressedSize then
      throw (.tooLarge name member.uncompressedSize handle.maxEntrySize)
    else return (container, member)

/-- The contents of an entry. -/
def extract (handle : Handle) (tree : FileTree) (name : String) :
    Except Failure VerifiedBytes := do
  let (container, member) ← handle.locate name
  let data ← (tree.source container.file).entryData member
  (Feed.ofDelivery data).verified name member.uncompressedSize member.checksum

end Handle

end RomArchive
