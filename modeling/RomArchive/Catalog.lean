import RomArchive.Directory

/-!
# Catalogs

The catalog of a container lists its entries in the order of the directory. It is made once, when
the container is opened. A record whose metadata cannot be read is either left out, with a
warning, or fails the whole listing, as the policy says; a directory without a single record that
can be framed gives an empty catalog and a warning under both.

## Main definitions

* `CatalogEntry` — one line of the catalog.
* `UnreadablePolicy` — what to do about a record that cannot be read.
* `Warning` — what is worth telling although nothing failed.
* `Directory.catalog` — the catalog, with the warnings of making it.
* `findMedia?` — the first entry with a wanted extension.
-/

namespace RomArchive

/-- One line of the catalog. -/
structure CatalogEntry where
  name : String
  uncompressedSize : Nat
  compressedSize : Nat
  deriving DecidableEq

def CatalogEntry.isDirectory (entry : CatalogEntry) : Bool :=
  EntryName.isDirectory entry.name

/-- The catalog's view of a member. -/
def Member.catalogEntry (member : Member) : CatalogEntry where
  name := member.name
  uncompressedSize := member.uncompressedSize
  compressedSize := member.compressedSize

/-- What to do about a record whose metadata cannot be read. -/
inductive UnreadablePolicy where
  | skip
  | abort
  deriving DecidableEq

/-- What is worth telling although nothing failed. -/
inductive Warning where
  | nothingListable (cause : Failure)
  | skippedRecord (index : Nat) (cause : Failure)
  | leftOpen (id : Nat)
  deriving DecidableEq

/-- The wording of a warning. -/
def Warning.message : Warning → String
  | nothingListable cause => "archive has no listable entries: " ++ cause.message
  | skippedRecord index cause => "skipping record " ++ index.repr ++ ": " ++ cause.message
  | leftOpen id => "closing handle #" ++ id.repr ++ " left open at shutdown"

/-- A catalog, or why there is none, and the warnings of making it. -/
structure Listing where
  outcome : Except Failure (List CatalogEntry)
  warnings : List Warning

namespace Listing

/-- The listing of these positions. -/
def ofPositions (policy : UnreadablePolicy) : List Cursor → Listing
  | [] => ⟨.ok [], []⟩
  | cursor :: cursors =>
    match cursor.record.member, policy with
    | .ok member, _ =>
      let later := ofPositions policy cursors
      { later with outcome := later.outcome.map (member.catalogEntry :: ·) }
    | .error cause, .skip =>
      let later := ofPositions policy cursors
      { later with warnings := .skippedRecord cursor.index cause :: later.warnings }
    | .error cause, .abort => ⟨.error cause, []⟩

end Listing

/-- The catalog of a directory. -/
def Directory.catalog (directory : Directory) (policy : UnreadablePolicy) : Listing :=
  match directory.positions with
  | .ok cursors => Listing.ofPositions policy cursors
  | .error cause => ⟨.ok [], [.nothingListable cause]⟩

/-- The first entry that is no directory and has a wanted extension. The order of the catalog
decides between several, not the order of the extensions. -/
def findMedia? (entries : List CatalogEntry) (wanted : Option (List String)) :
    Option CatalogEntry :=
  entries.find? fun entry => !entry.isDirectory && EntryName.isSelected wanted entry.name

end RomArchive
