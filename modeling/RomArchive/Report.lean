import RomArchive.Catalog

/-!
# Catalogs in print

A catalog is printed either as one name per line or as a table of sizes. In the table a star marks
the entries that count as media, which are those that a search for media chooses among. The last
line adds up the files; directories are listed but not counted.

## Main definitions

* `Report.names` — one name per line.
* `Report.Row`, `Report.rows` — the lines of the table.
* `Report.Totals`, `Report.totals` — its last line.
* `Report.table` — the table in print.
-/

namespace RomArchive

namespace Report

/-- One name per line. -/
def names (entries : List CatalogEntry) : String :=
  String.join (entries.map fun entry => entry.name ++ "\n")

/-! ### The lines of the table -/

/-- The percentage that compression saves, or nothing where there is nothing to save or the data
grew. -/
def savedPercent (compressed uncompressed : Nat) : Nat :=
  if 0 < uncompressed ∧ compressed ≤ uncompressed then 100 - compressed * 100 / uncompressed
  else 0

/-- A line of the table. -/
structure Row where
  entry : CatalogEntry
  saved : Nat
  isMarked : Bool
  deriving DecidableEq

/-- The line of an entry. -/
def row (wanted : Option (List String)) (entry : CatalogEntry) : Row where
  entry := entry
  saved := savedPercent entry.compressedSize entry.uncompressedSize
  isMarked := if entry.isDirectory then false else EntryName.isSelected wanted entry.name

/-- The lines of a catalog. -/
def rows (wanted : Option (List String)) (entries : List CatalogEntry) : List Row :=
  entries.map (row wanted)

/-- The last line of the table. -/
structure Totals where
  uncompressed : Nat
  compressed : Nat
  files : Nat
  deriving DecidableEq

/-- The sums with one more entry. -/
def Totals.add (totals : Totals) (entry : CatalogEntry) : Totals :=
  if entry.isDirectory then totals
  else
    ⟨totals.uncompressed + entry.uncompressedSize, totals.compressed + entry.compressedSize,
      totals.files + 1⟩

/-- The sums over a catalog. -/
def totals (entries : List CatalogEntry) : Totals :=
  entries.foldl Totals.add ⟨0, 0, 0⟩

def Totals.saved (totals : Totals) : Nat :=
  savedPercent totals.compressed totals.uncompressed

/-! ### The table in print -/

/-- A text moved to the right end of a column. -/
def right (width : Nat) (text : String) : String :=
  String.ofList (List.replicate (width - text.length) ' ') ++ text

/-- A percentage in a column of five. -/
def percentText (percent : Nat) : String :=
  right 4 percent.repr ++ "%"

def rule : String :=
  String.ofList (List.replicate 60 '-') ++ "\n"

def heading : String :=
  right 10 "Length" ++ "  " ++ right 10 "Size" ++ "  " ++ right 5 "Cmpr" ++ "  M  Name\n"

def Row.text (row : Row) : String :=
  right 10 row.entry.uncompressedSize.repr ++ "  " ++ right 10 row.entry.compressedSize.repr
    ++ "  " ++ percentText row.saved ++ "  " ++ (if row.isMarked then "*" else " ") ++ "  "
    ++ row.entry.name ++ "\n"

def Totals.text (totals : Totals) : String :=
  right 10 totals.uncompressed.repr ++ "  " ++ right 10 totals.compressed.repr ++ "  "
    ++ percentText totals.saved ++ "     " ++ totals.files.repr ++ " files\n"

/-- The table in print. -/
def table (wanted : Option (List String)) (entries : List CatalogEntry) : String :=
  heading ++ rule ++ String.join ((rows wanted entries).map Row.text) ++ rule
    ++ (totals entries).text

end Report

end RomArchive
