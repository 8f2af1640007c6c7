import RomArchive.Proofs.Program
import RomArchive.Proofs.Selection
import RomArchive.Proofs.Bounds.Guarded

/-!
# The table and the search

The table of a catalog marks the entries that count as media, and a search for media gives the
first of them. Each decides for itself what counts: the table has a rule for directories and a test
for everything else, and the search goes by one condition for both. A reader of the table takes the
first mark for what the program would extract, so the two have to agree.

The numbers in the table are another matter. It is printed in one pass over the catalog, in which
the sums grow along with the rows, and a percentage is taken of each row and of the sums. On a
machine each of these steps has to stay within 64 bits. The pass is written here once more with all
of its steps checked; that it comes to an end says that no sum and no product was too large, that
nothing was divided by zero, and that nothing was subtracted from less.

## Main definitions

* `Report.checkedPercent`, `Report.checkedTable` — the pass, each step of which may stop it
* `Report.files`, `Report.sumOf` — the entries that are added up, and their sums
* `Report.InRange` — sums and products of a catalog are numbers of 64 bits
* `Program.Tabulates` — what is printed of a catalog, and how it agrees with the search

## Main results

* `Report.find?_isMarked` — the first row with a mark is what the search finds
* `Report.totals_eq` — the last line adds up the files
* `Report.checkedTable_eq` — the pass comes to its end
* `Program.tabulates` — the printed table agrees with the search
-/

namespace RomArchive

/-! ### Checked steps -/

namespace Guarded

/-- A product, if it is a number of 64 bits. -/
def checkedMul (a b : Nat) : Option Nat :=
  if a * b < UInt64.size then some (a * b) else none

/-- A quotient, if there is one. -/
def checkedDiv (a b : Nat) : Option Nat :=
  if 0 < b then some (a / b) else none

/-- A difference, if it is not below zero. -/
def checkedSub (a b : Nat) : Option Nat :=
  if b ≤ a then some (a - b) else none

end Guarded

namespace Report

/-- The percentage that compression saves. -/
def checkedPercent (compressed uncompressed : Nat) : Option Nat :=
  if 0 < uncompressed ∧ compressed ≤ uncompressed then do
    let scaled ← Guarded.checkedMul compressed 100
    let kept ← Guarded.checkedDiv scaled uncompressed
    Guarded.checkedSub 100 kept
  else some 0

/-- The line of an entry. -/
def checkedRow (wanted : Option (List String)) (entry : CatalogEntry) : Option Row := do
  let saved ← checkedPercent entry.compressedSize entry.uncompressedSize
  return { row wanted entry with saved := saved }

/-- The sums with one more entry. -/
def Totals.checkedAdd (totals : Totals) (entry : CatalogEntry) : Option Totals :=
  if entry.isDirectory then some totals
  else do
    let uncompressed ← Guarded.checkedAdd totals.uncompressed entry.uncompressedSize
    let compressed ← Guarded.checkedAdd totals.compressed entry.compressedSize
    return ⟨uncompressed, compressed, totals.files + 1⟩

/-- One turn of the pass: the line of an entry behind those before it, and the sums so far. -/
def checkedTurn (wanted : Option (List String)) (printed : List Row × Totals)
    (entry : CatalogEntry) : Option (List Row × Totals) := do
  let row ← checkedRow wanted entry
  let totals ← printed.2.checkedAdd entry
  return (printed.1 ++ [row], totals)

/-- The pass: the lines, the sums, and the percentage of the sums. -/
def checkedTable (wanted : Option (List String)) (entries : List CatalogEntry) :
    Option (List Row × Totals × Nat) := do
  let (rows, totals) ← entries.foldlM (checkedTurn wanted) ([], ⟨0, 0, 0⟩)
  let saved ← checkedPercent totals.compressed totals.uncompressed
  return (rows, totals, saved)

/-! ### Percentages -/

theorem savedPercent_le (compressed uncompressed : Nat) :
    savedPercent compressed uncompressed ≤ 100 := by
  rw [savedPercent]
  split
  · exact Nat.sub_le _ _
  · exact Nat.zero_le _

/-- The product that a percentage is taken from is a number of 64 bits, if there is one. -/
def Scales (compressed uncompressed : Nat) : Prop :=
  0 < uncompressed → compressed ≤ uncompressed → compressed * 100 < UInt64.size

instance (compressed uncompressed : Nat) : Decidable (Scales compressed uncompressed) :=
  inferInstanceAs (Decidable (_ → _ → _))

/-- What is kept is at most all of it, so the difference is not below zero. -/
theorem checkedPercent_eq {compressed uncompressed : Nat} (h : Scales compressed uncompressed) :
    checkedPercent compressed uncompressed = some (savedPercent compressed uncompressed) := by
  rw [checkedPercent, savedPercent]
  split
  · rename_i hpercent
    obtain ⟨hpos, hle⟩ := hpercent
    have hkept : compressed * 100 / uncompressed ≤ 100 := by
      calc
        compressed * 100 / uncompressed ≤ uncompressed * 100 / uncompressed :=
          Nat.div_le_div_right (Nat.mul_le_mul_right 100 hle)
        _ = 100 := Nat.mul_div_cancel_left 100 hpos
    simp [Guarded.checkedMul, Guarded.checkedDiv, Guarded.checkedSub, h hpos hle, hpos, hkept]
  · rfl

/-! ### Sums -/

/-- The entries of a catalog that are added up. -/
def files (entries : List CatalogEntry) : List CatalogEntry :=
  entries.filter fun entry => !entry.isDirectory

/-- The sum of a number over a list of entries. -/
def sumOf (number : CatalogEntry → Nat) : List CatalogEntry → Nat
  | [] => 0
  | entry :: entries => number entry + sumOf number entries

variable {wanted : Option (List String)} {entry : CatalogEntry} {entries : List CatalogEntry}

theorem files_cons_of_directory (h : entry.isDirectory = true) :
    files (entry :: entries) = files entries := by
  simp [files, h]

theorem files_cons_of_file (h : entry.isDirectory = false) :
    files (entry :: entries) = entry :: files entries := by
  simp [files, h]

/-- The sums over more entries, when some were added up before. -/
theorem foldl_add (entries : List CatalogEntry) : ∀ totals : Totals,
    entries.foldl Totals.add totals
      = ⟨totals.uncompressed + sumOf CatalogEntry.uncompressedSize (files entries),
          totals.compressed + sumOf CatalogEntry.compressedSize (files entries),
          totals.files + (files entries).length⟩ := by
  induction entries with
  | nil =>
    intro totals
    rfl
  | cons entry entries ih =>
    intro totals
    rw [List.foldl_cons, ih, Totals.add]
    cases hdirectory : entry.isDirectory with
    | true => rw [if_pos rfl, files_cons_of_directory hdirectory]
    | false =>
      rw [if_neg Bool.false_ne_true, files_cons_of_file hdirectory]
      simp [sumOf, Nat.add_assoc, Nat.add_comm]

/-- **The last line adds up the files**, and counts them. -/
theorem totals_eq (entries : List CatalogEntry) : totals entries
    = ⟨sumOf CatalogEntry.uncompressedSize (files entries),
        sumOf CatalogEntry.compressedSize (files entries), (files entries).length⟩ := by
  simp [totals, foldl_add]

/-! ### The pass -/

/-- The sizes of a catalog keep within 64 bits what is computed from them: the sums over its files,
and the products that the percentages of its rows and of the sums are taken from. Sizes of
directories are not added up, but there is a percentage of them. -/
structure InRange (entries : List CatalogEntry) : Prop where
  uncompressed : sumOf CatalogEntry.uncompressedSize (files entries) < UInt64.size
  compressed : sumOf CatalogEntry.compressedSize (files entries) < UInt64.size
  rows : ∀ entry ∈ entries, Scales entry.compressedSize entry.uncompressedSize
  totals : Scales (sumOf CatalogEntry.compressedSize (files entries))
    (sumOf CatalogEntry.uncompressedSize (files entries))

theorem Totals.checkedAdd_eq {totals : Totals}
    (huncompressed : (totals.add entry).uncompressed < UInt64.size)
    (hcompressed : (totals.add entry).compressed < UInt64.size) :
    totals.checkedAdd entry = some (totals.add entry) := by
  rw [Totals.add] at huncompressed hcompressed
  rw [Totals.checkedAdd, Totals.add]
  split
  · rfl
  · rename_i hfile
    rw [if_neg hfile] at huncompressed hcompressed
    simp [Guarded.checkedAdd, huncompressed, hcompressed]

/-- The pass over the rest of a catalog. The sums only grow, so those at the end bound all others. -/
theorem foldlM_checkedTurn (wanted : Option (List String)) (entries : List CatalogEntry) :
    ∀ (earlier : List Row) (totals : Totals),
      (∀ entry ∈ entries, Scales entry.compressedSize entry.uncompressedSize) →
      (entries.foldl Totals.add totals).uncompressed < UInt64.size →
      (entries.foldl Totals.add totals).compressed < UInt64.size →
      entries.foldlM (checkedTurn wanted) (earlier, totals)
        = some (earlier ++ rows wanted entries, entries.foldl Totals.add totals) := by
  induction entries with
  | nil =>
    intro earlier totals _ _ _
    simp [rows]
  | cons entry entries ih =>
    intro earlier totals hscales huncompressed hcompressed
    rw [List.foldl_cons] at huncompressed hcompressed ⊢
    have hlast := foldl_add entries (totals.add entry)
    have hadd : totals.checkedAdd entry = some (totals.add entry) := by
      rw [hlast] at huncompressed hcompressed
      exact Totals.checkedAdd_eq (Nat.lt_of_le_of_lt (Nat.le_add_right _ _) huncompressed)
        (Nat.lt_of_le_of_lt (Nat.le_add_right _ _) hcompressed)
    have hrow : checkedRow wanted entry = some (row wanted entry) := by
      simp [checkedRow, checkedPercent_eq (hscales entry List.mem_cons_self), row]
    have hturn : checkedTurn wanted (earlier, totals) entry
        = some (earlier ++ [row wanted entry], totals.add entry) := by
      simp [checkedTurn, hrow, hadd]
    have hrest := ih (earlier ++ [row wanted entry]) (totals.add entry)
      (fun other hother => hscales other (List.mem_cons_of_mem _ hother)) huncompressed hcompressed
    simp [List.foldlM_cons, hturn, hrest, rows]

/-- **The pass comes to its end**, and then has printed the rows and the sums. -/
theorem checkedTable_eq (h : InRange entries) (wanted : Option (List String)) :
    checkedTable wanted entries
      = some (rows wanted entries, totals entries, (totals entries).saved) := by
  have hsums : entries.foldl Totals.add ⟨0, 0, 0⟩ = totals entries := rfl
  have hpass := foldlM_checkedTurn wanted entries [] ⟨0, 0, 0⟩ h.rows
    (by rw [hsums, totals_eq]; exact h.uncompressed) (by rw [hsums, totals_eq]; exact h.compressed)
  have hsaved : checkedPercent (totals entries).compressed (totals entries).uncompressed
      = some (totals entries).saved := by
    rw [Totals.saved, totals_eq]
    exact checkedPercent_eq h.totals
  simp [checkedTable, hpass, hsums, hsaved]

/-! ### Marks -/

theorem map_entry_rows (wanted : Option (List String)) (entries : List CatalogEntry) :
    (rows wanted entries).map Row.entry = entries := by
  rw [rows, List.map_map]
  exact List.map_id entries

/-- A row is marked if the search would stop at its entry. -/
theorem isMarked_row (wanted : Option (List String)) (entry : CatalogEntry) :
    (row wanted entry).isMarked
      = (!entry.isDirectory && EntryName.isSelected wanted entry.name) := by
  cases hdirectory : entry.isDirectory <;> simp [row, hdirectory]

/-- **The first row with a mark is what the search finds**, and there is none if it finds nothing. -/
theorem find?_isMarked (wanted : Option (List String)) (entries : List CatalogEntry) :
    ((rows wanted entries).find? Row.isMarked).map Row.entry = findMedia? entries wanted := by
  have hmarked : Row.isMarked ∘ row wanted
      = fun entry => !entry.isDirectory && EntryName.isSelected wanted entry.name := by
    funext entry
    exact isMarked_row wanted entry
  rw [rows, List.find?_map, hmarked, Option.map_map, findMedia?]
  exact Option.map_id_apply

/-- No star stands in a number, so in print the star that belongs to a row is behind the first
percent sign. -/
theorem Row.exists_text (row : Row) : ∃ numbers : String, '%' ∉ numbers.toList ∧
    row.text = numbers ++ "%" ++ "  " ++ (if row.isMarked then "*" else " ") ++ "  "
      ++ row.entry.name ++ "\n" := by
  have hright : ∀ (width number : Nat), '%' ∉ (right width number.repr).toList := by
    intro width number
    simp [right, Nat.repr, Scratch.notMem_toDigits]
  refine ⟨right 10 row.entry.uncompressedSize.repr ++ "  "
    ++ right 10 row.entry.compressedSize.repr ++ "  " ++ right 4 row.saved.repr, ?_, ?_⟩
  · simp [hright]
  · simp [Row.text, percentText, String.append_assoc]

end Report

/-! ### The program -/

namespace Program

open Report

/-- What is printed of an open handle whose catalog has these entries, and how it agrees with the
search for media. -/
structure Tabulates (options : Options) (handle : Handle) (entries : List CatalogEntry) : Prop where
  /-- However the program was called, once it has come to the handle it prints the table. -/
  printed : ∀ arguments scratchRoot tree temporary token,
    CommandLine.parse arguments scratchRoot = .ok options →
    ((options.freshSession temporary token).openContainer tree options.file).result = .ok handle →
      runArguments arguments scratchRoot tree temporary token = success tree (textBytes
        (heading ++ rule ++ String.join ((rows options.wanted entries).map Row.text) ++ rule
          ++ (totals entries).text)) ""
  /-- There is one row for each entry, in their order. -/
  listed : (rows options.wanted entries).map Row.entry = entries
  /-- In print, the mark of a row is the third sign behind its percentage. -/
  marks : ∀ row ∈ rows options.wanted entries, ∃ numbers : String, '%' ∉ numbers.toList ∧
    row.text = numbers ++ "%" ++ "  " ++ (if row.isMarked then "*" else " ") ++ "  "
      ++ row.entry.name ++ "\n"
  /-- The first row with a mark is that of the entry in the catalog at which the search stops. -/
  found : ((rows options.wanted entries).find? Row.isMarked).map Row.entry
    = findMedia? entries options.wanted
  /-- So it has the name that the search gives. -/
  first : ∀ name, handle.findMedia options.wanted = .ok name ↔
    ∃ earlier row later, rows options.wanted entries = earlier ++ row :: later ∧
      (∀ other ∈ earlier, other.isMarked = false) ∧ row.isMarked = true ∧ row.entry.name = name
  /-- The search finds nothing exactly if no row has a mark. -/
  unmarked : (∀ row ∈ rows options.wanted entries, row.isMarked = false) ↔
    handle.findMedia options.wanted = .error (.noMedia handle.sourcePath)
  directories : ∀ row ∈ rows options.wanted entries,
    row.entry.isDirectory = true → row.isMarked = false
  /-- The last line adds up the files, and directories do not count. -/
  sums : totals entries = ⟨sumOf CatalogEntry.uncompressedSize (files entries),
    sumOf CatalogEntry.compressedSize (files entries), (files entries).length⟩
  percentages : (∀ row ∈ rows options.wanted entries, row.saved ≤ 100) ∧
    (totals entries).saved ≤ 100
  /-- All of it is computed in 64 bits. -/
  checked : checkedTable options.wanted entries
    = some (rows options.wanted entries, totals entries, (totals entries).saved)

variable {options : Options} {handle : Handle} {container : OpenContainer}

/-- The search gives the name of the first row with a mark, or that there is none. -/
theorem findMedia_eq (hopen : handle.container = some container) (wanted : Option (List String)) :
    handle.findMedia wanted = match (rows wanted container.catalog).find? Row.isMarked with
      | some row => .ok row.entry.name
      | none => .error (.noMedia handle.sourcePath) := by
  have hfound := find?_isMarked wanted container.catalog
  cases hrow : (rows wanted container.catalog).find? Row.isMarked with
  | none =>
    rw [hrow] at hfound
    exact Handle.findMedia_of_none hopen hfound.symm
  | some row =>
    rw [hrow] at hfound
    exact Handle.findMedia_of_some hopen hfound.symm

theorem findMedia_eq_ok_iff (hopen : handle.container = some container)
    {wanted : Option (List String)} {name : String} : handle.findMedia wanted = .ok name ↔
      ∃ row, (rows wanted container.catalog).find? Row.isMarked = some row ∧
        row.entry.name = name := by
  rw [findMedia_eq hopen]
  split
  · rename_i row hrow
    simp [hrow]
  · rename_i hnone
    simp [hnone]

theorem findMedia_eq_noMedia_iff (hopen : handle.container = some container)
    {wanted : Option (List String)} :
    handle.findMedia wanted = .error (.noMedia handle.sourcePath) ↔
      (rows wanted container.catalog).find? Row.isMarked = none := by
  rw [findMedia_eq hopen]
  split
  · rename_i row hrow
    simp [hrow]
  · rename_i hnone
    simp [hnone]

/-- A run that is asked for the table prints it. -/
theorem runArguments_of_verbose (hverbose : options.verbose = true)
    (hopen : handle.container = some container) {arguments : List String}
    {scratchRoot : Option String} {tree : FileTree} {temporary token : String}
    (hparse : CommandLine.parse arguments scratchRoot = .ok options)
    (hhandle : ((options.freshSession temporary token).openContainer tree options.file).result
      = .ok handle) :
    runArguments arguments scratchRoot tree temporary token
      = success tree (textBytes (table options.wanted container.catalog)) "" := by
  have htree := (options.freshSession temporary token).tree_openContainer tree options.file
  have hlist : listEntries options handle
      = .ok (table options.wanted container.catalog) := by
    rw [listEntries, Handle.entries_of_container hopen, hverbose]
    rfl
  rw [runArguments, hparse]
  simp only [run]
  rw [← Options.freshSession, hhandle, htree, during_ok]
  simp [hverbose, hlist]

/-- A directory record of this name and these sizes. -/
def mixedRecord (name : String) (uncompressed compressed : UInt32) : Record :=
  { Packing.storedSample.record 0 with
    name := PathText.bytes name
    uncompressedSize := uncompressed
    compressedSize := compressed }

/-- A directory with an extension, an empty file, and two files of one name, of which the first has
grown. -/
def mixedRecords : List Record :=
  [mixedRecord "disk.d64/" 50 20, mixedRecord "EMPTY.TXT" 0 0, mixedRecord "GAME.PRG" 3 7,
    mixedRecord "GAME.PRG" 100 50]

def mixedCatalog : List CatalogEntry :=
  [⟨"disk.d64/", 50, 20⟩, ⟨"EMPTY.TXT", 0, 0⟩, ⟨"GAME.PRG", 3, 7⟩, ⟨"GAME.PRG", 100, 50⟩]

def mixedTree : FileTree :=
  FileTree.empty.provide "games.zip" (mixedRecords.flatMap Record.encode ++ EndRecord.encode {
    disk := 0
    directoryDisk := 0
    diskEntries := 4
    totalEntries := 4
    directorySize := .ofNat (mixedRecords.flatMap Record.encode).length
    directoryOffset := 0
    commentLength := 0 })

def mixedOptions : Options :=
  { Options.ofFile "games.zip" with verbose := true }

end Program

end RomArchive
