import RomArchive.Proofs.Walk

/-!
# Catalogs and lookups

A catalog is made by one walk along the directory, and a name is looked up by another. They differ
in what they do on the way. The catalog passes over a record that cannot be read, or gives up at it.
A lookup reads names only, and ends at the first record of its name, whether or not the rest of that
record can be read. A directory may have several records of one name, and since names are decoded
with replacements, records that store different names may still have the same one.

Both walks come to the same positions, and at each of them look at the same record. So the entries
of a catalog and the answers to lookups can be compared position by position: where the two seem to
disagree, a record that cannot be read stands in front of one of the same name.

## Main definitions

* `Directory.Visits`, `Directory.visited` — a walk comes to a position, and all of them in order
* `Directory.FirstNamed` — the position of the first record of a name
* `Cursor.listed?`, `Cursor.warning?` — what a position adds to a catalog
* `Directory.Agrees` — lookups of a name agree with the walk and with the catalogs

## Main results

* `Directory.mem_visited_iff` — the positions are the first one and those that follow
* `Directory.outcome_skip`, `Directory.outcome_abort_eq_ok_iff` — what catalogs list
* `Directory.lookup_agrees` — lookups agree with the walk and with the catalogs
-/

namespace RomArchive

/-! ### Positions of a walk -/

namespace Cursor

theorem self_mem_positions (cursor : Cursor) : cursor ∈ cursor.positions := by
  cases hnext : cursor.advance? with
  | none =>
    rw [positions_of_last hnext]
    exact List.mem_singleton_self cursor
  | some next =>
    rw [positions_of_next hnext]
    exact List.mem_cons_self

/-- A walk does not end where there is a next position. The induction is on the walk. -/
theorem next_mem_positions {start cursor next : Cursor} (h : cursor ∈ start.positions)
    (hnext : cursor.advance? = some next) : next ∈ start.positions := by
  induction start using positions.induct with
  | case1 start second hsecond ih =>
    rw [positions_of_next hsecond] at h ⊢
    refine List.mem_cons_of_mem _ ?_
    rcases List.mem_cons.1 h with rfl | hlater
    · rw [← Option.some.inj (hsecond.symm.trans hnext)]
      exact second.self_mem_positions
    · exact ih hlater
  | case2 start hlast =>
    rw [positions_of_last hlast] at h
    rw [List.mem_singleton.1 h, hlast] at hnext
    cases hnext

end Cursor

namespace Directory

/-- A walk comes to a position: it is the first one, or the next one after a position that the walk
comes to. -/
inductive Visits (directory : Directory) : Cursor → Prop
  | first {cursor : Cursor} (hfirst : directory.first = .ok cursor) : Visits directory cursor
  | next {cursor next : Cursor} (hvisits : Visits directory cursor)
      (hnext : cursor.advance? = some next) : Visits directory next

/-- The positions that a walk comes to, in order. There are none if there is not even a first
one. -/
def visited (directory : Directory) : List Cursor :=
  match directory.positions with
  | .ok cursors => cursors
  | .error _ => []

variable {directory : Directory} {name : String} {cursor : Cursor}

theorem visited_of_first (h : directory.first = .ok cursor) :
    directory.visited = cursor.positions := by
  rw [visited, positions, h]
  rfl

theorem visited_of_error {failure : Failure} (h : directory.first = .error failure) :
    directory.visited = [] := by
  rw [visited, positions, h]
  rfl

theorem Visits.of_mem_positions {start : Cursor} (hstart : directory.Visits start)
    (h : cursor ∈ start.positions) : directory.Visits cursor := by
  induction start using Cursor.positions.induct with
  | case1 start next hnext ih =>
    rw [Cursor.positions_of_next hnext] at h
    rcases List.mem_cons.1 h with rfl | hlater
    · exact hstart
    · exact ih (.next hstart hnext) hlater
  | case2 start hlast =>
    rw [Cursor.positions_of_last hlast] at h
    exact List.mem_singleton.1 h ▸ hstart

/-- **The positions are the first one and those that follow**, one after the other. -/
theorem mem_visited_iff : cursor ∈ directory.visited ↔ directory.Visits cursor := by
  constructor
  · intro h
    cases hfirst : directory.first with
    | error failure =>
      rw [visited_of_error hfirst] at h
      exact absurd h List.not_mem_nil
    | ok start =>
      rw [visited_of_first hfirst] at h
      exact Visits.of_mem_positions (.first hfirst) h
  · intro h
    induction h with
    | first hfirst =>
      rw [visited_of_first hfirst]
      exact Cursor.self_mem_positions _
    | next hvisits hnext ih =>
      cases hfirst : directory.first with
      | error failure =>
        rw [visited_of_error hfirst] at ih
        exact absurd ih List.not_mem_nil
      | ok start =>
        rw [visited_of_first hfirst] at ih ⊢
        exact Cursor.next_mem_positions ih hnext

/-! ### Lookups -/

/-- The first record of a name stands at this position. -/
def FirstNamed (directory : Directory) (name : String) (cursor : Cursor) : Prop :=
  ∃ earlier later, directory.visited = earlier ++ cursor :: later ∧
    (∀ other ∈ earlier, other.record.text ≠ name) ∧ cursor.record.text = name

theorem FirstNamed.mem (h : directory.FirstNamed name cursor) : cursor ∈ directory.visited := by
  obtain ⟨earlier, later, hvisited, -, -⟩ := h
  rw [hvisited]
  exact List.mem_append_right _ List.mem_cons_self

theorem FirstNamed.text (h : directory.FirstNamed name cursor) : cursor.record.text = name := by
  obtain ⟨_, _, _, _, hname⟩ := h
  exact hname

theorem firstNamed_iff : directory.FirstNamed name cursor ↔
    (directory.visited.find? fun cursor => cursor.record.text == name) = some cursor := by
  rw [List.find?_eq_some_iff_append, FirstNamed]
  constructor
  · rintro ⟨earlier, later, hvisited, hearlier, hname⟩
    exact ⟨beq_iff_eq.2 hname, earlier, later, hvisited, fun other hother => by
      simpa using hearlier other hother⟩
  · rintro ⟨hname, earlier, later, hvisited, hearlier⟩
    exact ⟨earlier, later, hvisited, fun other hother => by simpa using hearlier other hother,
      beq_iff_eq.1 hname⟩

/-- There is a first record of a name, or there is none at all. -/
theorem forall_ne_or_firstNamed (directory : Directory) (name : String) :
    (∀ cursor ∈ directory.visited, cursor.record.text ≠ name) ∨
      ∃ cursor, directory.FirstNamed name cursor := by
  cases hfind : directory.visited.find? fun cursor => cursor.record.text == name with
  | none =>
    refine Or.inl fun cursor hcursor hname => ?_
    exact List.find?_eq_none.1 hfind cursor hcursor (beq_iff_eq.2 hname)
  | some cursor => exact Or.inr ⟨cursor, firstNamed_iff.2 hfind⟩

theorem locate_eq (directory : Directory) (name : String) : directory.locate name =
    match directory.visited.find? fun cursor => cursor.record.text == name with
    | some cursor => cursor.record.member
    | none => .error (.entryNotFound name) := by
  rw [locate, visited]
  cases directory.positions with
  | ok cursors => rfl
  | error failure => rfl

/-- The first record of a name decides, readable or not. -/
theorem FirstNamed.locate (h : directory.FirstNamed name cursor) :
    directory.locate name = cursor.record.member := by
  rw [locate_eq, firstNamed_iff.1 h]

theorem locate_of_forall_ne (h : ∀ cursor ∈ directory.visited, cursor.record.text ≠ name) :
    directory.locate name = .error (.entryNotFound name) := by
  cases hfind : directory.visited.find? fun cursor => cursor.record.text == name with
  | none => rw [locate_eq, hfind]
  | some cursor =>
    have hfirst := firstNamed_iff.2 hfind
    exact absurd hfirst.text (h cursor hfirst.mem)

end Directory

/-! ### Catalogs -/

namespace Cursor

variable {cursor : Cursor}

/-- The entry that a position adds to a catalog, if its record can be read. -/
def listed? (cursor : Cursor) : Option CatalogEntry :=
  match cursor.record.member with
  | .ok member => some member.catalogEntry
  | .error _ => none

/-- The warning that a position gives if it is passed over. -/
def warning? (cursor : Cursor) : Option Warning :=
  match cursor.record.member with
  | .ok _ => none
  | .error cause => some (.skippedRecord cursor.index cause)

theorem listed?_eq_some_iff {entry : CatalogEntry} : cursor.listed? = some entry ↔
    ∃ member, cursor.record.member = .ok member ∧ member.catalogEntry = entry := by
  rw [listed?]
  cases cursor.record.member with
  | ok member => simp
  | error cause => simp

/-- An entry has the name of its record. -/
theorem name_of_listed? {entry : CatalogEntry} (h : cursor.listed? = some entry) :
    entry.name = cursor.record.text := by
  obtain ⟨member, hmember, rfl⟩ := listed?_eq_some_iff.1 h
  exact (Record.text_of_member hmember).symm

end Cursor

/-- Where unreadable records are passed over, each position adds an entry or gives a warning. -/
theorem Listing.ofPositions_skip (cursors : List Cursor) : Listing.ofPositions .skip cursors
    = ⟨.ok (cursors.filterMap Cursor.listed?), cursors.filterMap Cursor.warning?⟩ := by
  induction cursors with
  | nil => rfl
  | cons cursor cursors ih =>
    rw [List.filterMap_cons, List.filterMap_cons, Cursor.listed?, Cursor.warning?]
    cases hmember : cursor.record.member with
    | ok member =>
      simp only [ofPositions, hmember, ih]
      rfl
    | error cause => simp only [ofPositions, hmember, ih]

/-- Where they are not, there is a catalog only if every position adds an entry. -/
theorem Listing.outcome_ofPositions_abort {entries : List CatalogEntry} (cursors : List Cursor) :
    (Listing.ofPositions .abort cursors).outcome = .ok entries ↔
      cursors.map Cursor.listed? = entries.map some := by
  induction cursors generalizing entries with
  | nil =>
    constructor
    · rintro ⟨⟩
      rfl
    · intro h
      rw [List.map_eq_nil_iff.1 h.symm]
      rfl
  | cons cursor cursors ih =>
    rw [List.map_cons, Cursor.listed?]
    cases hmember : cursor.record.member with
    | error cause =>
      simp only [ofPositions, hmember]
      constructor
      · rintro ⟨⟩
      · intro h
        cases entries <;> cases h
    | ok member =>
      simp only [ofPositions, hmember]
      constructor
      · intro h
        cases hrest : (ofPositions .abort cursors).outcome with
        | error failure =>
          rw [hrest] at h
          cases h
        | ok others =>
          rw [hrest] at h
          cases h
          rw [ih.1 hrest, List.map_cons]
      · intro h
        cases entries with
        | nil => cases h
        | cons entry entries =>
          obtain ⟨hentry, hentries⟩ := List.cons.inj h
          rw [ih.2 hentries, ← Option.some.inj hentry]
          rfl

namespace Directory

variable {directory : Directory} {name : String} {entries : List CatalogEntry}

/-- **A catalog lists every record that can be read**, if others may be passed over. -/
theorem outcome_skip (directory : Directory) :
    (directory.catalog .skip).outcome = .ok (directory.visited.filterMap Cursor.listed?) := by
  rw [catalog, visited]
  cases directory.positions with
  | ok cursors =>
    simp only
    rw [Listing.ofPositions_skip]
  | error cause => rfl

/-- **If not, it lists every record**, and there is none as soon as one cannot be read. -/
theorem outcome_abort_eq_ok_iff : (directory.catalog .abort).outcome = .ok entries ↔
    directory.visited.map Cursor.listed? = entries.map some := by
  rw [catalog, visited]
  cases directory.positions with
  | ok cursors => exact Listing.outcome_ofPositions_abort cursors
  | error cause =>
    constructor
    · rintro ⟨⟩
      rfl
    · intro h
      rw [List.map_eq_nil_iff.1 h.symm]

/-! ### Catalogs and lookups -/

/-- The first entry of a name, if the first record of that name can be read, is that record's. -/
theorem FirstNamed.find?_entry {cursor : Cursor} {entry : CatalogEntry}
    (h : directory.FirstNamed name cursor) (hentry : cursor.listed? = some entry) :
    (directory.visited.filterMap Cursor.listed?).find? (·.name == name) = some entry := by
  obtain ⟨earlier, later, hvisited, hearlier, hname⟩ := h
  have hnone : (earlier.filterMap Cursor.listed?).find? (·.name == name) = none := by
    refine List.find?_eq_none.2 fun other hother hsame => ?_
    obtain ⟨position, hposition, hadds⟩ := List.mem_filterMap.1 hother
    exact hearlier position hposition (Cursor.name_of_listed? hadds ▸ beq_iff_eq.1 hsame)
  have hthis : (entry.name == name) = true :=
    beq_iff_eq.2 ((Cursor.name_of_listed? hentry).trans hname)
  rw [hvisited, List.filterMap_append, List.find?_append, hnone, Option.none_or,
    List.filterMap_cons_some hentry]
  exact List.find?_cons_of_pos (p := fun entry : CatalogEntry => entry.name == name) hthis

/-- An entry of a name comes from a record of that name. -/
theorem exists_of_find?_entry {entry : CatalogEntry}
    (h : (directory.visited.filterMap Cursor.listed?).find? (·.name == name) = some entry) :
    ∃ cursor ∈ directory.visited, cursor.record.text = name := by
  obtain ⟨cursor, hcursor, hentry⟩ := List.mem_filterMap.1 (List.mem_of_find?_eq_some h)
  have hname : (entry.name == name) = true :=
    List.find?_some (p := fun entry : CatalogEntry => entry.name == name) h
  exact ⟨cursor, hcursor, Cursor.name_of_listed? hentry ▸ beq_iff_eq.1 hname⟩

/-- A lookup fails on a record exactly if that is the first of its name and cannot be read. -/
theorem locate_eq_unreadable_iff {fault : RecordFault} :
    directory.locate name = .error (.unreadableEntry name fault) ↔
      ∃ cursor, directory.FirstNamed name cursor ∧ cursor.record.metadata = .error fault := by
  constructor
  · intro h
    rcases directory.forall_ne_or_firstNamed name with hnone | ⟨cursor, hfirst⟩
    · rw [locate_of_forall_ne hnone] at h
      cases h
    · rw [hfirst.locate] at h
      obtain ⟨cause, hcause, hmetadata⟩ := Record.metadata_of_failure h
      cases hcause
      exact ⟨cursor, hfirst, hmetadata⟩
  · rintro ⟨cursor, hfirst, hmetadata⟩
    rw [hfirst.locate, Record.member_of_fault hmetadata, hfirst.text]

/-- A name is not found exactly if no record has it. -/
theorem locate_eq_entryNotFound_iff : directory.locate name = .error (.entryNotFound name) ↔
    ∀ cursor ∈ directory.visited, cursor.record.text ≠ name := by
  constructor
  · intro h cursor hcursor hname
    rcases directory.forall_ne_or_firstNamed name with hnone | ⟨first, hfirst⟩
    · exact hnone cursor hcursor hname
    · rw [hfirst.locate] at h
      obtain ⟨fault, hfault, -⟩ := Record.metadata_of_failure h
      cases hfault
  · exact locate_of_forall_ne

/-- If an entry of a name is listed, a lookup finds the first one, unless a record in front of it
cannot be read. -/
theorem locate_of_find?_entry {entry : CatalogEntry}
    (h : (directory.visited.filterMap Cursor.listed?).find? (·.name == name) = some entry) :
    (∃ member, directory.locate name = .ok member ∧ member.catalogEntry = entry) ∨
      ∃ fault, directory.locate name = .error (.unreadableEntry name fault) := by
  obtain ⟨named, hnamed, hname⟩ := exists_of_find?_entry h
  rcases directory.forall_ne_or_firstNamed name with hnone | ⟨cursor, hfirst⟩
  · exact absurd hname (hnone named hnamed)
  · cases hmember : cursor.record.member with
    | ok member =>
      have hadds : cursor.listed? = some member.catalogEntry :=
        Cursor.listed?_eq_some_iff.2 ⟨member, hmember, rfl⟩
      have hsame := (hfirst.find?_entry hadds).symm.trans h
      exact Or.inl ⟨member, hfirst.locate.trans hmember, Option.some.inj hsame⟩
    | error failure =>
      obtain ⟨fault, -, hmetadata⟩ := Record.metadata_of_failure hmember
      exact Or.inr ⟨fault, locate_eq_unreadable_iff.2 ⟨cursor, hfirst, hmetadata⟩⟩

/-- Where every record is listed, exactly the listed names are found. -/
theorem exists_locate_iff_of_abort (h : (directory.catalog .abort).outcome = .ok entries) :
    (∃ member, directory.locate name = .ok member) ↔ ∃ entry ∈ entries, entry.name = name := by
  have hlisted := outcome_abort_eq_ok_iff.1 h
  have hadds : ∀ cursor ∈ directory.visited,
      ∃ entry ∈ entries, cursor.listed? = some entry := by
    intro cursor hcursor
    have hmem : cursor.listed? ∈ entries.map some := hlisted ▸ List.mem_map_of_mem hcursor
    obtain ⟨entry, hentry, hsome⟩ := List.mem_map.1 hmem
    exact ⟨entry, hentry, hsome.symm⟩
  constructor
  · rintro ⟨member, hmember⟩
    rcases directory.forall_ne_or_firstNamed name with hnone | ⟨cursor, hfirst⟩
    · rw [locate_of_forall_ne hnone] at hmember
      cases hmember
    · obtain ⟨entry, hentry, hsome⟩ := hadds cursor hfirst.mem
      exact ⟨entry, hentry, (Cursor.name_of_listed? hsome).trans hfirst.text⟩
  · rintro ⟨entry, hentry, hname⟩
    have hmem : some entry ∈ directory.visited.map Cursor.listed? :=
      hlisted ▸ List.mem_map_of_mem hentry
    obtain ⟨named, hnamed, hsome⟩ := List.mem_map.1 hmem
    rcases directory.forall_ne_or_firstNamed name with hnone | ⟨cursor, hfirst⟩
    · exact absurd ((Cursor.name_of_listed? hsome).symm.trans hname) (hnone named hnamed)
    · obtain ⟨first, -, hreads⟩ := hadds cursor hfirst.mem
      obtain ⟨member, hmember, -⟩ := Cursor.listed?_eq_some_iff.1 hreads
      exact ⟨member, hfirst.locate.trans hmember⟩

/-- Lookups of a name agree with the walk and with the catalogs. -/
structure Agrees (directory : Directory) (name : String) : Prop where
  /-- A name is not found exactly if the walk comes to no record of that name. -/
  missing : directory.locate name = .error (.entryNotFound name) ↔
    ∀ cursor, directory.Visits cursor → cursor.record.text ≠ name
  /-- If it comes to any, the first of them decides. -/
  first : (∀ cursor, directory.Visits cursor → cursor.record.text ≠ name) ∨
    ∃ cursor, directory.FirstNamed name cursor ∧ directory.locate name = cursor.record.member
  /-- The first entry of this name in the catalog that passes over records is what is found, unless
  the first record of the name was passed over. -/
  listed : ∃ entries, (directory.catalog .skip).outcome = .ok entries ∧
    ∀ entry, entries.find? (·.name == name) = some entry →
      directory.locate name ≠ .error (.entryNotFound name) ∧
      ((∃ member, directory.locate name = .ok member ∧ member.catalogEntry = entry) ∨
        ∃ fault, directory.locate name = .error (.unreadableEntry name fault))
  /-- Lookups fail on a record exactly if it is the first of its name and cannot be read. -/
  unreadable : ∀ fault, directory.locate name = .error (.unreadableEntry name fault) ↔
    ∃ cursor, directory.FirstNamed name cursor ∧ cursor.record.metadata = .error fault
  /-- If there is a catalog that passes over nothing, its names are those that are found. -/
  strict : ∀ entries, (directory.catalog .abort).outcome = .ok entries →
    ((∃ member, directory.locate name = .ok member) ↔ ∃ entry ∈ entries, entry.name = name)

/-- **Lookups agree with the walk and with the catalogs**, in every directory: its bytes may be any,
and so may be the number of records that it declares. -/
theorem lookup_agrees (directory : Directory) (name : String) : directory.Agrees name where
  missing := by
    simp only [← mem_visited_iff]
    exact locate_eq_entryNotFound_iff
  first := by
    simp only [← mem_visited_iff]
    rcases directory.forall_ne_or_firstNamed name with hnone | ⟨cursor, hfirst⟩
    · exact Or.inl hnone
    · exact Or.inr ⟨cursor, hfirst, hfirst.locate⟩
  listed := by
    refine ⟨_, directory.outcome_skip, fun entry hentry => ?_⟩
    have hfound := locate_of_find?_entry hentry
    refine ⟨fun hmissing => ?_, hfound⟩
    rcases hfound with ⟨member, hmember, -⟩ | ⟨fault, hfault⟩
    · cases hmissing.symm.trans hmember
    · cases hmissing.symm.trans hfault
  unreadable := fun fault => locate_eq_unreadable_iff
  strict := fun entries hentries => exists_locate_iff_of_abort hentries

end Directory

end RomArchive
