import RomArchive.Proofs.Frames

/-!
# One walk under two policies

The two policies differ in what they do at a record that cannot be read: one gives a warning and
goes on, the other gives up. Both are the same walk up to there, and where every record can be read
there is nothing between them. A record that cannot be read costs the first policy one entry, and
the second the whole catalog; it never costs either of them a record behind it that was to be
listed, and no record is listed twice.

The walk is given here by its steps alone: a first position, and one after the other. A directory
without a first position has an empty walk, and under both policies an empty catalog. The positions
are numbered as they are met, which is how the record that the second policy gives up at can be told
from all others: it has the least number of those that cannot be read.

## Main definitions

* `Cursor.Walk`, `Directory.Walk` — a walk from a position on, and along a whole directory
* `Cursor.Readable` — the record at a position can be read
* `Directory.ListedAlong` — what the two policies make of a walk

## Main results

* `Directory.walk_iff` — there is one walk along a directory
* `Listing.outcome_ofPositions_abort_eq_error_iff` — which record is given up at
* `Directory.catalogs_agree` — the two catalogs of a directory
-/

namespace RomArchive

namespace Cursor

variable {start cursor next : Cursor} {cursors : List Cursor}

/-! ### Walks -/

/-- A walk from a position on: each position is one step behind the one before, and there is no step
behind the last. -/
inductive Walk : Cursor → List Cursor → Prop
  | last {cursor : Cursor} (hlast : cursor.advance? = none) : Walk cursor [cursor]
  | step {cursor next : Cursor} {cursors : List Cursor} (hnext : cursor.advance? = some next)
      (hwalk : Walk next cursors) : Walk cursor (cursor :: cursors)

theorem walk_positions (start : Cursor) : start.Walk start.positions := by
  induction start using positions.induct with
  | case1 start next hnext ih => exact positions_of_next hnext ▸ .step hnext ih
  | case2 start hlast => exact positions_of_last hlast ▸ .last hlast

theorem Walk.eq_positions (h : start.Walk cursors) : cursors = start.positions := by
  induction h with
  | last hlast => exact (positions_of_last hlast).symm
  | step hnext _ ih => rw [positions_of_next hnext, ih]

/-- A step leads to the next number. -/
theorem index_of_advance? (h : cursor.advance? = some next) : next.index = cursor.index + 1 := by
  simp only [advance?, Option.ite_none_right_eq_some] at h
  obtain ⟨-, h⟩ := h
  split at h
  · exact (Option.some.inj h) ▸ rfl
  · cases h

/-- The positions of a walk are numbered as they are met. -/
theorem Walk.index_eq (h : start.Walk cursors) :
    ∀ {i : Nat} {cursor : Cursor}, cursors[i]? = some cursor → cursor.index = start.index + i := by
  induction h with
  | last hlast =>
    rintro (_ | i) cursor hcursor
    · exact (Option.some.inj hcursor) ▸ rfl
    · simp at hcursor
  | step hnext _ ih =>
    rintro (_ | i) cursor hcursor
    · exact (Option.some.inj hcursor) ▸ rfl
    · rw [ih hcursor, index_of_advance? hnext]
      omega

/-- A position has a smaller number than all that follow it. -/
theorem Walk.ascending (h : start.Walk cursors) : cursors.Pairwise (·.index < ·.index) := by
  refine List.pairwise_iff_getElem.2 fun i j hi hj hij => ?_
  rw [h.index_eq (List.getElem?_eq_getElem hi), h.index_eq (List.getElem?_eq_getElem hj)]
  omega

/-- The record at a position can be read. -/
def Readable (cursor : Cursor) : Prop :=
  ∃ member, cursor.record.member = .ok member

theorem readable_or (cursor : Cursor) :
    cursor.Readable ∨ ∃ failure, cursor.record.member = .error failure := by
  rw [Readable]
  cases cursor.record.member with
  | ok member => exact Or.inl ⟨member, rfl⟩
  | error failure => exact Or.inr ⟨failure, rfl⟩

theorem Readable.warning? (h : cursor.Readable) : cursor.warning? = none := by
  obtain ⟨member, hmember⟩ := h
  rw [Cursor.warning?, hmember]

end Cursor

/-! ### Giving up -/

namespace Listing

variable {cursors : List Cursor} {cursor : Cursor}

theorem ofPositions_abort_of_error {failure : Failure}
    (h : cursor.record.member = .error failure) (cursors : List Cursor) :
    ofPositions .abort (cursor :: cursors) = ⟨.error failure, []⟩ := by
  simp only [ofPositions, h]

/-- A record that can be read is listed, and the walk goes on. -/
theorem ofPositions_abort_of_ok {member : Member} (h : cursor.record.member = .ok member)
    (cursors : List Cursor) : ofPositions .abort (cursor :: cursors)
      = ⟨(ofPositions .abort cursors).outcome.map (member.catalogEntry :: ·),
          (ofPositions .abort cursors).warnings⟩ := by
  simp only [ofPositions, h]

/-- Who gives up at the first record that cannot be read has nothing to warn of. -/
theorem warnings_ofPositions_abort (cursors : List Cursor) :
    (ofPositions .abort cursors).warnings = [] := by
  induction cursors with
  | nil => rfl
  | cons cursor cursors ih =>
    rcases cursor.readable_or with ⟨member, hmember⟩ | ⟨failure, hfailure⟩
    · rw [ofPositions_abort_of_ok hmember, ih]
    · rw [ofPositions_abort_of_error hfailure]

/-- Where every record can be read, nothing is passed over and nothing is given up. -/
theorem ofPositions_abort_of_forall (h : ∀ cursor ∈ cursors, cursor.Readable) :
    ofPositions .abort cursors = ⟨.ok (cursors.filterMap Cursor.listed?), []⟩ := by
  induction cursors with
  | nil => rfl
  | cons cursor cursors ih =>
    obtain ⟨member, hmember⟩ := h cursor List.mem_cons_self
    have hentry : cursor.listed? = some member.catalogEntry :=
      Cursor.listed?_eq_some_iff.2 ⟨member, hmember, rfl⟩
    have hrest := ih fun later hlater => h later (List.mem_cons_of_mem _ hlater)
    rw [ofPositions_abort_of_ok hmember, hrest, List.filterMap_cons_some hentry]
    rfl

/-- **What is given up at** is the first record that cannot be read. The induction is on the
positions: the first of them is that record, or it is in front of it. -/
theorem outcome_ofPositions_abort_eq_error_iff {failure : Failure} (cursors : List Cursor) :
    (ofPositions .abort cursors).outcome = .error failure ↔
      ∃ earlier cursor later, cursors = earlier ++ cursor :: later ∧
        (∀ other ∈ earlier, other.Readable) ∧ cursor.record.member = .error failure := by
  induction cursors with
  | nil => simp [ofPositions]
  | cons head cursors ih =>
    rcases head.readable_or with ⟨member, hmember⟩ | ⟨cause, hcause⟩
    · have hhead : ∀ failure, head.record.member ≠ .error failure := fun failure hfailure => by
        cases hmember.symm.trans hfailure
      have hlater : (ofPositions .abort (head :: cursors)).outcome = .error failure ↔
          (ofPositions .abort cursors).outcome = .error failure := by
        rw [ofPositions_abort_of_ok hmember]
        cases (ofPositions .abort cursors).outcome <;> simp [Except.map]
      rw [hlater, ih]
      constructor
      · rintro ⟨earlier, cursor, later, rfl, hearlier, hfailure⟩
        exact ⟨head :: earlier, cursor, later, rfl,
          List.forall_mem_cons.2 ⟨⟨member, hmember⟩, hearlier⟩, hfailure⟩
      · rintro ⟨earlier, cursor, later, hcursors, hearlier, hfailure⟩
        rcases List.cons_eq_append_iff.1 hcursors with ⟨-, hsame⟩ | ⟨front, rfl, hrest⟩
        · exact absurd ((List.cons.inj hsame).1 ▸ hfailure) (hhead failure)
        · exact ⟨front, cursor, later, hrest, fun other hother =>
            hearlier other (List.mem_cons_of_mem _ hother), hfailure⟩
    · rw [ofPositions_abort_of_error hcause]
      constructor
      · rintro ⟨⟩
        exact ⟨[], head, cursors, rfl, List.forall_mem_nil _, hcause⟩
      · rintro ⟨earlier, cursor, later, hcursors, hearlier, hfailure⟩
        rcases List.cons_eq_append_iff.1 hcursors with ⟨-, hsame⟩ | ⟨front, rfl, -⟩
        · obtain rfl : cursor = head := (List.cons.inj hsame).1
          exact congrArg Except.error (Except.error.inj (hcause.symm.trans hfailure))
        · obtain ⟨member, hmember⟩ := hearlier head List.mem_cons_self
          cases hcause.symm.trans hmember

end Listing

/-! ### Whole directories -/

namespace Directory

variable {directory : Directory} {cursors : List Cursor} {start : Cursor}

/-- The walk along a directory: from the first position on, if there is one. -/
inductive Walk (directory : Directory) : List Cursor → Prop
  | empty {failure : Failure} (hfirst : directory.first = .error failure) : Walk directory []
  | along {start : Cursor} {cursors : List Cursor} (hfirst : directory.first = .ok start)
      (hwalk : start.Walk cursors) : Walk directory cursors

/-- **There is one walk along a directory.** -/
theorem walk_iff : directory.Walk cursors ↔ cursors = directory.visited := by
  constructor
  · rintro (hfirst | ⟨hfirst, hwalk⟩)
    · exact (visited_of_error hfirst).symm
    · exact hwalk.eq_positions.trans (visited_of_first hfirst).symm
  · rintro rfl
    cases hfirst : directory.first with
    | error failure => exact visited_of_error hfirst ▸ .empty hfirst
    | ok start => exact visited_of_first hfirst ▸ .along hfirst start.walk_positions

theorem index_of_first (h : directory.first = .ok start) : start.index = 0 := by
  obtain ⟨-, length, -, rfl⟩ := first_eq_ok_iff.1 h
  rfl

theorem Walk.index_eq (h : directory.Walk cursors) {i : Nat} {cursor : Cursor}
    (hcursor : cursors[i]? = some cursor) : cursor.index = i := by
  rcases h with _ | ⟨hfirst, hwalk⟩
  · cases hcursor
  · rw [hwalk.index_eq hcursor, index_of_first hfirst, Nat.zero_add]

theorem Walk.ascending (h : directory.Walk cursors) : cursors.Pairwise (·.index < ·.index) := by
  rcases h with _ | ⟨-, hwalk⟩
  · exact List.Pairwise.nil
  · exact hwalk.ascending

theorem catalog_of_error {cause : Failure} (h : directory.first = .error cause)
    (policy : UnreadablePolicy) :
    directory.catalog policy = ⟨.ok [], [.nothingListable cause]⟩ := by
  rw [catalog, positions, h]
  rfl

theorem catalog_of_first (h : directory.first = .ok start) (policy : UnreadablePolicy) :
    directory.catalog policy = Listing.ofPositions policy directory.visited := by
  rw [visited_of_first h, catalog, positions, h]
  rfl

/-- A directory without a first position has the same outcome as an empty walk. -/
theorem outcome_catalog (directory : Directory) (policy : UnreadablePolicy) :
    (directory.catalog policy).outcome
      = (Listing.ofPositions policy directory.visited).outcome := by
  cases hfirst : directory.first with
  | error cause =>
    rw [catalog_of_error hfirst, visited_of_error hfirst]
    rfl
  | ok start => rw [catalog_of_first hfirst]

/-- What the two policies make of a walk. -/
structure ListedAlong (directory : Directory) (cursors : List Cursor) : Prop where
  /-- There is no other walk. -/
  unique : ∀ others, directory.Walk others → others = cursors
  numbered : ∀ (i : Nat) (cursor : Cursor), cursors[i]? = some cursor → cursor.index = i
  /-- Without a first position there is one warning and an empty catalog, under both policies. -/
  unlisted : ∀ cause, directory.first = .error cause → ∀ policy,
    directory.catalog policy = ⟨.ok [], [.nothingListable cause]⟩
  /-- Whoever passes over records always gets a catalog, with an entry for each record that can be
  read, in the order of the walk. -/
  passing : (directory.catalog .skip).outcome = .ok (cursors.filterMap Cursor.listed?)
  /-- There is a warning for each of the others, with its number and the reason, and no more. -/
  warned : ∀ start, directory.first = .ok start →
    (directory.catalog .skip).warnings = cursors.filterMap Cursor.warning?
  /-- Whoever gives up gets a catalog exactly if every record can be read. -/
  strict : (∃ entries, (directory.catalog .abort).outcome = .ok entries) ↔
    ∀ cursor ∈ cursors, cursor.Readable
  /-- It is then the same catalog, and nothing was passed over. -/
  same : (∀ cursor ∈ cursors, cursor.Readable) →
    directory.catalog .abort = directory.catalog .skip ∧
    ∀ index cause, .skippedRecord index cause ∉ (directory.catalog .skip).warnings
  /-- Otherwise the reason is that of the record with the least number among those that cannot be
  read. -/
  fails : ∀ failure, (directory.catalog .abort).outcome = .error failure ↔
    ∃ cursor ∈ cursors, cursor.record.member = .error failure ∧
      ∀ other ∈ cursors, other.index < cursor.index → other.Readable
  /-- Giving up gives no warnings of its own. -/
  silent : ∀ start, directory.first = .ok start → (directory.catalog .abort).warnings = []

/-- In front of a record stand those with smaller numbers. -/
theorem exists_split_iff (hascending : cursors.Pairwise (·.index < ·.index)) {cursor : Cursor}
    {p : Cursor → Prop} :
    (∃ earlier later, cursors = earlier ++ cursor :: later ∧ ∀ other ∈ earlier, p other) ↔
      cursor ∈ cursors ∧ ∀ other ∈ cursors, other.index < cursor.index → p other := by
  constructor
  · rintro ⟨earlier, later, rfl, hearlier⟩
    refine ⟨List.mem_append_right _ List.mem_cons_self, fun other hother hless => ?_⟩
    have hbehind := (List.pairwise_cons.1 (List.pairwise_append.1 hascending).2.1).1
    rcases List.mem_append.1 hother with hfront | hrest
    · exact hearlier other hfront
    · rcases List.mem_cons.1 hrest with rfl | hlater
      · exact absurd hless (Nat.lt_irrefl _)
      · exact absurd hless (Nat.lt_asymm (hbehind other hlater))
  · rintro ⟨hmem, hsmaller⟩
    obtain ⟨earlier, later, rfl⟩ := List.append_of_mem hmem
    have hfront := (List.pairwise_append.1 hascending).2.2
    exact ⟨earlier, later, rfl, fun other hother => hsmaller other
      (List.mem_append_left _ hother) (hfront other hother cursor List.mem_cons_self)⟩

theorem Walk.outcome_abort_eq_error_iff (h : directory.Walk cursors) {failure : Failure} :
    (directory.catalog .abort).outcome = .error failure ↔
      ∃ cursor ∈ cursors, cursor.record.member = .error failure ∧
        ∀ other ∈ cursors, other.index < cursor.index → other.Readable := by
  rw [outcome_catalog, ← walk_iff.1 h, Listing.outcome_ofPositions_abort_eq_error_iff]
  constructor
  · rintro ⟨earlier, cursor, later, hcursors, hearlier, hfailure⟩
    obtain ⟨hmem, hsmaller⟩ := (exists_split_iff h.ascending).1 ⟨earlier, later, hcursors, hearlier⟩
    exact ⟨cursor, hmem, hfailure, hsmaller⟩
  · rintro ⟨cursor, hmem, hfailure, hsmaller⟩
    obtain ⟨earlier, later, hcursors, hearlier⟩ :=
      (exists_split_iff h.ascending).2 ⟨hmem, hsmaller⟩
    exact ⟨earlier, cursor, later, hcursors, hearlier, hfailure⟩

/-- Where every record can be read, the policies come to the same. -/
theorem Walk.catalog_eq (h : directory.Walk cursors)
    (hreadable : ∀ cursor ∈ cursors, cursor.Readable) :
    directory.catalog .abort = directory.catalog .skip ∧
      ∀ index cause, .skippedRecord index cause ∉ (directory.catalog .skip).warnings := by
  rcases h with hfirst | ⟨hfirst, hwalk⟩
  · rw [catalog_of_error hfirst, catalog_of_error hfirst]
    exact ⟨rfl, by simp⟩
  · obtain rfl := hwalk.eq_positions
    have hwarnings : (Cursor.positions _).filterMap Cursor.warning? = [] :=
      List.filterMap_eq_nil_iff.2 fun cursor hcursor => (hreadable cursor hcursor).warning?
    rw [catalog_of_first hfirst, catalog_of_first hfirst, visited_of_first hfirst,
      Listing.ofPositions_abort_of_forall hreadable, Listing.ofPositions_skip, hwarnings]
    exact ⟨rfl, fun _ _ => List.not_mem_nil⟩

/-- There is a catalog that passes over nothing, or a record that cannot be read. -/
theorem Walk.exists_outcome_abort_iff (h : directory.Walk cursors) :
    (∃ entries, (directory.catalog .abort).outcome = .ok entries) ↔
      ∀ cursor ∈ cursors, cursor.Readable := by
  constructor
  · rintro ⟨entries, hentries⟩ cursor hcursor
    rw [outcome_abort_eq_ok_iff, ← walk_iff.1 h] at hentries
    have hlisted : cursor.listed? ∈ entries.map some := hentries ▸ List.mem_map_of_mem hcursor
    obtain ⟨entry, -, hentry⟩ := List.mem_map.1 hlisted
    obtain ⟨member, hmember, -⟩ := Cursor.listed?_eq_some_iff.1 hentry.symm
    exact ⟨member, hmember⟩
  · intro hreadable
    exact ⟨_, (congrArg Listing.outcome (h.catalog_eq hreadable).1).trans directory.outcome_skip⟩

/-- **The two catalogs of a directory**: passing over records lists what can be read, with a warning
for each record that cannot, and giving up fails at the first of these, or lists the same. -/
theorem catalogs_agree (directory : Directory) :
    ∃ cursors, directory.Walk cursors ∧ directory.ListedAlong cursors := by
  have hwalk : directory.Walk directory.visited := walk_iff.2 rfl
  refine ⟨directory.visited, hwalk, ?_⟩
  constructor
  case unique => exact fun others hothers => walk_iff.1 hothers
  case numbered => exact fun i cursor hcursor => hwalk.index_eq hcursor
  case unlisted => exact fun cause hfirst policy => catalog_of_error hfirst policy
  case passing => exact directory.outcome_skip
  case warned =>
    intro start hfirst
    rw [catalog_of_first hfirst, Listing.ofPositions_skip]
  case strict => exact hwalk.exists_outcome_abort_iff
  case same => exact hwalk.catalog_eq
  case fails => exact fun failure => hwalk.outcome_abort_eq_error_iff
  case silent =>
    intro start hfirst
    rw [catalog_of_first hfirst, Listing.warnings_ofPositions_abort]

/-- Three records, of which the second has no name. -/
def namelessSecond : Directory where
  bytes := [bareRecord [65] [] [], bareRecord [] [] [], bareRecord [66] [] []].flatMap Record.encode
  declared := 3

example :
    (namelessSecond.catalog .skip).outcome = .ok [⟨"A", 0, 0⟩, ⟨"B", 0, 0⟩] ∧
    (namelessSecond.catalog .skip).warnings = [.skippedRecord 1 (.unreadableEntry "" .emptyName)] ∧
    (namelessSecond.catalog .abort).outcome = .error (.unreadableEntry "" .emptyName) := by
  decide +kernel

end Directory

end RomArchive
