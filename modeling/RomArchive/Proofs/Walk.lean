import RomArchive.Catalog
import RomArchive.Proofs.Metadata

/-!
# Walking along a directory

A directory that consists of framed records, as many as it declares, is walked from the first to
the last of them. When all of its records can be read as well, the catalog and the search for a
name are functions of the list of members, and the bytes are no longer looked at.

## Main definitions

* `Directory.ofRecords` — the directory that consists of these records
* `Cursor.along` — the positions in it
* `Directory.Describes` — the directory consists of readable records, and these are their members

## Main results

* `Directory.positions_ofRecords` — the walk meets every record, in order
* `Directory.Describes.catalog` — the catalog lists every member, under either policy
* `Directory.Describes.locate` — a name leads to the first member that has it
-/

namespace RomArchive

/-! ### The walk -/

/-- The directory that consists of these records and declares their number. -/
def Directory.ofRecords (records : List Record) : Directory where
  bytes := records.flatMap Record.encode
  declared := records.length

namespace Cursor

/-- The positions of records that stand one behind the other, the first with number `index`. -/
def along (declared index : Nat) : List Record → List Cursor
  | [] => []
  | record :: records =>
    ⟨declared, index, record, records.flatMap Record.encode⟩ :: along declared (index + 1) records

@[simp] theorem along_nil (declared index : Nat) : along declared index [] = [] := rfl

@[simp] theorem along_cons (declared index : Nat) (record : Record) (records : List Record) :
    along declared index (record :: records)
      = ⟨declared, index, record, records.flatMap Record.encode⟩
        :: along declared (index + 1) records := rfl

/-- A walk goes on as long as there is a next position. -/
theorem positions_of_next {cursor next : Cursor} (h : cursor.advance? = some next) :
    cursor.positions = cursor :: next.positions := by
  rw [positions]
  split
  · rename_i hnext
    rw [Option.some.inj (hnext.symm.trans h)]
  · rename_i hnext
    cases hnext.symm.trans h

theorem positions_of_last {cursor : Cursor} (h : cursor.advance? = none) :
    cursor.positions = [cursor] := by
  rw [positions]
  split
  · rename_i hnext
    cases hnext.symm.trans h
  · rfl

/-- The walk takes the records one by one and ends with the last declared one. The induction is on
the records behind the position. -/
theorem positions_eq_along {declared : Nat} (records : List Record) :
    ∀ {record : Record} {index : Nat}, (∀ later ∈ records, later.Framed) →
      index + records.length + 1 = declared →
      positions ⟨declared, index, record, records.flatMap Record.encode⟩
        = along declared index (record :: records) := by
  induction records with
  | nil =>
    intro record index _ hcount
    exact positions_of_last (if_neg (Nat.not_lt.2 (Nat.le_of_eq hcount.symm)))
  | cons next records ih =>
    intro record index hframed hcount
    rw [List.length_cons] at hcount
    have hsplit := Record.split_encode_append (hframed next List.mem_cons_self)
      (records.flatMap Record.encode)
    have hstep : advance? ⟨declared, index, record, (next :: records).flatMap Record.encode⟩
        = some ⟨declared, index + 1, next, records.flatMap Record.encode⟩ := by
      rw [List.flatMap_cons, advance?, if_pos (show index + 1 < declared by omega)]
      simp only [hsplit]
    rw [positions_of_next hstep, along_cons,
      ih (fun later hlater => hframed later (List.mem_cons_of_mem _ hlater)) (by omega)]

end Cursor

namespace Directory

/-- The first position is the first record. -/
theorem first_ofRecords {record : Record} (h : record.Framed) (records : List Record) :
    (ofRecords (record :: records)).first
      = .ok ⟨(record :: records).length, 0, record, records.flatMap Record.encode⟩ := by
  have hsplit := Record.split_encode_append h (records.flatMap Record.encode)
  have hdeclared : (ofRecords (record :: records)).declared ≠ 0 := Nat.succ_ne_zero _
  rw [first, if_neg hdeclared]
  show (Record.split ((record :: records).flatMap Record.encode) >>= fun _ => _) = _
  rw [List.flatMap_cons, hsplit]
  rfl

/-- **The walk meets every record, in order.** A directory without records has no first
position. -/
theorem positions_ofRecords {records : List Record} (hframed : ∀ record ∈ records, record.Framed) :
    (ofRecords records).positions =
      if records = [] then .error (.invalidArchive .noEntries)
      else .ok (Cursor.along records.length 0 records) := by
  cases records with
  | nil => rfl
  | cons record records =>
    have hcount : 0 + records.length + 1 = (record :: records).length := by
      rw [List.length_cons]
      omega
    rw [if_neg (List.cons_ne_nil _ _), positions,
      first_ofRecords (hframed record List.mem_cons_self)]
    exact congrArg _ (Cursor.positions_eq_along records
      (fun later hlater => hframed later (List.mem_cons_of_mem _ hlater)) hcount)

end Directory

/-! ### Readable directories -/

namespace Directory

/-- The directory consists of framed records, all of which can be read, and these are their
members. -/
def Describes (directory : Directory) (members : List Member) : Prop :=
  ∃ records, directory = ofRecords records ∧ (∀ record ∈ records, record.Framed) ∧
    records.map Record.member = members.map .ok

/-- Records that can all be read have a list of members. -/
theorem exists_members {records : List Record}
    (h : ∀ record ∈ records, ∃ member, record.member = .ok member) :
    ∃ members : List Member, records.map Record.member = members.map .ok := by
  induction records with
  | nil => exact ⟨[], rfl⟩
  | cons record records ih =>
    obtain ⟨member, hmember⟩ := h record List.mem_cons_self
    obtain ⟨members, hmembers⟩ := ih fun later hlater => h later (List.mem_cons_of_mem _ hlater)
    exact ⟨member :: members, by rw [List.map_cons, List.map_cons, hmember, hmembers]⟩

/-- Each member is listed at its position, whatever the policy: there is nothing to skip. -/
theorem ofPositions_along {declared : Nat} (policy : UnreadablePolicy) {records : List Record} :
    ∀ {members : List Member} {index : Nat}, records.map Record.member = members.map .ok →
      Listing.ofPositions policy (Cursor.along declared index records)
        = ⟨.ok (members.map Member.catalogEntry), []⟩ := by
  induction records with
  | nil =>
    intro members index h
    obtain rfl : members = [] := by simpa using h.symm
    rfl
  | cons record records ih =>
    intro members index h
    cases members with
    | nil => cases h
    | cons member members =>
      obtain ⟨hrecord, hrecords⟩ := List.cons.inj h
      simp only [Cursor.along_cons, Listing.ofPositions, hrecord, ih hrecords]
      rfl

/-- The first position with a name stands at the first member with that name. -/
theorem find?_along (declared index : Nat) (name : String) {records : List Record} :
    ∀ {members : List Member}, records.map Record.member = members.map .ok →
      ((Cursor.along declared index records).find? fun cursor => cursor.record.text == name).map
          (·.record.member)
        = (members.find? (·.name == name)).map .ok := by
  induction records generalizing index with
  | nil =>
    intro members h
    obtain rfl : members = [] := by simpa using h.symm
    rfl
  | cons record records ih =>
    intro members h
    cases members with
    | nil => cases h
    | cons member members =>
      obtain ⟨hrecord, hrecords⟩ := List.cons.inj h
      rw [Cursor.along_cons, List.find?_cons, List.find?_cons, Record.text_of_member hrecord]
      cases member.name == name with
      | true => exact congrArg some hrecord
      | false => exact ih (index + 1) hrecords

variable {directory : Directory} {members : List Member}

/-- **The catalog lists every member**, under either policy. The one warning is for a directory
without records. -/
theorem Describes.catalog (h : directory.Describes members) (policy : UnreadablePolicy) :
    directory.catalog policy = ⟨.ok (members.map Member.catalogEntry),
      if members = [] then [.nothingListable (.invalidArchive .noEntries)] else []⟩ := by
  obtain ⟨records, rfl, hframed, hmembers⟩ := h
  rw [Directory.catalog, positions_ofRecords hframed]
  cases records with
  | nil =>
    obtain rfl : members = [] := by simpa using hmembers.symm
    rfl
  | cons record records =>
    have hne : members ≠ [] := fun hnil => by simp [hnil] at hmembers
    rw [if_neg (List.cons_ne_nil _ _), if_neg hne]
    exact ofPositions_along policy hmembers

/-- **A name leads to the first member that has it.** -/
theorem Describes.locate (h : directory.Describes members) (name : String) :
    directory.locate name =
      match members.find? (·.name == name) with
      | some member => .ok member
      | none => .error (.entryNotFound name) := by
  obtain ⟨records, rfl, hframed, hmembers⟩ := h
  rw [Directory.locate, positions_ofRecords hframed]
  cases records with
  | nil =>
    obtain rfl : members = [] := by simpa using hmembers.symm
    rfl
  | cons record records =>
    have hfind := find?_along (record :: records).length 0 name hmembers
    rw [if_neg (List.cons_ne_nil _ _)]
    simp only []
    cases hcursor : (Cursor.along (record :: records).length 0 (record :: records)).find?
        fun cursor => cursor.record.text == name with
    | none =>
      rw [hcursor] at hfind
      cases hmember : members.find? (·.name == name) with
      | none => rfl
      | some member => rw [hmember] at hfind; cases hfind
    | some cursor =>
      rw [hcursor] at hfind
      cases hmember : members.find? (·.name == name) with
      | none => rw [hmember] at hfind; cases hfind
      | some member =>
        rw [hmember] at hfind
        exact Option.some.inj hfind

end Directory

end RomArchive
