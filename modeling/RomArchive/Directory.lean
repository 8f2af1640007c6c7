import RomArchive.Member

/-!
# The directory of a container

A directory is the bytes of its records together with the number of records that the end record
declares. It is read by a cursor that moves from record to record and stops in front of the first
bytes that are no record, or when the declared number is reached; the declared number is a bound
and not a promise.

Everything that looks at several records is a function of the list of cursor positions, which is
finite since each step leaves fewer bytes.

## Main definitions

* `Directory`, `Cursor` — the bytes and a position among their records.
* `Directory.first`, `Cursor.advance?` — the first position and the one after.
* `Cursor.positions`, `Directory.positions` — all positions from one on, all positions.
* `Directory.locate` — the first record with a given name.
-/

namespace RomArchive

/-- The directory of a container. -/
structure Directory where
  bytes : Bytes
  declared : Nat
  deriving DecidableEq

/-- A position in a directory: the record there and the bytes behind it. -/
structure Cursor where
  declared : Nat
  index : Nat
  record : Record
  rest : Bytes
  deriving DecidableEq

namespace Cursor

/-- The next position. There is none when the declared number is reached or no record follows. -/
def advance? (cursor : Cursor) : Option Cursor :=
  if cursor.index + 1 < cursor.declared then
    match Record.split cursor.rest with
    | .ok (record, rest) => some ⟨cursor.declared, cursor.index + 1, record, rest⟩
    | .error _ => none
  else none

theorem length_rest_lt_of_advance? {cursor next : Cursor} (h : cursor.advance? = some next) :
    next.rest.length < cursor.rest.length := by
  simp only [advance?] at h
  split at h
  · split at h
    · rename_i hsplit
      simp only [Option.some.injEq] at h
      subst h
      exact Record.length_lt_of_split hsplit
    · cases h
  · cases h

/-- This position and all that follow it. -/
def positions (cursor : Cursor) : List Cursor :=
  match _hnext : cursor.advance? with
  | some next => cursor :: next.positions
  | none => [cursor]
termination_by cursor.rest.length
decreasing_by exact length_rest_lt_of_advance? _hnext

end Cursor

namespace Directory

/-- The first position. A directory that declares no records has none, whatever its bytes. -/
def first (directory : Directory) : Except Failure Cursor :=
  if directory.declared = 0 then .error (.invalidArchive .noEntries)
  else do
    let (record, rest) ← Record.split directory.bytes
    return ⟨directory.declared, 0, record, rest⟩

/-- All positions, or why there is not even a first one. -/
def positions (directory : Directory) : Except Failure (List Cursor) :=
  directory.first.map Cursor.positions

/-- The metadata of the first record whose name reads exactly as `name`. A directory without a
first position holds no names. -/
def locate (directory : Directory) (name : String) : Except Failure Member :=
  match directory.positions with
  | .ok cursors =>
    match cursors.find? fun cursor => cursor.record.text == name with
    | some cursor => cursor.record.member
    | none => .error (.entryNotFound name)
  | .error _ => .error (.entryNotFound name)

end Directory

end RomArchive
