import RomArchive.Directory
import RomArchive.Proofs.Framing
import RomArchive.Proofs.Bounds.ExtraArea

/-!
# Walking along a directory within bounds

A walk over a directory in memory needs no copies: where a record stands and how long it is says
all. Here a walk is just that, two numbers beside the bytes, and whatever is asked of a record is
read by index from the range that they give. That this range lies among the bytes was settled when
the record was framed; it is what `Position.Stands` carries from one step to the next, together with
the record that stands there.

## Main definitions

* `Guarded.Position` — a place in a directory, by start and length
* `Guarded.Position.advance`, `Guarded.Position.advanceTimes` — one step, any number of steps
* `Guarded.Position.rawName`, `Guarded.Position.name`, `Guarded.Position.entry` — what is asked for
* `Cursor.after` — the plain walk after so many steps
* `Guarded.Position.Stands` — the position is that of a cursor

## Main results

* `Guarded.mirrors_frame` — framing by index is framing
* `Guarded.mirrors_walk` — a walk of any number of steps stands where the cursor stands
* `Guarded.Position.Stands.rawName`, `Guarded.Position.Stands.entry` — what it reads there is what
  the record holds
-/

namespace RomArchive

/-- The cursor after so many steps. A step that is not possible leaves it where it is. -/
def Cursor.after : Nat → Cursor → Cursor
  | 0, cursor => cursor
  | steps + 1, cursor => after steps (cursor.advance?.getD cursor)

/-- The cursor after so many steps from the first record. -/
def Directory.walk (directory : Directory) (steps : Nat) : Except Failure Cursor :=
  directory.first.map (Cursor.after steps)

namespace Guarded

/-! ### Framing by index -/

/-- The length of the record at `start`. -/
def frame (bytes : Bytes) (start : Nat) : Guarded Nat := do
  let stop ← add start Record.headerSize
  if bytes.length < stop then .error (.failed (.invalidArchive .truncatedDirectory))
  else do
    let header ← range bytes start stop
    let front ← range header 0 4
    if front ≠ Record.signature then .error (.failed (.invalidArchive .badDirectorySignature))
    else do
      let name ← pair header 28 29
      let length ← add Record.headerSize name.toNat
      let extra ← pair header 30 31
      let length ← add length extra.toNat
      let comment ← pair header 32 33
      let length ← add length comment.toNat
      let stop ← add start length
      if bytes.length < stop then .error (.failed (.invalidArchive .truncatedDirectory))
      else return length

/-- A place in a directory: the record there is the `length` bytes from `start` on. -/
structure Position where
  bytes : Bytes
  declared : Nat
  index : Nat
  start : Nat
  length : Nat

def first (directory : Directory) : Guarded Position :=
  if directory.declared = 0 then .error (.failed (.invalidArchive .noEntries))
  else do
    let length ← frame directory.bytes 0
    return ⟨directory.bytes, directory.declared, 0, 0, length⟩

namespace Position

/-- One step, and whether it was possible. A record that cannot be framed ends the walk, but a halt
on the way to it is a halt of the walk. -/
def advance (position : Position) : Guarded (Bool × Position) := do
  let following ← add position.index 1
  if position.declared ≤ following then return (false, position)
  else do
    let start ← add position.start position.length
    match frame position.bytes start with
    | .ok length =>
      let index ← add position.index 1
      return (true, { position with index, start, length })
    | .error (.failed _) => return (false, position)
    | .error halt => .error halt

def advanceTimes : Nat → Position → Guarded Position
  | 0, position => return position
  | steps + 1, position => do
    let (_, position) ← position.advance
    advanceTimes steps position

end Position

def walk (directory : Directory) (steps : Nat) : Guarded Position := do
  let position ← first directory
  position.advanceTimes steps

namespace Position

/-- The bytes of the record. -/
def record (position : Position) : Guarded Bytes := do
  let stop ← add position.start position.length
  range position.bytes position.start stop

def rawName (position : Position) : Guarded Bytes := do
  let record ← position.record
  let length ← pair record 28 29
  let stop ← add Record.headerSize length.toNat
  range record Record.headerSize stop

def name (position : Position) : Guarded String := do
  let name ← position.rawName
  return LossyText.decode name

end Position

/-! ### Metadata -/

/-- What the metadata of a record takes from its header. -/
structure HeaderFields where
  flags : UInt16
  method : UInt16
  checksum : UInt32
  compressedSize : UInt32
  uncompressedSize : UInt32
  nameLength : UInt16
  extraLength : UInt16
  headerOffset : UInt32

/-- The fields, read one behind the other; the offset stands apart from the others. -/
def headerFields (record : Bytes) : Guarded HeaderFields := do
  let body ← range record 8 record.length
  let (flags, position) ← word16 body 0
  let (method, position) ← word16 body position
  let (_time, position) ← word16 body position
  let (_date, position) ← word16 body position
  let (checksum, position) ← word32 body position
  let (compressedSize, position) ← word32 body position
  let (uncompressedSize, position) ← word32 body position
  let (nameLength, position) ← word16 body position
  let (extraLength, _) ← word16 body position
  let (headerOffset, _) ← word32 body 34
  return { flags, method, checksum, compressedSize, uncompressedSize, nameLength, extraLength,
           headerOffset }

/-- The metadata of the record. -/
def Position.entry (position : Position) : Guarded Member := do
  let record ← position.record
  let rawName ← position.rawName
  let text := LossyText.decode rawName
  if rawName = [] then .error (.failed (.unreadableEntry text .emptyName))
  else if 0 ∈ rawName then .error (.failed (.unreadableEntry text .nulInName))
  else do
    let fields ← headerFields record
    let start ← add Record.headerSize fields.nameLength.toNat
    let stop ← add start fields.extraLength.toNat
    let extra ← range record start stop
    let slots ← afterExtra (.unreadableEntry text .malformedExtra) extra
      ⟨narrowValue fields.uncompressedSize, narrowValue fields.compressedSize,
        narrowValue fields.headerOffset⟩ 0
    match slots with
    | ⟨some uncompressed, some compressed, some offset⟩ =>
      return {
        name := text
        flags := fields.flags
        method := Method.ofNumber fields.method
        compressedSize := compressed
        uncompressedSize := uncompressed
        checksum := fields.checksum
        headerOffset := offset }
    | _ => .error (.failed (.unreadableEntry text .missingWideField))

variable {bytes : Bytes}

theorem headerFields_eq (h : Record.headerSize ≤ bytes.length) :
    headerFields bytes = .ok {
      flags := bytes.word16 8
      method := bytes.word16 10
      checksum := bytes.word32 16
      compressedSize := bytes.word32 20
      uncompressedSize := bytes.word32 24
      nameLength := bytes.word16 28
      extraLength := bytes.word16 30
      headerOffset := bytes.word32 42 } := by
  have hbody : (bytes.drop 8).length = bytes.length - 8 := List.length_drop
  simp only [Record.headerSize] at h
  rw [headerFields, range_behind (by omega), ok_bind]
  simp (disch := omega) only [word16_eq, word32_eq, ok_bind, Bytes.word16_drop,
    Bytes.word32_drop]
  rfl

/-! ### Positions and cursors -/

/-- The record framed at `start`: its length, its fields, and the bytes behind it. -/
structure FramedAt (bytes : Bytes) (start length : Nat) (found : Record × Bytes) : Prop where
  claimed : length = Record.claimedLength (bytes.drop start)
  stop_le : start + length ≤ bytes.length
  record : found.1 = Record.ofBytes (bytes.drop start)
  rest : found.2 = bytes.drop (start + length)

theorem mirrors_frame {start : Nat} (hbytes : bytes.length ≤ maxLength)
    (hstart : start ≤ bytes.length) :
    Mirrors (FramedAt bytes start) (frame bytes start) (Record.split (bytes.drop start)) := by
  have hlimits := limits
  have hheader : Record.headerSize = 46 := rfl
  rw [frame, Record.split_eq, add_eq (by omega), ok_bind, List.length_drop]
  by_cases hshort : bytes.length < start + Record.headerSize
  · rw [if_pos hshort, if_pos (by omega)]
    exact .failed _
  · have hslice : bytes.slice start Record.headerSize = (bytes.drop start).take Record.headerSize :=
      rfl
    have hlength : ((bytes.drop start).take Record.headerSize).length = Record.headerSize := by
      rw [List.length_take, List.length_drop]
      omega
    rw [if_neg hshort, if_neg (by omega), range_eq (by omega) (by omega), ok_bind,
      Nat.add_sub_cancel_left, hslice, range_front (by omega), ok_bind, List.take_take,
      Nat.min_eq_left (by omega)]
    by_cases hsignature : (bytes.drop start).take 4 = Record.signature
    · have hname := (Bytes.word16 28 (bytes.drop start)).toNat_lt
      have hextra := (Bytes.word16 30 (bytes.drop start)).toNat_lt
      have hcomment := (Bytes.word16 32 (bytes.drop start)).toNat_lt
      have hclaimed : Record.claimedLength (bytes.drop start)
          = Record.headerSize + (Bytes.word16 28 (bytes.drop start)).toNat
            + (Bytes.word16 30 (bytes.drop start)).toNat
            + (Bytes.word16 32 (bytes.drop start)).toNat := rfl
      rw [if_neg (not_not_intro hsignature), if_neg (not_not_intro hsignature)]
      simp (disch := omega) only [pair_eq, ok_bind, Bytes.word16_take, add_eq]
      rw [← hclaimed]
      by_cases hcut : bytes.length < start + Record.claimedLength (bytes.drop start)
      · rw [if_pos hcut, if_pos (by omega)]
        exact .failed _
      · rw [if_neg hcut, if_neg (by omega)]
        exact .ok ⟨rfl, by omega, rfl, List.drop_drop⟩
    · rw [if_pos hsignature, if_pos hsignature]
      exact .failed _

/-- The position is where the cursor stands: the same record, framed among the bytes. -/
structure Position.Stands (position : Position) (cursor : Cursor) : Prop where
  bytes_le : position.bytes.length ≤ maxLength
  declared_lt : position.declared < UInt64.size
  declared : cursor.declared = position.declared
  index : cursor.index = position.index
  index_lt : position.index < position.declared
  framed : FramedAt position.bytes position.start position.length (cursor.record, cursor.rest)

theorem mirrors_first {directory : Directory} (hbytes : directory.bytes.length ≤ maxLength)
    (hdeclared : directory.declared < UInt64.size) :
    Mirrors Position.Stands (first directory) directory.first := by
  rw [first, Directory.first]
  by_cases hzero : directory.declared = 0
  · rw [if_pos hzero, if_pos hzero]
    exact .failed _
  · rw [if_neg hzero, if_neg hzero]
    refine (mirrors_frame hbytes (Nat.zero_le _)).bind ?_
    rintro length ⟨record, rest⟩ hframed
    exact .ok {
      bytes_le := hbytes
      declared_lt := hdeclared
      declared := rfl
      index := rfl
      index_lt := Nat.pos_of_ne_zero hzero
      framed := hframed }

namespace Position

variable {position : Position} {cursor : Cursor}

namespace Stands

/-- **One step** of the walk by positions is one step of the walk by cursors. -/
theorem advance (h : position.Stands cursor) :
    ∃ following, position.advance = .ok (cursor.advance?.isSome, following) ∧
      following.Stands (cursor.advance?.getD cursor) := by
  have hlimits := limits
  have hindex := h.index_lt
  have hdeclared := h.declared_lt
  have hstop := h.framed.stop_le
  have hbytes := h.bytes_le
  rw [Position.advance, Cursor.advance?, h.index, h.declared, add_eq (by omega), ok_bind]
  by_cases hlast : position.declared ≤ position.index + 1
  · rw [if_pos hlast, if_neg (by omega)]
    exact ⟨position, rfl, h⟩
  · rw [if_neg hlast, if_pos (by omega), add_eq (by omega), ok_bind]
    have hframe := mirrors_frame hbytes hstop
    rw [← h.framed.rest] at hframe
    dsimp only at hframe
    cases hsplit : Record.split cursor.rest with
    | error failure =>
      rw [hsplit] at hframe
      rw [hframe.eq_failed]
      exact ⟨position, rfl, h⟩
    | ok found =>
      rw [hsplit] at hframe
      obtain ⟨length, hrun, hframed⟩ := hframe.exists_eq_ok
      rw [hrun]
      exact ⟨_, rfl, {
        bytes_le := hbytes
        declared_lt := hdeclared
        declared := rfl
        index := rfl
        index_lt := by dsimp only; omega
        framed := hframed }⟩

/-- **Any number of steps.** -/
theorem advanceTimes (steps : Nat) : ∀ {position : Position} {cursor : Cursor},
    position.Stands cursor →
      ∃ last, position.advanceTimes steps = .ok last ∧ last.Stands (cursor.after steps) := by
  induction steps with
  | zero => exact fun h => ⟨_, rfl, h⟩
  | succ steps ih =>
    intro position cursor h
    obtain ⟨following, hrun, hstands⟩ := h.advance
    obtain ⟨last, hlast, hafter⟩ := ih hstands
    refine ⟨last, ?_, hafter⟩
    rw [Position.advanceTimes, hrun, ok_bind]
    exact hlast

/-- The bytes of the record are what its header claims, and its fields are those of the cursor. -/
theorem record (h : position.Stands cursor) : ∃ bytes, position.record = .ok bytes ∧
    bytes.length = Record.claimedLength bytes ∧ bytes.length ≤ maxLength ∧
      cursor.record = Record.ofBytes bytes := by
  have hstop := h.framed.stop_le
  have hbytes := h.bytes_le
  have hlength := h.framed.claimed
  have hlimits := limits
  have hheader := Record.headerSize_le_claimedLength (position.bytes.drop position.start)
  have hslice : position.bytes.slice position.start position.length
      = (position.bytes.drop position.start).take
        (Record.claimedLength (position.bytes.drop position.start)) := by
    rw [Bytes.slice, hlength]
  refine ⟨position.bytes.slice position.start position.length, ?_, ?_, ?_, ?_⟩
  · rw [Position.record, add_eq (by omega), ok_bind, range_eq (by omega) hstop,
      Nat.add_sub_cancel_left]
  · rw [Bytes.length_slice_of_le hstop, hslice, Record.claimedLength_take _ hheader, hlength]
  · rw [Bytes.length_slice_of_le hstop]
    omega
  · rw [hslice, Record.ofBytes_take]
    exact h.framed.record

theorem rawName (h : position.Stands cursor) : position.rawName = .ok cursor.record.name := by
  obtain ⟨bytes, hrun, hlength, hbytes, hrecord⟩ := h.record
  have hlimits := limits
  have hheader : Record.headerSize = 46 := rfl
  rw [Record.claimedLength] at hlength
  rw [Position.rawName, hrun, ok_bind, pair_eq rfl (by omega), ok_bind, add_eq (by omega), ok_bind,
    range_eq (by omega) (by omega), Nat.add_sub_cancel_left, hrecord]
  rfl

theorem name (h : position.Stands cursor) : position.name = .ok cursor.record.text := by
  rw [Position.name, h.rawName]
  rfl

/-- The checks are the same and come in the same order; behind them stand the extra area and the
slots, which the plain reader has as fields of the record. -/
theorem entry (h : position.Stands cursor) : position.entry = lift cursor.record.member := by
  obtain ⟨bytes, hrun, hlength, hbytes, hrecord⟩ := h.record
  have hname := h.rawName
  have hlimits := limits
  have hheader : Record.headerSize = 46 := rfl
  rw [Record.claimedLength] at hlength
  rw [Position.entry, hrun, ok_bind, hname, ok_bind, Record.member, Record.metadata]
  by_cases hempty : cursor.record.name = []
  · rw [if_pos hempty, if_pos hempty]
    rfl
  by_cases hnul : 0 ∈ cursor.record.name
  · rw [if_neg hempty, if_pos hnul, if_neg hempty, if_pos hnul]
    rfl
  have hextra : range bytes (Record.headerSize + (bytes.word16 28).toNat)
      (Record.headerSize + (bytes.word16 28).toNat + (bytes.word16 30).toNat)
        = .ok cursor.record.extra := by
    rw [range_eq (by omega) (by omega), Nat.add_sub_cancel_left, hrecord]
    rfl
  have hlong : cursor.record.extra.length ≤ maxLength := by
    have hcount := Bytes.length_slice (Record.headerSize + (bytes.word16 28).toNat)
      (bytes.word16 30).toNat bytes
    rw [hrecord]
    show (bytes.slice _ _).length ≤ maxLength
    omega
  have hslots : (⟨narrowValue (bytes.word32 24), narrowValue (bytes.word32 20),
      narrowValue (bytes.word32 42)⟩ : WideSlots) = cursor.record.wideSlots := by
    rw [hrecord]
    rfl
  have hflags : cursor.record.flags = bytes.word16 8 := by rw [hrecord]; rfl
  have hmethod : cursor.record.method = bytes.word16 10 := by rw [hrecord]; rfl
  have hchecksum : cursor.record.checksum = bytes.word32 16 := by rw [hrecord]; rfl
  rw [if_neg hempty, if_neg hnul, if_neg hempty, if_neg hnul, headerFields_eq (by omega), ok_bind]
  dsimp only
  rw [add_eq (by omega), ok_bind, add_eq (by omega), ok_bind, hextra, ok_bind, hslots,
    afterExtra_eq _ hlong _ _ 0 rfl (Nat.zero_le _), List.drop_zero, hflags, hmethod, hchecksum]
  cases cursor.record.wideSlots.afterExtra cursor.record.extra with
  | none => rfl
  | some filled => obtain ⟨_ | uncompressed, _ | compressed, _ | offset⟩ := filled <;> rfl

end Stands

end Position

/-- **A walk of any number of steps** stands where the cursor stands. -/
theorem mirrors_walk {directory : Directory} (hbytes : directory.bytes.length ≤ maxLength)
    (hdeclared : directory.declared < UInt64.size) (steps : Nat) :
    Mirrors Position.Stands (walk directory steps) (directory.walk steps) :=
  (mirrors_first hbytes hdeclared).map fun _ _ hstands => hstands.advanceTimes steps

end Guarded

end RomArchive
