import RomArchive.Proofs.Lookup
import RomArchive.Proofs.Bounds.Walking

/-!
# Where the records of a directory stand

A cursor hands its bytes along from record to record, so where in the directory it stands is not
seen from its steps. Here a walk is compared with the directory as a whole. Each record stands in a
frame, which is found by a signature and by three lengths, and frames that lie one behind the other
form a chain. From a given start there is only one way to go on, so all chains from there are parts
of the longest; the walk is that one, cut off at the declared number.

Nothing is assumed of the bytes, and the declared number may be any. Each frame takes at least the
46 bytes of a header, so it is the bytes that bound the walk and not what they declare.

## Main definitions

* `Frame`, `Frame.HoldsRecord` — a place among some bytes, and that a record stands there
* `Frame.Chain`, `Frame.LongestChain` — frames one behind the other, and as many as there can be
* `Directory.cursorAt` — the position at a frame
* `Directory.Tour` — what a walk comes to

## Main results

* `Frame.split_drop_eq_ok_iff` — framing succeeds exactly where a record stands
* `Frame.Chain.isPrefix` — chains from one start differ only in how far they go
* `Directory.visited_eq_cursorAt` — the walk goes along the longest chain
* `Directory.walk_exact` — a walk meets exactly the records in front
-/

namespace RomArchive

/-! ### Frames -/

/-- A run of bytes among others, by its offset and its length. -/
structure Frame where
  start : Nat
  length : Nat
  deriving DecidableEq

namespace Frame

/-- The offset behind the last byte. -/
def stop (frame : Frame) : Nat := frame.start + frame.length

/-- A record stands in this frame: it begins with the signature, is as long as its header and the
three lengths in that header say, and lies among the bytes. -/
structure HoldsRecord (frame : Frame) (bytes : Bytes) : Prop where
  signature : bytes.slice frame.start 4 = Record.signature
  length : frame.length = 46 + (bytes.word16 (frame.start + 28)).toNat
    + (bytes.word16 (frame.start + 30)).toNat + (bytes.word16 (frame.start + 32)).toNat
  stop_le : frame.stop ≤ bytes.length

/-- The record that the bytes of a frame make up. -/
def record (frame : Frame) (bytes : Bytes) : Record :=
  Record.ofBytes (bytes.slice frame.start frame.length)

variable {frame : Frame} {bytes : Bytes}

theorem HoldsRecord.claimed (h : frame.HoldsRecord bytes) :
    Record.claimedLength (bytes.drop frame.start) = frame.length := by
  rw [Record.claimedLength, Bytes.word16_drop, Bytes.word16_drop, Bytes.word16_drop, h.length]
  rfl

theorem HoldsRecord.record_eq (h : frame.HoldsRecord bytes) :
    frame.record bytes = Record.ofBytes (bytes.drop frame.start) := by
  rw [record, Bytes.slice, ← h.claimed, Record.ofBytes_take]

/-- Framing succeeds exactly where a record stands. -/
theorem split_drop_eq_ok_iff (start : Nat) {record : Record} {rest : Bytes} :
    Record.split (bytes.drop start) = .ok (record, rest) ↔
      ∃ length, HoldsRecord ⟨start, length⟩ bytes ∧
        record = Frame.record ⟨start, length⟩ bytes ∧ rest = bytes.drop (start + length) := by
  rw [Record.split_eq_ok_iff]
  constructor
  · rintro ⟨hinside, hsignature, rfl, rfl⟩
    have hholds : HoldsRecord ⟨start, Record.claimedLength (bytes.drop start)⟩ bytes := by
      refine ⟨hsignature, ?_, ?_⟩
      · rw [Record.claimedLength, Bytes.word16_drop, Bytes.word16_drop, Bytes.word16_drop]
        rfl
      · have hpositive := Record.headerSize_le_claimedLength (bytes.drop start)
        simp only [Record.headerSize] at hpositive
        rw [List.length_drop] at hinside
        have hstop : start + Record.claimedLength (bytes.drop start) ≤ bytes.length := by omega
        exact hstop
    exact ⟨_, hholds, hholds.record_eq.symm, List.drop_drop⟩
  · rintro ⟨length, hholds, rfl, rfl⟩
    have hstop : start + length ≤ bytes.length := hholds.stop_le
    rw [hholds.claimed, List.length_drop, List.drop_drop]
    exact ⟨by dsimp only; omega, hholds.signature, hholds.record_eq, rfl⟩

/-- The bytes of a frame are those of its record, and the name among them is the record's. -/
theorem HoldsRecord.encode_record (h : frame.HoldsRecord bytes) :
    (frame.record bytes).encode = bytes.slice frame.start frame.length := by
  obtain ⟨start, length⟩ := frame
  have hframed := (split_drop_eq_ok_iff start).2 ⟨length, h, rfl, rfl⟩
  obtain ⟨-, hsplit⟩ := Record.eq_encode_of_split hframed
  have hstop : start + length ≤ bytes.length := h.stop_le
  have hlength := congrArg List.length hsplit
  rw [List.length_append, List.length_drop, List.length_drop] at hlength
  have hencode : (Frame.record ⟨start, length⟩ bytes).encode.length = length := by omega
  rw [Bytes.slice, hsplit]
  exact (List.take_left' hencode).symm

theorem HoldsRecord.name_record (h : frame.HoldsRecord bytes) : (frame.record bytes).name
    = bytes.slice (frame.start + 46) (bytes.word16 (frame.start + 28)).toNat := by
  rw [h.record_eq]
  show Bytes.slice 46 (Bytes.word16 28 (bytes.drop frame.start)).toNat (bytes.drop frame.start) = _
  rw [Bytes.slice_drop, Bytes.word16_drop]

/-- How long a record is, its start says. -/
theorem HoldsRecord.eq_of_start {other : Frame} (h : frame.HoldsRecord bytes)
    (hother : other.HoldsRecord bytes) (hstart : frame.start = other.start) : frame = other := by
  obtain ⟨start, length⟩ := frame
  obtain ⟨_, otherLength⟩ := other
  obtain rfl : start = _ := hstart
  have hlength : length = otherLength := h.length.trans hother.length.symm
  rw [hlength]

theorem HoldsRecord.header_le (h : frame.HoldsRecord bytes) : 46 ≤ frame.length := by
  have := h.length
  omega

/-! ### Chains of frames -/

/-- Records stand in these frames, each right behind the one before, and the first at `start`. -/
inductive Chain (bytes : Bytes) : Nat → List Frame → Prop
  | nil {start : Nat} : Chain bytes start []
  | cons {start length : Nat} {frames : List Frame} (hframe : HoldsRecord ⟨start, length⟩ bytes)
      (hframes : Chain bytes (start + length) frames) :
      Chain bytes start (⟨start, length⟩ :: frames)

variable {start limit : Nat} {frames others : List Frame}

/-- Two chains from the same start differ in how far they go and in nothing else. -/
theorem Chain.isPrefix (h : Chain bytes start frames) (hothers : Chain bytes start others)
    (hle : frames.length ≤ others.length) : frames <+: others := by
  induction h generalizing others with
  | nil => exact List.nil_prefix
  | cons hframe hframes ih =>
    cases hothers with
    | nil => exact absurd hle (Nat.not_succ_le_zero _)
    | cons hother hrest =>
      obtain rfl := Frame.mk.inj (hframe.eq_of_start hother rfl) |>.2
      rw [List.prefix_cons_inj]
      exact ih hrest (Nat.le_of_succ_le_succ hle)

theorem Chain.holdsRecord (h : Chain bytes start frames) :
    ∀ frame ∈ frames, frame.HoldsRecord bytes := by
  induction h with
  | nil => exact fun _ hnil => absurd hnil List.not_mem_nil
  | cons hframe hframes ih => exact List.forall_mem_cons.2 ⟨hframe, ih⟩

/-- Each record takes at least the bytes of its header. -/
theorem Chain.length_le (h : Chain bytes start frames) (hstart : start ≤ bytes.length) :
    start + 46 * frames.length ≤ bytes.length := by
  induction h with
  | nil => exact hstart
  | cons hframe hframes ih =>
    have hheader := hframe.header_le
    have hstop := ih hframe.stop_le
    rw [List.length_cons]
    dsimp only at hheader
    omega

/-- A chain of at most `limit` frames that no other such chain exceeds. -/
structure LongestChain (bytes : Bytes) (start limit : Nat) (frames : List Frame) : Prop where
  chain : Chain bytes start frames
  length_le : frames.length ≤ limit
  longest : ∀ others, Chain bytes start others → others.length ≤ limit →
    others.length ≤ frames.length

theorem LongestChain.eq (h : LongestChain bytes start limit frames)
    (hothers : LongestChain bytes start limit others) : frames = others := by
  have hle := hothers.longest frames h.chain h.length_le
  have hge := h.longest others hothers.chain hothers.length_le
  exact (h.chain.isPrefix hothers.chain hle).eq_of_length (Nat.le_antisymm hle hge)

theorem longestChain_zero : LongestChain bytes start 0 [] :=
  ⟨.nil, Nat.le_refl 0, fun _ _ h => h⟩

/-- Where no record stands, every chain has come to its end. -/
theorem longestChain_nil (h : ∀ length, ¬ HoldsRecord ⟨start, length⟩ bytes) :
    LongestChain bytes start limit [] := by
  refine ⟨.nil, Nat.zero_le limit, fun others hothers _ => ?_⟩
  cases hothers with
  | nil => exact Nat.le_refl 0
  | cons hframe hframes => exact absurd hframe (h _)

theorem LongestChain.cons {length : Nat} (hframe : HoldsRecord ⟨start, length⟩ bytes)
    (h : LongestChain bytes (start + length) limit frames) :
    LongestChain bytes start (limit + 1) (⟨start, length⟩ :: frames) := by
  refine ⟨.cons hframe h.chain, Nat.succ_le_succ h.length_le, fun others hothers hlength => ?_⟩
  cases hothers with
  | nil => exact Nat.zero_le _
  | cons hother hrest =>
    obtain rfl := Frame.mk.inj (hframe.eq_of_start hother rfl) |>.2
    exact Nat.succ_le_succ (h.longest _ hrest (Nat.le_of_succ_le_succ hlength))

/-- Records that were written one behind the other stand in a chain, whatever follows them. -/
theorem exists_chain {rest : Bytes} {records : List Record} : ∀ {start : Nat},
    (∀ record ∈ records, record.Framed) →
    bytes.drop start = records.flatMap Record.encode ++ rest →
      ∃ frames, Chain bytes start frames ∧ frames.map (record · bytes) = records := by
  induction records with
  | nil => exact fun _ _ => ⟨[], .nil, rfl⟩
  | cons record records ih =>
    intro start hframed hbytes
    have hsplit := Record.split_encode_append (hframed record List.mem_cons_self)
      (records.flatMap Record.encode ++ rest)
    rw [← List.append_assoc, ← List.flatMap_cons, ← hbytes] at hsplit
    obtain ⟨length, hholds, hrecord, hrest⟩ := (split_drop_eq_ok_iff start).1 hsplit
    obtain ⟨frames, hchain, hrecords⟩ :=
      ih (fun later hlater => hframed later (List.mem_cons_of_mem _ hlater)) hrest.symm
    exact ⟨⟨start, length⟩ :: frames, .cons hholds hchain, by
      rw [List.map_cons, ← hrecord, hrecords]⟩

end Frame

/-! ### Positions and calls -/

namespace Cursor

theorem getElem?_positions_zero (start : Cursor) : start.positions[0]? = some start := by
  cases hnext : start.advance? with
  | none => rw [positions_of_last hnext]; rfl
  | some next => rw [positions_of_next hnext]; rfl

theorem length_positions_pos (start : Cursor) : 0 < start.positions.length :=
  List.length_pos_of_mem start.self_mem_positions

/-- The next position stands next in the list. -/
theorem advance?_eq_getElem? {start : Cursor} : ∀ {i : Nat} {cursor : Cursor},
    start.positions[i]? = some cursor → cursor.advance? = start.positions[i + 1]? := by
  induction start using positions.induct with
  | case1 start next hnext ih =>
    intro i cursor hcursor
    rw [positions_of_next hnext] at hcursor ⊢
    cases i with
    | zero =>
      obtain rfl := Option.some.inj hcursor
      rw [hnext, List.getElem?_cons_succ, getElem?_positions_zero]
    | succ i => exact ih hcursor
  | case2 start hlast =>
    intro i cursor hcursor
    rw [positions_of_last hlast] at hcursor ⊢
    cases i with
    | zero =>
      obtain rfl := Option.some.inj hcursor
      exact hlast
    | succ i => cases hcursor

/-- After so many calls the cursor stands at the position of that number, or at the last one. -/
theorem getElem?_positions_after (calls : Nat) : ∀ start : Cursor,
    start.positions[min calls (start.positions.length - 1)]? = some (start.after calls) := by
  induction calls with
  | zero => exact fun start => by rw [Nat.zero_min, getElem?_positions_zero]; rfl
  | succ calls ih =>
    intro start
    cases hnext : start.advance? with
    | none =>
      have hafter : start.after (calls + 1) = start.after calls := by rw [after, hnext]; rfl
      have hstart := ih start
      rw [positions_of_last hnext] at hstart ⊢
      have hlast : [start].length - 1 = 0 := rfl
      rw [hlast, Nat.min_zero] at hstart ⊢
      rw [hafter, hstart]
    | some next =>
      have hafter : start.after (calls + 1) = next.after calls := by rw [after, hnext]; rfl
      have hpos := next.length_positions_pos
      have hindex : min (calls + 1) ((start :: next.positions).length - 1)
          = min calls (next.positions.length - 1) + 1 := by
        rw [List.length_cons]
        omega
      rw [positions_of_next hnext, hindex, List.getElem?_cons_succ, ih next, hafter]

end Cursor

/-! ### The walk along a chain -/

namespace Directory

variable {directory : Directory}

/-- The position at a frame, the `index`-th one. -/
def cursorAt (directory : Directory) (place : Frame × Nat) : Cursor where
  declared := directory.declared
  index := place.2
  record := place.1.record directory.bytes
  rest := directory.bytes.drop place.1.stop

/-- From any position the walk goes on along the longest chain behind it that the declared number
allows. The induction is on how many more records are declared. -/
theorem positions_cursorAt (directory : Directory) (limit : Nat) : ∀ (frame : Frame) (index : Nat),
    index + limit + 1 = directory.declared →
      ∃ frames, Frame.LongestChain directory.bytes frame.stop limit frames ∧
        (directory.cursorAt (frame, index)).positions
          = ((frame :: frames).zipIdx index).map directory.cursorAt := by
  induction limit with
  | zero =>
    intro frame index hcount
    have hlast : (directory.cursorAt (frame, index)).advance? = none :=
      if_neg (Nat.not_lt.2 (Nat.le_of_eq hcount.symm))
    exact ⟨[], Frame.longestChain_zero, Cursor.positions_of_last hlast⟩
  | succ limit ih =>
    intro frame index hcount
    have hmore : index + 1 < directory.declared := by omega
    have hadvance : (directory.cursorAt (frame, index)).advance? = _ := if_pos hmore
    cases hsplit : Record.split (directory.bytes.drop frame.stop) with
    | error failure =>
      have hnone : ∀ length, ¬ Frame.HoldsRecord ⟨frame.stop, length⟩ directory.bytes := by
        intro length hholds
        cases hsplit.symm.trans ((Frame.split_drop_eq_ok_iff _).2 ⟨length, hholds, rfl, rfl⟩)
      refine ⟨[], Frame.longestChain_nil hnone, Cursor.positions_of_last ?_⟩
      rw [hadvance]
      simp only [cursorAt, hsplit]
    | ok found =>
      obtain ⟨record, rest⟩ := found
      obtain ⟨length, hholds, rfl, rfl⟩ := (Frame.split_drop_eq_ok_iff _).1 hsplit
      obtain ⟨frames, hlongest, hpositions⟩ := ih ⟨frame.stop, length⟩ (index + 1) (by omega)
      refine ⟨⟨frame.stop, length⟩ :: frames, hlongest.cons hholds, ?_⟩
      have hnext : (directory.cursorAt (frame, index)).advance?
          = some (directory.cursorAt (⟨frame.stop, length⟩, index + 1)) := by
        rw [hadvance]
        simp only [cursorAt, hsplit]
        rfl
      rw [Cursor.positions_of_next hnext, hpositions]
      simp only [List.zipIdx_cons, List.map_cons]

theorem first_eq_ok_iff {cursor : Cursor} : directory.first = .ok cursor ↔
    directory.declared ≠ 0 ∧ ∃ length, Frame.HoldsRecord ⟨0, length⟩ directory.bytes ∧
      cursor = directory.cursorAt (⟨0, length⟩, 0) := by
  by_cases hzero : directory.declared = 0
  · rw [first, if_pos hzero]
    constructor
    · rintro ⟨⟩
    · exact fun h => absurd hzero h.1
  · have hfirst : directory.first = (Record.split directory.bytes >>= _) := if_neg hzero
    rw [hfirst]
    constructor
    · intro h
      obtain ⟨⟨record, rest⟩, hsplit, hcursor⟩ := exists_of_bind_eq_ok h
      obtain ⟨length, hholds, rfl, rfl⟩ := (Frame.split_drop_eq_ok_iff 0).1 hsplit
      cases hcursor
      exact ⟨hzero, length, hholds, rfl⟩
    · rintro ⟨-, length, hholds, rfl⟩
      have hsplit := (Frame.split_drop_eq_ok_iff 0).2 ⟨length, hholds, rfl, rfl⟩
      rw [List.drop_zero] at hsplit
      rw [hsplit]
      rfl

/-- There is no first position exactly if no record is declared or none stands at the front. -/
theorem first_eq_error_iff : (∃ failure, directory.first = .error failure) ↔
    directory.declared = 0 ∨ ∀ length, ¬ Frame.HoldsRecord ⟨0, length⟩ directory.bytes := by
  constructor
  · rintro ⟨failure, hfailure⟩
    by_cases hzero : directory.declared = 0
    · exact Or.inl hzero
    · refine Or.inr fun length hholds => ?_
      cases hfailure.symm.trans (first_eq_ok_iff.2 ⟨hzero, length, hholds, rfl⟩)
  · intro hnone
    cases hfirst : directory.first with
    | error failure => exact ⟨failure, rfl⟩
    | ok cursor =>
      obtain ⟨hdeclared, length, hholds, -⟩ := first_eq_ok_iff.1 hfirst
      exact absurd hnone (not_or.2 ⟨hdeclared, fun h => h length hholds⟩)

/-- **The walk goes along the longest chain** that the declared number allows. -/
theorem visited_eq_cursorAt (directory : Directory) :
    ∃ frames, Frame.LongestChain directory.bytes 0 directory.declared frames ∧
      directory.visited = frames.zipIdx.map directory.cursorAt := by
  cases hfirst : directory.first with
  | error failure =>
    refine ⟨[], ?_, visited_of_error hfirst⟩
    rcases first_eq_error_iff.1 ⟨failure, hfirst⟩ with hzero | hnone
    · rw [hzero]
      exact Frame.longestChain_zero
    · exact Frame.longestChain_nil hnone
  | ok cursor =>
    obtain ⟨hdeclared, length, hholds, rfl⟩ := first_eq_ok_iff.1 hfirst
    obtain ⟨limit, hlimit⟩ := Nat.exists_eq_succ_of_ne_zero hdeclared
    obtain ⟨frames, hlongest, hpositions⟩ :=
      directory.positions_cursorAt limit ⟨0, length⟩ 0 (by omega)
    refine ⟨⟨0, length⟩ :: frames, ?_, (visited_of_first hfirst).trans hpositions⟩
    rw [hlimit]
    exact hlongest.cons hholds

/-! ### The whole walk -/

/-- What a walk along a directory comes to, when these are the frames of its records. -/
structure Tour (directory : Directory) (frames : List Frame) : Prop where
  /-- The frames are those of the records from the front on, one behind the other: as many as are
  declared, or as many as there are. -/
  longest : Frame.LongestChain directory.bytes 0 directory.declared frames
  length_le : frames.length ≤ directory.bytes.length / 46
  /-- There is not even a first position exactly if no record is declared or none stands there. -/
  fails : (∃ failure, directory.first = .error failure) ↔
    directory.declared = 0 ∨ ∀ length, ¬ Frame.HoldsRecord ⟨0, length⟩ directory.bytes
  count : directory.visited.length = frames.length
  /-- Each position knows its number, and its record is made of the bytes of its frame. -/
  meets : ∀ (i : Nat) (frame : Frame), frames[i]? = some frame →
    ∃ cursor : Cursor, directory.visited[i]? = some cursor ∧ cursor.index = i ∧
      cursor.record.encode = directory.bytes.slice frame.start frame.length ∧
      cursor.record.name = directory.bytes.slice (frame.start + 46)
        (directory.bytes.word16 (frame.start + 28)).toNat
  /-- So many calls lead to the position of that number or to the last one, and the next call tells
  which. -/
  steps : frames ≠ [] → ∀ calls, ∃ cursor, directory.walk calls = .ok cursor ∧
    directory.visited[min calls (frames.length - 1)]? = some cursor ∧
    (cursor.advance?.isSome ↔ calls + 1 < frames.length)
  /-- A call that leads no further leaves the cursor where it is, and so do all calls after it. -/
  stays : ∀ calls cursor, directory.walk calls = .ok cursor → cursor.advance? = none →
    ∀ more, directory.walk (calls + more) = .ok cursor

theorem map_record_cursorAt (directory : Directory) (frames : List Frame) :
    (frames.zipIdx.map directory.cursorAt).map Cursor.record
      = frames.map (Frame.record · directory.bytes) := by
  have hrecord : Cursor.record ∘ directory.cursorAt
      = (Frame.record · directory.bytes) ∘ Prod.fst := rfl
  rw [List.map_map, hrecord, ← List.map_map, List.zipIdx_map_fst]

/-- Where so many calls lead, and whether one more leads further. -/
theorem walk_of_first {start : Cursor} (hfirst : directory.first = .ok start) (calls : Nat) :
    ∃ cursor, directory.walk calls = .ok cursor ∧
      directory.visited[min calls (directory.visited.length - 1)]? = some cursor ∧
      (cursor.advance?.isSome ↔ calls + 1 < directory.visited.length) := by
  have hpos := start.length_positions_pos
  have hafter := Cursor.getElem?_positions_after calls start
  refine ⟨start.after calls, by rw [walk, hfirst]; rfl, ?_⟩
  rw [visited_of_first hfirst, Cursor.advance?_eq_getElem? hafter,
    Option.isSome_iff_ne_none, Ne, List.getElem?_eq_none_iff]
  exact ⟨hafter, by omega⟩

/-- **A walk along a directory** has a tour, whatever the bytes and the declared number. -/
theorem exists_tour (directory : Directory) : ∃ frames, directory.Tour frames := by
  obtain ⟨frames, hlongest, hvisited⟩ := directory.visited_eq_cursorAt
  have hcount : directory.visited.length = frames.length := by
    rw [hvisited, List.length_map, List.length_zipIdx]
  refine ⟨frames, ?_⟩
  constructor
  case longest => exact hlongest
  case fails => exact first_eq_error_iff
  case count => exact hcount
  case length_le =>
    have hlength := hlongest.chain.length_le (Nat.zero_le _)
    omega
  case meets =>
    intro i frame hframe
    have hholds := hlongest.chain.holdsRecord frame (List.mem_of_getElem? hframe)
    refine ⟨directory.cursorAt (frame, i), ?_, rfl, hholds.encode_record, hholds.name_record⟩
    rw [hvisited, List.getElem?_map, List.getElem?_zipIdx, hframe, Nat.zero_add]
    rfl
  case steps =>
    intro hne calls
    cases hfirst : directory.first with
    | error failure =>
      rw [visited_of_error hfirst] at hcount
      exact absurd (List.length_eq_zero_iff.1 hcount.symm) hne
    | ok start => exact hcount ▸ walk_of_first hfirst calls
  case stays =>
    intro calls cursor hcursor hlast more
    cases hfirst : directory.first with
    | error failure =>
      rw [walk, hfirst] at hcursor
      cases hcursor
    | ok start =>
      obtain ⟨here, hhere, hplace, hadvance⟩ := walk_of_first hfirst calls
      obtain ⟨later, hlater, hlaterPlace, -⟩ := walk_of_first hfirst (calls + more)
      obtain rfl : here = cursor := Except.ok.inj (hhere.symm.trans hcursor)
      have hend : ¬ calls + 1 < directory.visited.length := by
        rw [← hadvance, hlast]
        exact Bool.false_ne_true
      have hsame : min (calls + more) (directory.visited.length - 1)
          = min calls (directory.visited.length - 1) := by omega
      rw [hsame, hplace] at hlaterPlace
      rw [hlater, Option.some.inj hlaterPlace]

theorem Tour.of_longestChain {frames : List Frame}
    (h : Frame.LongestChain directory.bytes 0 directory.declared frames) :
    directory.Tour frames := by
  obtain ⟨others, htour⟩ := directory.exists_tour
  exact h.eq htour.longest ▸ htour

/-- Where as many records stand as are declared, the walk meets them and nothing that follows. -/
theorem Tour.of_chain {frames : List Frame} (h : Frame.Chain directory.bytes 0 frames)
    (hcount : frames.length = directory.declared) : directory.Tour frames :=
  of_longestChain ⟨h, Nat.le_of_eq hcount, fun _ _ hle => hcount ▸ hle⟩

theorem Tour.map_record {frames : List Frame} (h : directory.Tour frames) :
    directory.visited.map Cursor.record = frames.map (Frame.record · directory.bytes) := by
  obtain ⟨others, hlongest, hvisited⟩ := directory.visited_eq_cursorAt
  rw [hvisited, map_record_cursorAt, hlongest.eq h.longest]

theorem Tour.record_eq {frames : List Frame} (h : directory.Tour frames) {i : Nat} {frame : Frame}
    {cursor : Cursor} (hframe : frames[i]? = some frame)
    (hcursor : directory.visited[i]? = some cursor) :
    cursor.record = frame.record directory.bytes := by
  have hrecord := congrArg (·[i]?) h.map_record
  simp only [List.getElem?_map, hframe, hcursor, Option.map_some] at hrecord
  exact Option.some.inj hrecord

/-- **A walk meets exactly the records in front**: in any directory it goes along the longest chain
of frames that the declared number allows; so records that were written one behind the other, and
declared, are met in order, whatever follows them. -/
theorem walk_exact (directory : Directory) : (∃ frames, directory.Tour frames) ∧
    ∀ (records : List Record) (rest : Bytes), records ≠ [] →
      (∀ record ∈ records, record.Framed) →
        (visited ⟨records.flatMap Record.encode ++ rest, records.length⟩).map Cursor.record
          = records := by
  refine ⟨directory.exists_tour, ?_⟩
  intro records rest _ hframed
  have hfront : (records.flatMap Record.encode ++ rest).drop 0
      = records.flatMap Record.encode ++ rest := List.drop_zero
  obtain ⟨frames, hchain, hrecords⟩ := Frame.exists_chain hframed hfront
  rw [(Tour.of_chain hchain (by rw [← hrecords, List.length_map])).map_record, hrecords]

/-! ### Two records and the front of a third -/

/-- A record of which only the areas matter. -/
def bareRecord (name extra comment : Bytes) : Record where
  madeBy := 20
  needed := 20
  flags := 0
  method := 0
  time := 0
  date := 0
  checksum := 0
  compressedSize := 0
  uncompressedSize := 0
  disk := 0
  internalAttributes := 0
  externalAttributes := 0
  headerOffset := 0
  name := name
  extra := extra
  comment := comment

def shortRecords : List Record := [bareRecord [65] [1, 0] [], bareRecord [66, 0] [] [67]]

/-- The signature behind the second record begins a third one, which is neither declared nor
complete. -/
theorem walk_exact_trailing : shortRecords ≠ [] ∧ (∀ record ∈ shortRecords, record.Framed) ∧
    (Directory.visited ⟨shortRecords.flatMap Record.encode ++ Record.signature, 2⟩).map
      Cursor.record = shortRecords := by
  have hne : shortRecords ≠ [] := List.cons_ne_nil _ _
  have hframed : ∀ record ∈ shortRecords, record.Framed :=
    List.forall_mem_cons.2 ⟨⟨by decide, by decide, by decide⟩,
      List.forall_mem_singleton.2 ⟨by decide, by decide, by decide⟩⟩
  have hwalk := (walk_exact ⟨[], 0⟩).2 shortRecords Record.signature hne hframed
  exact ⟨hne, hframed, hwalk⟩

end Directory

end RomArchive
