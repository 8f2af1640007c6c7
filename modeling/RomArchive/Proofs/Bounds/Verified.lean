import RomArchive.Proofs.Bounds.Filling
import RomArchive.Proofs.Extraction

/-!
# Verified reads and their buffer

A verified read begins with a buffer of the declared size, all zeros, before it asks its feed for
anything. The declared size is a number of 64 bits from a record that nobody has vouched for, and a
buffer cannot be as long as such a number can be large: then the run ends there, with nothing read
and no verdict. For all other sizes the buffer makes no difference. The loop never leaves it, and
what it holds at the end is what the plain read gathers.

A handle refuses an entry that is larger than its limit before it reads any of its data, so with a
limit that a buffer can have, as the standard one, no extraction ends for want of memory.

## Main definitions

* `Guarded.gatherFrom`, `Guarded.verified` — the loop over a buffer, and the verified read
* `Feed.Judged` — what a verified read comes to, case by case

## Main results

* `Guarded.mirrors_verified` — with a buffer, the guarded read ends as the plain one
* `Handle.verified_of_locate` — extractions have their buffer
* `Feed.verified_exact` — what a verified read comes to in every case
-/

namespace RomArchive

theorem Feed.length_read_le {feed behind : Feed} {count : Nat} {bytes : Bytes}
    (h : feed.read count = .ok (bytes, behind)) : bytes.length ≤ count := by
  rw [read] at h
  split at h
  · cases h
  · cases h
    exact Nat.zero_le _
  · cases h
    rw [List.length_take]
    exact Nat.min_le_left _ _

namespace Guarded

/-! ### The loop -/

/-- Go on reading a feed into a buffer whose first `filled` bytes are there: how many are there at
the end, the buffer, and what is left of the feed. -/
def gatherFrom (feed : Feed) (buffer : Bytes) (filled : Nat) : Guarded ((Nat × Bytes) × Feed) :=
  if filled < buffer.length then do
    let free ← range buffer filled buffer.length
    match feed.read free.length with
    | .error fault => .error (.failed (.device fault))
    | .ok ([], behind) => .ok ((filled, buffer), behind)
    | .ok (b :: bs, behind) =>
      match _htotal : add filled (b :: bs).length with
      | .error halt => .error halt
      | .ok total =>
        gatherFrom behind (buffer.take filled ++ ((b :: bs) ++ buffer.drop total)) total
  else .ok ((filled, buffer), feed)
termination_by buffer.length - filled
decreasing_by
  have := eq_of_add_eq_ok _htotal
  simp only [List.length_append, List.length_take, List.length_drop, List.length_cons] at *
  omega

/-- How many bytes a read for one byte more delivers. -/
def probe (feed : Feed) : Guarded Nat :=
  match feed.read 1 with
  | .error fault => .error (.failed (.device fault))
  | .ok (more, _) => .ok more.length

/-- The comparisons behind the loop: of the size, and then of the checksum. -/
def compared (name : String) (declared : Nat) (expected : UInt32) (filled : Nat) (buffer : Bytes)
    (surplus : Nat) : Guarded VerifiedBytes :=
  if filled ≠ buffer.length ∨ surplus ≠ 0 then do
    let actual ← add filled surplus
    .error (.failed (.sizeMismatch name declared actual))
  else if crc32 buffer ≠ expected then
    .error (.failed (.crcMismatch name expected (crc32 buffer)))
  else .ok ⟨name, buffer⟩

/-- The contents of the entry `name`, which declares `declared` bytes with checksum `expected`. -/
def verified (feed : Feed) (name : String) (declared : Nat) (expected : UInt32) :
    Guarded VerifiedBytes := do
  let buffer ← allocate declared
  let ((filled, buffer), behind) ← gatherFrom feed buffer 0
  let surplus ← if filled = buffer.length then probe behind else .ok 0
  compared name declared expected filled buffer surplus

variable {feed : Feed} {name : String} {declared : Nat} {expected : UInt32}

/-- One turn of the loop. -/
theorem gatherFrom_of_pos {got : Bytes} {rest : Nat} (hrest : 0 < rest)
    (hbuffer : got.length + rest ≤ maxLength) :
    gatherFrom feed (got ++ List.replicate rest 0) got.length
      = match feed.read rest with
        | .error fault => .error (.failed (.device fault))
        | .ok ([], behind) => .ok ((got.length, got ++ List.replicate rest 0), behind)
        | .ok (b :: bs, behind) =>
          gatherFrom behind ((got ++ b :: bs) ++ List.replicate (rest - (b :: bs).length) 0)
            (got ++ b :: bs).length := by
  have hlimits := limits
  have hlength : (got ++ List.replicate rest 0).length = got.length + rest := by
    rw [List.length_append, List.length_replicate]
  rw [gatherFrom, if_pos (by omega), range_zeroed, ok_bind, List.length_replicate]
  cases hread : feed.read rest with
  | error fault => rfl
  | ok outcome =>
    obtain ⟨bytes, behind⟩ := outcome
    cases bytes with
    | nil => rfl
    | cons b bs =>
      have hcount := Feed.length_read_le hread
      dsimp only
      split
      · rename_i hhalt
        cases hhalt.symm.trans (add_eq (by omega))
      · rename_i total hsum
        obtain rfl := eq_of_add_eq_ok hsum
        rw [put_zeroed, List.length_append]

/-- What has been read into a buffer of `count` bytes: the bytes that the plain read gathers, with
zeros behind them, and no more than were asked for. What is left of the feed is the same. -/
structure Gathered (count : Nat) (outcome : (Nat × Bytes) × Feed) (plain : Bytes × Feed) :
    Prop where
  eq : outcome = (zeroFilled count plain.1, plain.2)
  asked : plain.1.length ≤ count

/-- The loop follows the plain one. The induction is on the room that is left in the buffer. -/
theorem mirrors_gatherFrom (rest : Nat) : ∀ (feed : Feed) (got : Bytes),
    got.length + rest ≤ maxLength →
      Mirrors (Gathered (got.length + rest))
        (gatherFrom feed (got ++ List.replicate rest 0) got.length)
        ((feed.gather rest got.reverse).mapError .device) := by
  induction rest using Nat.strongRecOn with
  | ind rest ih =>
    intro feed got hbuffer
    have hdone : ∀ behind : Feed, Gathered (got.length + rest)
        ((got.length, got ++ List.replicate rest 0), behind) (got, behind) := by
      intro behind
      refine ⟨?_, Nat.le_add_right _ _⟩
      rw [zeroFilled, Nat.add_sub_cancel_left]
    rw [Feed.gather]
    by_cases hrest : 0 < rest
    · rw [gatherFrom_of_pos hrest hbuffer, if_pos hrest]
      cases hread : feed.read rest with
      | error fault => exact .failed _
      | ok outcome =>
        obtain ⟨bytes, behind⟩ := outcome
        cases bytes with
        | nil =>
          rw [List.reverse_reverse]
          exact .ok (hdone behind)
        | cons b bs =>
          have hcount := Feed.length_read_le hread
          have hpos : 0 < (b :: bs).length := Nat.succ_pos _
          have htotal : (got ++ b :: bs).length = got.length + (b :: bs).length :=
            List.length_append
          have hstep := ih (rest - (b :: bs).length) (by omega) behind (got ++ b :: bs) (by omega)
          rwa [List.reverse_append, ← List.reverseAux_eq, htotal, Nat.add_assoc got.length,
            Nat.add_sub_of_le hcount, ← htotal] at hstep
    · obtain rfl : rest = 0 := by omega
      rw [gatherFrom, if_neg (by simp), if_neg hrest, List.reverse_reverse]
      exact .ok (hdone feed)

/-! ### The verified read -/

theorem mirrors_probe (feed : Feed) : Mirrors (fun surplus plain => surplus = plain ∧ surplus ≤ 1)
    (probe feed) ((feed.read 1).mapError Failure.device |>.map fun outcome => outcome.1.length) := by
  rw [probe]
  cases hread : feed.read 1 with
  | error fault => exact .failed _
  | ok outcome => exact .ok ⟨rfl, Feed.length_read_le hread⟩

/-- A buffer that was filled to its end holds what was gathered, and no zeros behind it. -/
theorem mirrors_compared {bytes : Bytes} {surplus : Nat} (hasked : bytes.length ≤ declared)
    (hdeclared : declared ≤ maxLength) (hone : surplus ≤ 1) : Mirrors Eq
      (compared name declared expected bytes.length (zeroFilled declared bytes).2 surplus)
      (if bytes.length ≠ declared ∨ surplus ≠ 0 then
        .error (.sizeMismatch name declared (bytes.length + surplus))
      else if crc32 bytes ≠ expected then .error (.crcMismatch name expected (crc32 bytes))
      else .ok (VerifiedBytes.mk name bytes)) := by
  have hlimits := limits
  rw [compared, length_zeroFilled hasked]
  by_cases hmismatch : bytes.length ≠ declared ∨ surplus ≠ 0
  · rw [if_pos hmismatch, if_pos hmismatch, add_eq (by omega)]
    exact .failed _
  · obtain rfl : bytes.length = declared := by omega
    have hfull : (zeroFilled bytes.length bytes).2 = bytes := by
      simp [zeroFilled]
    rw [if_neg hmismatch, if_neg hmismatch, hfull]
    split
    · exact .failed _
    · exact .ok rfl

/-- **With a buffer, the guarded read ends as the plain one**: nothing is written outside it, and no
count leaves 64 bits. -/
theorem mirrors_verified (h : declared ≤ maxLength) :
    Mirrors Eq (verified feed name declared expected)
      (feed.verified name declared expected) := by
  have hloop := mirrors_gatherFrom declared feed [] (by simpa using h)
  simp only [List.length_nil, Nat.zero_add, List.nil_append, List.reverse_nil] at hloop
  rw [verified, Feed.verified, allocate_eq h, ok_bind]
  refine hloop.bind ?_
  rintro _ ⟨bytes, behind⟩ ⟨rfl, hasked⟩
  show Mirrors Eq (if bytes.length = (zeroFilled declared bytes).2.length then _ else _)
    (if bytes.length = declared then _ else _)
  rw [length_zeroFilled hasked]
  by_cases hfull : bytes.length = declared
  · rw [if_pos hfull, if_pos hfull]
    refine (mirrors_probe behind).bind ?_
    rintro surplus _ ⟨rfl, hone⟩
    exact mirrors_compared hasked h hone
  · rw [if_neg hfull, if_neg hfull]
    exact mirrors_compared hasked h (Nat.zero_le 1)

/-- The buffer comes first. One that is longer than memory can be ends the run before anything is
read. -/
theorem verified_of_lt (h : maxLength < declared) (feed : Feed) :
    verified feed name declared expected = .error .memory := by
  rw [verified, allocate, if_neg (Nat.not_le.2 h)]
  rfl

end Guarded

/-- **Extractions have their buffer**: an entry that a handle goes on to read is not larger than its
limit. -/
theorem Handle.verified_of_locate {handle : Handle} {name : String} {container : OpenContainer}
    {member : Member} (hlimit : handle.maxEntrySize ≤ Guarded.maxLength)
    (hlocate : handle.locate name = .ok (container, member)) (feed : Feed) :
    Guarded.verified feed name member.uncompressedSize member.checksum
      = Guarded.lift (feed.verified name member.uncompressedSize member.checksum) := by
  obtain ⟨-, -, -, hsize⟩ := Handle.of_locate hlocate
  exact (Guarded.mirrors_verified (Nat.le_trans hsize hlimit)).eq

example : Settings.standardMaxEntrySize ≤ Guarded.maxLength := by decide

namespace Feed

/-! ### Every outcome -/

/-- What a verified read comes to, in every case: all that counts is whether there can be a buffer,
which bytes the feed gives, and how they end. -/
structure Judged (feed : Feed) (name : String) (declared : Nat) (expected : UInt32) : Prop where
  /-- Contents are handed out exactly if the feed ends properly and its bytes have the declared size
  and checksum, and they are those bytes. -/
  accepts : ∀ contents, Guarded.verified feed name declared expected = .ok contents ↔
    declared ≤ Guarded.maxLength ∧ feed.fault = none ∧ feed.bytes.length = declared ∧
      crc32 feed.bytes = expected ∧ contents = ⟨name, feed.bytes⟩
  /-- One byte too many is enough, and what comes behind it is not looked at. -/
  overlong : declared ≤ Guarded.maxLength → declared < feed.bytes.length →
    Guarded.verified feed name declared expected
      = .error (.failed (.sizeMismatch name declared (declared + 1)))
  /-- A fault comes before any verdict on size and checksum, also one right behind the last declared
  byte. -/
  broken : declared ≤ Guarded.maxLength → ∀ fault, feed.fault = some fault →
    feed.bytes.length ≤ declared →
      Guarded.verified feed name declared expected = .error (.failed (.device fault))
  short : declared ≤ Guarded.maxLength → feed.fault = none → feed.bytes.length < declared →
    Guarded.verified feed name declared expected
      = .error (.failed (.sizeMismatch name declared feed.bytes.length))
  corrupt : declared ≤ Guarded.maxLength → feed.fault = none → feed.bytes.length = declared →
    crc32 feed.bytes ≠ expected → Guarded.verified feed name declared expected
      = .error (.failed (.crcMismatch name expected (crc32 feed.bytes)))
  /-- If there can be no buffer, there is no verdict. -/
  memory : Guarded.maxLength < declared →
    Guarded.verified feed name declared expected = .error .memory
  /-- The pieces do not count. -/
  pieces : ∀ other : Feed, other.Flows → other.bytes = feed.bytes → other.fault = feed.fault →
    Guarded.verified other name declared expected = Guarded.verified feed name declared expected
  /-- With a buffer, this is what the plain read comes to. -/
  plain : declared ≤ Guarded.maxLength → Guarded.verified feed name declared expected
    = Guarded.lift (feed.verified name declared expected)

/-- Three bytes in two pieces, and then a fault. -/
def wornSample : Feed := ⟨[[1], [2, 3]], some (.other "worn")⟩

end Feed

end RomArchive
