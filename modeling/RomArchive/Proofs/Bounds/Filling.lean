import RomArchive.Source
import RomArchive.Proofs.Bounds.Guarded

/-!
# Buffers filled within their bounds

A request is filled by reading into the part of a buffer that is still free, at an offset that
moves on with the bytes that came in. Where the offset comes from is not looked at: it may be any
number of 64 bits, far behind the end of the source. The first read settles that. If nothing is
delivered the loop is over; if something is, the offset lies among the contents, and so do all that
follow.

## Main definitions

* `Guarded.fillFrom`, `Guarded.fill` — the loop over a buffer, and a new buffer filled by it
* `Guarded.readAvailable` — the same, cut off behind what was read
* `Guarded.Filled` — what a filled buffer holds

## Main results

* `Guarded.mirrors_fill` — the buffer holds what the plain request delivers, and zeros behind it
* `Source.length_fill_le` — no more is delivered than was asked for, nor than there is
-/

namespace RomArchive

/-! ### What a request delivers -/

theorem Delivery.eq_of_checked {delivery : Delivery} {bytes : Bytes}
    (h : delivery.checked = .ok bytes) : delivery.bytes = bytes := by
  rw [checked] at h
  split at h
  · cases h
  · exact Except.ok.inj h

namespace Source

variable {source : Source}

/-- The bytes of one read are taken from what lies ahead. -/
theorem length_readAhead_le {offset count : Nat} {ahead bytes : Bytes}
    (h : source.readAhead offset count ahead = .ok bytes) :
    bytes.length ≤ count ∧ bytes.length ≤ ahead.length := by
  simp only [readAhead] at h
  split at h
  · cases h
  · obtain rfl := Except.ok.inj h
    split
    · exact ⟨Nat.zero_le _, Nat.zero_le _⟩
    · rw [List.length_take]
      omega

theorem length_gather_le (count : Nat) : ∀ (offset : Nat) (ahead got : Bytes),
    (source.gather offset count ahead got).bytes.length ≤ got.length + min count ahead.length := by
  induction count using Nat.strongRecOn with
  | ind count ih =>
    intro offset ahead got
    rw [gather]
    split
    · split
      · simp
      · simp
      · rename_i hcount b bs hread
        have hread := length_readAhead_le hread
        have hrest := ih (count - (b :: bs).length) (by simp only [List.length_cons]; omega)
          (offset + (b :: bs).length) (ahead.drop (b :: bs).length) ((b :: bs).reverseAux got)
        rw [List.reverseAux_eq, List.length_append, List.length_reverse, List.length_drop] at hrest
        rw [List.reverseAux_eq]
        omega
    · simp

/-- No more is delivered than was asked for, and no more than there is. -/
theorem length_fill_le (source : Source) (offset count : Nat) :
    (source.fill offset count).bytes.length ≤ min count (source.contents.length - offset) := by
  have h := source.length_gather_le count offset (source.contents.drop offset) []
  rwa [List.length_nil, Nat.zero_add, List.length_drop] at h

end Source

namespace Guarded

/-! ### The loop -/

/-- Go on filling a buffer whose first `filled` bytes are there: how many are there at the end, and
the buffer. -/
def fillFrom (source : Source) (offset : Nat) (buffer : Bytes) (filled : Nat) :
    Guarded (Nat × Bytes) :=
  if filled < buffer.length then do
    let position ← add offset filled
    let free ← range buffer filled buffer.length
    match source.read position free.length with
    | .error fault => .error (.failed (.device fault))
    | .ok [] => .ok (filled, buffer)
    | .ok (b :: bs) =>
      match _htotal : add filled (b :: bs).length with
      | .error halt => .error halt
      | .ok total =>
        fillFrom source offset (buffer.take filled ++ ((b :: bs) ++ buffer.drop total)) total
  else .ok (filled, buffer)
termination_by buffer.length - filled
decreasing_by
  have := eq_of_add_eq_ok _htotal
  simp only [List.length_append, List.length_take, List.length_drop, List.length_cons] at *
  omega

/-- Fill a new buffer of `count` bytes. -/
def fill (source : Source) (offset count : Nat) : Guarded (Nat × Bytes) := do
  let buffer ← allocate count
  fillFrom source offset buffer 0

/-- Fill a new buffer, and cut it off behind what was read. -/
def readAvailable (source : Source) (offset count : Nat) : Guarded Bytes := do
  let (read, buffer) ← fill source offset count
  return buffer.take read

/-- A buffer of `count` bytes that begins with the given ones, and how many these are. -/
def zeroFilled (count : Nat) (bytes : Bytes) : Nat × Bytes :=
  (bytes.length, bytes ++ List.replicate (count - bytes.length) 0)

/-- The part of a zeroed buffer that is still free. -/
theorem range_zeroed (got : Bytes) (rest : Nat) :
    range (got ++ List.replicate rest 0) got.length (got ++ List.replicate rest 0).length
      = .ok (List.replicate rest 0) := by
  rw [range_behind (by simp), List.drop_left]

/-- Bytes that come in take the place of as many zeros. -/
theorem put_zeroed (got piece : Bytes) (rest : Nat) :
    (got ++ List.replicate rest 0).take got.length
        ++ (piece ++ (got ++ List.replicate rest 0).drop (got.length + piece.length))
      = (got ++ piece) ++ List.replicate (rest - piece.length) 0 := by
  rw [List.take_left, ← List.drop_drop, List.drop_left, List.drop_replicate, List.append_assoc]

theorem length_zeroFilled {count : Nat} {bytes : Bytes} (h : bytes.length ≤ count) :
    (zeroFilled count bytes).2.length = count := by
  rw [zeroFilled, List.length_append, List.length_replicate]
  exact Nat.add_sub_of_le h

variable {source : Source} {offset count : Nat}

/-- One turn of the loop. -/
theorem fillFrom_of_pos {got : Bytes} {rest : Nat} (hrest : 0 < rest)
    (hbuffer : got.length + rest ≤ maxLength) (hoffset : offset + got.length < UInt64.size) :
    fillFrom source offset (got ++ List.replicate rest 0) got.length
      = match source.read (offset + got.length) rest with
        | .error fault => .error (.failed (.device fault))
        | .ok [] => .ok (got.length, got ++ List.replicate rest 0)
        | .ok (b :: bs) =>
          fillFrom source offset ((got ++ b :: bs) ++ List.replicate (rest - (b :: bs).length) 0)
            (got ++ b :: bs).length := by
  have hlimits := limits
  have hlength : (got ++ List.replicate rest 0).length = got.length + rest := by
    rw [List.length_append, List.length_replicate]
  rw [fillFrom, if_pos (by omega), add_eq hoffset, ok_bind, range_zeroed, ok_bind,
    List.length_replicate]
  cases hread : source.read (offset + got.length) rest with
  | error fault => rfl
  | ok bytes =>
    cases bytes with
    | nil => rfl
    | cons b bs =>
      obtain ⟨hcount, -⟩ := Source.length_readAhead_le hread
      dsimp only
      split
      · rename_i hhalt
        cases hhalt.symm.trans (add_eq (by omega))
      · rename_i total hsum
        obtain rfl := eq_of_add_eq_ok hsum
        rw [put_zeroed, List.length_append]

/-- The loop follows the plain one, which knows no buffer. All offsets but the first lie among the
contents, so the loop itself keeps up what is assumed of them. -/
theorem mirrors_fillFrom (hcontents : source.contents.length ≤ maxLength) (rest : Nat) :
    ∀ got : Bytes, got.length + rest ≤ maxLength → offset + got.length < UInt64.size →
      Mirrors (fun outcome bytes => outcome = zeroFilled (got.length + rest) bytes)
        (fillFrom source offset (got ++ List.replicate rest 0) got.length)
        (source.gather (offset + got.length) rest (source.contents.drop (offset + got.length))
          got.reverse).checked := by
  induction rest using Nat.strongRecOn with
  | ind rest ih =>
    intro got hbuffer hoffset
    have hlimits := limits
    have hdone : (got.length, got ++ List.replicate rest 0)
        = zeroFilled (got.length + rest) got := by
      rw [zeroFilled, Nat.add_sub_cancel_left]
    rw [Source.gather]
    by_cases hrest : 0 < rest
    · rw [fillFrom_of_pos hrest hbuffer hoffset, if_pos hrest, Source.read]
      cases hread : source.readAhead (offset + got.length) rest
        (source.contents.drop (offset + got.length)) with
      | error fault => exact .failed _
      | ok bytes =>
        cases bytes with
        | nil =>
          rw [List.reverse_reverse]
          exact .ok hdone
        | cons b bs =>
          obtain ⟨hcount, hahead⟩ := Source.length_readAhead_le hread
          have hpos : 0 < (b :: bs).length := Nat.succ_pos _
          have htotal : (got ++ b :: bs).length = got.length + (b :: bs).length :=
            List.length_append
          rw [List.length_drop] at hahead
          have hstep := ih (rest - (b :: bs).length) (by omega) (got ++ b :: bs) (by omega)
            (by omega)
          rwa [List.reverse_append, ← List.reverseAux_eq, htotal, Nat.add_assoc got.length,
            Nat.add_sub_of_le hcount, ← Nat.add_assoc, ← List.drop_drop, ← htotal] at hstep
    · obtain rfl : rest = 0 := by omega
      rw [fillFrom, if_neg (by simp), if_neg hrest, List.reverse_reverse]
      exact .ok hdone

/-- What has been read into a buffer of `count` bytes: the delivered bytes, with zeros behind them,
and no more than was asked for or than there is. -/
structure Filled (source : Source) (offset count : Nat) (outcome : Nat × Bytes) (bytes : Bytes) :
    Prop where
  eq : outcome = zeroFilled count bytes
  asked : bytes.length ≤ count
  there : bytes.length ≤ source.contents.length - offset

/-- **A filled buffer** holds what the plain request delivers, and zeros behind it. -/
theorem mirrors_fill (hcontents : source.contents.length ≤ maxLength)
    (hoffset : offset < UInt64.size) (hcount : count ≤ maxLength) :
    Mirrors (Filled source offset count) (fill source offset count)
      (source.fill offset count).checked := by
  have hloop := mirrors_fillFrom hcontents count [] (by simpa using hcount) hoffset
  have hlength := source.length_fill_le offset count
  rw [Source.fill] at hlength ⊢
  rw [fill, allocate_eq hcount, ok_bind]
  simp only [List.length_nil, Nat.zero_add, Nat.add_zero, List.nil_append, List.reverse_nil]
    at hloop
  refine hloop.imp fun outcome bytes hbytes heq => ?_
  obtain rfl := Delivery.eq_of_checked hbytes
  exact ⟨heq, by omega, by omega⟩

namespace Filled

variable {outcome : Nat × Bytes} {bytes : Bytes}

theorem number (h : Filled source offset count outcome bytes) : outcome.1 = bytes.length := by
  rw [h.eq, zeroFilled]

theorem length (h : Filled source offset count outcome bytes) : outcome.2.length = count := by
  rw [h.eq]
  exact length_zeroFilled h.asked

/-- The buffer, cut off behind the bytes that were read. -/
theorem truncate (h : Filled source offset count outcome bytes) :
    outcome.2.take outcome.1 = bytes := by
  rw [h.eq]
  exact List.take_left

end Filled

/-- The buffer as a whole, for a plain request that asks for the zeros as well. -/
theorem Mirrors.padded {run : Guarded (Nat × Bytes)} {delivery : Delivery}
    (h : Mirrors (Filled source offset count) run delivery.checked) :
    Mirrors (fun outcome buffer => outcome.2 = buffer ∧ buffer.length = count) run
      (delivery.padded count) := by
  rw [Delivery.padded, ← bind_pure run]
  refine h.bind fun outcome bytes hfilled => ?_
  have hlength := hfilled.length
  rw [hfilled.eq] at hlength ⊢
  exact .ok ⟨rfl, hlength⟩

/-- What is left after the cut is what the plain request delivers. -/
theorem mirrors_readAvailable (hcontents : source.contents.length ≤ maxLength)
    (hoffset : offset < UInt64.size) (hcount : count ≤ maxLength) :
    Mirrors (fun got bytes => got = bytes ∧ bytes.length ≤ count)
      (readAvailable source offset count) (source.fill offset count).checked := by
  rw [readAvailable, ← bind_pure (source.fill offset count).checked]
  refine (mirrors_fill hcontents hoffset hcount).bind ?_
  rintro ⟨read, buffer⟩ bytes hfilled
  exact .ok ⟨hfilled.truncate, hfilled.asked⟩

end Guarded

end RomArchive
