import RomArchive.Source
import RomArchive.Proofs.Codec

/-!
# Sources that hold their bytes

A source may deliver its bytes in pieces of any size. As long as it delivers something while there
is something, and claims the size that it has, none of that can be seen from outside: filling a
request gives the slice that was asked for, and every reader of the format is then a function of
the bytes alone.

## Main definitions

* `Source.Holds` — the source claims the bytes it has, delivers all of them, and never fails

## Main results

* `Source.Holds.fill` — a filled request is a slice
* `Source.holds_ofBytes`, `Source.holds_ofFile` — bytes in memory, and a file as it was opened
-/

namespace RomArchive

namespace Source

/-- The source holds exactly `bytes`: it claims their number, every read that starts among them
delivers at least one, and no read fails. How many bytes one read delivers is left open. -/
structure Holds (source : Source) (bytes : Bytes) : Prop where
  contents : source.contents = bytes
  size : source.size = bytes.length
  chunk : bytes ≠ [] → 0 < source.chunk
  horizon : ∀ horizon, source.horizon = some horizon → bytes.length ≤ horizon
  breakage : source.breakage = none

theorem holds_ofBytes (bytes : Bytes) : (ofBytes bytes).Holds bytes where
  contents := rfl
  size := rfl
  chunk := fun h => List.length_pos_iff.2 h
  horizon := fun _ h => by cases h
  breakage := rfl

/-- A file that did not change since it was opened. -/
theorem holds_ofFile (bytes : Bytes) : (ofFile bytes bytes.length).Holds bytes where
  contents := rfl
  size := rfl
  chunk := fun h => List.length_pos_iff.2 h
  horizon := fun horizon h => by
    cases h
    exact Nat.le_refl _
  breakage := rfl

variable {source : Source} {bytes : Bytes}

theorem Holds.fault? (h : source.Holds bytes) (offset : Nat) : source.fault? offset = none := by
  rw [Source.fault?, h.breakage]

/-- A read past the horizon is a read past the end. -/
theorem Holds.drop_of_isBeyond (h : source.Holds bytes) {offset : Nat}
    (hbeyond : source.isBeyond offset = true) : bytes.drop offset = [] := by
  cases hhorizon : source.horizon with
  | none => simp [isBeyond, hhorizon] at hbeyond
  | some horizon =>
    have hlength := h.horizon horizon hhorizon
    simp only [isBeyond, hhorizon, decide_eq_true_eq] at hbeyond
    exact List.drop_eq_nil_of_le (Nat.le_trans hlength hbeyond)

/-- One read of a source that holds its bytes: the front of what lies ahead. -/
theorem Holds.readAhead (h : source.Holds bytes) (offset count : Nat) :
    source.readAhead offset count (bytes.drop offset)
      = .ok ((bytes.drop offset).take (min count source.chunk)) := by
  simp only [Source.readAhead, h.fault?]
  split
  · rename_i hbeyond
    rw [h.drop_of_isBeyond hbeyond, List.take_nil]
  · rfl

/-- A read that asks for something and gets nothing is at the end. -/
theorem Holds.drop_of_read_nil (h : source.Holds bytes) {offset count : Nat} (hcount : 0 < count)
    (hread : (bytes.drop offset).take (min count source.chunk) = []) :
    bytes.drop offset = [] := by
  refine (List.take_eq_nil_iff.1 hread).elim (fun hzero => ?_) id
  refine Decidable.byContradiction fun hahead => ?_
  have hbytes : bytes ≠ [] := fun hnil => hahead (by rw [hnil, List.drop_nil])
  have hchunk := h.chunk hbytes
  omega

/-- The loop, with what earlier reads delivered. The induction is on what is still asked for. -/
theorem Holds.gather (h : source.Holds bytes) (count : Nat) : ∀ (offset : Nat) (got : Bytes),
    source.gather offset count (bytes.drop offset) got
      = ⟨got.reverse ++ (bytes.drop offset).take count, none⟩ := by
  induction count using Nat.strongRecOn with
  | ind count ih =>
    intro offset got
    rw [Source.gather, h.readAhead]
    split
    · rename_i hcount
      cases hread : (bytes.drop offset).take (min count source.chunk) with
      | nil => simp [h.drop_of_read_nil hcount hread]
      | cons b bs =>
        have hlength : (b :: bs).length ≤ count := by
          rw [← hread, List.length_take]
          omega
        have hpos : 0 < (b :: bs).length := Nat.succ_pos _
        have hfront : (bytes.drop offset).take (b :: bs).length = b :: bs := by
          rw [← hread, List.length_take, List.take_eq_take_iff]
          omega
        have hsplit : (bytes.drop offset).take count
            = (b :: bs) ++ (bytes.drop (offset + (b :: bs).length)).take
                (count - (b :: bs).length) := by
          have hadd := List.take_add (l := bytes.drop offset) (i := (b :: bs).length)
            (j := count - (b :: bs).length)
          rwa [Nat.add_sub_of_le hlength, hfront, List.drop_drop] at hadd
        simp only [List.drop_drop]
        rw [ih _ (by omega), hsplit, List.reverseAux_eq, List.reverse_append,
          List.reverse_reverse, List.append_assoc]
    · rename_i hcount
      obtain rfl : count = 0 := by omega
      rw [List.take_zero, List.append_nil]

/-- **A filled request is a slice**, or as much of it as there is. -/
theorem Holds.fill (h : source.Holds bytes) (offset count : Nat) :
    source.fill offset count = ⟨bytes.slice offset count, none⟩ := by
  rw [Source.fill, h.contents, h.gather, List.reverse_nil, List.nil_append, Bytes.slice]

end Source

end RomArchive
