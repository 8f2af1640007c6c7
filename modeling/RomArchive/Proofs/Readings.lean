import RomArchive.Proofs.RoundTrip

/-!
# Two readings of one container

How a source delivers its bytes is not up to the reader: one source hands them out in large pieces,
another in small ones, and a third fails when it is asked for more. Here two sources with the same
contents are read side by side. Either the reader comes to the same result on both, or the first of
them reported a fault and the result is that fault; a fault is never taken for the end of the data,
and bytes that happened to arrive before it are never used.

Everything that is asked of a source comes down to filling requests and to its claimed size. So the
comparison is made once for a single read, carried through the loop that fills a request, and from
there through each operation by following its steps. A source that cannot fail is the case in which
no fault is allowed for, and then the two results are equal.

## Main definitions

* `SameUnless` — two results are the same, or the first is one of some faults
* `Source.FillsUnless`, `Source.Agree` — the same of filled requests, and of all operations
* `Source.brokenAt`, `Source.mended`, `Source.inPieces` — sources that differ only in delivery

## Main results

* `Source.FillsUnless.agree` — operations see no more of a source than its filled requests
* `Source.fault_or_same` — a fault is reported, or it makes no difference
* `Source.same_in_pieces` — the size of the pieces makes no difference
-/

namespace RomArchive

/-! ### Results that differ by a fault -/

section Results

variable {α β : Type} {faults : DeviceFault → Prop}

/-- The two results are the same, unless the first is one of these faults. -/
def SameUnless (faults : DeviceFault → Prop) (first second : Except Failure α) : Prop :=
  first = second ∨ ∃ fault, faults fault ∧ first = .error (.device fault)

theorem SameUnless.refl (result : Except Failure α) : SameUnless faults result result :=
  Or.inl rfl

/-- Without any fault to allow for, the results are the same. -/
theorem SameUnless.eq {first second : Except Failure α}
    (h : SameUnless (fun _ => False) first second) : first = second := by
  rcases h with h | ⟨_, hfault, _⟩
  · exact h
  · exact hfault.elim

/-- What follows on the two results is compared only where they are the same. -/
theorem SameUnless.bind {first second : Except Failure α} {f g : α → Except Failure β}
    (h : SameUnless faults first second) (hnext : ∀ a, SameUnless faults (f a) (g a)) :
    SameUnless faults (first >>= f) (second >>= g) := by
  rcases h with rfl | ⟨fault, hfault, rfl⟩
  · cases first with
    | error failure => exact .refl _
    | ok a => exact hnext a
  · exact Or.inr ⟨fault, hfault, rfl⟩

theorem SameUnless.ite {p : Prop} [Decidable p] {first second other another : Except Failure α}
    (hthen : SameUnless faults first second) (helse : SameUnless faults other another) :
    SameUnless faults (if p then first else other) (if p then second else another) := by
  by_cases hp : p
  · rwa [if_pos hp, if_pos hp]
  · rwa [if_neg hp, if_neg hp]

end Results

namespace Source

variable {faults : DeviceFault → Prop} {source other : Source}

/-! ### Operations see filled requests and the claimed size -/

/-- The two sources claim the same size and fill every request alike, unless the first ends in one
of these faults. -/
structure FillsUnless (faults : DeviceFault → Prop) (source other : Source) : Prop where
  size : source.size = other.size
  fill : ∀ offset count, source.fill offset count = other.fill offset count ∨
    ∃ fault, faults fault ∧ (source.fill offset count).fault = some fault

/-- Whatever is asked of the two sources gives the same, unless the first reports one of these
faults. -/
structure Agree (faults : DeviceFault → Prop) (source other : Source) : Prop where
  endRecord : SameUnless faults source.endRecord other.endRecord
  wideEndRecord : ∀ endOffset,
    SameUnless faults (source.wideEndRecord endOffset) (other.wideEndRecord endOffset)
  directory : SameUnless faults source.directory other.directory
  dataOffset : ∀ member, SameUnless faults (source.dataOffset member) (other.dataOffset member)
  entryData : ∀ member, SameUnless faults (source.entryData member) (other.entryData member)

namespace FillsUnless

theorem checked (h : FillsUnless faults source other) (offset count : Nat) :
    SameUnless faults (source.fill offset count).checked (other.fill offset count).checked := by
  rcases h.fill offset count with hsame | ⟨fault, hfault, hends⟩
  · rw [hsame]
    exact .refl _
  · refine Or.inr ⟨fault, hfault, ?_⟩
    rw [Delivery.checked, hends]

/-- The zeros that stand in for missing bytes are added only when there was no fault. -/
theorem padded (h : FillsUnless faults source other) (offset count : Nat) :
    SameUnless faults ((source.fill offset count).padded count)
      ((other.fill offset count).padded count) :=
  (h.checked offset count).bind fun _ => .refl _

theorem endRecordAtEnd (h : FillsUnless faults source other) :
    SameUnless faults source.endRecordAtEnd other.endRecordAtEnd := by
  rw [Source.endRecordAtEnd, Source.endRecordAtEnd, h.size]
  refine .ite ?_ (.refl _)
  exact (h.padded _ _).bind fun _ => .refl _

theorem endRecordBeforeComment (h : FillsUnless faults source other) :
    SameUnless faults source.endRecordBeforeComment other.endRecordBeforeComment := by
  rw [Source.endRecordBeforeComment, Source.endRecordBeforeComment, h.size]
  exact (h.checked _ _).bind fun _ => .refl _

/-- A fault of the short read is reported, so the long one follows only where the short one found
the same. -/
theorem endRecord (h : FillsUnless faults source other) :
    SameUnless faults source.endRecord other.endRecord := by
  rw [Source.endRecord, Source.endRecord]
  refine h.endRecordAtEnd.bind fun found => ?_
  cases found with
  | some place => exact .refl _
  | none => exact h.endRecordBeforeComment

theorem wideEndRecord (h : FillsUnless faults source other) (endOffset : Nat) :
    SameUnless faults (source.wideEndRecord endOffset) (other.wideEndRecord endOffset) := by
  rw [Source.wideEndRecord, Source.wideEndRecord]
  refine .ite (.refl _) ?_
  refine (h.padded _ _).bind fun front => ?_
  refine (SameUnless.refl (WideLocator.decode front)).bind fun locator => ?_
  exact (h.checked _ _).bind fun _ => .refl _

theorem directoryExtent (h : FillsUnless faults source other) (place : EndRecord.Place) :
    SameUnless faults (source.directoryExtent place) (other.directoryExtent place) := by
  rw [Source.directoryExtent, Source.directoryExtent]
  refine .ite ?_ (.refl _)
  exact (h.wideEndRecord _).bind fun _ => .refl _

theorem directory (h : FillsUnless faults source other) :
    SameUnless faults source.directory other.directory := by
  rw [Source.directory, Source.directory]
  refine h.endRecord.bind fun place => ?_
  refine (h.directoryExtent place).bind fun extent => ?_
  refine .ite (.refl _) ?_
  exact (h.checked _ _).bind fun _ => .refl _

theorem dataOffset (h : FillsUnless faults source other) (member : Member) :
    SameUnless faults (source.dataOffset member) (other.dataOffset member) := by
  rw [Source.dataOffset, Source.dataOffset]
  exact (h.checked _ _).bind fun _ => .refl _

theorem rawData (h : FillsUnless faults source other) (member : Member) :
    SameUnless faults (source.rawData member) (other.rawData member) := by
  rw [Source.rawData, Source.rawData]
  refine (h.dataOffset member).bind fun offset => ?_
  rw [h.size]
  exact h.checked _ _

theorem entryData (h : FillsUnless faults source other) (member : Member) :
    SameUnless faults (source.entryData member) (other.entryData member) := by
  rw [Source.entryData, Source.entryData]
  refine (SameUnless.refl member.supported).bind fun _ => ?_
  exact (h.rawData member).bind fun _ => .refl _

/-- **Operations see no more of a source than its filled requests.** -/
theorem agree (h : FillsUnless faults source other) : Agree faults source other where
  endRecord := h.endRecord
  wideEndRecord := h.wideEndRecord
  directory := h.directory
  dataOffset := h.dataOffset
  entryData := h.entryData

end FillsUnless

/-! ### Sources that deliver in pieces -/

/-- The source of these contents that claims `size` bytes and delivers at most `piece` of them at a
time. -/
def inPieces (contents : Bytes) (size piece : Nat) : Source where
  contents := contents
  size := size
  chunk := piece
  horizon := none
  breakage := none

/-- A source that claims what it has holds its bytes, whatever the size of its pieces. -/
theorem holds_inPieces (contents : Bytes) {piece : Nat} (hpiece : 0 < piece) :
    (inPieces contents contents.length piece).Holds contents where
  contents := rfl
  size := rfl
  chunk := fun _ => hpiece
  horizon := fun _ h => by cases h
  breakage := rfl

/-- Requests are filled without a look at the claimed size. The induction is on what is still asked
for. -/
theorem gather_inPieces (contents : Bytes) (size claimed piece count : Nat) :
    ∀ (offset : Nat) (ahead got : Bytes),
      (inPieces contents size piece).gather offset count ahead got
        = (inPieces contents claimed piece).gather offset count ahead got := by
  induction count using Nat.strongRecOn with
  | ind count ih =>
    intro offset ahead got
    have hread : (inPieces contents size piece).readAhead offset count ahead
        = (inPieces contents claimed piece).readAhead offset count ahead := rfl
    rw [gather, gather, hread]
    by_cases hcount : 0 < count
    · rw [if_pos hcount, if_pos hcount]
      cases (inPieces contents claimed piece).readAhead offset count ahead with
      | error fault => rfl
      | ok read =>
        cases read with
        | nil => rfl
        | cons b bs =>
          have hless : count - (b :: bs).length < count := Nat.sub_lt hcount (Nat.succ_pos _)
          exact ih _ hless _ _ _
    · rw [if_neg hcount, if_neg hcount]

/-- A filled request is a slice, whatever the claimed size and the size of the pieces. -/
theorem fill_inPieces (contents : Bytes) (size : Nat) {piece : Nat} (hpiece : 0 < piece)
    (offset count : Nat) :
    (inPieces contents size piece).fill offset count = ⟨contents.slice offset count, none⟩ := by
  rw [← (holds_inPieces contents hpiece).fill]
  exact gather_inPieces contents size contents.length piece count offset _ []

/-- **The size of the pieces makes no difference.** Whatever the contents, and whatever size is
claimed for them, every operation gives the same on two sources that deliver in pieces of different
sizes, failures and warnings included. -/
theorem same_in_pieces (contents : Bytes) (size : Nat) {first second : Nat} (hfirst : 0 < first)
    (hsecond : 0 < second) :
    (inPieces contents size first).endRecord = (inPieces contents size second).endRecord ∧
    (∀ endOffset, (inPieces contents size first).wideEndRecord endOffset
      = (inPieces contents size second).wideEndRecord endOffset) ∧
    (inPieces contents size first).directory = (inPieces contents size second).directory ∧
    (∀ policy, (inPieces contents size first).directory.map (·.catalog policy)
      = (inPieces contents size second).directory.map (·.catalog policy)) ∧
    (∀ name, (inPieces contents size first).directory.map (·.locate name)
      = (inPieces contents size second).directory.map (·.locate name)) ∧
    (∀ member, (inPieces contents size first).dataOffset member
      = (inPieces contents size second).dataOffset member) ∧
    ∀ member, (inPieces contents size first).entryData member
      = (inPieces contents size second).entryData member := by
  have hfills : FillsUnless (fun _ => False) (inPieces contents size first)
      (inPieces contents size second) := by
    refine ⟨rfl, fun offset count => Or.inl ?_⟩
    rw [fill_inPieces contents size hfirst, fill_inPieces contents size hsecond]
  have hagree := hfills.agree
  have hdirectory := hagree.directory.eq
  refine ⟨hagree.endRecord.eq, fun endOffset => (hagree.wideEndRecord endOffset).eq, hdirectory,
    fun policy => ?_, fun name => ?_, fun member => (hagree.dataOffset member).eq,
    fun member => (hagree.entryData member).eq⟩
  · rw [hdirectory]
  · rw [hdirectory]

/-- The sample container, of which one byte more is claimed than there is. The short read then looks
for the end record one byte too late and the long read finds it, in single bytes as well as in
pieces of seven. -/
theorem same_in_pieces_sample :
    0 < 1 ∧ 0 < 7 ∧
    (inPieces Packing.sample.bytes 227 1).endRecord.toOption.map (·.offset) = some 202 ∧
    (inPieces Packing.sample.bytes 227 1).endRecord
      = (inPieces Packing.sample.bytes 227 7).endRecord := by
  have hfirst : 0 < 1 := by decide
  have hsecond : 0 < 7 := by decide
  refine ⟨hfirst, hsecond, by decide +kernel, ?_⟩
  exact (same_in_pieces Packing.sample.bytes 227 hfirst hsecond).1

/-! ### Sources that fail -/

/-- The source, but every read from `offset` on fails. -/
def brokenAt (source : Source) (offset : Nat) (fault : DeviceFault) : Source :=
  { source with breakage := some ⟨offset, fault⟩ }

/-- The source, and no read fails. -/
def mended (source : Source) : Source :=
  { source with breakage := none }

/-- The two sources hold and claim the same, and each read gives the same unless the first source
fails at it. -/
structure ReadsUnless (fault : DeviceFault) (source other : Source) : Prop where
  contents : source.contents = other.contents
  size : source.size = other.size
  read : ∀ offset count ahead, source.readAhead offset count ahead
    = other.readAhead offset count ahead ∨ source.readAhead offset count ahead = .error fault

theorem readsUnless_mended (source : Source) (offset : Nat) (fault : DeviceFault) :
    ReadsUnless fault (source.brokenAt offset fault) source.mended where
  contents := rfl
  size := rfl
  read := by
    intro start count ahead
    by_cases hbroken : offset ≤ start
    · right
      simp only [readAhead, fault?, brokenAt, if_pos hbroken]
    · left
      simp only [readAhead, fault?, brokenAt, mended, if_neg hbroken]
      rfl

/-- A source that fails later fails at fewer reads, and with the same fault. -/
theorem readsUnless_later (source : Source) {offset later : Nat} (hlater : offset ≤ later)
    (fault : DeviceFault) :
    ReadsUnless fault (source.brokenAt offset fault) (source.brokenAt later fault) where
  contents := rfl
  size := rfl
  read := by
    intro start count ahead
    by_cases hbroken : offset ≤ start
    · right
      simp only [readAhead, fault?, brokenAt, if_pos hbroken]
    · left
      have hafter : ¬ later ≤ start := fun h => hbroken (Nat.le_trans hlater h)
      simp only [readAhead, fault?, brokenAt, if_neg hbroken, if_neg hafter]
      rfl

/-- The loop makes the same reads on both sources until the first of them fails. The induction is
on what is still asked for. -/
theorem ReadsUnless.gather {fault : DeviceFault} (h : ReadsUnless fault source other)
    (count : Nat) : ∀ (offset : Nat) (ahead got : Bytes),
    source.gather offset count ahead got = other.gather offset count ahead got ∨
      (source.gather offset count ahead got).fault = some fault := by
  induction count using Nat.strongRecOn with
  | ind count ih =>
    intro offset ahead got
    rw [Source.gather, Source.gather]
    by_cases hcount : 0 < count
    · rw [if_pos hcount, if_pos hcount]
      rcases h.read offset count ahead with hsame | hfails
      · rw [hsame]
        cases other.readAhead offset count ahead with
        | error other => exact Or.inl rfl
        | ok piece =>
          cases piece with
          | nil => exact Or.inl rfl
          | cons b bs =>
            have hless : count - (b :: bs).length < count :=
              Nat.sub_lt hcount (Nat.succ_pos _)
            exact ih _ hless _ _ _
      · rw [hfails]
        exact Or.inr rfl
    · rw [if_neg hcount, if_neg hcount]
      exact Or.inl rfl

theorem ReadsUnless.fillsUnless {fault : DeviceFault} (h : ReadsUnless fault source other) :
    FillsUnless (· = fault) source other where
  size := h.size
  fill := by
    intro offset count
    rw [fill, fill, h.contents]
    rcases h.gather count offset (other.contents.drop offset) [] with hsame | hfails
    · exact Or.inl hsame
    · exact Or.inr ⟨fault, rfl, hfails⟩

/-- **A fault is reported, or it makes no difference.** A source that fails from some offset on
gives what it would give if it did not fail, or that fault; and what it gives besides that fault, it
also gives if it fails only later. Nothing is asked of the source: its claimed size may be wrong,
and its pieces may be of any size or empty. -/
theorem fault_or_same (source : Source) (offset : Nat) (fault : DeviceFault) :
    Agree (· = fault) (source.brokenAt offset fault) source.mended ∧
      ∀ later, offset ≤ later →
        Agree (· = fault) (source.brokenAt offset fault) (source.brokenAt later fault) := by
  constructor
  · exact (source.readsUnless_mended offset fault).fillsUnless.agree
  · intro later hlater
    exact (source.readsUnless_later hlater fault).fillsUnless.agree

/-- The sample container in pieces of 16 bytes, from some offset on worn. -/
def sampleWorn (offset : Nat) : Source :=
  (inPieces Packing.sample.bytes 226 16).brokenAt offset (.other "worn")

/-- The short read at the end of the container takes two pieces. If the second one fails, so does
the opening, and the piece that arrived is not taken for an end record. -/
theorem fault_or_same_sample :
    (sampleWorn 205).directory.toOption = none ∧
    (sampleWorn 300).directory.toOption.isSome = true ∧
    205 ≤ 300 ∧ Agree (· = .other "worn") (sampleWorn 205) (sampleWorn 300) := by
  have hlater : 205 ≤ 300 := by decide
  refine ⟨by decide +kernel, by decide +kernel, hlater, ?_⟩
  exact (fault_or_same (inPieces Packing.sample.bytes 226 16) 205 (.other "worn")).2 300 hlater

end Source

end RomArchive
