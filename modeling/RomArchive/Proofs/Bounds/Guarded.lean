import RomArchive.Failure
import RomArchive.Proofs.Framing

/-!
# Guarded steps

The readers of this library are total: a slice that reaches past the end is cut off, a word is read
from whatever bytes are there, and an offset is a number of any size. On a machine an index outside
its slice ends the run, and so does a sum that leaves 64 bits. To say that neither happens, the
steps are taken once more with their guards: each looks at its bounds first and halts if they are
not met.

A guarded reader that is shown to follow the plain one has met all of its bounds, since a plain
result is a value or a failure and never a halt.

## Main definitions

* `Halt`, `Guarded` — why a guarded run stops, and what it gives
* `Guarded.add`, `Guarded.sub`, `Guarded.index`, `Guarded.range`, `Guarded.allocate`,
  `Guarded.word16` and its wider companions — the guarded steps
* `Guarded.lift` — a plain result, as the result of a guarded run
* `Guarded.Mirrors` — a guarded run ends as a plain one does, up to a relation between their values
-/

namespace RomArchive

/-- Why a guarded run stops. All but the last are halts of the machine. -/
inductive Halt where
  /-- An index or a range reaches outside its slice. -/
  | outside
  /-- Fewer bytes are left than a word takes. -/
  | short
  /-- A sum or a difference leaves the range of 64 bits. -/
  | overflow
  /-- A buffer is longer than memory can be. -/
  | memory
  /-- The operation fails in the way that it says it can. -/
  | failed (failure : Failure)
  deriving DecidableEq

/-- The result of a run in which every step is guarded. -/
abbrev Guarded (α : Type) : Type := Except Halt α

namespace Guarded

variable {α β γ δ : Type}

/-! ### Runs that follow plain ones -/

/-- A plain result, as that of a run in which every guard was met: a value or a failure, and no halt
of the machine. -/
def lift (result : Except Failure α) : Guarded α :=
  result.mapError .failed

theorem lift_eq_ok_iff {result : Except Failure α} {a : α} :
    lift result = .ok a ↔ result = .ok a := by
  cases result with
  | error failure => exact ⟨nofun, nofun⟩
  | ok b => exact ⟨fun h => congrArg Except.ok (Except.ok.inj h), fun h => congrArg lift h⟩

/-- The guarded run ends as the plain one does: with the same failure, or with values that are
related. No guard stopped it. -/
inductive Mirrors (related : α → β → Prop) : Guarded α → Except Failure β → Prop
  | failed (failure : Failure) : Mirrors related (.error (.failed failure)) (.error failure)
  | ok {a : α} {b : β} (h : related a b) : Mirrors related (.ok a) (.ok b)

theorem Mirrors.eq {run : Guarded α} {result : Except Failure α} (h : Mirrors Eq run result) :
    run = lift result := by
  cases h with
  | failed failure => rfl
  | ok h => rw [h]; rfl

theorem Mirrors.eq_failed {related : α → β → Prop} {run : Guarded α} {failure : Failure}
    (h : Mirrors related run (.error failure)) : run = .error (.failed failure) := by
  cases h
  rfl

theorem Mirrors.exists_eq_ok {related : α → β → Prop} {run : Guarded α} {b : β}
    (h : Mirrors related run (.ok b)) : ∃ a, run = .ok a ∧ related a b := by
  cases h with
  | ok h => exact ⟨_, rfl, h⟩

theorem mirrors_lift (result : Except Failure α) : Mirrors Eq (lift result) result := by
  cases result with
  | error failure => exact .failed failure
  | ok a => exact .ok rfl

/-- What comes next need only follow from related values. -/
theorem Mirrors.bind {related : α → β → Prop} {next : γ → δ → Prop} {run : Guarded α}
    {result : Except Failure β} {f : α → Guarded γ} {g : β → Except Failure δ}
    (h : Mirrors related run result) (hnext : ∀ a b, related a b → Mirrors next (f a) (g b)) :
    Mirrors next (run >>= f) (result >>= g) := by
  cases h with
  | failed failure => exact .failed failure
  | ok h => exact hnext _ _ h

/-- What is known of the plain result goes into the relation. -/
theorem Mirrors.imp {related other : α → β → Prop} {run : Guarded α} {result : Except Failure β}
    (h : Mirrors related run result)
    (himp : ∀ a b, result = .ok b → related a b → other a b) : Mirrors other run result := by
  cases h with
  | failed failure => exact .failed failure
  | ok h => exact .ok (himp _ _ rfl h)

/-- As `Mirrors.bind`, when the plain result is only looked at in another way. -/
theorem Mirrors.map {related : α → β → Prop} {next : γ → δ → Prop} {run : Guarded α}
    {result : Except Failure β} {f : α → Guarded γ} {g : β → δ}
    (h : Mirrors related run result)
    (hnext : ∀ a b, related a b → ∃ c, f a = .ok c ∧ next c (g b)) :
    Mirrors next (run >>= f) (result.map g) := by
  cases h with
  | failed failure => exact .failed failure
  | ok h =>
    obtain ⟨c, hrun, hc⟩ := hnext _ _ h
    show Mirrors next (f _) _
    rw [hrun]
    exact .ok hc

@[simp] theorem ok_bind (a : α) (f : α → Guarded β) : (Except.ok a : Guarded α) >>= f = f a := rfl

/-! ### Numbers of 64 bits -/

/-- The greatest length of a buffer, and so of any bytes in memory. -/
def maxLength : Nat := 9223372036854775807

/-- Where lengths and where numbers end. -/
theorem limits : maxLength = 9223372036854775807 ∧ UInt64.size = 18446744073709551616 :=
  ⟨rfl, rfl⟩

def add (a b : Nat) : Guarded Nat :=
  if a + b < UInt64.size then .ok (a + b) else .error .overflow

def sub (a b : Nat) : Guarded Nat :=
  if b ≤ a then .ok (a - b) else .error .overflow

/-- A sum, if it is a number of 64 bits. -/
def checkedAdd (a b : Nat) : Option Nat :=
  if a + b < UInt64.size then some (a + b) else none

variable {a b : Nat}

theorem add_eq (h : a + b < UInt64.size) : add a b = .ok (a + b) := if_pos h

theorem sub_eq (h : b ≤ a) : sub a b = .ok (a - b) := if_pos h

theorem eq_of_add_eq_ok {sum : Nat} (h : add a b = .ok sum) : sum = a + b := by
  rw [add] at h
  split at h
  · exact (Except.ok.inj h).symm
  · cases h

/-! ### Slices -/

def allocate (count : Nat) : Guarded Bytes :=
  if count ≤ maxLength then .ok (List.replicate count 0) else .error .memory

def index (bytes : Bytes) (i : Nat) : Guarded UInt8 :=
  match bytes[i]? with
  | some b => .ok b
  | none => .error .outside

/-- The bytes from `start` up to but not including `stop`. -/
def range (bytes : Bytes) (start stop : Nat) : Guarded Bytes :=
  if start ≤ stop ∧ stop ≤ bytes.length then .ok (bytes.slice start (stop - start))
  else .error .outside

/-- The word that is put together from the bytes at two indices. -/
def pair (bytes : Bytes) (low high : Nat) : Guarded UInt16 := do
  let first ← index bytes low
  let second ← index bytes high
  return Bytes.word16 0 [first, second]

variable {bytes : Bytes} {start stop : Nat}

theorem allocate_eq {count : Nat} (h : count ≤ maxLength) :
    allocate count = .ok (List.replicate count 0) := if_pos h

theorem range_eq (hstart : start ≤ stop) (hstop : stop ≤ bytes.length) :
    range bytes start stop = .ok (bytes.slice start (stop - start)) := if_pos ⟨hstart, hstop⟩

theorem range_front (h : stop ≤ bytes.length) : range bytes 0 stop = .ok (bytes.take stop) :=
  range_eq (Nat.zero_le stop) h

theorem range_behind (h : start ≤ bytes.length) :
    range bytes start bytes.length = .ok (bytes.drop start) := by
  rw [range_eq h (Nat.le_refl _), Bytes.slice_eq_drop (Nat.le_refl _)]

theorem index_eq {i : Nat} (h : i < bytes.length) : index bytes i = .ok bytes[i] := by
  rw [index, List.getElem?_eq_getElem h]

theorem pair_eq {low high : Nat} (hhigh : high = low + 1) (h : high < bytes.length) :
    pair bytes low high = .ok (bytes.word16 low) := by
  subst hhigh
  have hslice : bytes.slice low 2 = [bytes[low], bytes[low + 1]] := by
    rw [Bytes.slice, List.drop_eq_getElem_cons (by omega), List.drop_eq_getElem_cons (by omega)]
    rfl
  have hword : Bytes.word16 0 [bytes[low], bytes[low + 1]] = bytes.word16 low := by
    have hlength : (bytes.slice low 2).length = 2 := Bytes.length_slice_of_le (by omega)
    rw [← hslice, Bytes.word16, Bytes.word16, Bytes.slice_self hlength]
  rw [pair, index_eq (by omega), index_eq h, ← hword]
  rfl

/-! ### Reading words one behind the other -/

/-- Whatever is read by `word` in `width` bytes at a position, and the position behind it. -/
def wordAt (width : Nat) (word : Nat → Bytes → α) (bytes : Bytes) (position : Nat) :
    Guarded (α × Nat) :=
  if position + width ≤ bytes.length then .ok (word position bytes, position + width)
  else .error .short

def word16 : Bytes → Nat → Guarded (UInt16 × Nat) := wordAt 2 Bytes.word16

def word32 : Bytes → Nat → Guarded (UInt32 × Nat) := wordAt 4 Bytes.word32

def word64 : Bytes → Nat → Guarded (UInt64 × Nat) := wordAt 8 Bytes.word64

variable {position : Nat}

/-- A word that was read lies among the bytes, and the position moved on by its width. -/
theorem behind_of_wordAt_eq_ok {width : Nat} {word : Nat → Bytes → α} {outcome : α × Nat}
    (h : wordAt width word bytes position = .ok outcome) :
    outcome.2 = position + width ∧ position + width ≤ bytes.length := by
  rw [wordAt] at h
  split at h
  · cases h
    exact ⟨rfl, by assumption⟩
  · cases h

theorem word16_eq (h : position + 2 ≤ bytes.length) :
    word16 bytes position = .ok (bytes.word16 position, position + 2) := if_pos h

theorem word32_eq (h : position + 4 ≤ bytes.length) :
    word32 bytes position = .ok (bytes.word32 position, position + 4) := if_pos h

theorem word64_eq (h : position + 8 ≤ bytes.length) :
    word64 bytes position = .ok (bytes.word64 position, position + 8) := if_pos h

end Guarded

end RomArchive
