import RomArchive.Member
import RomArchive.Proofs.Results
import RomArchive.Proofs.Bounds.Guarded

/-!
# Extra areas read within bounds

An extra area is gone through by position: a field's header is read where the position stands, its
body is a range behind it, and the position moves on to the end of that range. The plain reader has
no positions; it cuts the area off behind each field, and the body behind each word. The two are put
side by side field by field and word by word.

## Main definitions

* `Guarded.field?`, `Guarded.takeWord` — the field, and the word, at a position
* `Guarded.afterExtra` — all fields from a position on

## Main results

* `Guarded.afterExtra_eq` — reading by position comes to what cutting off comes to
-/

namespace RomArchive

namespace Guarded

/-! ### Fields and words by position -/

/-- A field of an extra area: its id, and where its body stands. -/
structure FieldPlace where
  id : UInt16
  start : Nat
  stop : Nat

/-- The field at a position, unless fewer than four bytes are left. -/
def field? (extra : Bytes) (position : Nat) : Guarded (Option FieldPlace) := do
  let stop ← add position 4
  if extra.length < stop then return none
  else do
    let (id, position) ← word16 extra position
    let (length, start) ← word16 extra position
    let stop ← add start length.toNat
    return some ⟨id, start, stop⟩

/-- A slot that is still empty takes the word at the position, if a whole one is left. -/
def takeWord (slot : Option Nat) (body : Bytes) (position : Nat) : Guarded (Option Nat × Nat) :=
  match slot with
  | some value => return (some value, position)
  | none => do
    let stop ← add position 8
    if body.length < stop then return (none, position)
    else do
      let (word, position) ← word64 body position
      return (some word.toNat, position)

def takeFrom (slots : WideSlots) (body : Bytes) : Guarded WideSlots := do
  let (uncompressed, position) ← takeWord slots.uncompressed body 0
  let (compressed, position) ← takeWord slots.compressed body position
  let (offset, _) ← takeWord slots.offset body position
  return ⟨uncompressed, compressed, offset⟩

/-- The slots after the field at this place. -/
def takeField (slots : WideSlots) (extra : Bytes) (field : FieldPlace) : Guarded WideSlots :=
  if field.id = WideSlots.fieldId then do
    let body ← range extra field.start field.stop
    takeFrom slots body
  else return slots

variable {bytes extra body : Bytes} {position : Nat}

theorem field?_eq (hextra : extra.length ≤ maxLength) (hposition : position ≤ extra.length) :
    field? extra position = .ok (if extra.length < position + 4 then none
      else some ⟨extra.word16 position, position + 4,
        position + 4 + (extra.word16 (position + 2)).toNat⟩) := by
  have hlimits := limits
  rw [field?, add_eq (by omega), ok_bind]
  by_cases hshort : extra.length < position + 4
  · rw [if_pos hshort, if_pos hshort]
    rfl
  · have hlength := (extra.word16 (position + 2)).toNat_lt
    rw [if_neg hshort, if_neg hshort, word16_eq (by omega), ok_bind]
    dsimp only
    rw [word16_eq (by omega), ok_bind]
    dsimp only
    rw [add_eq (by omega)]
    rfl

/-- A field that is there moves the reader on, and begins among the bytes. -/
theorem lt_of_field? {field : FieldPlace} (h : field? extra position = .ok (some field)) :
    position < field.stop ∧ position < extra.length := by
  obtain ⟨_, _, h⟩ := exists_of_bind_eq_ok h
  split at h
  · cases h
  · obtain ⟨⟨id, second⟩, hid, h⟩ := exists_of_bind_eq_ok h
    obtain ⟨⟨length, start⟩, hlength, h⟩ := exists_of_bind_eq_ok h
    obtain ⟨stop, hstop, h⟩ := exists_of_bind_eq_ok h
    obtain rfl := Option.some.inj (Except.ok.inj h)
    have hsecond := behind_of_wordAt_eq_ok hid
    have hstart := behind_of_wordAt_eq_ok hlength
    have hsum := eq_of_add_eq_ok hstop
    dsimp only at hsecond hstart ⊢
    omega

/-- The slots after the extra area from a position on. -/
def afterExtra (failure : Failure) (extra : Bytes) (slots : WideSlots) (position : Nat) :
    Guarded WideSlots :=
  match _hfield : field? extra position with
  | .error halt => .error halt
  | .ok none => return slots
  | .ok (some field) =>
    if extra.length < field.stop then .error (.failed failure)
    else do
      let filled ← takeField slots extra field
      afterExtra failure extra filled field.stop
termination_by extra.length - position
decreasing_by
  have := lt_of_field? _hfield
  omega

/-! ### Positions and what is cut off -/

/-- Handing out a word moves the position as far as it cuts the body. -/
theorem takeWord_eq (slot : Option Nat) (hbody : body.length ≤ maxLength)
    (hposition : position ≤ body.length) :
    ∃ behind, behind ≤ body.length ∧
      takeWord slot body position
        = .ok ((WideSlots.takeWord slot (body.drop position)).1, behind) ∧
      (WideSlots.takeWord slot (body.drop position)).2 = body.drop behind := by
  have hlimits := limits
  cases slot with
  | some value => exact ⟨position, hposition, rfl, rfl⟩
  | none =>
    rw [takeWord, WideSlots.takeWord, add_eq (by omega), ok_bind, List.length_drop]
    by_cases hshort : body.length < position + 8
    · rw [if_pos hshort, if_neg (by omega)]
      exact ⟨position, hposition, rfl, rfl⟩
    · rw [if_neg hshort, if_pos (by omega), word64_eq (by omega), Bytes.word64_drop, List.drop_drop]
      exact ⟨position + 8, by omega, rfl, rfl⟩

theorem takeFrom_eq (slots : WideSlots) (hbody : body.length ≤ maxLength) :
    takeFrom slots body = .ok (slots.takeFrom body) := by
  obtain ⟨first, hfirst, huncompressed, hbehind⟩ :=
    takeWord_eq slots.uncompressed hbody (Nat.zero_le _)
  obtain ⟨second, hsecond, hcompressed, hlast⟩ := takeWord_eq slots.compressed hbody hfirst
  obtain ⟨_, _, hoffset, _⟩ := takeWord_eq slots.offset hbody hsecond
  rw [List.drop_zero] at huncompressed hbehind
  rw [takeFrom, huncompressed, ok_bind]
  dsimp only
  rw [hcompressed, ok_bind]
  dsimp only
  rw [hoffset, WideSlots.takeFrom, ← hlast, ← hbehind]
  rfl

theorem takeField_eq (slots : WideSlots) (hextra : extra.length ≤ maxLength) {id : UInt16}
    {start stop : Nat} (hstart : start ≤ stop) (hstop : stop ≤ extra.length) :
    takeField slots extra ⟨id, start, stop⟩ = .ok (if id = WideSlots.fieldId
      then slots.takeFrom (extra.slice start (stop - start)) else slots) := by
  rw [takeField]
  by_cases hid : id = WideSlots.fieldId
  · have hbody := Bytes.length_slice start (stop - start) extra
    rw [if_pos hid, if_pos hid, range_eq hstart hstop, ok_bind, takeFrom_eq slots (by omega)]
  · rw [if_neg hid, if_neg hid]
    rfl

/-- The loop by positions and the loop that cuts fields off. The induction is on what is left of the
area. -/
theorem afterExtra_eq (failure : Failure) (hextra : extra.length ≤ maxLength) (rest : Nat) :
    ∀ (slots : WideSlots) (position : Nat), extra.length - position = rest →
      position ≤ extra.length → afterExtra failure extra slots position
        = lift ((slots.afterExtra (extra.drop position)).elim (.error failure) .ok) := by
  induction rest using Nat.strongRecOn with
  | ind rest ih =>
    intro slots position hrest hposition
    have hfield := field?_eq hextra hposition
    have hfront : ∀ count, ((extra.drop position).take count).length < count
        ↔ extra.length < position + count := by
      intro count
      rw [List.length_take, List.length_drop]
      omega
    rw [afterExtra, WideSlots.afterExtra]
    simp only [hfront]
    by_cases hshort : extra.length < position + 4
    · rw [if_pos hshort] at hfield ⊢
      split
      · rename_i hhalt
        cases hhalt.symm.trans hfield
      · rfl
      · rename_i hsome
        cases hsome.symm.trans hfield
    · rw [if_neg hshort] at hfield ⊢
      split
      · rename_i hhalt
        cases hhalt.symm.trans hfield
      · rename_i hnone
        cases hnone.symm.trans hfield
      · rename_i field hsome
        obtain rfl := Option.some.inj (Except.ok.inj (hfield.symm.trans hsome))
        simp only [Bytes.word16_drop, Bytes.slice_drop, List.drop_drop, Nat.add_zero,
          ← Nat.add_assoc]
        by_cases hcut : extra.length
            < position + 4 + (extra.word16 (position + 2)).toNat
        · rw [if_pos hcut, if_pos hcut]
          rfl
        · rw [if_neg hcut, if_neg hcut, takeField_eq slots hextra (by omega) (by omega), ok_bind,
            Nat.add_sub_cancel_left]
          exact ih _ (by omega) _ _ rfl (by omega)

end Guarded

end RomArchive
