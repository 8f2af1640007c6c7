/-!
# Results

An operation either gives a value or fails, and most operations are steps of which each goes on with
the value of the one before. A result at the end has passed all of the steps; these are the few
facts by which one steps back.
-/

namespace RomArchive

/-- Results can be compared if values and failures can. -/
instance decidableEqExcept {ε α : Type} [DecidableEq ε] [DecidableEq α] : DecidableEq (Except ε α)
  | .error e, .error f => decidable_of_iff (e = f) ⟨congrArg _, Except.error.inj⟩
  | .ok a, .ok b => decidable_of_iff (a = b) ⟨congrArg _, Except.ok.inj⟩
  | .error _, .ok _ => isFalse nofun
  | .ok _, .error _ => isFalse nofun

/-- A result at the end of two steps has passed the first. -/
theorem exists_of_bind_eq_ok {ε α β : Type} {first : Except ε α} {next : α → Except ε β} {b : β}
    (h : (first >>= next) = .ok b) : ∃ a, first = .ok a ∧ next a = .ok b := by
  cases first with
  | error failure => cases h
  | ok a => exact ⟨a, rfl, h⟩

/-- A result that is there, when it is looked at as an option. -/
theorem eq_ok_of_toOption {ε α : Type} {result : Except ε α} {a : α}
    (h : result.toOption = some a) : result = .ok a := by
  cases result with
  | error failure => cases h
  | ok b => exact congrArg Except.ok (Option.some.inj h)

/-- A result that is missing. -/
theorem exists_error_of_toOption {ε α : Type} {result : Except ε α} (h : result.toOption = none) :
    ∃ failure, result = .error failure := by
  cases result with
  | error failure => exact ⟨failure, rfl⟩
  | ok a => cases h

/-- A value that is given under a condition. -/
theorem ite_eq_ok_iff {ε α : Type} {p : Prop} [Decidable p] {a b : α} {failure : ε} :
    (if p then .ok a else .error failure : Except ε α) = .ok b ↔ p ∧ a = b := by
  by_cases hp : p
  · rw [if_pos hp, Except.ok.injEq, and_iff_right hp]
  · rw [if_neg hp]
    exact iff_of_false (fun h => by cases h) fun h => hp h.1

end RomArchive
