import RomArchive.LossyText
import RomArchive.PathText

/-!
# Names that are text survive the lossy decoder

The decoder never fails, so that it loses nothing on well-formed names is not a matter of its type.
It is shown character by character: after the bytes of one character the decoder stands between
sequences again, with that character settled and nothing else.

Each width has its own leading bytes and its own range for the second byte. The lemmas on single
bytes take the value of their payload as a variable, so that what is left for a character is the
arithmetic of cutting its code point into digits to base 64.

## Main results

* `LossyText.decode_bytes` — the bytes of a text decode to the text
* `LossyText.nul_mem_bytes_iff` — and hold a NUL only where the text does
-/

namespace RomArchive

namespace LossyText

/-! ### Single bytes -/

theorem decodeFrom_cons (pending : Option Partial) (b : UInt8) (bs : Bytes) :
    decodeFrom pending (b :: bs)
      = (step pending b.toNat).1 ++ decodeFrom (step pending b.toNat).2 bs := rfl

theorem step_ascii {n : Nat} (h : n < 0x80) : step none n = ([Char.ofNat n], none) :=
  if_pos h

theorem step_lead {n : Nat} {sequence : Partial} (h : 0x80 ≤ n)
    (hlead : Partial.ofLead? n = some sequence) : step none n = ([], some sequence) := by
  rw [step, start, if_neg (Nat.not_lt.2 h), hlead]

/-- The leading bytes of two-byte sequences. -/
theorem ofLead?_two : ∀ n < 32, 2 ≤ n →
    Partial.ofLead? (n + 0xC0) = some ⟨n, 1, 0x80, 0xBF⟩ := by decide

/-- The leading bytes of three-byte sequences. The second byte keeps out overlong forms and
surrogates. -/
theorem ofLead?_three : ∀ n < 16, Partial.ofLead? (n + 0xE0)
    = some ⟨n, 2, if n = 0 then 0xA0 else 0x80, if n = 13 then 0x9F else 0xBF⟩ := by decide

/-- The leading bytes of four-byte sequences. The second byte keeps out overlong forms and values
that are too large. -/
theorem ofLead?_four : ∀ n < 5, Partial.ofLead? (n + 0xF0)
    = some ⟨n, 3, if n = 0 then 0x90 else 0x80, if n = 4 then 0x8F else 0xBF⟩ := by decide

/-- A byte inside a sequence that is not its last one. -/
theorem step_inner {bits missing low high k : Nat} (hmissing : 1 < missing)
    (hlow : low ≤ k + 0x80) (hhigh : k + 0x80 ≤ high) :
    step (some ⟨bits, missing, low, high⟩) (k + 0x80)
      = ([], some ⟨bits * 64 + k, missing - 1, 0x80, 0xBF⟩) := by
  simp only [step, Partial.extend?]
  rw [if_pos ⟨hlow, hhigh⟩, if_neg (Nat.not_le.2 hmissing), Nat.add_sub_cancel]

/-- The last byte of a sequence settles a character. -/
theorem step_last {bits low high k : Nat} (hlow : low ≤ k + 0x80) (hhigh : k + 0x80 ≤ high) :
    step (some ⟨bits, 1, low, high⟩) (k + 0x80) = ([Char.ofNat (bits * 64 + k)], none) := by
  simp only [step, Partial.extend?]
  rw [if_pos ⟨hlow, hhigh⟩, if_pos (Nat.le_refl 1), Nat.add_sub_cancel]

theorem toNat_ofNat_of_lt {n : Nat} (h : n < 256) : (UInt8.ofNat n).toNat = n :=
  UInt8.toNat_ofNat_of_lt' h

/-! ### One character -/

/-- The values that a character can have. -/
theorem toNat_lt_or (c : Char) : c.toNat < 0xD800 ∨ 0xDFFF < c.toNat ∧ c.toNat < 0x110000 :=
  c.valid

variable (c : Char) (rest : Bytes)

theorem decodeFrom_two (h : 0x80 ≤ c.toNat) (hsize : c.toNat < 0x800) :
    decodeFrom none (UInt8.ofNat (c.toNat / 64 % 32 + 0xC0)
      :: UInt8.ofNat (c.toNat % 64 + 0x80) :: rest) = c :: decodeFrom none rest := by
  have hvalue : c.toNat / 64 % 32 * 64 + c.toNat % 64 = c.toNat := by omega
  rw [decodeFrom_cons, toNat_ofNat_of_lt (by omega),
    step_lead (by omega) (ofLead?_two _ (by omega) (by omega))]
  rw [decodeFrom_cons, toNat_ofNat_of_lt (by omega), step_last (by omega) (by omega), hvalue,
    Char.ofNat_toNat]
  rfl

theorem decodeFrom_three (h : 0x800 ≤ c.toNat) (hsize : c.toNat < 0x10000) :
    decodeFrom none (UInt8.ofNat (c.toNat / 4096 % 16 + 0xE0)
      :: UInt8.ofNat (c.toNat / 64 % 64 + 0x80) :: UInt8.ofNat (c.toNat % 64 + 0x80) :: rest)
      = c :: decodeFrom none rest := by
  have hvalid := toNat_lt_or c
  have hvalue : (c.toNat / 4096 % 16 * 64 + c.toNat / 64 % 64) * 64 + c.toNat % 64 = c.toNat := by
    omega
  have hlow : (if c.toNat / 4096 % 16 = 0 then 0xA0 else 0x80) ≤ c.toNat / 64 % 64 + 0x80 := by
    split <;> omega
  have hhigh : c.toNat / 64 % 64 + 0x80 ≤ if c.toNat / 4096 % 16 = 13 then 0x9F else 0xBF := by
    split <;> omega
  rw [decodeFrom_cons, toNat_ofNat_of_lt (by omega),
    step_lead (by omega) (ofLead?_three _ (by omega))]
  rw [decodeFrom_cons, toNat_ofNat_of_lt (by omega), step_inner (by omega) hlow hhigh]
  rw [decodeFrom_cons, toNat_ofNat_of_lt (by omega), step_last (by omega) (by omega), hvalue,
    Char.ofNat_toNat]
  rfl

theorem decodeFrom_four (h : 0x10000 ≤ c.toNat) :
    decodeFrom none (UInt8.ofNat (c.toNat / 262144 % 8 + 0xF0)
      :: UInt8.ofNat (c.toNat / 4096 % 64 + 0x80) :: UInt8.ofNat (c.toNat / 64 % 64 + 0x80)
      :: UInt8.ofNat (c.toNat % 64 + 0x80) :: rest) = c :: decodeFrom none rest := by
  have hvalid := toNat_lt_or c
  have hvalue : ((c.toNat / 262144 % 8 * 64 + c.toNat / 4096 % 64) * 64 + c.toNat / 64 % 64) * 64
      + c.toNat % 64 = c.toNat := by omega
  have hlow : (if c.toNat / 262144 % 8 = 0 then 0x90 else 0x80) ≤ c.toNat / 4096 % 64 + 0x80 := by
    split <;> omega
  have hhigh : c.toNat / 4096 % 64 + 0x80 ≤ if c.toNat / 262144 % 8 = 4 then 0x8F else 0xBF := by
    split <;> omega
  rw [decodeFrom_cons, toNat_ofNat_of_lt (by omega),
    step_lead (by omega) (ofLead?_four _ (by omega))]
  rw [decodeFrom_cons, toNat_ofNat_of_lt (by omega), step_inner (by omega) hlow hhigh]
  rw [decodeFrom_cons, toNat_ofNat_of_lt (by omega), step_inner (by omega) (by omega) (by omega)]
  rw [decodeFrom_cons, toNat_ofNat_of_lt (by omega), step_last (by omega) (by omega), hvalue,
    Char.ofNat_toNat]
  rfl

theorem decodeFrom_one (hsize : c.toNat < 0x80) :
    decodeFrom none (UInt8.ofNat c.toNat :: rest) = c :: decodeFrom none rest := by
  rw [decodeFrom_cons, toNat_ofNat_of_lt (by omega), step_ascii hsize, Char.ofNat_toNat]
  rfl

/-- **One character is read back**, and the decoder stands between sequences again. -/
theorem decodeFrom_utf8EncodeChar :
    decodeFrom none (String.utf8EncodeChar c ++ rest) = c :: decodeFrom none rest := by
  fun_cases String.utf8EncodeChar c with
  | case1 _ hone => exact decodeFrom_one c rest (Nat.lt_succ_of_le hone)
  | case2 _ hone htwo =>
    exact decodeFrom_two c rest (Nat.not_le.1 hone) (Nat.lt_succ_of_le htwo)
  | case3 _ _ htwo hthree =>
    exact decodeFrom_three c rest (Nat.not_le.1 htwo) (Nat.lt_succ_of_le hthree)
  | case4 _ _ _ hthree => exact decodeFrom_four c rest (Nat.not_le.1 hthree)

/-! ### Texts -/

theorem decodeFrom_flatMap (text : List Char) :
    decodeFrom none (text.flatMap String.utf8EncodeChar) = text := by
  induction text with
  | nil => rfl
  | cons c text ih => rw [List.flatMap_cons, decodeFrom_utf8EncodeChar, ih]

/-- **The bytes of a text decode to the text.** -/
theorem decode_bytes (text : String) : decode (PathText.bytes text) = text := by
  rw [decode, PathText.bytes, decodeFrom_flatMap, String.ofList_toList]

theorem zero_ne_ofNat {n : Nat} (hpos : 0 < n) (hlt : n < 256) : 0 ≠ UInt8.ofNat n := by
  intro hzero
  have hvalue := congrArg UInt8.toNat hzero
  rw [toNat_ofNat_of_lt hlt] at hvalue
  exact absurd hvalue (Nat.ne_of_lt hpos)

/-- All bytes of a longer sequence have their highest bit set, so a NUL stands for itself. -/
theorem zero_mem_utf8EncodeChar_iff : 0 ∈ String.utf8EncodeChar c ↔ c = '\x00' := by
  constructor
  · intro h
    refine Decidable.byContradiction fun hc => ?_
    have hpos : 0 < c.val.toNat := Nat.pos_of_ne_zero fun hzero =>
      hc (by rw [← Char.ofNat_toNat c, Char.toNat, hzero])
    revert h
    fun_cases String.utf8EncodeChar c with
    | case1 _ hone =>
      simp only [List.mem_cons, List.not_mem_nil, or_false]
      exact fun h => zero_ne_ofNat hpos (Nat.lt_of_le_of_lt hone (by omega)) h
    | case2 =>
      simp only [List.mem_cons, List.not_mem_nil, or_false]
      rintro (h | h) <;> exact zero_ne_ofNat (by omega) (by omega) h
    | case3 =>
      simp only [List.mem_cons, List.not_mem_nil, or_false]
      rintro (h | h | h) <;> exact zero_ne_ofNat (by omega) (by omega) h
    | case4 =>
      simp only [List.mem_cons, List.not_mem_nil, or_false]
      rintro (h | h | h | h) <;> exact zero_ne_ofNat (by omega) (by omega) h
  · rintro rfl
    decide

theorem nul_mem_bytes_iff (text : String) : 0 ∈ PathText.bytes text ↔ '\x00' ∈ text.toList := by
  simp [PathText.bytes, List.mem_flatMap, zero_mem_utf8EncodeChar_iff]

theorem bytes_eq_nil_iff (text : String) : PathText.bytes text = [] ↔ text = "" := by
  constructor
  · intro h
    rw [← decode_bytes text, h]
    rfl
  · rintro rfl
    rfl

end LossyText

end RomArchive
