import RomArchive.Inflate
import RomArchive.Proofs.Codec
import RomArchive.Proofs.Results

/-!
# Where a compressed stream ends

Compressed data says by itself where it ends: its last block is marked, and a block ends with a word
of its own code or after a number of bytes that it gives. So a stream that was read to its end would
have been read in the same way if more bytes had stood behind it. This is why data can be inflated
that were cut off behind the end of the stream, and why nothing is lost by that.

A read is called steady if it does not see what follows. Steady reads are put together by steps, as
the readers are, and the readers are then steady step by step.

## Main definitions

* `BitReader.followedBy` — the same position in a stream that goes on
* `BitReader.Steady` — what was read, and where the read stopped, does not depend on what follows

## Main results

* `Block.steady_token`, `Block.steady_sentCodes` — tokens and codes
* `Inflate.blocks_followedBy` — blocks up to the last one
* `inflate_append` — a whole stream
-/

namespace RomArchive

/-! ### The front of longer bytes -/

namespace Bytes

variable {a b : Bytes} {offset count : Nat}

theorem slice_append_of_le (h : offset + count ≤ a.length) :
    slice offset count (a ++ b) = slice offset count a := by
  rw [← slice_take (a ++ b) h, List.take_left]

theorem word16_append_of_le (h : offset + 2 ≤ a.length) :
    word16 offset (a ++ b) = word16 offset a := by
  rw [word16, word16, slice_append_of_le h]

end Bytes

/-! ### Steady reads -/

namespace BitReader

variable {α β : Type}

/-- The same position in a stream that goes on with more bytes. -/
def followedBy (reader : BitReader) (more : Bytes) : BitReader :=
  ⟨reader.current, reader.ahead ++ more⟩

/-- What was read, and where the read stopped, does not depend on what follows. -/
def Steady (read : BitReader → Except DeviceFault (α × BitReader)) : Prop :=
  ∀ reader a next, read reader = .ok (a, next) →
    ∀ more, read (reader.followedBy more) = .ok (a, next.followedBy more)

theorem steady_ok (a : α) : Steady fun reader => .ok (a, reader) := by
  intro reader b next h more
  cases h
  rfl

theorem steady_error (fault : DeviceFault) :
    Steady (α := α) fun _ => .error fault := by
  intro reader a next h
  cases h

/-- A step that reads nothing. -/
theorem steady_result (result : Except DeviceFault α) :
    Steady fun reader => result >>= fun a => .ok (a, reader) := by
  cases result with
  | error fault => exact steady_error fault
  | ok a => exact steady_ok a

/-- A step that goes on with what was read, and from where that stopped. -/
theorem Steady.bind {first : BitReader → Except DeviceFault (α × BitReader)}
    {next : α → BitReader → Except DeviceFault (β × BitReader)} (hfirst : Steady first)
    (hnext : ∀ a, Steady (next a)) :
    Steady fun reader => first reader >>= fun (a, reader) => next a reader := by
  intro reader b last h more
  obtain ⟨⟨a, middle⟩, hread, hlast⟩ := exists_of_bind_eq_ok h
  show (first (reader.followedBy more) >>= _) = _
  rw [hfirst _ _ _ hread more]
  exact hnext a _ _ _ hlast more

theorem Steady.ite {p : Prop} [Decidable p]
    {first second : BitReader → Except DeviceFault (α × BitReader)} (hfirst : Steady first)
    (hsecond : Steady second) : Steady fun reader => if p then first reader else second reader := by
  by_cases hp : p
  · simpa only [if_pos hp] using hfirst
  · simpa only [if_neg hp] using hsecond

theorem steady_bit : Steady bit := by
  intro reader b next h more
  match reader, h with
  | ⟨_ :: _, _⟩, h => cases h; rfl
  | ⟨[], _ :: _⟩, h => cases h; rfl

theorem steady_number (count : Nat) : Steady (number count) := by
  induction count with
  | zero => exact steady_ok 0
  | succ count ih =>
    intro reader value last h more
    rw [number] at h ⊢
    split at h
    · cases h
    · rename_i b middle hbit
      rw [steady_bit _ _ _ hbit more]
      split at h
      · cases h
      · rename_i high next hhigh
        cases h
        dsimp only
        rw [ih _ _ _ hhigh more]

end BitReader

/-! ### Words of a code -/

open BitReader

theorem CodeTree.steady_decode (tree : CodeTree) : Steady tree.decode := by
  induction tree with
  | gap => exact steady_error _
  | leaf symbol => exact steady_ok symbol
  | node zero one ihzero ihone =>
    intro reader symbol last h more
    rw [decode] at h ⊢
    split at h
    · cases h
    · rename_i next hbit
      rw [steady_bit _ _ _ hbit more]
      exact ihzero _ _ _ h more
    · rename_i next hbit
      rw [steady_bit _ _ _ hbit more]
      exact ihone _ _ _ h more

theorem PrefixCode.steady_decode (code : PrefixCode) : Steady code.decode := by
  intro reader symbol last h more
  rw [decode] at h ⊢
  split at h
  · cases h
  · rename_i next hbit
    rw [steady_bit _ _ _ hbit more]
    exact code.zero.steady_decode _ _ _ h more
  · rename_i next hbit
    rw [steady_bit _ _ _ hbit more]
    exact code.one.steady_decode _ _ _ h more

namespace Block

/-! ### Codes that are sent -/

theorem steady_shortLengths (count : Nat) : Steady (shortLengths count) := by
  induction count with
  | zero => exact steady_ok []
  | succ count ih =>
    exact (steady_number 3).bind fun length => ih.bind fun lengths => steady_ok (length :: lengths)

theorem lengthRun_followedBy {last? : Option Nat} {symbol length count : Nat}
    {reader next : BitReader} (h : lengthRun last? symbol reader = .ok (length, count, next))
    (more : Bytes) :
    lengthRun last? symbol (reader.followedBy more) = .ok (length, count, next.followedBy more) := by
  have hread : ∀ {bits base value : Nat},
      (reader.number bits >>= fun read => pure (value, base + read.1, read.2))
        = Except.ok (length, count, next) →
      ((reader.followedBy more).number bits >>= fun read => pure (value, base + read.1, read.2))
        = Except.ok (length, count, next.followedBy more) := by
    intro bits base value h
    obtain ⟨⟨number, last⟩, hnumber, hlast⟩ := exists_of_bind_eq_ok h
    cases hlast
    rw [steady_number bits _ _ _ hnumber more]
    rfl
  simp only [lengthRun] at h ⊢
  split at h
  · rename_i hsingle
    cases h
    rw [if_pos hsingle]
  · rename_i hsingle
    rw [if_neg hsingle]
    split at h
    · rename_i hrepeat
      rw [if_pos hrepeat]
      cases last? with
      | none => cases h
      | some last => exact hread h
    · rename_i hrepeat
      rw [if_neg hrepeat]
      split at h
      · rename_i hshort
        rw [if_pos hshort]
        exact hread h
      · rename_i hshort
        rw [if_neg hshort]
        exact hread h

/-- The induction follows the runs. -/
theorem longLengths_followedBy {code : PrefixCode} {missing : Nat} {got lengths : List Nat}
    {reader next : BitReader} (h : longLengths code missing got reader = .ok (lengths, next))
    (more : Bytes) :
    longLengths code missing got (reader.followedBy more)
      = .ok (lengths, next.followedBy more) := by
  fun_induction longLengths code missing got reader with
  | case1 => cases h
  | case2 => cases h
  | case3 missing got reader hmissing symbol middle hsymbol length count last hrun hfits ih =>
    rw [longLengths, if_pos hmissing, code.steady_decode _ _ _ hsymbol more]
    dsimp only
    rw [lengthRun_followedBy hrun more]
    dsimp only
    rw [if_pos hfits]
    exact ih h
  | case4 => cases h
  | case5 missing got reader hmissing =>
    cases h
    rw [longLengths, if_neg hmissing]

theorem steady_longLengths (code : PrefixCode) (missing : Nat) (got : List Nat) :
    Steady (longLengths code missing got) :=
  fun _ _ _ h more => longLengths_followedBy h more

theorem steady_sentCodes : Steady sentCodes := by
  unfold sentCodes
  exact (steady_number 5).bind fun literals => (steady_number 5).bind fun distances =>
    (steady_number 4).bind fun short =>
      .ite (p := 286 < literals + 257 ∨ 30 < distances + 1) (steady_error .corruptStream)
        ((steady_shortLengths (short + 4)).bind fun sent =>
          .ite (p := PrefixCode.isComplete (lengthsInOrder sent))
            ((steady_longLengths (PrefixCode.ofLengths (lengthsInOrder sent))
              (literals + 257 + (distances + 1)) []).bind fun lengths =>
                steady_result (codesOf (lengths.take (literals + 257))
                  (lengths.drop (literals + 257))))
            (steady_error .corruptStream))

/-! ### Tokens -/

theorem steady_extended (symbols : List (Nat × Nat)) (symbol : Nat) :
    Steady (extended symbols symbol) := by
  intro reader value last h more
  rw [extended] at h ⊢
  split at h
  · cases h
  · split at h
    · cases h
    · rename_i hnumber
      cases h
      rw [steady_number _ _ _ _ hnumber more]

theorem steady_token (codes : Codes) : Steady codes.token := by
  intro reader token last h more
  rw [Codes.token] at h ⊢
  split at h
  · cases h
  · rename_i symbol middle hsymbol
    rw [codes.literals.steady_decode _ _ _ hsymbol more]
    dsimp only
    split at h
    · rename_i hliteral
      cases h
      rw [if_pos hliteral]
    · rename_i hliteral
      rw [if_neg hliteral]
      split at h
      · rename_i hend
        cases h
        rw [if_pos hend]
      · rename_i hend
        rw [if_neg hend]
        split at h
        · cases h
        · rename_i hlength
          rw [steady_extended _ _ _ _ _ hlength more]
          dsimp only
          split at h
          · cases h
          · rename_i hdistance
            rw [codes.distances.steady_decode _ _ _ hdistance more]
            dsimp only
            split at h
            · cases h
            · rename_i hvalue
              cases h
              rw [steady_extended _ _ _ _ _ hvalue more]

end Block

namespace Inflate

/-! ### Blocks -/

theorem tokens_followedBy {codes : Block.Codes} {output result : Array UInt8}
    {reader next : BitReader} (h : tokens codes output reader = (result, .ok next))
    (more : Bytes) :
    tokens codes output (reader.followedBy more) = (result, .ok (next.followedBy more)) := by
  fun_induction tokens codes output reader with
  | case1 => cases h
  | case2 output reader byte middle htoken ih =>
    rw [tokens, Block.steady_token codes _ _ _ htoken more]
    exact ih h
  | case3 output reader length distance middle htoken ih =>
    rw [tokens, Block.steady_token codes _ _ _ htoken more]
    exact ih h
  | case4 output reader middle htoken =>
    cases h
    rw [tokens, Block.steady_token codes _ _ _ htoken more]

/-- A stored block that can be read is there as a whole, with both of its lengths. -/
theorem of_stored {output result : Array UInt8} {reader next : BitReader}
    (h : stored output reader = (result, .ok next)) :
    4 + (reader.ahead.word16 0).toNat ≤ reader.ahead.length ∧
      reader.ahead.word16 0 = reader.ahead.word16 2 ^^^ 0xFFFF ∧
      result = output ++ (reader.ahead.slice 4 (reader.ahead.word16 0).toNat).toArray ∧
      next = ⟨[], reader.ahead.drop (4 + (reader.ahead.word16 0).toNat)⟩ := by
  simp only [stored, aligned, List.length_take, Bytes.length_slice] at h
  by_cases hlengths : min 4 reader.ahead.length < 4
  · rw [if_pos hlengths] at h
    cases h
  · rw [if_neg hlengths] at h
    by_cases hinverse : reader.ahead.word16 0 = reader.ahead.word16 2 ^^^ 0xFFFF
    · rw [if_neg (not_not_intro hinverse)] at h
      by_cases hshort : min (reader.ahead.word16 0).toNat (reader.ahead.length - 4)
          < (reader.ahead.word16 0).toNat
      · rw [if_pos hshort] at h
        cases h
      · rw [if_neg hshort] at h
        cases h
        exact ⟨by omega, hinverse, rfl, rfl⟩
    · rw [if_pos hinverse] at h
      cases h

/-- And if it is, it can be read. -/
theorem stored_of_inside {output : Array UInt8} {reader : BitReader}
    (hinside : 4 + (reader.ahead.word16 0).toNat ≤ reader.ahead.length)
    (hinverse : reader.ahead.word16 0 = reader.ahead.word16 2 ^^^ 0xFFFF) :
    stored output reader
      = (output ++ (reader.ahead.slice 4 (reader.ahead.word16 0).toNat).toArray,
        .ok ⟨[], reader.ahead.drop (4 + (reader.ahead.word16 0).toNat)⟩) := by
  simp only [stored, aligned, List.length_take, Bytes.length_slice]
  rw [if_neg (by omega), if_neg (not_not_intro hinverse), if_neg (by omega)]

theorem stored_followedBy {output result : Array UInt8} {reader next : BitReader}
    (h : stored output reader = (result, .ok next)) (more : Bytes) :
    stored output (reader.followedBy more) = (result, .ok (next.followedBy more)) := by
  obtain ⟨hinside, hinverse, rfl, rfl⟩ := of_stored h
  have hlength : Bytes.word16 0 (reader.ahead ++ more) = reader.ahead.word16 0 :=
    Bytes.word16_append_of_le (by omega)
  have hinverted : Bytes.word16 2 (reader.ahead ++ more) = reader.ahead.word16 2 :=
    Bytes.word16_append_of_le (by omega)
  have hwhole : 4 + (Bytes.word16 0 (reader.ahead ++ more)).toNat
      ≤ (reader.ahead ++ more).length := by
    rw [hlength, List.length_append]
    omega
  have hagain : Bytes.word16 0 (reader.ahead ++ more)
      = Bytes.word16 2 (reader.ahead ++ more) ^^^ 0xFFFF := by
    rw [hlength, hinverted, hinverse]
  have hread : stored output (reader.followedBy more) = _ := stored_of_inside hwhole hagain
  rw [hread]
  simp only [followedBy, hlength, Bytes.slice_append_of_le hinside,
    List.drop_append_of_le_length hinside]

theorem block_followedBy {kind : Nat} {output result : Array UInt8} {reader next : BitReader}
    (h : block kind output reader = (result, .ok next)) (more : Bytes) :
    block kind output (reader.followedBy more) = (result, .ok (next.followedBy more)) := by
  rw [block] at h ⊢
  split at h
  · rename_i hstored
    rw [if_pos hstored]
    exact stored_followedBy h more
  · rename_i hstored
    rw [if_neg hstored]
    split at h
    · rename_i hfixed
      rw [if_pos hfixed]
      exact tokens_followedBy h more
    · rename_i hfixed
      rw [if_neg hfixed]
      split at h
      · rename_i hsent
        rw [if_pos hsent]
        split at h
        · cases h
        · rename_i hcodes
          rw [Block.steady_sentCodes _ _ _ hcodes more]
          exact tokens_followedBy h more
      · cases h

/-! ### Streams -/

/-- The blocks up to the last one are read in the same way whatever follows. The induction is on
the blocks. -/
theorem blocks_followedBy {output result : Array UInt8} {reader : BitReader}
    (h : blocks output reader = (result, none)) (more : Bytes) :
    blocks output (reader.followedBy more) = (result, none) := by
  fun_induction blocks output reader with
  | case1 => cases h
  | case2 => cases h
  | case3 => cases h
  | case4 output reader afterLast kind afterKind hkind output next hblock hlast =>
    cases h
    rw [blocks, steady_bit _ _ _ hlast more]
    dsimp only
    rw [steady_number _ _ _ _ hkind more]
    dsimp only
    rw [block_followedBy hblock more]
    rfl
  | case5 output reader isLast afterLast hlast kind afterKind hkind output next hblock hmore ih =>
    rw [blocks, steady_bit _ _ _ hlast more]
    dsimp only
    rw [steady_number _ _ _ _ hkind more]
    dsimp only
    rw [block_followedBy hblock more]
    dsimp only
    rw [if_neg hmore]
    exact ih h

end Inflate

theorem inflate_eq_iff {data bytes : Bytes} : inflate data = ⟨bytes, none⟩ ↔
    ∃ output, Inflate.blocks #[] ⟨[], data⟩ = (output, none) ∧ bytes = output.toList := by
  rw [inflate]
  constructor
  · intro h
    split at h
    · cases h
    · rename_i output fault _ hblocks
      cases h
      exact ⟨output, hblocks, rfl⟩
  · rintro ⟨output, hblocks, rfl⟩
    rw [hblocks]

/-- **A stream that was read to its end is read in the same way whatever follows it.** -/
theorem inflate_append {data bytes : Bytes} (h : inflate data = ⟨bytes, none⟩) (more : Bytes) :
    inflate (data ++ more) = ⟨bytes, none⟩ := by
  obtain ⟨output, hblocks, rfl⟩ := inflate_eq_iff.1 h
  exact inflate_eq_iff.2 ⟨output, Inflate.blocks_followedBy hblocks more, rfl⟩

end RomArchive
