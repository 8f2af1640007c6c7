import RomArchive.Inflate.PrefixCode

/-!
# The codes of a block

A compressed block is read with two codes, one for literals and lengths and one for distances.
They are either fixed or sent at the front of the block as two runs of lengths, which are
themselves compressed with a third code.

A code that takes less than all of the space of words is refused, with one exception: each of the
two codes of a block may have no word at all, or only one of a single bit, since a block without
copies needs no distance and one with copies may need only one. More than all of the space is
always refused. Whether the end of the block has a word is not asked: without one, the block goes
on for as long as there is data.

## Main definitions

* `Block.Codes` — the two codes of a block.
* `Block.fixedCodes`, `Block.sentCodes` — the two ways of getting at them.
* `Block.Token`, `Block.Codes.token` — a unit of compressed data, and how it is read.
-/

namespace RomArchive

namespace Block

/-- The codes for literals and lengths, and for distances. -/
structure Codes where
  literals : PrefixCode
  distances : PrefixCode

/-! ### Fixed codes -/

/-- The lengths of the fixed code for literals. -/
def fixedLiteralLengths : List Nat :=
  List.replicate 144 8 ++ List.replicate 112 9 ++ List.replicate 24 7 ++ List.replicate 8 8

/-- The lengths of the fixed code for distances. -/
def fixedDistanceLengths : List Nat :=
  List.replicate 32 5

def fixedCodes : Codes where
  literals := PrefixCode.ofLengths fixedLiteralLengths
  distances := PrefixCode.ofLengths fixedDistanceLengths

/-! ### Codes sent with the block -/

/-- The order in which the lengths of the third code are sent. -/
def lengthOrder : List Nat :=
  [16, 17, 18, 0, 8, 7, 9, 6, 10, 5, 11, 4, 12, 3, 13, 2, 14, 1, 15]

/-- The next `count` lengths of the third code, three bits each. -/
def shortLengths : Nat → BitReader → Except DeviceFault (List Nat × BitReader)
  | 0, reader => .ok ([], reader)
  | count + 1, reader => do
    let (length, reader) ← reader.number 3
    let (lengths, reader) ← shortLengths count reader
    return (length :: lengths, reader)

/-- The lengths of the third code by symbol, from those sent. -/
def lengthsInOrder (sent : List Nat) : List Nat :=
  (List.range 19).map fun symbol => (List.lookup symbol (lengthOrder.zip sent)).getD 0

/-- A run of equal lengths, told by a symbol of the third code: a length by itself, the last
length again, or a longer run of zeros. -/
def lengthRun (last? : Option Nat) (symbol : Nat) (reader : BitReader) :
    Except DeviceFault (Nat × Nat × BitReader) :=
  if symbol < 16 then .ok (symbol, 1, reader)
  else if symbol = 16 then
    match last? with
    | none => .error .corruptStream
    | some last => do
      let (more, reader) ← reader.number 2
      return (last, 3 + more, reader)
  else if symbol = 17 then do
    let (more, reader) ← reader.number 3
    return (0, 3 + more, reader)
  else do
    let (more, reader) ← reader.number 7
    return (0, 11 + more, reader)

/-- The next `missing` lengths; `got` are those before them, last one first. A run may reach from
one code into the other but not past the end. -/
def longLengths (code : PrefixCode) (missing : Nat) (got : List Nat) (reader : BitReader) :
    Except DeviceFault (List Nat × BitReader) :=
  if 0 < missing then
    match code.decode reader with
    | .error fault => .error fault
    | .ok (symbol, reader) =>
      match lengthRun got.head? symbol reader with
      | .error fault => .error fault
      | .ok (length, count, reader) =>
        if 0 < count ∧ count ≤ missing then
          longLengths code (missing - count) (List.replicate count length ++ got) reader
        else .error .corruptStream
  else .ok (got.reverse, reader)
termination_by missing
decreasing_by omega

/-- May the lengths of a block's code be used? -/
def isUsable (lengths : List Nat) : Bool :=
  PrefixCode.isComplete lengths || PrefixCode.isTrivial lengths

/-- The codes of these lengths, if they may be used. -/
def codesOf (literals distances : List Nat) : Except DeviceFault Codes :=
  if isUsable literals && isUsable distances then
    .ok ⟨PrefixCode.ofLengths literals, PrefixCode.ofLengths distances⟩
  else .error .corruptStream

/-- The codes at the front of a block. -/
def sentCodes (reader : BitReader) : Except DeviceFault (Codes × BitReader) := do
  let (literals, reader) ← reader.number 5
  let (distances, reader) ← reader.number 5
  let (short, reader) ← reader.number 4
  if 286 < literals + 257 ∨ 30 < distances + 1 then .error .corruptStream
  else do
    let (sent, reader) ← shortLengths (short + 4) reader
    if PrefixCode.isComplete (lengthsInOrder sent) then do
      let (lengths, reader) ← longLengths (PrefixCode.ofLengths (lengthsInOrder sent))
        (literals + 257 + (distances + 1)) [] reader
      let codes ← codesOf (lengths.take (literals + 257)) (lengths.drop (literals + 257))
      return (codes, reader)
    else .error .corruptStream

/-! ### Tokens -/

/-- The symbol that ends a block; those below it are literals, those above it lengths. -/
def endSymbol : Nat := 256

/-- A unit of compressed data. -/
inductive Token where
  | literal (byte : UInt8)
  | copy (length distance : Nat)
  | endOfBlock

/-- Smallest length and number of extra bits of each length symbol; they follow `endSymbol`. -/
def lengthSymbols : List (Nat × Nat) :=
  [(3, 0), (4, 0), (5, 0), (6, 0), (7, 0), (8, 0), (9, 0), (10, 0), (11, 1), (13, 1), (15, 1),
    (17, 1), (19, 2), (23, 2), (27, 2), (31, 2), (35, 3), (43, 3), (51, 3), (59, 3), (67, 4),
    (83, 4), (99, 4), (115, 4), (131, 5), (163, 5), (195, 5), (227, 5), (258, 0)]

/-- Smallest distance and number of extra bits of each distance symbol. -/
def distanceSymbols : List (Nat × Nat) :=
  [(1, 0), (2, 0), (3, 0), (4, 0), (5, 1), (7, 1), (9, 2), (13, 2), (17, 3), (25, 3), (33, 4),
    (49, 4), (65, 5), (97, 5), (129, 6), (193, 6), (257, 7), (385, 7), (513, 8), (769, 8),
    (1025, 9), (1537, 9), (2049, 10), (3073, 10), (4097, 11), (6145, 11), (8193, 12),
    (12289, 12), (16385, 13), (24577, 13)]

/-- The value that a symbol and the extra bits behind it stand for. -/
def extended (symbols : List (Nat × Nat)) (symbol : Nat) (reader : BitReader) :
    Except DeviceFault (Nat × BitReader) :=
  match symbols[symbol]? with
  | none => .error .corruptStream
  | some (base, extra) =>
    match reader.number extra with
    | .error fault => .error fault
    | .ok (more, reader) => .ok (base + more, reader)

/-- The next token. -/
def Codes.token (codes : Codes) (reader : BitReader) : Except DeviceFault (Token × BitReader) :=
  match codes.literals.decode reader with
  | .error fault => .error fault
  | .ok (symbol, reader) =>
    if symbol < endSymbol then .ok (.literal (UInt8.ofNat symbol), reader)
    else if symbol = endSymbol then .ok (.endOfBlock, reader)
    else
      match extended lengthSymbols (symbol - endSymbol - 1) reader with
      | .error fault => .error fault
      | .ok (length, reader) =>
        match codes.distances.decode reader with
        | .error fault => .error fault
        | .ok (symbol, reader) =>
          match extended distanceSymbols symbol reader with
          | .error fault => .error fault
          | .ok (distance, reader) => .ok (.copy length distance, reader)

/-! ### Reading takes bits off the stream -/

theorem remaining_le_of_shortLengths {count : Nat} {lengths : List Nat} {reader next : BitReader}
    (h : shortLengths count reader = .ok (lengths, next)) :
    next.remaining ≤ reader.remaining := by
  induction count generalizing reader next lengths with
  | zero =>
    simp only [shortLengths, Except.ok.injEq, Prod.mk.injEq] at h
    exact Nat.le_of_eq (congrArg BitReader.remaining h.2.symm)
  | succ count ih =>
    simp only [shortLengths, bind, Except.bind] at h
    split at h
    · cases h
    · rename_i first hnumber
      split at h
      · cases h
      · rename_i others hothers
        simp only [pure, Except.pure, Except.ok.injEq, Prod.mk.injEq] at h
        have := BitReader.remaining_of_number hnumber
        have := ih hothers
        rw [← h.2]
        omega

theorem remaining_le_of_lengthRun {last? : Option Nat} {symbol length count : Nat}
    {reader next : BitReader} (h : lengthRun last? symbol reader = .ok (length, count, next)) :
    next.remaining ≤ reader.remaining := by
  have hread : ∀ {bits base value : Nat},
      (do let (more, reader) ← reader.number bits
          return (value, base + more, reader) : Except DeviceFault (Nat × Nat × BitReader))
        = .ok (length, count, next) → next.remaining ≤ reader.remaining := by
    intro bits base value h
    simp only [bind, Except.bind] at h
    split at h
    · cases h
    · rename_i hnumber
      simp only [pure, Except.pure, Except.ok.injEq, Prod.mk.injEq] at h
      have := BitReader.remaining_of_number hnumber
      rw [← h.2.2]
      omega
  simp only [lengthRun] at h
  split at h
  · simp only [Except.ok.injEq, Prod.mk.injEq] at h
    exact Nat.le_of_eq (congrArg BitReader.remaining h.2.2.symm)
  · split at h
    · split at h
      · cases h
      · exact hread h
    · split at h
      · exact hread h
      · exact hread h

theorem remaining_le_of_longLengths {code : PrefixCode} {missing : Nat} {got lengths : List Nat}
    {reader next : BitReader} (h : longLengths code missing got reader = .ok (lengths, next)) :
    next.remaining ≤ reader.remaining := by
  fun_induction longLengths code missing got reader with
  | case1 => cases h
  | case2 => cases h
  | case3 missing got reader _ symbol _ hsymbol length count _ hrun _ ih =>
    have := PrefixCode.remaining_lt_of_decode hsymbol
    have := remaining_le_of_lengthRun hrun
    have := ih h
    omega
  | case4 => cases h
  | case5 =>
    simp only [Except.ok.injEq, Prod.mk.injEq] at h
    exact Nat.le_of_eq (congrArg BitReader.remaining h.2.symm)

theorem remaining_le_of_sentCodes {codes : Codes} {reader next : BitReader}
    (h : sentCodes reader = .ok (codes, next)) : next.remaining ≤ reader.remaining := by
  simp only [sentCodes, bind, Except.bind] at h
  split at h
  · cases h
  rename_i hliterals
  split at h
  · cases h
  rename_i hdistances
  split at h
  · cases h
  rename_i hshort
  split at h
  · cases h
  split at h
  · cases h
  rename_i hsent
  split at h
  · split at h
    · cases h
    rename_i hlengths
    split at h
    · cases h
    simp only [pure, Except.pure, Except.ok.injEq, Prod.mk.injEq] at h
    have := BitReader.remaining_of_number hliterals
    have := BitReader.remaining_of_number hdistances
    have := BitReader.remaining_of_number hshort
    have := remaining_le_of_shortLengths hsent
    have := remaining_le_of_longLengths hlengths
    rw [← h.2]
    omega
  · cases h

theorem remaining_le_of_extended {symbols : List (Nat × Nat)} {symbol value : Nat}
    {reader next : BitReader} (h : extended symbols symbol reader = .ok (value, next)) :
    next.remaining ≤ reader.remaining := by
  simp only [extended] at h
  split at h
  · cases h
  · split at h
    · cases h
    · rename_i hnumber
      simp only [Except.ok.injEq, Prod.mk.injEq] at h
      have := BitReader.remaining_of_number hnumber
      rw [← h.2]
      omega

theorem remaining_lt_of_token {codes : Codes} {token : Token} {reader next : BitReader}
    (h : codes.token reader = .ok (token, next)) : next.remaining < reader.remaining := by
  simp only [Codes.token] at h
  split at h
  · cases h
  · rename_i hsymbol
    have hfirst := PrefixCode.remaining_lt_of_decode hsymbol
    split at h
    · simp only [Except.ok.injEq, Prod.mk.injEq] at h
      rwa [← h.2]
    · split at h
      · simp only [Except.ok.injEq, Prod.mk.injEq] at h
        rwa [← h.2]
      · split at h
        · cases h
        · rename_i hlength
          have := remaining_le_of_extended hlength
          split at h
          · cases h
          · rename_i hdistance
            have := PrefixCode.remaining_lt_of_decode hdistance
            split at h
            · cases h
            · rename_i hvalue
              have := remaining_le_of_extended hvalue
              simp only [Except.ok.injEq, Prod.mk.injEq] at h
              rw [← h.2]
              omega

end Block

end RomArchive
