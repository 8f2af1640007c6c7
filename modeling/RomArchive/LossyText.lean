import RomArchive.LittleEndian

/-!
# Names as text

A container stores names as bytes that are usually, but not always, UTF-8. A name is turned into
text without ever failing: each well-formed sequence becomes its character, and each maximal
ill-formed part becomes one replacement character U+FFFD. A part is maximal in the sense of the
Unicode standard: the longest initial part of some well-formed sequence, or a single byte where
there is none.

The decoder reads byte by byte and carries the sequence it is in the middle of. The byte that
breaks a sequence is looked at again on its own, so that `E2 41` gives the replacement character
and then `A`.

## Main definitions

* `LossyText.Partial` — a sequence that has begun and is not yet complete.
* `LossyText.decode` — the text of a run of bytes.
-/

namespace RomArchive

namespace LossyText

/-- What stands for bytes that are not text. -/
def replacement : Char := '\uFFFD'

/-- A sequence that has begun: the bits read so far, how many bytes are still to come, and the
range that the next of them must lie in. -/
structure Partial where
  bits : Nat
  missing : Nat
  low : Nat
  high : Nat
  deriving DecidableEq

/-- The sequence that a leading byte of two or more bytes begins. The narrower ranges for the
second byte keep out overlong forms, surrogates and values above U+10FFFF. -/
def Partial.ofLead? (byte : Nat) : Option Partial :=
  if 0xC2 ≤ byte ∧ byte ≤ 0xDF then some ⟨byte - 0xC0, 1, 0x80, 0xBF⟩
  else if byte = 0xE0 then some ⟨0, 2, 0xA0, 0xBF⟩
  else if byte = 0xED then some ⟨0xD, 2, 0x80, 0x9F⟩
  else if 0xE1 ≤ byte ∧ byte ≤ 0xEF then some ⟨byte - 0xE0, 2, 0x80, 0xBF⟩
  else if byte = 0xF0 then some ⟨0, 3, 0x90, 0xBF⟩
  else if 0xF1 ≤ byte ∧ byte ≤ 0xF3 then some ⟨byte - 0xF0, 3, 0x80, 0xBF⟩
  else if byte = 0xF4 then some ⟨4, 3, 0x80, 0x8F⟩
  else none

/-- A byte at the start of a sequence: the characters that are settled by it, and the sequence
that it begins. -/
def start (byte : Nat) : List Char × Option Partial :=
  if byte < 0x80 then ([Char.ofNat byte], none)
  else match Partial.ofLead? byte with
    | some sequence => ([], some sequence)
    | none => ([replacement], none)

/-- A byte inside a sequence, if it belongs there. -/
def Partial.extend? (sequence : Partial) (byte : Nat) : Option (List Char × Option Partial) :=
  if sequence.low ≤ byte ∧ byte ≤ sequence.high then
    let bits := sequence.bits * 64 + (byte - 0x80)
    if sequence.missing ≤ 1 then some ([Char.ofNat bits], none)
    else some ([], some ⟨bits, sequence.missing - 1, 0x80, 0xBF⟩)
  else none

/-- One byte more. A byte that breaks a sequence settles it as ill-formed and is then read as the
start of the next one. -/
def step (pending : Option Partial) (byte : Nat) : List Char × Option Partial :=
  match pending with
  | none => start byte
  | some sequence =>
    match sequence.extend? byte with
    | some outcome => outcome
    | none => (replacement :: (start byte).1, (start byte).2)

/-- The characters of a run of bytes, after a sequence that has possibly begun before it. -/
def decodeFrom (pending : Option Partial) : Bytes → List Char
  | [] => if pending.isSome then [replacement] else []
  | b :: bs => (step pending b.toNat).1 ++ decodeFrom (step pending b.toNat).2 bs

/-- The text of a run of bytes. -/
def decode (bytes : Bytes) : String :=
  String.ofList (decodeFrom none bytes)

end LossyText

end RomArchive
