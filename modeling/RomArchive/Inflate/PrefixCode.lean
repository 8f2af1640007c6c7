import RomArchive.Inflate.BitReader

/-!
# Canonical codes

Compressed data carries only the lengths of its code words. The code words follow from them:
shorter ones come first, and among those of one length the order is that of the symbols. As a
tree this means that at every depth the leaves stand to the left of the inner nodes, so the tree
is built from the deepest level up, pairing the nodes of each level from left to right.

Lengths that leave room for more code words give a tree with gaps; reading a word that falls into
a gap fails at the first bit that no code word agrees with.

## Main definitions

* `CodeTree`, `PrefixCode` — a code as a tree, and one with at least a bit in every word.
* `PrefixCode.ofLengths` — the canonical code of given lengths.
* `PrefixCode.isComplete` — do the lengths leave no room for another word?
* `PrefixCode.isTrivial` — do they give no word, or only one of a single bit?
* `PrefixCode.decode` — the symbol of the word at the front of a stream.
-/

namespace RomArchive

/-- The symbols of a code, reached by the bits of their words. -/
inductive CodeTree where
  | gap
  | leaf (symbol : Nat)
  | node (zero one : CodeTree)

/-- A code whose words all have at least one bit. -/
structure PrefixCode where
  zero : CodeTree
  one : CodeTree

namespace CodeTree

/-- The parents of the nodes of one level. A node without a neighbour has a gap beside it. -/
def parents : List CodeTree → List CodeTree
  | [] => []
  | [left] => [node left gap]
  | left :: right :: others => node left right :: parents others

/-- The symbol of the word at the front of a stream. -/
def decode : CodeTree → BitReader → Except DeviceFault (Nat × BitReader)
  | gap, _ => .error .corruptStream
  | leaf symbol, reader => .ok (symbol, reader)
  | node zero one, reader =>
    match reader.bit with
    | .error fault => .error fault
    | .ok (false, reader) => zero.decode reader
    | .ok (true, reader) => one.decode reader

theorem remaining_le_of_decode {tree : CodeTree} {symbol : Nat} {reader next : BitReader}
    (h : tree.decode reader = .ok (symbol, next)) : next.remaining ≤ reader.remaining := by
  induction tree generalizing reader with
  | gap => cases h
  | leaf =>
    simp only [decode, Except.ok.injEq, Prod.mk.injEq] at h
    exact Nat.le_of_eq (congrArg BitReader.remaining h.2.symm)
  | node zero one ihzero ihone =>
    simp only [decode] at h
    split at h
    · cases h
    · rename_i hbit
      have := BitReader.remaining_of_bit hbit
      have := ihzero h
      omega
    · rename_i hbit
      have := BitReader.remaining_of_bit hbit
      have := ihone h
      omega

end CodeTree

namespace PrefixCode

/-- The longest word that a code may have. -/
def maxLength : Nat := 15

/-- The symbols whose words have a given length, as leaves. -/
def leaves (lengths : List Nat) (length : Nat) : List CodeTree :=
  lengths.zipIdx.filterMap fun (l, symbol) => if l = length then some (.leaf symbol) else none

/-- The nodes at `depth`, with `levels` more levels below it. -/
def level (lengths : List Nat) (depth : Nat) : Nat → List CodeTree
  | 0 => leaves lengths depth
  | levels + 1 => leaves lengths depth ++ CodeTree.parents (level lengths (depth + 1) levels)

/-- The canonical code of these lengths, symbol by symbol; a symbol of length zero has no word. -/
def ofLengths (lengths : List Nat) : PrefixCode :=
  match level lengths 1 (maxLength - 1) with
  | [] => ⟨.gap, .gap⟩
  | [zero] => ⟨zero, .gap⟩
  | zero :: one :: _ => ⟨zero, one⟩

/-- How much of the space of words these lengths take, in units of the longest word. -/
def weight : List Nat → Nat
  | [] => 0
  | length :: lengths =>
    (if length = 0 then 0 else 1 <<< (maxLength - length)) + weight lengths

/-- Do the words take all of the space, and no more? -/
def isComplete (lengths : List Nat) : Bool :=
  weight lengths = 1 <<< maxLength

/-- Is there no word, or only one of a single bit? Such a code is put up with although it leaves
room, since a block need not use it or has nothing to choose from. -/
def isTrivial (lengths : List Nat) : Bool :=
  let words := lengths.filter (0 < ·)
  words = [] || words = [1]

/-- The symbol of the word at the front of a stream. -/
def decode (code : PrefixCode) (reader : BitReader) : Except DeviceFault (Nat × BitReader) :=
  match reader.bit with
  | .error fault => .error fault
  | .ok (false, reader) => code.zero.decode reader
  | .ok (true, reader) => code.one.decode reader

theorem remaining_lt_of_decode {code : PrefixCode} {symbol : Nat} {reader next : BitReader}
    (h : code.decode reader = .ok (symbol, next)) : next.remaining < reader.remaining := by
  simp only [decode] at h
  split at h
  · cases h
  · rename_i hbit
    have := BitReader.remaining_of_bit hbit
    have := CodeTree.remaining_le_of_decode h
    omega
  · rename_i hbit
    have := BitReader.remaining_of_bit hbit
    have := CodeTree.remaining_le_of_decode h
    omega

end PrefixCode

end RomArchive
