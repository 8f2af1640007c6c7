import RomArchive.LittleEndian
import RomArchive.Failure

/-!
# Paths as text

Paths are texts whose components are separated by slashes. The slash is the only separator, and in
memory a path is its text in UTF-8; paths of systems where either is different are not treated. This
file cuts them into components, joins a name to a directory, and lists the directories above a path,
all without looking at any file.

A caller that cannot take a text gets the path in a buffer of its own, ended by a NUL. Either the
whole path and the NUL fit, or the buffer is left as it was.

## Main definitions

* `PathText.components` — the components of a path.
* `PathText.join` — a name inside a directory.
* `PathText.ancestors` — a path and the directories above it, nearest first.
* `PathText.copyInto` — a path and a NUL at the front of a buffer.
-/

namespace RomArchive

namespace PathText

/-! ### Components -/

/-- The parts of a text between slashes, empty ones included. -/
def parts : List Char → List (List Char)
  | [] => [[]]
  | c :: cs =>
    if c = '/' then [] :: parts cs
    else
      match parts cs with
      | [] => [[c]]
      | part :: others => (c :: part) :: others

/-- The components of a path; neighbouring slashes count as one. -/
def components (path : String) : List String :=
  ((parts path.toList).filter (· ≠ [])).map String.ofList

def isAbsolute (path : String) : Bool :=
  path.toList.head? == some '/'

def endsWithSlash (path : String) : Bool :=
  path.toList.getLast? == some '/'

/-- Components as a path. -/
def ofComponents (absolute : Bool) (components : List String) : String :=
  (if absolute then "/" else "") ++ "/".intercalate components

/-- The path of `name` inside the directory `root`. -/
def join (root name : String) : String :=
  if root = "" ∨ endsWithSlash root then root ++ name else root ++ "/" ++ name

/-- A path and the directories above it, nearest first, without the working directory. In the
directories above it, components that stand for their own directory are passed over. -/
def ancestors (path : String) : List String :=
  if path = "" then []
  else
    let named := (components path).filter (· ≠ ".")
    let above := (List.range named.length).reverse.map fun count =>
      ofComponents (isAbsolute path) (named.take count)
    path :: above.filter (· ≠ "")

/-! ### Bytes -/

/-- The bytes of a path. -/
def bytes (path : String) : Bytes :=
  path.toList.flatMap String.utf8EncodeChar

/-- The buffer with the path and a NUL at its front, and the length of the path. -/
def copyInto (path : String) (buffer : Bytes) : Except Failure (Nat × Bytes) :=
  let text := bytes path
  if buffer.length < text.length + 1 then
    .error (.pathTooLong path (text.length + 1) buffer.length)
  else .ok (text.length, text ++ 0 :: buffer.drop (text.length + 1))

end PathText

end RomArchive
