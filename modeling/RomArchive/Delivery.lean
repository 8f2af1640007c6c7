import RomArchive.LittleEndian
import RomArchive.Failure

/-!
# Deliveries

Reading ends in one of two ways: the bytes run out, or a device reports a fault. Either way some
bytes may have arrived before, and they are part of the outcome. A caller that must not see them
asks for `Delivery.checked`.

## Main definitions

* `Delivery` — the bytes that arrived, and the fault that ended them if one did.
* `Delivery.checked` — the bytes, unless there was a fault.
* `Delivery.padded`, `Delivery.onto` — the bytes in a zeroed buffer, in a buffer with contents.
-/

namespace RomArchive

/-- The bytes that arrived, and the fault that ended them if one did. -/
structure Delivery where
  bytes : Bytes
  fault : Option DeviceFault
  deriving DecidableEq

namespace Delivery

/-- The bytes, unless a fault ended them. -/
def checked (delivery : Delivery) : Except Failure Bytes :=
  match delivery.fault with
  | some fault => .error (.device fault)
  | none => .ok delivery.bytes

/-- A zeroed buffer of `count` bytes with the delivered bytes at its front. -/
def padded (delivery : Delivery) (count : Nat) : Except Failure Bytes := do
  let bytes ← delivery.checked
  return bytes ++ List.replicate (count - bytes.length) 0

/-- A buffer with the delivered bytes at its front and its own contents behind them. -/
def onto (delivery : Delivery) (buffer : Bytes) : Bytes :=
  delivery.bytes ++ buffer.drop delivery.bytes.length

end Delivery

end RomArchive
