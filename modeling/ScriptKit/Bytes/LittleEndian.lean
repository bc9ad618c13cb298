import ScriptKit.Bytes.BitSize
import ScriptKit.Bytes.Hex

namespace ScriptKit.LittleEndian

/-- How many numbers there are of `width` bytes. -/
def count : (width : Nat) → Nat
  | 0 => 1
  | width + 1 => 256 * count width

/-- The number that the bytes spell. -/
def toNat : Bytes → Nat
  | [] => 0
  | byte :: rest => byte.toNat + 256 * toNat rest

/-- The lowest `width` bytes of a number. -/
def ofNat : (width : Nat) → Nat → Bytes
  | 0, _ => []
  | width + 1, value => UInt8.ofNat value :: ofNat width (value / 256)

/-- The number that the bytes spell, read as signed if asked. -/
def toInt (signed : Bool) (bytes : Bytes) : Int :=
  let value := toNat bytes
  let size := count bytes.length
  if signed ∧ size ≤ 2 * value then (value : Int) - size else value

/-- The bytes of a number, as few as hold it; zero takes one. -/
def digits (value : Nat) : Bytes := ofNat (max 1 ((BitSize.ofNat value + 7) / 8)) value

/-- The bytes of a number in two's complement, as few as leave a bit for its sign. -/
def signedDigits (value : Int) : Bytes :=
  let magnitude := if value < 0 then value.natAbs - 1 else value.natAbs
  let width := BitSize.ofNat magnitude / 8 + 1
  ofNat width (value % count width).toNat

/-- The byte that stands behind the bytes of a signed number in a greater width. -/
def signFiller (bytes : Bytes) : UInt8 :=
  match bytes.getLast? with
  | some last => (last >>> 7) * 255
  | none => 0

/-- Cuts bytes off behind a width, or fills up to it. -/
def resize (width : Nat) (filler : UInt8) (bytes : Bytes) : Bytes :=
  bytes.take width ++ List.replicate (width - bytes.length) filler

/-- The `width` bytes of a number in two's complement, if they have room for its bits. -/
def ofSigned? (width : Nat) (value : Int) : Option Bytes :=
  if (BitSize.ofInt value + 7) / 8 ≤ width then
    some (resize width (signFiller (signedDigits value)) (signedDigits value))
  else none

/-- The `width` bytes of a number without sign, if they have room for its bits. -/
def ofUnsigned? (width : Nat) (value : Int) : Option Bytes :=
  if value < 0 ∨ 8 * width < BitSize.ofNat value.natAbs then none
  else some (resize width 0 (digits value.natAbs))

/-- The `width` bytes of a number in range. -/
def ofInt? (signed : Bool) (width : Nat) (value : Int) : Option Bytes :=
  if signed then ofSigned? width value else ofUnsigned? width value

end ScriptKit.LittleEndian
