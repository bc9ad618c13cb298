import ScriptKit.Text.Quoted

namespace ScriptKit

abbrev Bytes := List UInt8

namespace Hex

/-- Why a text is not the hexadecimal form of a byte string. -/
inductive Problem where
  | oddLength
  /-- Positions count the bytes of the text. -/
  | badDigit (byte : UInt8) (position : Nat)
deriving DecidableEq, Repr

/-- A bad byte is shown as the character with its code. -/
def Problem.message : Problem → String
  | oddLength => "Odd number of digits"
  | badDigit byte position =>
    s!"Invalid character {Text.quoteChar (Char.ofNat byte.toNat)} at position {position}"

def digit (value : Nat) : Char :=
  if value < 10 then Char.ofNat (48 + value) else Char.ofNat (87 + value)

def digits (byte : UInt8) : List Char := [digit (byte.toNat / 16), digit (byte.toNat % 16)]

def encode (bytes : Bytes) : List Char := bytes.flatMap digits

def value? (digit : UInt8) : Option Nat :=
  let code := digit.toNat
  if 48 ≤ code ∧ code ≤ 57 then some (code - 48)
  else if 65 ≤ code ∧ code ≤ 70 then some (code - 55)
  else if 97 ≤ code ∧ code ≤ 102 then some (code - 87)
  else none

def value (position : Nat) (digit : UInt8) : Except Problem Nat :=
  match value? digit with
  | some value => .ok value
  | none => .error (.badDigit digit position)

/-- Reads the bytes of a text pair by pair. An odd number of digits is reported before any bad
digit, and of several bad digits the first. -/
def decode (text : Bytes) : Except Problem Bytes :=
  if text.length % 2 = 1 then .error .oddLength else pairs [] 0 text
where
  pairs (done : Bytes) (position : Nat) : Bytes → Except Problem Bytes
    | high :: low :: rest => do
      let high ← value position high
      let low ← value (position + 1) low
      pairs (UInt8.ofNat (16 * high + low) :: done) (position + 2) rest
    | _ => .ok done.reverse

end Hex

end ScriptKit
