import ScriptKit.Bytes.Hex

namespace ScriptKit

/-- Why a byte string does not have the shape. -/
inductive Miss where
  /-- Its bytes differ, or there are too few of them. -/
  | mismatch
  /-- A byte was taken for granted that is not there. -/
  | outOfBounds (index : Nat)
deriving DecidableEq, Repr

/-- A look for a shape in a byte string, at places that are computed on the way. -/
abbrev Scan (α : Type) := Except Miss α

namespace Scan

variable {α : Type}

/-- Goes on if the condition holds. -/
def ensure (condition : Prop) [Decidable condition] : Scan Unit :=
  if condition then .ok () else .error .mismatch

/-- Goes on with a value if there is one. -/
def expect : Option α → Scan α
  | some value => .ok value
  | none => .error .mismatch

/-- So many bytes from a place on, if there are so many. -/
def slice? (bytes : Bytes) (start count : Nat) : Option Bytes :=
  if start + count ≤ bytes.length then some ((bytes.drop start).take count) else none

/-- The byte at a place, which is taken to be there. -/
def byteAt (bytes : Bytes) (index : Nat) : Scan UInt8 :=
  match bytes[index]? with
  | some byte => .ok byte
  | none => .error (.outOfBounds index)

/-- So many bytes from a place on, which are taken to be there. -/
def bytesAt (bytes : Bytes) (start count : Nat) : Scan Bytes :=
  match slice? bytes start count with
  | some part => .ok part
  | none => .error (.outOfBounds (start + count))

end Scan

end ScriptKit
