import ScriptKit.Bytes.Text

namespace ScriptKit

namespace FixedBytes

inductive Kind where
  | uint160
  | uint256
  | publicKey
deriving DecidableEq, Repr

namespace Kind

def length : Kind → Nat
  | uint160 => 20
  | uint256 => 32
  | publicKey => 33

/-- What the bytes are. -/
def what : Kind → String
  | uint160 => "script hash"
  | uint256 => "hash"
  | publicKey => "public key"

def typeName : Kind → String
  | uint160 => "UInt160"
  | uint256 => "UInt256"
  | publicKey => "PublicKey"

/-- Whether scripts hold the bytes in the opposite order. -/
def isReversed : Kind → Bool
  | uint160 | uint256 => true
  | publicKey => false

end Kind

end FixedBytes

/-- The bytes are in the order in which they are shown. -/
structure FixedBytes (kind : FixedBytes.Kind) where
  bytes : Bytes
  length_eq : bytes.length = kind.length
deriving DecidableEq

abbrev UInt160 := FixedBytes .uint160

abbrev UInt256 := FixedBytes .uint256

/-- A point of an elliptic curve in compressed form. -/
abbrev PublicKey := FixedBytes .publicKey

namespace FixedBytes

variable {kind : Kind}

def ofBytes (bytes : Bytes) : Except Fault (FixedBytes kind) :=
  if h : bytes.length = kind.length then .ok ⟨bytes, h⟩
  else .error (.wrongLength kind.what kind.length bytes.length)

/-- Reverses the bytes if scripts hold them so. -/
def turn (value : FixedBytes kind) : FixedBytes kind :=
  if kind.isReversed then ⟨value.bytes.reverse, by rw [List.length_reverse, value.length_eq]⟩
  else value

/-- The bytes as they stand in a script. -/
def toWire (value : FixedBytes kind) : Bytes := value.turn.bytes

def ofWire (bytes : Bytes) : Except Fault (FixedBytes kind) := (ofBytes bytes).map turn

def ofText (text : String) : Except Fault (FixedBytes kind) := do
  ofBytes (← Bytes.ofText text)

def toText (value : FixedBytes kind) : String := Bytes.toText value.bytes

/-- The text together with the name of the type. -/
def describe (value : FixedBytes kind) : String := s!"{kind.typeName}({value.toText})"

/-- Whether the first byte is one that a compressed point starts with. -/
def isCompressed (key : PublicKey) : Bool := key.bytes.head? == some 2 || key.bytes.head? == some 3

end FixedBytes

end ScriptKit
