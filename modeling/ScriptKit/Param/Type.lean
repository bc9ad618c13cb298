namespace ScriptKit

/-- The types of the parameters of a contract. Values exist of ten of them. -/
inductive ParamType where
  | any
  | boolean
  | integer
  | byteArray
  | string
  | hash160
  | hash256
  | publicKey
  | signature
  | array
  | map
  | interopInterface
  | void
deriving DecidableEq, Inhabited, Repr

namespace ParamType

def all : List ParamType :=
  [any, boolean, integer, byteArray, string, hash160, hash256, publicKey, signature, array, map,
   interopInterface, void]

def name : ParamType → String
  | any => "Any"
  | boolean => "Boolean"
  | integer => "Integer"
  | byteArray => "ByteArray"
  | string => "String"
  | hash160 => "Hash160"
  | hash256 => "Hash256"
  | publicKey => "PublicKey"
  | signature => "Signature"
  | array => "Array"
  | map => "Map"
  | interopInterface => "InteropInterface"
  | void => "Void"

/-- The byte that stands for the type. -/
def code : ParamType → UInt8
  | any => 0x00
  | boolean => 0x10
  | integer => 0x11
  | byteArray => 0x12
  | string => 0x13
  | hash160 => 0x14
  | hash256 => 0x15
  | publicKey => 0x16
  | signature => 0x17
  | array => 0x20
  | map => 0x22
  | interopInterface => 0x30
  | void => 0xff

def ofName? (name : String) : Option ParamType := all.find? (·.name == name)

def ofCode? (code : UInt8) : Option ParamType := all.find? (·.code == code)

end ParamType

end ScriptKit
