import ScriptKit.Opcode
import ScriptKit.Param.Type
import ScriptKit.Service

namespace ScriptKit

/-- Why the instructions before a call or a check do not lead up to it. -/
inductive Misfit where
  | noItem
  | noScriptHash
  | noOperation
  | noArguments
  | noPackCount
  | hashLength
  | flagRange
  | operationText
  | operationType
  | argumentsType
  | packCount
  /-- More lies on the stack than the call takes. -/
  | leftover
  | multisigCheck
deriving DecidableEq, Repr

def Misfit.message : Misfit → String
  | noItem => "missing item"
  | noScriptHash => "missing script hash"
  | noOperation => "missing operation"
  | noArguments => "missing call arguments"
  | noPackCount => "missing item count for PACK"
  | hashLength => "script hash must be 20 bytes"
  | flagRange => "invalid call flags"
  | operationText => "operation is not valid UTF-8"
  | operationType => "operation must be a byte string"
  | argumentsType => "call arguments must be an array"
  | packCount => "invalid item count for PACK"
  | leftover => "unexpected items before the call"
  | multisigCheck => "malformed multisig check"

/-- Why an argument is refused. -/
inductive BadArgument where
  | unknownType (name : String)
  /-- A JSON value of the wrong shape, with the complaint about it. -/
  | shape (complaint : String)
  | noValue (type : ParamType)
  /-- A JSON value that says nothing in the type. -/
  | notConvertible (json : String) (type : ParamType)
  | threshold (required keys : Nat)
deriving DecidableEq, Repr

def BadArgument.message : BadArgument → String
  | unknownType name => s!"unknown type `{name}`"
  | shape complaint => complaint
  | noValue type => s!"{type.name} requires a value"
  | notConvertible json type => s!"{json} is not convertible to {type.name}"
  | threshold required keys => s!"invalid multisig threshold {required} for {keys} keys"

/-- The broad kinds of faults. -/
inductive FaultKind where
  | format
  | unsupportedOpcode
  | unknownService
  | encodingOverflow
  | structuralMismatch
  | invalidArgument
deriving DecidableEq, Repr

inductive Fault where
  | badHex (problem : Hex.Problem)
  /-- So many bytes are missing behind the end of the script, in what starts at the offset. -/
  | endOfScript (offset missing : Nat)
  | operandLength (op : Opcode) (expected actual : Nat)
  | notAnInteger (op : Opcode)
  | unsupportedOpcode (byte : UInt8)
  | unknownMnemonic (name : String)
  | unknownService (name : String)
  /-- The price depends on the size of an item, and none is given. -/
  | noItemSize (service : Service)
  | integerOverflow (value : Int)
  | dataOverflow (op : Opcode) (length : Nat)
  | misfit (cause : Misfit)
  /-- The instruction has no place in a contract call. -/
  | unexpectedInstruction (op : Opcode)
  | notMultisig
  | wrongLength (what : String) (expected actual : Nat)
  | badInteger (text : String)
  | badArgument (problem : BadArgument)
  | unsupportedType (type : ParamType)
deriving DecidableEq

namespace Fault

def message : Fault → String
  | badHex problem => s!"invalid hex: {problem.message}"
  | endOfScript offset missing =>
    s!"unexpected end of script at offset {offset}: {missing} more bytes expected"
  | operandLength op expected actual =>
    s!"operand of `{op.mnemonic}` must be exactly {expected} bytes, got {actual}"
  | notAnInteger op => s!"`{op.mnemonic}` does not push an integer"
  | unsupportedOpcode byte => s!"unsupported opcode: 0x{String.ofList (Hex.digits byte)}"
  | unknownMnemonic name => s!"unknown mnemonic: {name}"
  | unknownService name => s!"unknown interop service: {name}"
  | noItemSize service => s!"storage item size is required to price `{service.name}`"
  | integerOverflow value => s!"integer {value} does not fit into 32 bytes"
  | dataOverflow op length => s!"data of {length} bytes does not fit `{op.mnemonic}`"
  | misfit cause => s!"structural mismatch: {cause.message}"
  | unexpectedInstruction op => s!"unexpected instruction `{op.mnemonic}` in a contract call"
  | notMultisig => "script is not a multisig verification script"
  | wrongLength what expected actual => s!"expected {expected} bytes for {what}, got {actual}"
  | badInteger text => s!"invalid integer: {text}"
  | badArgument problem => s!"invalid argument: {problem.message}"
  | unsupportedType type => s!"unsupported argument type: {type.name}"

def kind : Fault → FaultKind
  | badHex _ | endOfScript .. | operandLength .. | notAnInteger _ => .format
  | unsupportedOpcode _ | unknownMnemonic _ => .unsupportedOpcode
  | unknownService _ | noItemSize _ => .unknownService
  | integerOverflow _ | dataOverflow .. => .encodingOverflow
  | misfit _ | unexpectedInstruction _ | notMultisig => .structuralMismatch
  | wrongLength .. | badInteger _ | badArgument _ | unsupportedType _ => .invalidArgument

end Fault

end ScriptKit
