import ScriptKit.Call.Basic
import ScriptKit.Instruction.Push

namespace ScriptKit

/-- What a step adds to a script, and the fault that stopped it, if one did. -/
structure Emission where
  written : Bytes := []
  fault? : Option Fault := none
deriving DecidableEq

namespace Emission

def bytes (written : Bytes) : Emission := { written }

def failed (fault : Fault) : Emission := { fault? := some fault }

/-- Takes a second step unless the first failed. -/
def andThen (first second : Emission) : Emission :=
  match first.fault? with
  | some _ => first
  | none => ⟨first.written ++ second.written, second.fault?⟩

/-- The bytes of an emission that did not fail. -/
def result (e : Emission) : Except Fault Bytes :=
  match e.fault? with
  | some fault => .error fault
  | none => .ok e.written

def ofResult : Except Fault Bytes → Emission
  | .ok written => bytes written
  | .error fault => failed fault

/-- An opcode with the bytes behind it, whatever its operand should be. -/
def raw (op : Opcode) (operand : Bytes := []) : Emission := bytes (op.code :: operand)

/-- An instruction, if its operand is as long as it should be. -/
def instruction (i : Instruction) : Emission := ofResult i.encode

def null : Emission := raw .pushNull

def bool (value : Bool) : Emission := raw (if value then .pushT else .pushF)

/-- The opcode and the operand found for an integer, as they are. -/
def int (value : Int) : Emission :=
  match Instruction.pushInt value with
  | .ok i => raw i.op i.payload
  | .error fault => failed fault

/-- Data behind their length, of which as many bytes are written as the length field has. -/
def data (value : Bytes) : Emission :=
  match Instruction.dataPush value.length with
  | .error fault => failed fault
  | .ok op =>
    match op.operand with
    | .counted width => raw op ((LittleEndian.ofNat 4 value.length).take width ++ value)
    | _ => failed (.dataOverflow op value.length)

def text (value : String) : Emission := data (Utf8.encode value)

def fixed {kind : FixedBytes.Kind} (value : FixedBytes kind) : Emission := data value.toWire

mutual

/-- Pushes a parameter. The items of an array are pushed last to first; then they are packed. -/
def param : Param → Emission
  | .any _ => null
  | .boolean value => bool value
  | .integer value => int value
  | .byteArray value => data value
  | .string value => text value
  | .hash160 value => fixed value
  | .hash256 value => fixed value
  | .publicKey value => fixed value
  | .array items => (reversed items).andThen ((int items.length).andThen (raw .pack))
  | .void => failed (.unsupportedType .void)

/-- Pushes parameters, the last one first. -/
def reversed : List Param → Emission
  | [] => {}
  | item :: rest => (reversed rest).andThen (param item)

end

def array (items : List Param) : Emission := param (.array items)

/-- Pushes the arguments of a service and calls it. -/
def syscall (service : ServiceCode) (args : List Param) : Emission :=
  (reversed args).andThen (raw .syscall service.bytes)

/-- Pushes the arguments, the operation, the flags and the contract, and calls it. -/
def call (c : Call) : Emission :=
  [array c.args, text c.operation, int c.flags.bits.toNat, fixed c.scriptHash,
    raw .syscall Service.contractCall.code.bytes].foldr andThen {}

def calls : List Call → Emission
  | [] => {}
  | c :: rest => (call c).andThen (calls rest)

end Emission

/-- One script that makes all the calls, one after another. -/
def Call.script (calls : List Call) : Except Fault Bytes := (Emission.calls calls).result

end ScriptKit
