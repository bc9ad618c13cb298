import ScriptKit.Bytes.Text

namespace ScriptKit

namespace Opcode

def ofByte (byte : UInt8) : Except Fault Opcode :=
  match ofCode? byte with
  | some op => .ok op
  | none => .error (.unsupportedOpcode byte)

def ofName (name : String) : Except Fault Opcode :=
  match ofMnemonic? name with
  | some op => .ok op
  | none => .error (.unknownMnemonic name)

end Opcode

/-- The code of a service, by its name or in hexadecimal. -/
def ServiceCode.ofText (text : String) : Except Fault ServiceCode :=
  match Service.ofName? text with
  | some service => .ok service.code
  | none =>
    match Bytes.ofText text with
    | .error _ => .error (.unknownService text)
    | .ok bytes =>
      match ofBytes? bytes with
      | some code => .ok code
      | none => .error (.wrongLength "service code" 4 bytes.length)

def ParamType.ofText (name : String) : Except Fault ParamType :=
  match ofName? name with
  | some type => .ok type
  | none => .error (.badArgument (.unknownType name))

end ScriptKit
