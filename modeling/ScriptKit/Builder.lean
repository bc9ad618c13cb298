import ScriptKit.Emission

namespace ScriptKit

/-- A step of building a script. -/
inductive BuildStep where
  /-- An opcode with any bytes behind it. -/
  | raw (op : Opcode) (operand : Bytes)
  | instruction (i : Instruction)
  | param (p : Param)
  | null
  | bool (value : Bool)
  | int (value : Int)
  | data (value : Bytes)
  | text (value : String)
  | hash160 (value : UInt160)
  | hash256 (value : UInt256)
  | publicKey (value : PublicKey)
  | array (items : List Param)
  | syscall (service : ServiceCode) (args : List Param)
  /-- Without flags everything is allowed. -/
  | contractCall (scriptHash : UInt160) (operation : String) (args : List Param)
      (flags? : Option CallFlags)
  | call (c : Call)

namespace BuildStep

def emission : BuildStep → Emission
  | raw op operand => .raw op operand
  | instruction i => .instruction i
  | param p => .param p
  | null => .null
  | bool value => .bool value
  | int value => .int value
  | data value => .data value
  | text value => .text value
  | hash160 value => .fixed value
  | hash256 value => .fixed value
  | publicKey value => .fixed value
  | array items => .array items
  | syscall service args => .syscall service args
  | contractCall scriptHash operation args flags? =>
    .call ⟨scriptHash, operation, args, flags?.getD .all⟩
  | call c => .call c

/-- Whether the step writes instructions only, not any bytes. -/
def isTyped : BuildStep → Bool
  | raw _ _ => false
  | _ => true

/-- The script after the step, also if it fails. -/
def append (step : BuildStep) (script : Bytes) : Bytes := script ++ step.emission.written

/-- The script after all the steps. -/
def build (script : Bytes) : List BuildStep → Bytes
  | [] => script
  | step :: rest => build (step.append script) rest

end BuildStep

end ScriptKit
