import ScriptKit.Instruction.Basic

namespace ScriptKit.Instruction

/-- The push of an integer: one byte alone from -1 to 16, else the narrowest operand that holds
it. -/
def pushInt (value : Int) : Except Fault Instruction :=
  match Opcode.ofSmallInt? value with
  | some op => .ok ⟨op, none⟩
  | none =>
    let wide? := Opcode.intPushes.findSome? fun (width, op) =>
      (LittleEndian.ofInt? true width value).map fun operand => Instruction.mk op (some operand)
    match wide? with
    | some i => .ok i
    | none => .error (.integerOverflow value)

/-- The data pushes, the one with the shortest length field first. -/
def dataPushes : List Opcode := [.pushData1, .pushData2, .pushData4]

/-- The data push for so many bytes: the one with the shortest length field. -/
def dataPush (length : Nat) : Except Fault Opcode :=
  if length ≤ 0xff then .ok .pushData1
  else if length ≤ 0xffff then .ok .pushData2
  else if length ≤ 0xffffffff then .ok .pushData4
  else .error (.dataOverflow .pushData4 length)

/-- The push of a byte string, with the shortest length field that holds its length. -/
def pushBytes (bytes : Bytes) : Except Fault Instruction :=
  (dataPush bytes.length).map fun op => ⟨op, some bytes⟩

def pushBool (value : Bool) : Instruction := ⟨if value then .pushT else .pushF, none⟩

def pushNull : Instruction := ⟨.pushNull, none⟩

end ScriptKit.Instruction
