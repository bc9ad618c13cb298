import ScriptKit.Listing.Assemble

namespace ScriptKit.Listing

/-- The number that an operand holds. -/
def numberText (op : Opcode) (operand : Bytes) : String :=
  toString (LittleEndian.toInt op.hasSignedOperand operand)

def bytesText (operand : Bytes) : String := "x\x7b" ++ Bytes.toText operand ++ "\x7d"

/-- An operand as the argument or arguments that it could be written by. -/
def operandText (op : Opcode) (operand : Bytes) : String :=
  match op.operand with
  | .fixed width =>
    if op = .syscall ∨ operand.length ≠ width then bytesText operand
    else if op.hasTwoNumbers then
      let (first, second) := operand.splitAt (operand.length / 2)
      numberText op first ++ ", " ++ numberText op second
    else numberText op operand
  | _ => bytesText operand

def instructionText (i : Instruction) : String :=
  match i.operand with
  | none => i.op.mnemonic
  | some operand =>
    Text.padRight Instruction.mnemonicWidth i.op.mnemonic ++ " " ++ operandText i.op operand

/-- The name of the service that the instruction calls. -/
def serviceName? (i : Instruction) : Option String :=
  if i.op = .syscall then
    (i.operand.bind ServiceCode.ofBytes?).bind fun code => (Service.ofCode? code).map Service.name
  else none

/-- A number in hexadecimal, with at least four digits. -/
def offsetText (offset : Nat) : String :=
  let digits := Nat.toDigits 16 offset
  String.ofList (List.replicate (4 - digits.length) '0' ++ digits)

/-- The instructions with their offsets. -/
def withOffsets (offset : Nat) : List Instruction → List (Nat × Instruction)
  | [] => []
  | i :: rest => (offset, i) :: withOffsets (offset + i.size) rest

/-- An instruction and, as a comment, its offset and the name of the service it calls. -/
def line (width : Nat) (offset : Nat) (i : Instruction) : String :=
  let service := (serviceName? i).elim "" (" " ++ ·)
  Text.padRight width (instructionText i) ++ "  // " ++ offsetText offset ++ service ++ "\n"

def print (instructions : List Instruction) : String :=
  let width := instructions.foldl (fun width i => max width (instructionText i).length) 0
  String.join ((withOffsets 0 instructions).map fun (offset, i) => line width offset i)

def printScript (script : Bytes) : Except Fault String := (Instruction.decode script).map print

end ScriptKit.Listing
