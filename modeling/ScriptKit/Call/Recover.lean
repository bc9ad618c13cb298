import ScriptKit.Call.Basic
import ScriptKit.Call.Stack
import ScriptKit.Instruction.Reader

namespace ScriptKit

/-- What an instruction pushes. -/
def Instruction.value (i : Instruction) : Except Fault Param :=
  match i.op with
  | .pushT => .ok (.boolean true)
  | .pushF => .ok (.boolean false)
  | .pushNull => .ok (.any none)
  | .pushData1 | .pushData2 | .pushData4 => .ok (.byteArray i.payload)
  | op =>
    if op.smallInt?.isSome || op.isIntPush then i.int?.map .integer
    else .error (.unexpectedInstruction op)

namespace Call

def hashOfParam : Param → Except Fault UInt160
  | .byteArray bytes =>
    if bytes.length = FixedBytes.Kind.uint160.length then FixedBytes.ofWire bytes
    else .error (.misfit .hashLength)
  | _ => .error (.misfit .hashLength)

/-- The flags on top of the stack. Without an integer there, everything is allowed. -/
def takeFlags : ArgStack → Except Fault (CallFlags × ArgStack)
  | .integer bits :: rest =>
    if 0 ≤ bits ∧ bits < 256 then .ok (⟨UInt8.ofNat bits.toNat⟩, rest)
    else .error (.misfit .flagRange)
  | stack => .ok (.all, stack)

def operationOfParam : Param → Except Fault String
  | .byteArray bytes =>
    match Utf8.decode? bytes with
    | some text => .ok text
    | none => .error (.misfit .operationText)
  | _ => .error (.misfit .operationType)

def argsOfParam : Param → Except Fault (List Param)
  | .array args => .ok args
  | _ => .error (.misfit .argumentsType)

/-- The call that the stack was made for. -/
def ofStack (stack : ArgStack) : Except Fault Call := do
  let (hash, stack) ← stack.pop .noScriptHash
  let scriptHash ← hashOfParam hash
  let (flags, stack) ← takeFlags stack
  let (operation, stack) ← stack.pop .noOperation
  let operation ← operationOfParam operation
  let (args, stack) ← stack.pop .noArguments
  let args ← argsOfParam args
  match stack with
  | [] => .ok { scriptHash, operation, args, flags }
  | _ => .error (.misfit .leftover)

/-- The call of a service, which must be the call of a contract. -/
def ofSyscall (operand : Bytes) (stack : ArgStack) : Except Fault Call :=
  if operand = Service.contractCall.code.bytes then ofStack stack
  else .error (.unknownService (Bytes.toText operand))

/-- Reads up to the next call. There is none if the script ends before. -/
def nextFrom (stack : ArgStack) (r : ScriptReader) : Except Fault (Option Call) × ScriptReader :=
  match _h : r.next.1 with
  | .error fault => (.error fault, r.next.2)
  | .ok none => (.ok none, r.next.2)
  | .ok (some i) =>
    match i.op with
    | .nop | .assert => nextFrom stack r.next.2
    | .ret => nextFrom [] r.next.2
    | .pack =>
      match stack.pack with
      | (.ok (), stack) => nextFrom stack r.next.2
      | (.error fault, _) => (.error fault, r.next.2)
    | .syscall => ((ofSyscall i.payload stack).map some, r.next.2)
    | _ =>
      match i.value with
      | .ok value => nextFrom (value :: stack) r.next.2
      | .error fault => (.error fault, r.next.2)
termination_by r.rest.length
decreasing_by all_goals exact ScriptReader.length_rest_of_next _h

/-- The next call of a script. -/
def next (r : ScriptReader) : Except Fault (Option Call) × ScriptReader := nextFrom [] r

theorem length_rest_of_nextFrom {stack : ArgStack} {r : ScriptReader} {call : Call}
    (h : (nextFrom stack r).1 = .ok (some call)) :
    (nextFrom stack r).2.rest.length < r.rest.length := by
  fun_induction nextFrom stack r
  all_goals grind [ScriptReader.length_rest_of_next]

/-- All further calls of a script. -/
def allFrom (r : ScriptReader) : Except Fault (List Call) × ScriptReader :=
  match _h : (next r).1 with
  | .error fault => (.error fault, (next r).2)
  | .ok none => (.ok [], (next r).2)
  | .ok (some call) =>
    let (others, last) := allFrom (next r).2
    (others.map (call :: ·), last)
termination_by r.rest.length
decreasing_by exact length_rest_of_nextFrom _h

/-- The calls of a whole script. -/
def ofScript (script : Bytes) : Except Fault (List Call) := (allFrom (.ofScript script)).1

def ofText (text : String) : Except Fault (List Call) := do
  ofScript (← Bytes.ofText text)

end Call

end ScriptKit
