import ScriptKit.Emission
import ScriptKit.Listing.Diagnostic
import ScriptKit.Listing.Parse

namespace ScriptKit

/-- Whether the operand consists of two numbers of the same width. -/
def Opcode.hasTwoNumbers : Opcode → Bool
  | .tryOp | .tryOpL | .initSlot => true
  | _ => false

namespace Listing

/-- What an argument says about an operand. -/
inductive Content where
  | number (value : Int)
  | bytes (value : Bytes)
deriving DecidableEq

abbrev ArgReader (α : Type) := Argument → Except Diagnostic α

namespace ArgReader

variable {α : Type}

/-- Asks for an argument of one kind. -/
def ofKind (kind : ArgKind) (value? : Literal → Option α) : ArgReader α := fun arg =>
  match value? arg.value with
  | some value => .ok value
  | none => .error (.argument (.wrongKind arg.span arg.value.kind (.exactly kind)))

/-- Tries a second reader if the argument is of the wrong kind for the first. -/
def orElse (p q : ArgReader α) : ArgReader α := fun arg =>
  match p arg with
  | .error (.argument (.wrongKind span found expected)) =>
    match q arg with
    | .error (.argument (.wrongKind _ _ others)) =>
      .error (.argument (.wrongKind span found (expected.join others)))
    | result => result
  | result => result

def number : ArgReader Int := ofKind .number fun
  | .number value => some value
  | _ => none

def bytes : ArgReader Bytes := ofKind .bytes fun
  | .bytes value => some value
  | _ => none

def text : ArgReader Bytes := ofKind .text fun
  | .text value => some (Utf8.encode value)
  | _ => none

/-- A byte string, or a text that stands for its bytes. -/
def data : ArgReader Bytes := orElse bytes text

def content : ArgReader Content :=
  orElse (fun arg => (number arg).map .number) (fun arg => (bytes arg).map .bytes)

/-- The code of the service that is named. -/
def service : ArgReader Content := fun arg => do
  let name ← ofKind .service (fun
    | .service name => some name
    | _ => none) arg
  match Service.ofName? name with
  | some service => .ok (.bytes service.code.bytes)
  | none => .error (.unknownService name arg.span)

/-- Zero or one. -/
def flag : ArgReader Bool := fun arg => do
  let value ← number arg
  if value = 0 then .ok false
  else if value = 1 then .ok true
  else .error (.argument (.outOfRange arg.span))

end ArgReader

/-- The bytes that the arguments cover. -/
def argsSpan (first : Argument) (rest : List Argument) : Span :=
  rest.foldl (fun span arg => span.hull arg.span) first.span

namespace Statement

variable {α : Type}

def noArgs (s : Statement) : Except Diagnostic Unit :=
  match s.args with
  | [] => .ok ()
  | first :: rest => .error (.tooManyArgs (argsSpan first rest))

/-- Reads the only argument. -/
def oneArg (s : Statement) (read : ArgReader α) : Except Diagnostic (Argument × α) :=
  match s.args with
  | [] => .error (.notEnoughArgs s.mnemonicSpan)
  | [arg] => (read arg).map fun value => (arg, value)
  | _ :: first :: rest => .error (.tooManyArgs (argsSpan first rest))

/-- A number in an operand of a fixed width. -/
def numberBytes (op : Opcode) (width : Nat) (span : Span) (value : Int) : Except ArgFault Bytes :=
  match LittleEndian.ofInt? op.hasSignedOperand width value with
  | some bytes => .ok bytes
  | none => .error (.outOfRange span)

/-- The number that an argument is. -/
def numberOf (arg : Argument) : Except ArgFault Int :=
  match arg.value with
  | .number value => .ok value
  | other => .error (.wrongKind arg.span other.kind (.exactly .number))

/-- Joins two results; if both failed, both faults are kept. -/
def joinBoth {β γ : Type} (first : Except ArgFault β) (second : Except ArgFault γ) :
    Except Diagnostic (β × γ) :=
  match first, second with
  | .ok a, .ok b => .ok (a, b)
  | .ok _, .error fault => .error (.argument fault)
  | .error fault, .ok _ => .error (.argument fault)
  | .error fault, .error other => .error (.both fault other)

/-- Two numbers, each in one half of an operand. Unless all faults are wanted, only the first number
out of range is reported. -/
def twoNumbers (wantsAll : Bool) (op : Opcode) (width : Nat) (first second : Argument) :
    Except Diagnostic Bytes := do
  let (a, b) ← joinBoth (numberOf first) (numberOf second)
  let low := numberBytes op (width / 2) first.span a
  let high := numberBytes op (width / 2) second.span b
  match low, wantsAll with
  | .error fault, false => .error (.argument fault)
  | _, _ => do
    let (low, high) ← joinBoth low high
    pure (low ++ high)

/-- An operand of a fixed width. -/
def fixedOperand (op : Opcode) (width : Nat) (span : Span) : Content → Except Diagnostic Bytes
  | .number value =>
    match numberBytes op width span value with
    | .ok bytes => .ok bytes
    | .error fault => .error (.argument fault)
  | .bytes bytes =>
    if bytes.length = width then .ok bytes
    else .error (.encode (.operandLength op width bytes.length) span)

/-- The operand of an opcode, from the arguments. -/
def operand (wantsAll : Bool) (op : Opcode) (s : Statement) : Except Diagnostic (Option Bytes) :=
  match op.operand with
  | .none => s.noArgs.map fun () => none
  | .counted _ => (s.oneArg .data).map fun (_, bytes) => some bytes
  | .fixed width =>
    match op.hasTwoNumbers, s.args with
    | true, [first, second] => (twoNumbers wantsAll op width first second).map some
    | _, _ => do
      let reader := if op = .syscall then ArgReader.service.orElse .content else .content
      let (arg, content) ← s.oneArg reader
      (fixedOperand op width arg.span content).map some

/-- Lays a fault of an instruction at the statement. -/
def located (s : Statement) : Except Fault α → Except Diagnostic α
  | .ok value => .ok value
  | .error fault => .error (.encode fault s.span)

/-- What the statement adds to a script. Three mnemonics push their argument in the shortest way;
any other is an opcode, which is written with its operand. -/
def encode (wantsAll : Bool) (s : Statement) : Except Diagnostic Bytes :=
  match Opcode.ofMnemonic? s.mnemonic with
  | some op => do
    let operand ← s.operand wantsAll op
    s.located (Emission.instruction ⟨op, operand⟩).result
  | none =>
    if s.mnemonic = "PUSHINT" then do
      let (_, value) ← s.oneArg .number
      s.located (Emission.int value).result
    else if s.mnemonic = "PUSHDATA" then do
      let (_, bytes) ← s.oneArg .data
      s.located (Emission.data bytes).result
    else if s.mnemonic = "PUSHBOOL" then do
      let (_, value) ← s.oneArg .flag
      s.located (Emission.bool value).result
    else .error (.unknownOpcode s.mnemonic s.mnemonicSpan)

end Statement

/-- A script to which statements are added one after another. -/
structure Assembler where
  /-- Whether all faults of a statement are wanted. -/
  wantsAll : Bool := false
  written : Array UInt8 := #[]

namespace Assembler

/-- Writes the instruction of a statement behind what is written, or tells its fault. -/
def add (a : Assembler) (s : Statement) : Except Diagnostic Unit × Assembler :=
  match s.encode a.wantsAll with
  | .ok bytes => (.ok (), { a with written := a.written ++ bytes.toArray })
  | .error diagnostic => (.error diagnostic, a)

/-- Adds statements up to the first fault. -/
def addAll (a : Assembler) : List Statement → Except Diagnostic Assembler
  | [] => .ok a
  | s :: rest =>
    match a.add s with
    | (.ok (), a) => addAll a rest
    | (.error diagnostic, _) => .error diagnostic

/-- Goes on after a fault, with the same script, and collects the faults. -/
def collectFaults (a : Assembler) : List Statement → List Diagnostic
  | [] => []
  | s :: rest =>
    match a.add s with
    | (.ok (), a) => collectFaults a rest
    | (.error diagnostic, a) => diagnostic :: collectFaults a rest

end Assembler

/-- The script of a listing, or its first fault. -/
def assemble (statements : List Statement) : Except Diagnostic Bytes :=
  (Assembler.addAll {} statements).map (·.written.toList)

/-- The faults of a listing, at most one for each statement. A check goes on where assembling stops.
-/
def check (statements : List Statement) : List Diagnostic :=
  Assembler.collectFaults { wantsAll := true } statements

/-- Why a text gives no script. -/
inductive Refusal where
  /-- There may be no statements and yet no fault to name. -/
  | notRead (error? : Option SyntaxError)
  | notAssembled (diagnostic : Diagnostic)
deriving DecidableEq

/-- The statements of a text in which no fault was found, or else the first fault. -/
def Parsed.valid (parsed : Parsed) : Except (Option SyntaxError) (List Statement) :=
  match parsed.errors, parsed.statements? with
  | [], some statements => .ok statements
  | errors, _ => .error errors.head?

/-- The faults found by checking what could be read. -/
def Parsed.check (parsed : Parsed) : List Diagnostic :=
  Listing.check (parsed.statements?.getD [])

def assembleText (text : String) : Except Refusal Bytes :=
  match (parse text.toList).valid with
  | .error error? => .error (.notRead error?)
  | .ok statements =>
    match assemble statements with
    | .ok script => .ok script
    | .error diagnostic => .error (.notAssembled diagnostic)

end Listing

end ScriptKit
