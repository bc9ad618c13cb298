import ScriptKit.Bytes.LittleEndian
import ScriptKit.Bytes.Text

namespace ScriptKit

/-- The length of a counted operand is not part of the operand. It is written before it and read
back from there. -/
structure Instruction where
  op : Opcode
  operand : Option Bytes := none
deriving DecidableEq

namespace Instruction

/-- The operand bytes; an instruction without an operand has none. -/
def payload (i : Instruction) : Bytes := i.operand.getD []

/-- The number of bytes that the instruction takes in a script. -/
def size (i : Instruction) : Nat :=
  match i.op.operand with
  | .none => 1
  | .fixed width => 1 + width
  | .counted width => 1 + width + i.payload.length

def checkFixed (op : Opcode) (operand : Bytes) : Except Fault Unit :=
  if operand.length = op.operand.fixedLength then .ok ()
  else .error (.operandLength op op.operand.fixedLength operand.length)

/-- The bytes of the instruction, if its operand is as long as its opcode asks. -/
def encode (i : Instruction) : Except Fault Bytes :=
  match i.op.operand with
  | .counted width =>
    if i.payload.length ≤ i.op.operand.maxPayload then
      .ok (i.op.code :: LittleEndian.ofNat width i.payload.length ++ i.payload)
    else .error (.dataOverflow i.op i.payload.length)
  | _ => (checkFixed i.op i.payload).map fun () => i.op.code :: i.payload

def encodeAll : List Instruction → Except Fault Bytes
  | [] => .ok []
  | i :: rest => do
    let bytes ← i.encode
    let others ← encodeAll rest
    pure (bytes ++ others)

/-- Cuts so many bytes off a script, of which `offset` bytes are read already. -/
def cut (offset count : Nat) (bytes : Bytes) : Except Fault (Bytes × Bytes) :=
  let (part, rest) := bytes.splitAt count
  if part.length = count then .ok (part, rest)
  else .error (.endOfScript offset (count - part.length))

/-- The operand of an opcode, and what follows it. -/
def readOperand (offset : Nat) (bytes : Bytes) : OperandRule → Except Fault (Option Bytes × Bytes)
  | .none => .ok (none, bytes)
  | .fixed width => do
    let (operand, rest) ← cut offset width bytes
    pure (some operand, rest)
  | .counted width => do
    let (length, rest) ← cut offset width bytes
    let (operand, rest) ← cut (offset + width) (LittleEndian.toNat length) rest
    pure (some operand, rest)

/-- The instruction that starts with the byte at `offset`, and what follows it. -/
def read (offset : Nat) (byte : UInt8) (bytes : Bytes) : Except Fault (Instruction × Bytes) :=
  match Opcode.ofCode? byte with
  | none => .error (.unsupportedOpcode byte)
  | some op => do
    let (operand, rest) ← readOperand (offset + 1) bytes op.operand
    pure (⟨op, operand⟩, rest)

theorem cut_eq_ok {offset count : Nat} {bytes part rest : Bytes}
    (h : cut offset count bytes = .ok (part, rest)) :
    part ++ rest = bytes ∧ part.length = count := by
  simp only [cut, List.splitAt_eq] at h
  split at h
  · next hl =>
    obtain ⟨rfl, rfl⟩ := Prod.mk.inj (Except.ok.inj h)
    exact ⟨List.take_append_drop .., hl⟩
  · cases h

theorem length_rest_of_readOperand {offset : Nat} {bytes rest : Bytes} {rule : OperandRule}
    {operand : Option Bytes} (h : readOperand offset bytes rule = .ok (operand, rest)) :
    rest.length ≤ bytes.length := by
  cases rule with
  | none =>
    obtain ⟨_, rfl⟩ := Prod.mk.inj (Except.ok.inj h)
    exact Nat.le_refl _
  | fixed width =>
    cases hc : cut offset width bytes with
    | error fault => simp [readOperand, hc, bind, Except.bind] at h
    | ok parts =>
      simp only [readOperand, hc, bind, Except.bind, pure, Except.pure, Except.ok.injEq,
        Prod.mk.injEq] at h
      have := congrArg List.length (cut_eq_ok hc).1
      simp only [List.length_append, ← h.2] at this ⊢
      omega
  | counted width =>
    cases hc : cut offset width bytes with
    | error fault => simp [readOperand, hc, bind, Except.bind] at h
    | ok parts =>
      cases hd : cut (offset + width) (LittleEndian.toNat parts.1) parts.2 with
      | error fault => simp [readOperand, hc, hd, bind, Except.bind] at h
      | ok parts' =>
        simp only [readOperand, hc, hd, bind, Except.bind, pure, Except.pure, Except.ok.injEq,
          Prod.mk.injEq] at h
        have hl := congrArg List.length (cut_eq_ok hc).1
        have hr := congrArg List.length (cut_eq_ok hd).1
        simp only [List.length_append, ← h.2] at hl hr ⊢
        omega

/-- Reading an instruction leaves no more than what stood behind its opcode. -/
theorem length_rest_of_read {offset : Nat} {byte : UInt8} {bytes rest : Bytes} {i : Instruction}
    (h : read offset byte bytes = .ok (i, rest)) : rest.length ≤ bytes.length := by
  simp only [read] at h
  split at h
  · cases h
  · next op _ =>
    cases hr : readOperand (offset + 1) bytes op.operand with
    | error fault => simp [hr, bind, Except.bind] at h
    | ok parts =>
      simp only [hr, bind, Except.bind, pure, Except.pure, Except.ok.injEq, Prod.mk.injEq] at h
      exact h.2 ▸ length_rest_of_readOperand hr

/-- The instructions of a script, of which `offset` bytes are read already. -/
def decodeFrom (offset : Nat) : Bytes → Except Fault (List Instruction)
  | [] => .ok []
  | byte :: bytes =>
    match _h : read offset byte bytes with
    | .error fault => .error fault
    | .ok (i, rest) => do
      let others ← decodeFrom (offset + i.size) rest
      pure (i :: others)
termination_by bytes => bytes.length
decreasing_by
  have := length_rest_of_read _h
  simp only [List.length_cons]
  omega

/-- Splits a script into its instructions. -/
def decode (script : Bytes) : Except Fault (List Instruction) := decodeFrom 0 script

def decodeText (text : String) : Except Fault (List Instruction) := do
  decode (← Bytes.ofText text)

/-- The integer that the instruction pushes. -/
def int? (i : Instruction) : Except Fault Int :=
  match i.op.smallInt?, i.operand with
  | some value, _ => .ok value
  | none, some operand =>
    if i.op.isIntPush then
      (checkFixed i.op operand).map fun () => LittleEndian.toInt true operand
    else .error (.notAnInteger i.op)
  | none, none => .error (.notAnInteger i.op)

/-- The mnemonic, filled up to the width of a column, and the operand in hexadecimal. -/
def pretty (width : Nat) (i : Instruction) : String :=
  match i.operand with
  | some operand => Text.padRight width i.op.mnemonic ++ " " ++ Bytes.toText operand
  | none => i.op.mnemonic

/-- The width of the column of mnemonics. -/
def mnemonicWidth : Nat := 12

end Instruction

end ScriptKit
