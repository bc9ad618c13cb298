import ScriptKit.Bytes.Scan
import ScriptKit.Emission

namespace ScriptKit

/-- What a verification script asks for. -/
inductive Witness where
  | signature (key : PublicKey)
  | multisig (threshold : Nat) (keys : List PublicKey)
  | other
deriving DecidableEq

namespace Witness

/-- The largest number of keys. -/
def maxKeys : Nat := 1024

def signatureScript (key : PublicKey) : Except Fault Bytes :=
  ((Emission.fixed key).andThen (.raw .syscall Service.checkSig.code.bytes)).result

/-- Pushes keys in their order. -/
def pushKeys : List PublicKey → Emission
  | [] => {}
  | key :: rest => (Emission.fixed key).andThen (pushKeys rest)

def multisigScript (threshold : Nat) (keys : List PublicKey) : Except Fault Bytes :=
  if 1 ≤ threshold ∧ threshold ≤ keys.length ∧ keys.length ≤ maxKeys then
    ((Emission.int threshold).andThen ((pushKeys keys).andThen
      ((Emission.int keys.length).andThen
        (.raw .syscall Service.checkMultisig.code.bytes)))).result
  else .error (.badArgument (.threshold threshold keys.length))

/-- The number of bytes of a script that checks one signature. -/
def signatureLength : Nat := 40

/-- The fewest bytes that a script with several keys may have. -/
def minMultisigLength : Nat := 42

/-- Whether the script pushes something as long as a key and checks one signature. -/
def scanSignature (script : Bytes) : Scan Unit := do
  Scan.ensure (script.length = signatureLength)
  Scan.ensure ((← Scan.byteAt script 0) = Opcode.pushData1.code)
  Scan.ensure ((← Scan.byteAt script 1).toNat = FixedBytes.Kind.publicKey.length)
  Scan.ensure ((← Scan.byteAt script 35) = Opcode.syscall.code)
  Scan.ensure ((← Scan.bytesAt script 36 4) = Service.checkSig.code.bytes)

/-- The key of a script that checks one signature. -/
def scanSignatureKey (script : Bytes) : Scan PublicKey := do
  scanSignature script
  let key ← Scan.bytesAt script 2 FixedBytes.Kind.publicKey.length
  Scan.expect (FixedBytes.ofBytes key).toOption

/-- The number that an opcode pushes with the bytes behind it, at most two, and the place behind
them. -/
def countOf (script : Bytes) (offset : Nat) : Opcode → Scan (Int × Nat)
  | .pushInt8 => do
    let byte ← Scan.expect script[offset + 1]?
    pure (LittleEndian.toInt true [byte], offset + 2)
  | .pushInt16 => do
    let bytes ← Scan.expect (Scan.slice? script (offset + 1) 2)
    let low ← Scan.byteAt bytes 0
    let high ← Scan.byteAt bytes 1
    pure (LittleEndian.toInt true [low, high], offset + 3)
  | op => do
    let value ← Scan.expect op.smallInt?
    pure (value, offset + 1)

/-- A number from 1 to `maxKeys` that is pushed at the offset, and the place behind it. -/
def readCount (script : Bytes) (offset : Nat) : Scan (Nat × Nat) := do
  let byte ← Scan.expect script[offset]?
  let op ← Scan.expect (Opcode.ofCode? byte)
  let (value, next) ← countOf script offset op
  Scan.ensure (1 ≤ value ∧ value ≤ maxKeys)
  pure (value.toNat, next)

/-- The keys that are pushed one after another from the offset on, and the place behind them. -/
def readKeys (script : Bytes) (offset : Nat) : Scan (List PublicKey × Nat) :=
  if _h : script[offset]? = some Opcode.pushData1.code then do
    Scan.ensure (script[offset + 1]? = some (UInt8.ofNat FixedBytes.Kind.publicKey.length))
    let bytes ← Scan.expect (Scan.slice? script (offset + 2) FixedBytes.Kind.publicKey.length)
    let key ← Scan.expect (FixedBytes.ofBytes bytes).toOption
    let (others, next) ← readKeys script (offset + 2 + FixedBytes.Kind.publicKey.length)
    pure (key :: others, next)
  else .ok ([], offset)
termination_by script.length - offset
decreasing_by
  have := (List.getElem?_eq_some_iff.mp _h).1
  omega

/-- The threshold and the keys of a script that checks signatures by several keys. -/
def scanMultisig (script : Bytes) : Scan (Nat × List PublicKey) := do
  Scan.ensure (minMultisigLength ≤ script.length)
  let (threshold, offset) ← readCount script 0
  let (keys, offset) ← readKeys script offset
  Scan.ensure (threshold ≤ keys.length ∧ keys.length ≤ maxKeys)
  let (count, offset) ← readCount script offset
  Scan.ensure (count = keys.length ∧ script.length = offset + 5)
  Scan.ensure ((← Scan.byteAt script offset) = Opcode.syscall.code)
  Scan.ensure ((← Scan.bytesAt script (offset + 1) 4) = Service.checkMultisig.code.bytes)
  pure (threshold, keys)

def signatureKey? (script : Bytes) : Option PublicKey := (scanSignatureKey script).toOption

def multisig? (script : Bytes) : Option (Nat × List PublicKey) := (scanMultisig script).toOption

def isSignature (script : Bytes) : Bool := (scanSignature script).isOk

def isMultisig (script : Bytes) : Bool := (multisig? script).isSome

def ofScript (script : Bytes) : Witness :=
  match signatureKey? script with
  | some key => .signature key
  | none =>
    match multisig? script with
    | some (threshold, keys) => .multisig threshold keys
    | none => .other

def keys (script : Bytes) : Except Fault (List PublicKey) :=
  match multisig? script with
  | some (_, keys) => .ok keys
  | none => .error .notMultisig

def threshold (script : Bytes) : Except Fault Nat :=
  match multisig? script with
  | some (threshold, _) => .ok threshold
  | none => .error .notMultisig

end Witness

end ScriptKit
