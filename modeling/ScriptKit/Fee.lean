import ScriptKit.Instruction.Basic

namespace ScriptKit

/-- Every instruction has a price, and so has the service that a call names. The sum is multiplied
by the factor. -/
structure FeeSchedule where
  factor : Nat := 30
  /-- The size of the item to be stored, if anything is stored. -/
  itemSize? : Option Nat := none
deriving DecidableEq, Repr

/-- The code of the service that the instruction calls. -/
def Instruction.serviceCode? (i : Instruction) : Option ServiceCode :=
  if i.op = .syscall then i.operand.bind ServiceCode.ofBytes? else none

namespace FeeSchedule

/-- The number of 64 bits that is pushed so many instructions before. -/
def pushedBefore (before : List Instruction) (distance : Nat) : Except Fault Nat :=
  match before[distance]? with
  | none => .error (.misfit .multisigCheck)
  | some i => do
    let value ← i.int?
    if 0 ≤ value ∧ value < UInt64.size then .ok value.toNat else .error (.misfit .multisigCheck)

/-- The signatures that a multisig check asks for, in view of the instructions before it, the last
one first: the number of keys stands right before the check, and the threshold before the keys. -/
def threshold (before : List Instruction) : Except Fault Nat := do
  let keys ← pushedBefore before 0
  pushedBefore before (keys + 1)

/-- The price of calling a service. -/
def servicePrice (schedule : FeeSchedule) (before : List Instruction) (service : Service) :
    Except Fault Nat :=
  match service.price with
  | .fixed price => .ok price
  | .perByte price =>
    match schedule.itemSize? with
    | some size => .ok (size * price)
    | none => .error (.noItemSize service)
  | .perSignature => (threshold before).map (· * Service.checkSigPrice)

/-- The price of an instruction. A call whose operand is no code is an instruction like others. -/
def cost (schedule : FeeSchedule) (before : List Instruction) (i : Instruction) :
    Except Fault Nat :=
  match i.serviceCode? with
  | none => .ok i.op.price
  | some code =>
    match Service.ofCode? code with
    | none => .error (.unknownService code.toText)
    | some service => (schedule.servicePrice before service).map (i.op.price + ·)

def costFrom (schedule : FeeSchedule) (before : List Instruction) :
    List Instruction → Except Fault Nat
  | [] => .ok 0
  | i :: rest => do
    let first ← schedule.cost before i
    let others ← costFrom schedule (i :: before) rest
    pure (first + others)

/-- The sum of all prices, before the factor is applied. -/
def baseCost (schedule : FeeSchedule) (script : List Instruction) : Except Fault Nat :=
  schedule.costFrom [] script

def fee (schedule : FeeSchedule) (script : List Instruction) : Except Fault Nat :=
  (schedule.baseCost script).map (· * schedule.factor)

def feeOfScript (schedule : FeeSchedule) (script : Bytes) : Except Fault Nat := do
  schedule.fee (← Instruction.decode script)

end FeeSchedule

end ScriptKit
