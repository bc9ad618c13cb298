import ScriptKit.Call.Basic
import ScriptKit.Param.Json

namespace ScriptKit.Call

open Json (Reader)

/-- How a call is called in complaints. -/
def shapeName : String := "struct CallIntent"

def hashOfText (text : String) : Except Json.Fault UInt160 :=
  match FixedBytes.ofText text with
  | .ok hash => .ok hash
  | .error fault => .error (Json.Fault.refuse fault.message)

def textOfJson : Json → Except Json.Fault String
  | .string text => .ok text
  | other => .error ⟨.wrongType other "a string", none⟩

def hashOfJson (json : Json) : Except Json.Fault UInt160 := do
  hashOfText (← textOfJson json)

def argsOfJson : Json → Except Json.Fault (List Param)
  | .array items => items.mapM Param.ofPart
  | other => .error ⟨.wrongType other "a sequence", none⟩

def flagsOfJson (json : Json) : Except Json.Fault CallFlags := json.byte.map CallFlags.mk

/-- A call of which only some fields are read. -/
structure Partial where
  scriptHash? : Option UInt160 := none
  operation? : Option String := none
  args? : Option (List Param) := none
  flags? : Option CallFlags := none

/-- The whole call, or the index of the first field that is missing. -/
def Partial.finish (p : Partial) : Except Nat Call :=
  match p.scriptHash?, p.operation? with
  | some scriptHash, some operation =>
    .ok ⟨scriptHash, operation, p.args?.getD [], p.flags?.getD .all⟩
  | none, _ => .error 0
  | some _, none => .error 1

def fieldNames : List String := ["scriptHash", "operation", "args", "callFlags"]

/-- Fields are judged in the order of their names. Without arguments there are none, and without
flags everything is allowed. -/
def ofJson : Json → Except Json.Fault Call
  | .array items => do
    let p : Partial := {
      scriptHash? := ← items[0]?.mapM hashOfJson
      operation? := ← items[1]?.mapM textOfJson
      args? := ← items[2]?.mapM argsOfJson
      flags? := ← items[3]?.mapM flagsOfJson }
    match p.finish with
    | .ok call =>
      if items.length ≤ fieldNames.length then .ok call
      else .error ⟨.wrongLength items.length "fewer elements in array", none⟩
    | .error index =>
      .error ⟨.wrongLength index (Json.Record.elements shapeName fieldNames.length), none⟩
  | .object fields => do
    let args? ← (fields.lookup "args").mapM argsOfJson
    let flags? ← (fields.lookup "callFlags").mapM flagsOfJson
    let operation? ← (fields.lookup "operation").mapM textOfJson
    let scriptHash? ← (fields.lookup "scriptHash").mapM hashOfJson
    match Partial.finish { scriptHash?, operation?, args?, flags? } with
    | .ok call => .ok call
    | .error index => .error ⟨.missingField ((fieldNames[index]?).getD ""), none⟩
  | other => .error ⟨.wrongType other shapeName, none⟩

def record : Json.Record Partial Call where
  name := shapeName
  empty := {}
  fields := [
    ⟨"scriptHash", fun p => p.scriptHash?.isSome, fun _ => do
      match hashOfText (← Reader.stringOr "a string") with
      | .ok hash => pure fun p => { p with scriptHash? := some hash }
      | .error fault => throw fault⟩,
    ⟨"operation", fun p => p.operation?.isSome, fun _ => do
      let text ← Reader.stringOr "a string"
      pure fun p => { p with operation? := some text }⟩,
    ⟨"args", fun p => p.args?.isSome, fun depth => do
      let args ← Reader.list Param.read depth
      pure fun p => { p with args? := some args }⟩,
    ⟨"callFlags", fun p => p.flags?.isSome, fun _ => do
      let bits ← Reader.byte
      pure fun p => { p with flags? := some ⟨bits⟩ }⟩]
  finish := Partial.finish

/-- Reads a call in a text. -/
def read (depth : Nat) : Reader Call := record.read depth

def toJson (call : Call) : Json :=
  .object [
    ("scriptHash", .string call.scriptHash.toText),
    ("operation", .string call.operation),
    ("args", .array (Param.toItems call.args)),
    ("callFlags", .int call.flags.bits.toNat)]

end ScriptKit.Call
