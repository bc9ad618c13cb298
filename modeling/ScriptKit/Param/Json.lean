import ScriptKit.Json.Printer
import ScriptKit.Json.Record
import ScriptKit.Param.Basic

namespace ScriptKit

open Json (Reader)

namespace ParamType

def known : List String := all.map name

def ofVariant (name : String) : Except Json.Fault ParamType :=
  match ofName? name with
  | some type => .ok type
  | none => .error ⟨.unknownName name known, none⟩

/-- A type is a string, or an object with one field of that name and no value. -/
def ofJson : Json → Except Json.Fault ParamType
  | .string name => ofVariant name
  | .object [(name, value)] => do
    let type ← ofVariant name
    match value with
    | .null => .ok type
    | other => .error ⟨.wrongType other "unit", none⟩
  | .object fields => .error ⟨.wrongValue (.object fields) "map with a single key", none⟩
  | other => .error ⟨.wrongType other "string or map", none⟩

/-- Reads the name of a type. -/
def readName : Reader ParamType :=
  Reader.located do
    let name ← Reader.stringOr "variant identifier"
    match ofVariant name with
    | .ok type => pure type
    | .error fault => throw fault

/-- Reads the name of a type where an object of one field has its key. -/
def readKey : Reader ParamType := do
  Reader.blanks
  match ← Reader.peek? with
  | none => Reader.fail (.endInside .object)
  | some '"' => readName
  | some '\x7d' => Reader.failNext .noValue
  | some _ => Reader.failNext .keyNotString

def read (depth : Nat) : Reader ParamType := do
  let c ← Reader.valueStart
  if c = '"' then readName
  else if c = '\x7b' then
    Reader.deeper depth fun _ => do
      Reader.advance
      let type ← readKey
      Reader.colon
      Reader.nullOr "unit"
      Reader.blanks
      match ← Reader.peek? with
      | some '\x7d' => do Reader.advance; pure type
      | some _ => Reader.fail .noValue
      | none => Reader.fail (.endInside .object)
  else Reader.failNext .noValue

end ParamType

namespace Param

/-- A type and a JSON value that should belong to it. -/
structure Draft where
  type : ParamType
  value : Json

namespace Draft

/-- How a draft is called in complaints. -/
def shapeName : String := "struct ContractParamJson"

def ofJson : Json → Except Json.Fault Draft
  | .array [] => .error ⟨.wrongLength 0 (Json.Record.elements shapeName 2), none⟩
  | .array (type :: values) => do
    let type ← ParamType.ofJson type
    match values with
    | [] => .ok ⟨type, .null⟩
    | [value] => .ok ⟨type, value⟩
    | _ => .error ⟨.wrongLength (values.length + 1) "fewer elements in array", none⟩
  | .object fields =>
    match fields.lookup "type" with
    | some type => do
      let type ← ParamType.ofJson type
      .ok ⟨type, (fields.lookup "value").getD .null⟩
    | none => .error ⟨.missingField "type", none⟩
  | other => .error ⟨.wrongType other shapeName, none⟩

/-- A draft of which only some fields are read. -/
structure Partial where
  type? : Option ParamType := none
  value? : Option Json := none

def record : Json.Record Partial Draft where
  name := shapeName
  empty := {}
  fields := [
    ⟨"type", fun p => p.type?.isSome, fun depth => do
      let type ← ParamType.read depth
      pure fun p => { p with type? := some type }⟩,
    ⟨"value", fun p => p.value?.isSome, fun depth => do
      let value ← Reader.value depth
      pure fun p => { p with value? := some value }⟩]
  finish p :=
    match p.type? with
    | some type => .ok ⟨type, p.value?.getD .null⟩
    | none => .error 0

theorem sizeOf_lt_of_lookup {name : String} {value : Json} :
    ∀ {fields : List (String × Json)}, fields.lookup name = some value →
      sizeOf value < sizeOf fields
  | [], h => by simp at h
  | (key, other) :: rest, h => by
    simp only [List.lookup_cons] at h
    split at h
    · cases h
      simp
      omega
    · have := sizeOf_lt_of_lookup h
      simp
      omega

/-- The value of a draft lies within the JSON value that the draft was read from. -/
theorem sizeOf_value_lt {json : Json} {draft : Draft} (h : ofJson json = .ok draft) :
    sizeOf draft.value < sizeOf json := by
  unfold ofJson at h
  split at h
  · cases h
  · next type values =>
    cases ht : ParamType.ofJson type with
    | error fault => simp [ht, bind, Except.bind] at h
    | ok t =>
      simp only [ht, bind, Except.bind] at h
      split at h
      · cases h
        simp
      · cases h
        simp
        omega
      · cases h
  · next fields =>
    split at h
    · next type hl =>
      cases ht : ParamType.ofJson type with
      | error fault => simp [ht, bind, Except.bind] at h
      | ok t =>
        simp only [ht, bind, Except.bind, Except.ok.injEq] at h
        subst h
        cases hv : fields.lookup "value" with
        | none =>
          have := sizeOf_lt_of_lookup hl
          simp
          omega
        | some value =>
          have := sizeOf_lt_of_lookup hv
          simp
          omega
    · cases h
  · cases h

end Draft

/-- A parameter of any type that does not consist of others. -/
def ofScalar : ParamType → Json → Except Fault Param
  | .any, .null => .ok (.any none)
  | .any, .string text => .ok (.any (some text))
  | .boolean, .bool value => .ok (.boolean value)
  | .boolean, .int value => .ok (.boolean (value != 0))
  | .boolean, .float value => .ok (.boolean (value != 0))
  | .boolean, .string text =>
    if text = "true" ∨ text = "1" then .ok (.boolean true)
    else if text = "false" ∨ text = "0" ∨ text = "" then .ok (.boolean false)
    else .error (.badArgument (.notConvertible (Json.quote text) .boolean))
  | .integer, .string text => (parseInt text).map .integer
  | .integer, .int value => .ok (.integer value)
  | .integer, .float value => (parseInt (Decimal.render value)).map .integer
  | .byteArray, .string text => (Bytes.ofText text).map .byteArray
  | .string, .string text => .ok (.string text)
  | .hash160, .string text => (FixedBytes.ofText text).map .hash160
  | .hash256, .string text => (FixedBytes.ofText text).map .hash256
  | .publicKey, .string text => (FixedBytes.ofText text).map .publicKey
  | .void, .null => .ok .void
  | .signature, _ => .error (.unsupportedType .signature)
  | .map, _ => .error (.unsupportedType .map)
  | .interopInterface, _ => .error (.unsupportedType .interopInterface)
  | type, .null => .error (.badArgument (.noValue type))
  | type, value => .error (.badArgument (.notConvertible value.compact type))

mutual

def ofTyped (type : ParamType) (value : Json) : Except Fault Param :=
  match type, value with
  | .array, .array items => (ofItems items).map .array
  | type, value => ofScalar type value
termination_by sizeOf value

def ofItems (items : List Json) : Except Fault (List Param) :=
  match items with
  | [] => .ok []
  | item :: rest =>
    match _h : Draft.ofJson item with
    | .error fault => .error (.badArgument (.shape fault.message))
    | .ok draft => do
      let first ← ofTyped draft.type draft.value
      let others ← ofItems rest
      pure (first :: others)
termination_by sizeOf items
decreasing_by
  · have := Draft.sizeOf_value_lt _h
    simp only [List.cons.sizeOf_spec]
    omega
  · simp only [List.cons.sizeOf_spec]
    omega

end

def ofDraft (draft : Draft) : Except Fault Param := ofTyped draft.type draft.value

def ofJson (json : Json) : Except Fault Param :=
  match Draft.ofJson json with
  | .ok draft => ofDraft draft
  | .error fault => .error (.badArgument (.shape fault.message))

/-- A draft that says nothing in its type makes the JSON value that holds it a wrong one. -/
def accept (draft : Draft) : Except Json.Fault Param :=
  match ofDraft draft with
  | .ok param => .ok param
  | .error fault => .error (Json.Fault.refuse fault.message)

/-- A parameter that is part of a larger JSON value. -/
def ofPart (json : Json) : Except Json.Fault Param := do
  accept (← Draft.ofJson json)

/-- Reads a parameter in a text. -/
def read (depth : Nat) : Reader Param := do
  match accept (← Draft.record.read depth) with
  | .ok param => pure param
  | .error fault => throw fault

mutual

def toJson : Param → Json
  | any none => typed .any .null
  | any (some text) => typed .any (.string text)
  | boolean value => typed .boolean (.bool value)
  | integer value => typed .integer (.string (toString value))
  | byteArray bytes => typed .byteArray (.string (Bytes.toText bytes))
  | string text => typed .string (.string text)
  | hash160 hash => typed .hash160 (.string hash.toText)
  | hash256 hash => typed .hash256 (.string hash.toText)
  | publicKey key => typed .publicKey (.string key.toText)
  | array items => typed .array (.array (toItems items))
  | void => typed .void .null

def toItems : List Param → List Json
  | [] => []
  | item :: rest => item.toJson :: toItems rest

/-- A value with the name of its type. -/
def typed (type : ParamType) (value : Json) : Json :=
  .object [("type", .string type.name), ("value", value)]

end

end Param

end ScriptKit
