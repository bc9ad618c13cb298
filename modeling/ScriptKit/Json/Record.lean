import ScriptKit.Json.Reader.Value

namespace ScriptKit.Json

namespace Reader

variable {α : Type}

/-- Goes one level deeper, if the brackets that come next may still be opened. -/
def deeper (depth : Nat) (inside : Nat → Reader α) : Reader α :=
  match depth with
  | 0 => failNext .tooDeep
  | depth + 1 => inside depth

/-- Reads a string; anything else is not what was expected. -/
def stringOr (expected : String) : Reader String := do
  let c ← valueStart
  if c = '"' then do advance; stringRest else wrongType expected

def nullOr (expected : String) : Reader Unit := do
  let c ← valueStart
  if c = 'n' then letters "null".toList else wrongType expected

/-- Reads a list of what `item` reads. -/
def list (item : Nat → Reader α) (depth : Nat) : Reader (List α) := do
  let c ← valueStart
  if c = '[' then
    deeper depth fun depth =>
      enclosed closeArray do
        advance
        let items ← foldItems (fun items => do pure ((← item depth) :: items)) []
        pure items.reverse
  else wrongType "a sequence"

end Reader

/-- A number from 0 to 255. -/
def byte : Json → Except Fault UInt8
  | int value =>
    if 0 ≤ value ∧ value < 256 then .ok (UInt8.ofNat value.toNat)
    else .error ⟨.wrongValue (int value) "u8", none⟩
  | other => .error ⟨.wrongType other "u8", none⟩

def Reader.byte : Reader UInt8 := do
  let c ← valueStart
  if c = '-' || c.isDigit then
    located do
      if c = '-' then advance
      match (← number (c = '-')).byte with
      | .ok value => pure value
      | .error fault => throw fault
  else wrongType "u8"

/-- A part of a record. Reading it gives a change to the record read so far. -/
structure Field (σ : Type) where
  name : String
  isSet : σ → Bool
  read : Nat → Reader (σ → σ)

structure Record (σ α : Type) where
  /-- How the record is called in complaints. -/
  name : String
  empty : σ
  fields : List (Field σ)
  /-- The whole record, or the index of the first field that is missing. -/
  finish : σ → Except Nat α

namespace Record

variable {σ α : Type}

/-- How an array of all fields is called in complaints. -/
def elements (name : String) (count : Nat) : String := s!"{name} with {count} elements"

def readItems (depth : Nat) : Bool → List (Field σ) → σ → Reader σ
  | _, [], state => pure state
  | isFirst, field :: rest, state => do
    if ← Reader.hasItem isFirst then
      let change ← field.read depth
      readItems depth false rest (change state)
    else pure state

def readField (record : Record σ α) (depth : Nat) (name : String) (state : σ) : Reader σ := do
  match record.fields.find? (·.name == name) with
  | none => do
    Reader.colon
    Reader.skip
    pure state
  | some field =>
    if field.isSet state then throw ⟨.duplicateField name, none⟩
    else do
      Reader.colon
      let change ← field.read depth
      pure (change state)

/-- A record is an object, whose unknown fields are passed over, or an array of its fields in their
order. -/
def read (record : Record σ α) (depth : Nat) : Reader α := do
  let c ← Reader.valueStart
  if c = '[' then
    Reader.deeper depth fun depth =>
      Reader.enclosed Reader.closeArray do
        Reader.advance
        let state ← readItems depth true record.fields record.empty
        match record.finish state with
        | .ok whole => pure whole
        | .error index =>
          throw ⟨.wrongLength index (elements record.name record.fields.length), none⟩
  else if c = '\x7b' then
    Reader.deeper depth fun depth =>
      Reader.enclosed Reader.closeObject do
        Reader.advance
        let state ← Reader.foldFields (record.readField depth) record.empty
        match record.finish state with
        | .ok whole => pure whole
        | .error index =>
          throw ⟨.missingField ((record.fields[index]?.map Field.name).getD ""), none⟩
  else Reader.wrongType record.name

end Record

end ScriptKit.Json
