import ScriptKit.Json.Reader.Scalar

namespace ScriptKit.Json

namespace Reader

variable {α σ : Type}

/-- Reads a value other than an array or object, which `c` must be the first character of. -/
def scalar? (c : Char) : Option (Reader Json) :=
  if c = 'n' then some do letters "null".toList; pure .null
  else if c = 't' then some do letters "true".toList; pure (.bool true)
  else if c = 'f' then some do letters "false".toList; pure (.bool false)
  else if c = '"' then some do advance; .string <$> stringRest
  else if c = '-' then some do advance; number true
  else if c.isDigit then some (number false)
  else none

/-- Complains of the value that comes next. Of an array or object it is enough to see the bracket;
another value is read to its end. -/
def wrongType (expected : String) : Reader α := do
  match ← peek? with
  | some '[' => fail (.wrongType (.array []) expected)
  | some '\x7b' => fail (.wrongType (.object []) expected)
  | some c =>
    match scalar? c with
    | some read => do fail (.wrongType (← read) expected)
    | none => failNext .noValue
  | none => fail (.endInside .value)

/-- The first character of a value, behind blanks. -/
def valueStart : Reader Char := do
  blanks
  match ← peek? with
  | some c => pure c
  | none => fail (.endInside .value)

/-- Whether another item follows in an array; the comma before it is read. -/
def hasItem (isFirst : Bool) : Reader Bool := do
  blanks
  match ← peek? with
  | none => fail (.endInside .list)
  | some ']' => pure false
  | some c =>
    if isFirst then pure true
    else if c = ',' then do
      advance
      let next ← valueStart
      if next = ']' then failNext .trailingComma else pure true
    else failNext .noItemEnd

def closeArray : Reader Unit := do
  blanks
  match ← peek? with
  | none => fail (.endInside .list)
  | some ']' => advance
  | some ',' => do
    advance
    blanks
    failNext (if (← peek?) = some ']' then .trailingComma else .trailingText)
  | some _ => failNext .trailingText

/-- Whether another field follows in an object; the comma before it is read. -/
def hasField (isFirst : Bool) : Reader Bool := do
  blanks
  match ← peek? with
  | none => fail (.endInside .object)
  | some '\x7d' => pure false
  | some c =>
    if isFirst then if c = '"' then pure true else failNext .keyNotString
    else if c = ',' then do
      advance
      let next ← valueStart
      if next = '"' then pure true
      else if next = '\x7d' then failNext .trailingComma
      else failNext .keyNotString
    else failNext .noFieldEnd

def closeObject : Reader Unit := do
  blanks
  match ← peek? with
  | none => fail (.endInside .object)
  | some '\x7d' => advance
  | some c => failNext (if c = ',' then .trailingComma else .trailingText)

def colon : Reader Unit := do
  blanks
  match ← peek? with
  | none => fail (.endInside .object)
  | some ':' => advance
  | some _ => failNext .noColon

/-- Reads the items of an array one after another, up to its closing bracket. -/
def foldItems (item : σ → Reader σ) (state : σ) : Reader σ :=
  loop (fun (isFirst, state) => do
    if ← hasItem isFirst then
      let state ← item state
      pure (.inl (false, state))
    else pure (.inr state)) (true, state)

/-- Reads the fields of an object one after another, up to its closing brace. What follows a name
is left to `field`, the colon included. -/
def foldFields (field : String → σ → Reader σ) (state : σ) : Reader σ :=
  loop (fun (isFirst, state) => do
    if ← hasField isFirst then
      advance
      let name ← stringRest
      let state ← field name state
      pure (.inl (false, state))
    else pure (.inr state)) (true, state)

/-- How deep arrays and objects may lie in each other. -/
def maxDepth : Nat := 127

/-- Reads a value with so many levels of arrays and objects at most. -/
def value : Nat → Reader Json
  | 0 => do
    let c ← valueStart
    match scalar? c with
    | some read => read
    | none => failNext (if c = '[' || c = '\x7b' then .tooDeep else .noValue)
  | depth + 1 => do
    let c ← valueStart
    match scalar? c with
    | some read => read
    | none =>
      if c = '[' then
        enclosed closeArray do
          advance
          let items ← foldItems (fun items => do pure ((← value depth) :: items)) []
          pure (.array items.reverse)
      else if c = '\x7b' then
        enclosed closeObject do
          advance
          let fields ← foldFields (fun name fields => do
            colon
            pure (insertField name (← value depth) fields)) []
          pure (.object fields)
      else failNext .noValue

/-- The brackets of an array or object. -/
inductive Bracket where
  | square
  | curly
deriving DecidableEq

namespace Bracket

def close : Bracket → Char
  | square => ']'
  | curly => '\x7d'

def part : Bracket → Part
  | square => .list
  | curly => .object

def noEnd : Bracket → Problem
  | square => .noItemEnd
  | curly => .noFieldEnd

end Bracket

/-- Passes over a field name and its colon. -/
def skipName : Reader Unit := do
  blanks
  match ← peek? with
  | none => fail (.endInside .object)
  | some '"' => do advance; skipString; colon
  | some _ => failNext .keyNotString

/-- Goes on in the brackets that are open, the innermost first, up to the next value. There is none
once all are closed. -/
def resume (afterItem : Bool) : List Bracket → Reader (List Bracket ⊕ Unit)
  | [] => pure (.inr ())
  | bracket :: outer => do
    blanks
    match ← peek? with
    | none => fail (.endInside bracket.part)
    | some c =>
      if c = bracket.close then do advance; resume true outer
      else if afterItem && c != ',' then failNext bracket.noEnd
      else do
        if afterItem then advance
        if bracket = .curly then skipName
        pure (.inl (bracket :: outer))

def skipScalar? (c : Char) : Option (Reader Unit) :=
  if c = '"' then some do advance; skipString
  else if c = '-' then some do advance; skipNumber
  else if c.isDigit then some skipNumber
  else (scalar? c).map fun read => do let _ ← read

/-- Passes over a value of any depth, with numbers of any size. -/
def skip : Reader Unit :=
  loop (fun brackets => do
    let c ← valueStart
    match skipScalar? c with
    | some read => do read; resume true brackets
    | none =>
      if c = '[' then do advance; resume false (.square :: brackets)
      else if c = '\x7b' then do advance; resume false (.curly :: brackets)
      else failNext .noValue) []

/-- What a reader makes of a whole text. -/
def ofText (reader : Reader α) (text : String) : Except Fault α :=
  let whole := do
    let result ← reader
    blanks
    match ← peek? with
    | none => pure result
    | some _ => failNext .trailingText
  (ExceptT.run whole ⟨text.toList, .start⟩).1

end Reader

def ofText (text : String) : Except Fault Json := (Reader.value Reader.maxDepth).ofText text

end ScriptKit.Json
