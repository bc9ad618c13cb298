import ScriptKit.Json.Basic
import ScriptKit.Json.Decimal
import ScriptKit.Text.Quoted

namespace ScriptKit.Json

/-- A place in a text: lines count from one, columns count the bytes passed in the line. -/
structure Position where
  line : Nat
  column : Nat
deriving DecidableEq, Repr

namespace Position

def start : Position := ⟨1, 0⟩

def next (position : Position) (c : Char) : Position :=
  if c = '\n' then ⟨position.line + 1, 0⟩
  else ⟨position.line, position.column + c.utf8Size⟩

/-- The place a number of bytes further on, or the end of the text. -/
def after (position : Position) : Nat → List Char → Position
  | 0, _ => position
  | _, [] => position
  | bytes, c :: rest =>
    if c.utf8Size ≤ bytes then (position.next c).after (bytes - c.utf8Size) rest
    else { position with column := position.column + bytes }

def suffix (position : Position) : String :=
  s!" at line {position.line} column {position.column}"

end Position

/-- What a text can end in the middle of. -/
inductive Part where
  | list
  | object
  | string
  | value
deriving DecidableEq, Repr

def Part.name : Part → String
  | list => "a list"
  | object => "an object"
  | string => "a string"
  | value => "a value"

inductive Problem where
  | endInside (part : Part)
  | noColon
  | noItemEnd
  | noFieldEnd
  | noKnownWord
  | noValue
  | badEscape
  | badNumber
  | numberRange
  | control
  | keyNotString
  | loneSurrogate
  | noEscapeEnd
  | trailingComma
  | trailingText
  | tooDeep
  /-- Of an array or object only the kind matters. -/
  | wrongType (found : Json) (expected : String)
  | wrongValue (found : Json) (expected : String)
  | wrongLength (length : Nat) (expected : String)
  | unknownName (name : String) (known : List String)
  | missingField (name : String)
  | duplicateField (name : String)
  /-- The value has the right shape but is refused for what it says. -/
  | refused (message : String)

/-- How a value is named in a complaint. -/
def describe : Json → String
  | null => "null"
  | bool value => s!"boolean `{value}`"
  | int value => s!"integer `{value}`"
  | float value => s!"floating point `{Decimal.render value}`"
  | string value => s!"string {Text.quote value}"
  | array _ => "sequence"
  | object _ => "map"

def Problem.message : Problem → String
  | endInside part => s!"EOF while parsing {part.name}"
  | noColon => "expected `:`"
  | noItemEnd => "expected `,` or `]`"
  | noFieldEnd => "expected `,` or `\x7d`"
  | noKnownWord => "expected ident"
  | noValue => "expected value"
  | badEscape => "invalid escape"
  | badNumber => "invalid number"
  | numberRange => "number out of range"
  | control => "control character (\\u0000-\\u001F) found while parsing a string"
  | keyNotString => "key must be a string"
  | loneSurrogate => "lone leading surrogate in hex escape"
  | noEscapeEnd => "unexpected end of hex escape"
  | trailingComma => "trailing comma"
  | trailingText => "trailing characters"
  | tooDeep => "recursion limit exceeded"
  | wrongType found expected => s!"invalid type: {found.describe}, expected {expected}"
  | wrongValue found expected => s!"invalid value: {found.describe}, expected {expected}"
  | wrongLength length expected => s!"invalid length {length}, expected {expected}"
  | unknownName name known =>
    let names := ", ".intercalate (known.map fun name => s!"`{name}`")
    s!"unknown variant `{name}`, expected one of {names}"
  | missingField name => s!"missing field `{name}`"
  | duplicateField name => s!"duplicate field `{name}`"
  | refused message => message

/-- A problem, and where in the text it was found if a text was read. -/
structure Fault where
  problem : Problem
  position? : Option Position := none

namespace Fault

def message (fault : Fault) : String :=
  fault.problem.message ++ (fault.position?.map Position.suffix).getD ""

/-- Gives a place to a fault that has none. -/
def locate (position : Position) (fault : Fault) : Fault :=
  { fault with position? := fault.position? <|> some position }

/-- The number that a run of digits spells, if 64 bits hold it. -/
def count? (digits : List Char) : Option Nat :=
  let value := digits.foldl (fun value c => 10 * value + (c.toNat - 48)) 0
  if digits.isEmpty ∨ UInt64.size ≤ value then none else some value

/-- A place at the end of a message, and the message before it. -/
def split? (message : List Char) : Option (List Char × Position) := do
  let text := message.reverse
  let column ← count? (text.takeWhile Char.isDigit).reverse
  let text ← " column ".toList.reverse.isPrefixOf? (text.dropWhile Char.isDigit)
  let line ← count? (text.takeWhile Char.isDigit).reverse
  let text ← " at line ".toList.reverse.isPrefixOf? (text.dropWhile Char.isDigit)
  pure (text.reverse, ⟨line, column⟩)

/-- A refusal. A message that ends in a place says where the fault is; there is no line zero. -/
def refuse (message : String) : Fault :=
  match split? message.toList with
  | some (head, position) =>
    ⟨.refused (String.ofList head), if position.line = 0 then none else some position⟩
  | none => ⟨.refused message, none⟩

end Fault

end ScriptKit.Json
