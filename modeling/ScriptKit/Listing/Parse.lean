import ScriptKit.Listing.Scan

namespace ScriptKit.Listing

open Listing.Parser Text

/-- Blanks, at least one. -/
def blanks : Parser Unit := do
  let _ ← run1 unexpectedNonBlank isBlank
  pure ()

def comment : Parser Unit := do
  symbol ['/', '/']
  let _ ← run unexpectedLineEnd fun c => !isLineEnd c
  pure ()

/-- Blanks and comments between the parts of a listing. -/
def trivia : Parser Unit := do
  let _ ← many (orElse comment blanks)
  pure ()

/-- The characters that may follow each other in a number. -/
def isNumberChar (c : Char) : Bool := !isBlank c && !(",/\x7b\x7d".toList.contains c)

/-- The value of the digits of a number; zeros in front do not count. -/
def numberValue (radix : Nat) (span : Span) (digits : List Char) : Except SyntaxError Int :=
  let digits := match digits.dropWhile (· == '0') with
    | [] => ['0']
    | digits => digits
  match Numeral.integer radix digits with
  | .ok value => .ok value
  | .error problem => .error (.badNumber span problem)

/-- A number behind the mark of its radix. -/
def markedNumber (mark : List Char) (radix : Nat) : Parser Int :=
  judge (do symbol mark; run1 unexpectedKind isNumberChar) (numberValue radix)

def decimalNumber : Parser Int := do
  ahead (char unexpectedKind Char.isDigit)
  judge (run1 unexpectedKind isNumberChar) (numberValue 10)

def unsignedNumber : Parser Int :=
  orElse (markedNumber ['0', 'x'] 16) (orElse (markedNumber ['0', 'b'] 2) decimalNumber)

def negativeNumber : Parser Int := do
  symbol ['-']
  let value ← unsignedNumber
  pure (-value)

/-- What must follow a number. -/
def numberEnd : Parser Unit :=
  orElse endOfText (orElse blanks (do let _ ← char unexpectedHere (",/".toList.contains ·)))

def number : Parser Int := do
  let value ← orElse negativeNumber unsignedNumber
  ahead numberEnd
  pure value

def isHexChar (c : Char) : Bool := c != '}' && !isBlank c

def hexValue (span : Span) (digits : List Char) : Except SyntaxError (Option Bytes) :=
  match Hex.decode (Utf8.encodeChars digits) with
  | .ok bytes => .ok (some bytes)
  | .error problem => .error (.badBytes span problem)

/-- The closing mark of a literal, and whether it was there; if not, `rest` reads what stands in
its place. -/
def closing (mark : Char) (rest : Parser Unit) : Parser Bool :=
  insteadRead (do symbol [mark]; pure true) (do rest; pure false)

/-- A byte string in hexadecimal. -/
def byteString : Parser Literal := do
  symbol ['x', '{']
  let bytes ← insteadRead (judge (run unexpectedKind isHexChar) hexValue)
    (do let _ ← run unexpectedKind isHexChar; pure none)
  let closed ← closing '}' (do
    let _ ← run unexpectedHere fun c => c != '}' && c != '\n'
    orElse (symbol ['}']) (pure ()))
  pure <| match bytes, closed with
    | some bytes, true => .bytes bytes
    | _, _ => .unreadable

/-- The character that a letter behind a backslash stands for. -/
def unescape? : Char → Option Char
  | '\\' => some '\\'
  | '"' => some '"'
  | 'n' => some '\n'
  | 't' => some '\t'
  | 'r' => some '\r'
  | '0' => some '\x00'
  | _ => none

def escapedChar : Parser Char := do
  symbol ['\\']
  judge (char unexpectedHere fun _ => true) fun span c =>
    match unescape? c with
    | some value => .ok value
    | none => .error (.badEscape span c)

def isPlainChar (c : Char) : Bool := c != '\\' && c != '"' && c != '\n'

def quotedText : Parser Literal := do
  symbol ['"']
  let text ← many (orElse (char unexpectedHere isPlainChar) escapedChar)
  let closed ← closing '"' (do let _ ← run unexpectedHere (· != '\n'))
  pure (if closed then .text (String.ofList text) else .unreadable)

def isServiceChar (c : Char) : Bool := c.isAlphanum || c == '_' || c == '.'

/-- The name of a service, which has a dot in it. -/
def serviceName : Parser Literal :=
  filter (do
      ahead (char unexpectedKind Char.isAlpha)
      let name ← run1 unexpectedKind isServiceChar
      pure (.service (String.ofList name)))
    fun
      | .service name => name.toList.contains '.'
      | _ => false

def literal : Parser Literal :=
  orElse (do let value ← number; pure (.number value))
    (orElse byteString (orElse quotedText serviceName))

def argument : Parser Argument := do
  let (value, span) ← spanned <| insteadRead literal do
    let _ ← run1 unexpectedKind fun c => !isBlank c && c != ',' && c != '/'
    pure .unreadable
  pure ⟨span, value⟩

/-- A comma between arguments, with the blanks and comments around it. -/
def comma : Parser Unit :=
  skipUntil (fun c => c == ',' || isLineEnd c) do
    trivia
    symbol [',']
    trivia

def arguments : Parser (List Argument) :=
  orElse
    (do
      let first ← argument
      let others ← many (do comma; argument)
      pure (first :: others))
    (pure [])

def isMnemonicChar (c : Char) : Bool := !isBlank c && !(",\"/\x7b\x7d".toList.contains c)

/-- The first character that no mnemonic has at its place: a mnemonic starts with a capital, and
capitals, digits and underscores follow. -/
def mnemonicFault? : List Char → Option Char
  | [] => none
  | c :: rest =>
    if c.isUpper then rest.find? fun c => !(c.isUpper || c.isDigit || c == '_')
    else some c

/-- A mnemonic. A misspelt one is reported at once and replaced. -/
def mnemonic : Parser String := fun s =>
  match run1 unexpectedKind isMnemonicChar s with
  | .done word s' =>
    match mnemonicFault? word with
    | none => .done (String.ofList word) s'
    | some c =>
      let error := SyntaxError.unexpected ⟨s.offset, s'.offset⟩ (some c)
      .done unreadableMnemonic { s' with errors := error :: s'.errors }
  | .stuck blame => .stuck blame

def statement : Parser Statement := do
  let (mnemonic, mnemonicSpan) ← spanned mnemonic
  let _ ← run unexpectedNonBlank fun c => c == ' ' || c == '\t'
  let args ← arguments
  let span := args.foldl (fun span arg => span.hull arg.span) mnemonicSpan
  pure { span, mnemonicSpan, mnemonic, args }

def statements : Parser (List Statement) := do
  trivia
  many <| skipUntil isLineEnd do
    let statement ← statement
    trivia
    pure statement

/-- A listing as read, and the faults found in it. There are no statements if reading stopped
before the end of the text. -/
structure Parsed where
  statements? : Option (List Statement)
  errors : List SyntaxError
deriving DecidableEq

/-- Reads a listing. The faults are in the order in which they were found; one that stops reading
is the last. -/
def parse (text : List Char) : Parsed :=
  match statements (State.ofText text) with
  | .done statements s =>
    match s.rest with
    | [] => ⟨some statements, s.errors.reverse⟩
    | _ =>
      let s := unexpectedHere s
      ⟨none, (s.report s.blame).errors.reverse⟩
  | .stuck _ => ⟨none, []⟩

end ScriptKit.Listing
