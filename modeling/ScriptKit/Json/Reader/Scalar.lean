import ScriptKit.Json.Reader.Basic

namespace ScriptKit.Json.Reader

variable {α : Type}

/-- Reads the letters of a word. -/
def letters : List Char → Reader Unit
  | [] => pure ()
  | letter :: rest => do
    match ← peek? with
    | none => fail (.endInside .value)
    | some c => if c = letter then do advance; letters rest else failNext .noKnownWord

def hexValue? (c : Char) : Option Nat :=
  if '0' ≤ c && c ≤ '9' then some (c.toNat - 48)
  else if 'a' ≤ c && c ≤ 'f' then some (c.toNat - 87)
  else if 'A' ≤ c && c ≤ 'F' then some (c.toNat - 55)
  else none

/-- Reads the four digits of a code unit. -/
def codeUnit : Reader Nat := do
  let cursor ← get
  if (cursor.rest.foldl (fun size c => size + c.utf8Size) 0) < 4 then
    failAfter 4 (.endInside .string)
  else
    match (cursor.rest.take 4).mapM hexValue? with
    | none => failAfter 4 .badEscape
    | some digits => do
      advance; advance; advance; advance
      pure (digits.foldl (fun value digit => 16 * value + digit) 0)

def isHighSurrogate (unit : Nat) : Bool := 0xD800 ≤ unit && unit ≤ 0xDBFF

def isLowSurrogate (unit : Nat) : Bool := 0xDC00 ≤ unit && unit ≤ 0xDFFF

/-- Reads a character that must follow a high surrogate. -/
def pairMark (mark : Char) : Reader Unit := do
  match ← peek? with
  | none => fail (.endInside .string)
  | some c => if c = mark then advance else failNext .noEscapeEnd

/-- The character behind the mark of a code unit. Two surrogates stand for one character. -/
def unitEscape : Reader Char := do
  let high ← codeUnit
  if isLowSurrogate high then fail .loneSurrogate
  else if isHighSurrogate high then do
    pairMark '\\'
    pairMark 'u'
    let low ← codeUnit
    if isLowSurrogate low then
      pure (Char.ofNat (0x10000 + 0x400 * (high - 0xD800) + (low - 0xDC00)))
    else fail .loneSurrogate
  else pure (Char.ofNat high)

/-- The character that a letter behind a backslash stands for. -/
def unescape? : Char → Option Char
  | '"' => some '"'
  | '\\' => some '\\'
  | '/' => some '/'
  | 'b' => some '\x08'
  | 'f' => some '\x0c'
  | 'n' => some '\n'
  | 'r' => some '\r'
  | 't' => some '\t'
  | _ => none

/-- The character behind a backslash; `unit` reads it behind the mark of a code unit. -/
def escape (unit : Reader Char) : Reader Char := do
  match ← peek? with
  | none => fail (.endInside .string)
  | some 'u' => do advance; unit
  | some c =>
    match unescape? c with
    | some value => do advance; pure value
    | none => failNext .badEscape

/-- The rest of a string behind its opening quote. -/
def stringRest : Reader String :=
  loop (fun (done : List Char) => do
    match ← peek? with
    | none => fail (.endInside .string)
    | some '"' => do advance; pure (.inr (String.ofList done.reverse))
    | some '\\' => do advance; let c ← escape unitEscape; pure (.inl (c :: done))
    | some c =>
      if c.toNat < 0x20 then failNext .control
      else do advance; pure (.inl (c :: done))) []

/-- Passes over the rest of a string, whatever its code units say. -/
def skipString : Reader Unit :=
  loop (fun () => do
    match ← peek? with
    | none => fail (.endInside .string)
    | some '"' => do advance; pure (.inr ())
    | some '\\' => do
      advance
      let _ ← escape (do let _ ← codeUnit; pure ' ')
      pure (.inl ())
    | some c => if c.toNat < 0x20 then fail .control else do advance; pure (.inl ())) ()

/-- Adds digits to a number while it stays below a limit, and counts those added. -/
def accumulate (limit value : Nat) : List Char → Nat × Nat
  | [] => (value, 0)
  | c :: rest =>
    let next := 10 * value + (c.toNat - 48)
    if next < limit then
      let (value, used) := accumulate limit next rest
      (value, used + 1)
    else (value, 0)

/-- Where a digit is missing. -/
def noDigit : Reader α := do
  match ← peek? with
  | none => fail (.endInside .value)
  | some _ => failNext .badNumber

/-- The digits before the point: a zero alone, or digits that start with another one. -/
def wholePart : Reader (List Char) := do
  match ← peek? with
  | some '0' => do
    advance
    match ← peek? with
    | some c => if c.isDigit then failNext .badNumber else pure ['0']
    | none => pure ['0']
  | _ =>
    match ← readWhile Char.isDigit with
    | [] => noDigit
    | digits => pure digits

/-- The digits behind the point. -/
def fractionPart : Reader (List Char) := do
  match ← peek? with
  | some '.' => do
    advance
    match ← readWhile Char.isDigit with
    | [] => noDigit
    | digits => pure digits
  | _ => pure []

def isExponentMark (c : Char) : Bool := c == 'e' || c == 'E'

/-- Reads the mark of an exponent and its sign, and tells whether that is a minus. -/
def exponentSign : Reader Bool := do
  advance
  match ← peek? with
  | some '+' => do advance; pure false
  | some '-' => do advance; pure true
  | _ => pure false

/-- An exponent, if there is a mark of one. An exponent beyond 31 bits makes the number zero, which
is told by `none`, or puts it out of range at the digit that exceeds them. -/
def exponentPart (isZero : Bool) : Reader (Option Int) := do
  let isNegative ← exponentSign
  let start := (← get).position
  match ← readWhile Char.isDigit with
  | [] => noDigit
  | digits =>
    let (value, used) := accumulate (UInt32.size / 2) 0 digits
    if used = digits.length then pure (some (if isNegative then -(value : Int) else value))
    else if isZero || isNegative then pure none
    else throw ⟨.numberRange, some { start with column := start.column + used + 1 }⟩

def powerOfTen (exponent : Nat) : Float := Float.ofScientific 1 false exponent

/-- Scales a float by a power of ten, in steps that a float can hold; nothing if that exceeds the
range of floats. -/
def scale? (value : Float) (exponent : Int) : Option Float :=
  if 0 ≤ exponent then
    let result := value * powerOfTen exponent.toNat
    if value == 0 then some value
    else if exponent ≤ 308 && !result.isInf then some result
    else none
  else if value == 0 then some value
  else if -308 ≤ exponent then some (value / powerOfTen (-exponent).toNat)
  else scale? (value / powerOfTen 308) (exponent + 308)
termination_by exponent.natAbs
decreasing_by omega

/-- A number behind its sign. Digits that 64 bits do not hold are dropped; those before the point
leave their power of ten. -/
def number (isNegative : Bool) : Reader Json := do
  let whole ← wholePart
  let fraction ← fractionPart
  let (significand, used) := accumulate UInt64.size 0 whole
  let dropped := whole.length - used
  let (significand, placed) := accumulate UInt64.size significand fraction
  let hasExponent := ((← peek?).map isExponentMark).getD false
  if !hasExponent && fraction.isEmpty && dropped = 0 &&
      !(isNegative && (significand = 0 || UInt64.size / 2 < significand)) then
    pure (.int (if isNegative then -(significand : Int) else significand))
  else do
    let exponent? ← if hasExponent then exponentPart (significand = 0) else pure (some 0)
    let result := match exponent? with
      | none => some 0
      | some exponent =>
        scale? (UInt64.ofNat significand).toFloat (exponent + dropped - placed)
    match result with
    | some value => pure (.float (if isNegative then -value else value))
    | none => fail .numberRange

/-- Passes over a number behind its sign, whatever its size. -/
def skipNumber : Reader Unit := do
  let _ ← orBadNumber wholePart
  let _ ← orBadNumber fractionPart
  if ((← peek?).map isExponentMark).getD false then
    let _ ← exponentSign
    let _ ← orBadNumber do
      match ← readWhile Char.isDigit with
      | [] => noDigit
      | digits => pure digits
where
  /-- Here a number that the text ends in is as bad as any other. -/
  orBadNumber (part : Reader (List Char)) : Reader (List Char) :=
    tryCatch part fun fault => throw { fault with problem := .badNumber }

end ScriptKit.Json.Reader
