namespace ScriptKit.Numeral

/-- Why a text is no numeral. -/
inductive Problem where
  | empty
  | badDigit
deriving DecidableEq, Repr

def Problem.message : Problem → String
  | empty => "cannot parse integer from empty string"
  | badDigit => "invalid digit found in string"

/-- The value of a digit below the radix; letters of either case follow the nine. -/
def digit? (radix : Nat) (c : Char) : Option Nat :=
  let code := c.toNat
  let value :=
    if 48 ≤ code ∧ code ≤ 57 then code - 48
    else if 65 ≤ code ∧ code ≤ 90 then code - 55
    else if 97 ≤ code ∧ code ≤ 122 then code - 87
    else radix
  if value < radix then some value else none

/-- Underscores between the digits are skipped. -/
def digits (radix value : Nat) : List Char → Except Problem Nat
  | [] => .ok value
  | c :: rest =>
    if c = '_' then digits radix value rest
    else match digit? radix c with
      | some digit => digits radix (radix * value + digit) rest
      | none => .error .badDigit

/-- A number without a sign. The first character must be a digit. -/
def unsigned (radix : Nat) : List Char → Except Problem Nat
  | [] => .error .empty
  | c :: rest => if c = '_' then .error .badDigit else digits radix 0 (c :: rest)

def natural (radix : Nat) : List Char → Except Problem Nat
  | '+' :: '+' :: _ => .error .badDigit
  | '+' :: rest => unsigned radix rest
  | text => unsigned radix text

def integer (radix : Nat) : List Char → Except Problem Int
  | '-' :: '+' :: _ => .error .badDigit
  | '-' :: rest => (natural radix rest).map fun value => -(value : Int)
  | text => (natural radix text).map fun value => (value : Int)

end ScriptKit.Numeral
