import ScriptKit.Text.Blank
import ScriptKit.Text.Hidden

namespace ScriptKit.Text

def isHidden (c : Char) : Bool :=
  if 0x20 ≤ c.toNat ∧ c.toNat ≤ 0x7e then false else inRanges hiddenRanges c.toNat

/-- The letter that stands for a character behind a backslash. -/
def escapeLetter? (quote c : Char) : Option Char :=
  if c == '\x00' then some '0'
  else if c == '\t' then some 't'
  else if c == '\r' then some 'r'
  else if c == '\n' then some 'n'
  else if c == quote || c == '\\' then some c
  else none

def hexDigits (value : Nat) : List Char := Nat.toDigits 16 value

/-- The quote and the backslash stand behind a backslash, the commonest controls have a letter, and
any other character that cannot be seen is written by its code point. -/
def escape (quote c : Char) : List Char :=
  match escapeLetter? quote c with
  | some letter => ['\\', letter]
  | none =>
    if isHidden c then ['\\', 'u', '\x7b'] ++ hexDigits c.toNat ++ ['\x7d'] else [c]

def quoteWith (quote : Char) (text : List Char) : String :=
  String.ofList (quote :: text.flatMap (escape quote) ++ [quote])

def quoteChar (c : Char) : String := quoteWith '\'' [c]

def quote (text : String) : String := quoteWith '"' text.toList

end ScriptKit.Text
