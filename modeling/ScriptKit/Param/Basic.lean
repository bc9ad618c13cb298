import ScriptKit.Bytes.Fixed
import ScriptKit.Text.Numeral

namespace ScriptKit

inductive Param where
  /-- No value; a text that came with it is kept but never pushed. -/
  | any (text : Option String)
  | boolean (value : Bool)
  | integer (value : Int)
  | byteArray (bytes : Bytes)
  | string (text : String)
  | hash160 (hash : UInt160)
  | hash256 (hash : UInt256)
  | publicKey (key : PublicKey)
  | array (items : List Param)
  | void
deriving Inhabited

namespace Param

def type : Param → ParamType
  | any _ => .any
  | boolean _ => .boolean
  | integer _ => .integer
  | byteArray _ => .byteArray
  | string _ => .string
  | hash160 _ => .hash160
  | hash256 _ => .hash256
  | publicKey _ => .publicKey
  | array _ => .array
  | void => .void

def items? : Param → Option (List Param)
  | array items => some items
  | _ => none

mutual

/-- The parameter as people read it. -/
def render : Param → String
  | any none | void => "null"
  | any (some text) | string text => Text.quote text
  | boolean value => toString value
  | integer value => toString value
  | byteArray bytes => "x\x7b" ++ Bytes.toText bytes ++ "\x7d"
  | hash160 hash => "0x" ++ hash.toText
  | hash256 hash => "0x" ++ hash.toText
  | publicKey key => key.toText
  | array items => "[" ++ renderItems items ++ "]"

def renderItems : List Param → String
  | [] => ""
  | [item] => item.render
  | item :: rest => item.render ++ ", " ++ renderItems rest

end

/-- The digits before the point of a decimal, if only digits stand behind it. -/
def wholeDigits? (text : List Char) : Option (List Char) :=
  match text.dropWhile (· != '.') with
  | [] => some text
  | _ :: fraction =>
    if fraction.all Char.isDigit then some (text.takeWhile (· != '.')) else none

/-- Reads a decimal integer. A fractional part is dropped. -/
def parseInt (text : String) : Except Fault Int :=
  let text := Text.trim text.toList
  let refused := Except.error (Fault.badInteger (String.ofList text))
  match wholeDigits? text with
  | none | some [] | some ['-'] => refused
  | some digits =>
    let digits := match digits with
      | '+' :: rest => rest
      | digits => digits
    match Numeral.integer 10 digits with
    | .ok value => .ok value
    | .error _ => refused

end Param

end ScriptKit
