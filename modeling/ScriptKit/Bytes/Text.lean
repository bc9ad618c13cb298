import ScriptKit.Fault
import ScriptKit.Text.Blank
import ScriptKit.Text.Utf8

namespace ScriptKit.Bytes

def stripMark : List Char → List Char
  | '0' :: 'x' :: rest => rest
  | '0' :: 'X' :: rest => rest
  | text => text

/-- The bytes that users write: in hexadecimal, with blanks around it and `0x` before it if they
like. -/
def ofText (text : String) : Except Fault Bytes :=
  match Hex.decode (Utf8.encodeChars (stripMark (Text.trim text.toList))) with
  | .ok bytes => .ok bytes
  | .error problem => .error (.badHex problem)

def toText (bytes : Bytes) : String := String.ofList (Hex.encode bytes)

end ScriptKit.Bytes
