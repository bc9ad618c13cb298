import ScriptKit.Bytes.Hex

namespace ScriptKit.Utf8

def encode (text : String) : Bytes := text.toUTF8.data.toList

def encodeChars (text : List Char) : Bytes := text.flatMap String.utf8EncodeChar

def decode? (bytes : Bytes) : Option String := String.fromUTF8? ⟨bytes.toArray⟩

/-- The number of bytes that a text takes. -/
def size (text : List Char) : Nat := text.foldl (fun total c => total + c.utf8Size) 0

/-- Splits a text behind the characters that fit into so many bytes. -/
def splitAt (bytes : Nat) : List Char → List Char × List Char
  | [] => ([], [])
  | c :: rest =>
    if c.utf8Size ≤ bytes then
      let (first, last) := splitAt (bytes - c.utf8Size) rest
      (c :: first, last)
    else ([], c :: rest)

end ScriptKit.Utf8
