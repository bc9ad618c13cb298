import ScriptKit.Text.Utf8

namespace ScriptKit.Text

/-- A line and a place in it, all counted in bytes. A line ends with its newline. -/
structure Position where
  /-- The number of lines before. -/
  line : Nat
  /-- The number of bytes before in the line. -/
  column : Nat
  lineStart : Nat
  lineEnd : Nat
deriving DecidableEq, Repr

/-- The offsets right behind the newlines of a text that starts at an offset. -/
def newlinesFrom (offset : Nat) : List Char → List Nat
  | [] => []
  | c :: rest =>
    let next := offset + c.utf8Size
    if c = '\n' then next :: newlinesFrom next rest else newlinesFrom next rest

/-- The offsets at which the lines start. -/
def lineStarts (text : List Char) : List Nat := 0 :: newlinesFrom 0 text

namespace Position

/-- The place of a byte, or of the end of the text. -/
def at? (text : List Char) (index : Nat) : Option Position :=
  if index ≤ Utf8.size text then
    let starts := lineStarts text
    let passed := starts.takeWhile (· ≤ index)
    let lineStart := passed.getLast?.getD 0
    some {
      line := passed.length - 1
      column := index - lineStart
      lineStart
      lineEnd := (starts[passed.length]?).getD (Utf8.size text) }
  else none

end Position

end ScriptKit.Text
