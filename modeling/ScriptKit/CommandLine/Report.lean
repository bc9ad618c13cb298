import ScriptKit.Listing.Assemble
import ScriptKit.Text.Columns
import ScriptKit.Text.Position

namespace ScriptKit.CommandLine

open Listing (Diagnostic Parsed Span SyntaxError)

def spaces (count : Nat) : String := String.ofList (List.replicate count ' ')

/-- The line that holds a place, without blanks at its end. -/
def lineAt (text : List Char) (place : Text.Position) : List Char :=
  let (_, rest) := Utf8.splitAt place.lineStart text
  Text.trimEnd (Utf8.splitAt (place.lineEnd - place.lineStart) rest).1

/-- The bytes of a line that are marked. They end with the line if the second place stands in
another one. -/
def markRange (line : List Char) (start stop : Text.Position) : Nat × Nat :=
  let size := Utf8.size line
  let first := min start.column size
  (first, min (max (if stop.line = start.line then stop.column else size) first) size)

/-- Shows a fault. What is marked starts and ends within one line; at least one column is marked. -/
def showFault (path : String) (text : List Char) (origin message : String)
    (start stop : Text.Position) : String :=
  let number := toString (start.line + 1)
  let margin := spaces number.length
  let line := lineAt text start
  let (first, last) := markRange line start stop
  let (before, rest) := Utf8.splitAt first line
  let (marked, _) := Utf8.splitAt (last - first) rest
  let carets := String.ofList (List.replicate (max (Text.columns marked) 1) '^')
  s!"error[{origin}]: {message}\n"
    ++ s!"{margin}--> {path}:{start.line + 1}:{start.column + 1}\n"
    ++ s!"{margin} |\n"
    ++ s!"{number} | {String.ofList line}\n"
    ++ s!"{margin} | {spaces (Text.columns before)}{carets}\n"
    ++ s!"{margin} |"

/-- Shows a fault with an empty line behind it, if its place lies in the text. -/
def showAt (path : String) (text : List Char) (origin message : String) (span : Span) : String :=
  match Text.Position.at? text span.start, Text.Position.at? text span.stop with
  | some start, some stop => showFault path text origin message start stop ++ "\n\n"
  | _, _ => ""

def showSyntaxError (path : String) (text : List Char) (e : SyntaxError) : String :=
  showAt path text "parser" e.message e.span

/-- Shows what is wrong with a statement. Faults that were reported before are left out. -/
def showDiagnostic (path : String) (text : List Char) (d : Diagnostic) : String :=
  let argFaults := match d with
    | .both first second => [first, second]
    | .argument fault => [fault]
    | _ => []
  match argFaults with
  | [] => showAt path text "asm" d.message d.span
  | faults =>
    String.join ((faults.filter fun fault => !fault.isKnown).map fun fault =>
      showAt path text "asm" fault.message fault.span)

/-- Shows all faults of a listing. -/
def showFaults (path : String) (text : List Char) (parsed : Parsed) : String :=
  String.join (parsed.errors.map (showSyntaxError path text))
    ++ String.join (parsed.check.map (showDiagnostic path text))

end ScriptKit.CommandLine
