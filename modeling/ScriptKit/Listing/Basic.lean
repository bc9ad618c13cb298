import ScriptKit.Bytes.Hex
import ScriptKit.Text.Numeral
import ScriptKit.Text.Quoted

namespace ScriptKit.Listing

/-- A range of bytes of the text. -/
structure Span where
  start : Nat
  stop : Nat
deriving DecidableEq, Repr

namespace Span

/-- The least range that covers both. -/
def hull (a b : Span) : Span := ⟨min a.start b.start, max a.stop b.stop⟩

end Span

/-- The value of an argument. -/
inductive Literal where
  | number (value : Int)
  | bytes (value : Bytes)
  | text (value : String)
  | service (name : String)
  /-- Stands for an argument that could not be read. -/
  | unreadable
deriving DecidableEq

structure Argument where
  span : Span
  value : Literal
deriving DecidableEq

/-- A mnemonic with its arguments, on lines of its own. -/
structure Statement where
  span : Span
  mnemonicSpan : Span
  mnemonic : String
  args : List Argument
deriving DecidableEq

/-- Stands for a mnemonic with a character that no mnemonic has. -/
def unreadableMnemonic : String := "#INVALID#"

/-- A fault in the text of a listing. -/
inductive SyntaxError where
  | unexpected (span : Span) (found : Option Char)
  | badNumber (span : Span) (problem : Numeral.Problem)
  | badBytes (span : Span) (problem : Hex.Problem)
  | badEscape (span : Span) (found : Char)
deriving DecidableEq

namespace SyntaxError

def span : SyntaxError → Span
  | unexpected span _ | badNumber span _ | badBytes span _ | badEscape span _ => span

def message : SyntaxError → String
  | unexpected _ none => "unexpected character found: None"
  | unexpected _ (some c) => s!"unexpected character found: Some({Text.quoteChar c})"
  | badNumber _ problem => s!"invalid int: {problem.message}"
  | badBytes _ problem => s!"invalid bytes: {problem.message}"
  | badEscape _ c => s!"unknown escape sequence: \\{c}"

end SyntaxError

end ScriptKit.Listing
