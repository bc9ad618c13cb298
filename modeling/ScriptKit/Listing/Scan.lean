import ScriptKit.Listing.Basic
import ScriptKit.Text.Blank
import ScriptKit.Text.Utf8

namespace ScriptKit.Listing

/-- The fault to report if nothing fits, and the place where it was found. -/
structure Blame where
  place : Nat
  error : SyntaxError

/-- How far a text is read. -/
structure State where
  /-- The text still to be read. -/
  rest : List Char
  /-- The number of bytes read. -/
  offset : Nat
  blame : Option Blame
  /-- The faults reported so far, the newest first. -/
  errors : List SyntaxError

namespace State

def ofText (text : List Char) : State := ⟨text, 0, none, []⟩

/-- Keeps in mind a fault unless one as far to the right is known. -/
def mismatch (s : State) (place : Nat) (error : SyntaxError) : State :=
  match s.blame with
  | some blame => if blame.place < place then { s with blame := some ⟨place, error⟩ } else s
  | none => { s with blame := some ⟨place, error⟩ }

def report (s : State) (blame : Option Blame) : State :=
  match blame with
  | some blame => { s with errors := blame.error :: s.errors }
  | none => s

/-- The span of the next character, empty at the end of the text. -/
def nextSpan (s : State) : Span :=
  match s.rest with
  | [] => ⟨s.offset, s.offset⟩
  | c :: _ => ⟨s.offset, s.offset + c.utf8Size⟩

end State

/-- What an attempt to read comes to. -/
inductive Step (α : Type) where
  | done (value : α) (state : State)
  | stuck (blame : Option Blame)

/-- Where no alternative fits, the fault to report is the one found furthest to the right, and of
several at one place the first. A piece that has the right form but is refused for what it says
overrules this. Trying again elsewhere keeps the fault in mind and forgets all else. -/
def Parser (α : Type) : Type := State → Step α

namespace Parser

variable {α β : Type}

protected def pure (value : α) : Parser α := fun s => .done value s

protected def bind (p : Parser α) (f : α → Parser β) : Parser β := fun s =>
  match p s with
  | .done value s' => f value s'
  | .stuck blame => .stuck blame

instance : Monad Parser where
  pure := Parser.pure
  bind := Parser.bind

/-- Where the next character differs from every expected one. -/
def unexpectedHere (s : State) : State :=
  s.mismatch s.offset (.unexpected s.nextSpan s.rest.head?)

/-- Where the next character is not of the expected kind. It is passed over before it is judged,
so the place is behind it and it is not named. -/
def unexpectedKind (s : State) : State :=
  s.mismatch s.nextSpan.stop (.unexpected s.nextSpan none)

/-- Where a line ends, or the text. The first character of the line end is passed over. -/
def unexpectedLineEnd (s : State) : State :=
  match s.rest with
  | '\r' :: '\n' :: _ =>
    s.mismatch (s.offset + 1) (.unexpected ⟨s.offset, s.offset + 2⟩ (some '\r'))
  | _ => s.mismatch s.nextSpan.stop (.unexpected s.nextSpan s.rest.head?)

/-- Where the next character is no blank, which overrules what was known. -/
def unexpectedNonBlank (s : State) : State :=
  match s.rest with
  | [] => unexpectedHere s
  | c :: _ => { s with blame := some ⟨s.offset, .unexpected s.nextSpan (some c)⟩ }

/-- Reads one character of a class; `miss` notes why another one does not fit. -/
def char (miss : State → State) (p : Char → Bool) : Parser Char := fun s =>
  match s.rest with
  | c :: rest =>
    if p c then .done c { s with rest, offset := s.offset + c.utf8Size }
    else .stuck (miss s).blame
  | [] => .stuck (miss s).blame

/-- Reads the longest run of characters of a class. -/
def run (miss : State → State) (p : Char → Bool) : Parser (List Char) := fun s =>
  let word := s.rest.takeWhile p
  .done word (miss { s with rest := s.rest.dropWhile p, offset := s.offset + Utf8.size word })

/-- Reads the longest run of characters of a class, which may not be empty. -/
def run1 (miss : State → State) (p : Char → Bool) : Parser (List Char) := fun s =>
  match run miss p s with
  | .done [] s' => .stuck s'.blame
  | step => step

/-- Reads the given characters. -/
def symbol : List Char → Parser Unit
  | [] => pure ()
  | c :: rest => do
    let _ ← char unexpectedHere (· == c)
    symbol rest

def endOfText : Parser Unit := fun s =>
  match s.rest with
  | [] => .done () s
  | _ => .stuck (unexpectedHere s).blame

/-- Tries `q` where `p` does not fit. -/
def orElse (p q : Parser α) : Parser α := fun s =>
  match p s with
  | .stuck blame => q { s with blame }
  | step => step

/-- Reads nothing, but asks that `p` fits here. -/
def ahead (p : Parser α) : Parser Unit := fun s =>
  match p s with
  | .done _ s' => .done () { s with blame := s'.blame }
  | .stuck blame => .stuck blame

/-- Judges what `p` reads. A refusal is laid at the place where `p` began, and overrules what was
known. -/
def judge (p : Parser α) (f : Span → α → Except SyntaxError β) : Parser β := fun s =>
  match p s with
  | .done value s' =>
    match f ⟨s.offset, s'.offset⟩ value with
    | .ok result => .done result s'
    | .error error => .stuck (some ⟨s.offset, error⟩)
  | .stuck blame => .stuck blame

/-- Keeps what `p` reads if the test holds; otherwise the place to blame is behind it. -/
def filter (p : Parser α) (test : α → Bool) : Parser α := fun s =>
  match p s with
  | .done value s' =>
    if test value then .done value s'
    else .stuck (s'.mismatch s'.offset (.unexpected ⟨s.offset, s'.offset⟩ none)).blame
  | .stuck blame => .stuck blame

/-- What `p` reads, with the bytes it covers. -/
def spanned (p : Parser α) : Parser (α × Span) := fun s =>
  match p s with
  | .done value s' => .done (value, ⟨s.offset, s'.offset⟩) s'
  | .stuck blame => .stuck blame

/-- Reads `p` as often as it fits. A round reads at least one character, so the text still to be
read bounds the number of rounds. -/
def many (p : Parser α) : Parser (List α) := fun s => rounds [] s.rest s
where
  rounds (read : List α) (bound : List Char) (s : State) : Step (List α) :=
    match p s with
    | .stuck blame => .done read.reverse { s with blame }
    | .done value s' =>
      match bound with
      | [] => .done (value :: read).reverse s'
      | _ :: bound => rounds (value :: read) bound s'

/-- Where `p` does not fit, reports why and reads `q` in its stead. -/
def insteadRead (p q : Parser α) : Parser α := fun s =>
  match p s with
  | .stuck blame =>
    match q { s with blame := none } with
    | .done value s' => .done value (s'.report blame)
    | .stuck _ => .stuck blame
  | step => step

/-- Where `p` does not fit, looks for the next place where it does, without further faults; only
then is the first fault reported. The search ends where `barrier` holds. -/
def skipUntil (barrier : Char → Bool) (p : Parser α) : Parser α := fun s =>
  match p s with
  | .stuck blame => search blame s.rest s.offset s.errors
  | step => step
where
  search (blame : Option Blame) (rest : List Char) (offset : Nat) (errors : List SyntaxError) :
      Step α :=
    match rest with
    | [] => .stuck blame
    | c :: rest =>
      if barrier c then .stuck blame
      else
        let offset := offset + c.utf8Size
        match p ⟨rest, offset, none, []⟩ with
        | .done value ⟨rest', offset', blame', []⟩ =>
          .done value (State.report ⟨rest', offset', blame', errors⟩ blame)
        | _ => search blame rest offset errors

end Parser

end ScriptKit.Listing
