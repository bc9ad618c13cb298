import ScriptKit.Json.Fault

namespace ScriptKit.Json

/-- How far a text is read. -/
structure Cursor where
  rest : List Char
  position : Position

/-- Reads from left to right. A fault is placed behind the byte that shows it, or at the end of the
text. -/
abbrev Reader := ExceptT Fault (StateM Cursor)

namespace Reader

variable {α σ : Type}

def fail (problem : Problem) : Reader α := do
  throw ⟨problem, some (← get).position⟩

/-- Fails behind the next bytes. -/
def failAfter (bytes : Nat) (problem : Problem) : Reader α := do
  let cursor ← get
  throw ⟨problem, some (cursor.position.after bytes cursor.rest)⟩

def failNext (problem : Problem) : Reader α := failAfter 1 problem

def peek? : Reader (Option Char) := do
  pure (← get).rest.head?

def advance : Reader Unit := modify fun cursor =>
  match cursor.rest with
  | [] => cursor
  | c :: rest => ⟨rest, cursor.position.next c⟩

/-- Reads the longest run of characters of a class. -/
def readWhile (p : Char → Bool) : Reader (List Char) := do
  let cursor ← get
  let read := cursor.rest.takeWhile p
  set (Cursor.mk (cursor.rest.dropWhile p) (read.foldl Position.next cursor.position))
  pure read

def blanks : Reader Unit := do
  let _ ← readWhile fun c => c == ' ' || c == '\n' || c == '\t' || c == '\r'

/-- Repeats a step until it gives a result. All steps but the last read something, so the text that
is left bounds their number. -/
def loop (step : σ → Reader (σ ⊕ α)) (state : σ) : Reader α := do
  rounds ('\n' :: (← get).rest) state
where
  rounds : List Char → σ → Reader α
    | [], _ => fail (.endInside .value)
    | _ :: bound, state => do
      match ← step state with
      | .inl state => rounds bound state
      | .inr result => pure result

/-- Gives the place reached to a fault that has none. -/
def located (reader : Reader α) : Reader α := do
  tryCatch reader fun fault => do
    throw (fault.locate (← get).position)

/-- Reads `body`, and then `close` whether or not it failed. The first fault counts. -/
def enclosed (close : Reader Unit) (body : Reader α) : Reader α :=
  located do
    let result ← observing body
    let closed ← observing close
    match result, closed with
    | .ok result, .ok () => pure result
    | .error fault, _ => throw fault
    | .ok _, .error fault => throw fault
where
  observing {β : Type} (reader : Reader β) : Reader (Except Fault β) :=
    tryCatch (Except.ok <$> reader) fun fault => pure (.error fault)

end Reader

end ScriptKit.Json
