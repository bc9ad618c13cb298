import ScriptKit.Fault
import ScriptKit.Listing.Kind

namespace ScriptKit.Listing

def Span.detail (span : Span) : String := s!"{span.start}..{span.stop}"

/-- What can be wrong with one argument on its own. -/
inductive ArgFault where
  | wrongKind (span : Span) (found : ArgKind) (expected : Expected)
  | outOfRange (span : Span)
deriving DecidableEq

namespace ArgFault

def span : ArgFault → Span
  | wrongKind span .. | outOfRange span => span

def message : ArgFault → String
  | wrongKind _ found expected => s!"expected {expected.describe}, got {found.describe}"
  | outOfRange _ => "out of range"

/-- The fault with all that is known of it. -/
def detail : ArgFault → String
  | wrongKind span found expected =>
    "ArgTypeMismatch \x7b" ++
      s!" span: {span.detail}, found: {found.name}, expected: {expected.detail} " ++ "\x7d"
  | outOfRange span => s!"OutOfRange({span.detail})"

/-- Whether the argument was reported before, when it could not be read. -/
def isKnown : ArgFault → Bool
  | wrongKind _ .unreadable _ => true
  | _ => false

end ArgFault

/-- A fault in a statement. -/
inductive Diagnostic where
  | unknownOpcode (name : String) (span : Span)
  | unknownService (name : String) (span : Span)
  | argument (fault : ArgFault)
  /-- Each of two arguments has a fault of its own. -/
  | both (first second : ArgFault)
  | tooManyArgs (span : Span)
  | notEnoughArgs (span : Span)
  | encode (fault : Fault) (span : Span)
deriving DecidableEq

namespace Diagnostic

def message : Diagnostic → String
  | unknownOpcode name _ => s!"unknown opcode: {name}"
  | unknownService name _ => s!"unknown interop service: {name}"
  | argument fault => fault.message
  | both first second => s!"multiple: [{first.detail}, {second.detail}]"
  | tooManyArgs _ => "too many args"
  | notEnoughArgs _ => "not enough args"
  | encode fault _ => s!"encode error: {fault.message}"

def span : Diagnostic → Span
  | unknownOpcode _ span | unknownService _ span | tooManyArgs span | notEnoughArgs span
  | encode _ span => span
  | argument fault => fault.span
  | both first second => first.span.hull second.span

/-- Whether it says nothing new, as the fault was reported before. -/
def canIgnore : Diagnostic → Bool
  | argument fault => fault.isKnown
  | both first second => first.isKnown && second.isKnown
  | _ => false

end Diagnostic

end ScriptKit.Listing
