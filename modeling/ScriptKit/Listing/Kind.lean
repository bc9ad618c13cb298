import ScriptKit.Listing.Basic

namespace ScriptKit.Listing

inductive ArgKind where
  | number
  | bytes
  | text
  | service
  | unreadable
deriving DecidableEq, Repr

namespace ArgKind

def describe : ArgKind → String
  | number => "number"
  | bytes => "byte string"
  | text => "string"
  | service => "service name"
  | unreadable => "invalid"

/-- The name of the kind in detailed messages. -/
def name : ArgKind → String
  | number => "Nat"
  | bytes => "Bytes"
  | text => "String"
  | service => "Service"
  | unreadable => "Invalid"

end ArgKind

def Literal.kind : Literal → ArgKind
  | number _ => .number
  | bytes _ => .bytes
  | text _ => .text
  | service _ => .service
  | unreadable => .unreadable

/-- The kinds that would have been right, in the order in which they were tried. -/
inductive Expected where
  | exactly (kind : ArgKind)
  | oneOf (kind : ArgKind) (others : Expected)
deriving DecidableEq, Repr

namespace Expected

def alternatives : Expected → List ArgKind
  | exactly kind => [kind]
  | oneOf kind others => kind :: others.alternatives

/-- The kinds of both, one after the other. -/
def join : Expected → Expected → Expected
  | exactly kind, other => oneOf kind other
  | oneOf kind others, other => oneOf kind (others.join other)

def describe : Expected → String
  | exactly kind => kind.describe
  | oneOf kind (exactly last) => kind.describe ++ " or " ++ last.describe
  | oneOf kind others => kind.describe ++ ", " ++ others.describe

def detail : Expected → String
  | exactly kind => s!"Exact({kind.name})"
  | oneOf kind others => s!"OneOf({kind.name}, {others.detail})"

end Expected

end ScriptKit.Listing
