import ScriptKit.Text.Emoji
import ScriptKit.Text.Ligature

namespace ScriptKit.Text

def textSelector : Char := '\ufe0e'

def pictureSelector : Char := '\ufe0f'

def keycap : Char := '\u20e3'

def isSkinTone (c : Char) : Bool := 0x1F3FB ≤ c.toNat && c.toNat ≤ 0x1F3FF

/-- Two of these letters are the flag of a country. -/
def isRegional (c : Char) : Bool := 0x1F1E6 ≤ c.toNat && c.toNat ≤ 0x1F1FF

def isTagLetter (c : Char) : Bool := 0xE0061 ≤ c.toNat && c.toNat ≤ 0xE007A

def isTagDigit (c : Char) : Bool := 0xE0030 ≤ c.toNat && c.toNat ≤ 0xE0039

def isTagEnd (c : Char) : Bool := c.toNat == 0xE007F

/-- The flag that tags make the flag of a part of a country. -/
def isTagged (c : Char) : Bool := c.toNat == 0x1F3F4

/-- Whether a character and a selector are a picture. -/
def isSelectable (c : Char) : Bool :=
  inRanges textEmojiRanges c.toNat || inRanges selectableRanges c.toNat

/-- Whether a picture and a selector are text of one column. The squared ideographs stay wide. -/
def hasNarrowText (c : Char) : Bool :=
  inRanges selectableRanges c.toNat && !(0x1F200 ≤ c.toNat && c.toNat ≤ 0x1F2FF)

/-- What stands before a joiner, up to the emoji that it joins to the next. -/
inductive Link where
  | bare
  | keycap
  | regional
  /-- More than one regional letter. -/
  | regionals (isEven : Bool)
  /-- The end of a tag, and the letters and the digits before it. -/
  | tag (letters digits : Nat)
deriving DecidableEq, Repr

/-- What follows a character, as far as it matters for its width. -/
inductive Follower where
  | other
  | picture
  | skinTone
  | regional
  | regionals
  /-- What is joined to a picture. -/
  | joined (link : Link)
  | ligature (part : Ligature) (isJoined : Bool)
deriving DecidableEq, Repr

namespace Follower

def ofChar (c : Char) : Follower :=
  if isRegional c then regional
  else if isSkinTone c then skinTone
  else if inRanges pictureRanges c.toNat then picture
  else match Ligature.ofLast? c with
    | some part => ligature part false
    | none => other

def ofPart? : Option Ligature → Follower
  | some part => ligature part false
  | none => other

/-- The columns that a character adds to the emoji that it is joined to, and what it begins. A pair
of regional letters is one flag, so each second letter takes back what the first has added. -/
def link? (c : Char) : Link → Option (Int × Follower)
  | .bare =>
    if c = Text.keycap then some (0, joined .keycap)
    else if isRegional c then some (1, joined .regional)
    else if isSkinTone c then some (0, skinTone)
    else if isTagEnd c then some (0, joined (.tag 0 0))
    else if inRanges pictureRanges c.toNat then some (0, picture)
    else none
  | .keycap => none
  | .regional => if isRegional c then some (-1, joined (.regionals true)) else none
  | .regionals isEven =>
    if isRegional c then some (if isEven then 3 else -1, joined (.regionals !isEven))
    else if c = joiner then some (0, joined .bare)
    else none
  | .tag letters digits =>
    if digits = 0 ∧ letters < 6 ∧ isTagLetter c then some (0, joined (.tag (letters + 1) 0))
    else if digits < 3 ∧ letters ≤ 4 ∧ isTagDigit c then
      some (0, joined (.tag letters (digits + 1)))
    else if isTagged c ∧ (digits = 3 ∨ digits = 0 ∧ 3 ≤ letters) then some (0, picture)
    else none

/-- The columns that a character adds if it belongs together with what follows it, and what both
are to the character before. -/
def extend? (c : Char) : Follower → Option (Int × Follower)
  | other => none
  | picture => if c = joiner then some (0, joined .bare) else none
  | skinTone =>
    if inRanges skinRanges c.toNat then some (0, picture)
    else if c = joiner then some (0, joined .bare)
    else none
  | regional => if isRegional c then some (1, regionals) else none
  | regionals =>
    if isRegional c then some (1, regionals)
    else if c = joiner then some (0, joined .bare)
    else none
  | joined link => link? c link
  | ligature part isJoined =>
    if c = joiner ∧ part ≠ .alef then some (0, ligature part true)
    else match part.extend? isJoined c with
      | some (columns, begun) => some (columns, ofPart? begun)
      | none => if part.passes c then some (0, ligature part isJoined) else none

/-- What is left of a follower behind a selector that is not for it. -/
def unselected : Follower → Follower
  | ligature part isJoined => ligature part isJoined
  | _ => other

end Follower

/-- The form in which a selector asks for the character before it. -/
inductive Form where
  | text
  | picture
deriving DecidableEq, Repr

/-- The text behind a character. -/
structure Ahead where
  follower : Follower
  /-- A selector that stands first. -/
  form? : Option Form

namespace Ahead

/-- A picture selector keeps a picture joined, and may stand before a keycap. -/
def select (form : Form) (follower : Follower) : Ahead :=
  match form, follower with
  | .picture, .joined .bare => ⟨follower, some form⟩
  | .picture, .joined .keycap => ⟨follower, some form⟩
  | _, _ => ⟨follower.unselected, some form⟩

/-- The columns that a character takes before a follower without a selector. -/
def addTo (follower : Follower) (c : Char) : Int × Ahead :=
  if c = pictureSelector then (0, select .picture follower)
  else if c = textSelector then (0, select .text follower)
  else match follower.extend? c with
    | some (columns, follower) => (columns, ⟨follower, none⟩)
    | none => (width c, ⟨.ofChar c, none⟩)

/-- The columns that a character takes, and the text from it on. -/
def add (c : Char) (ahead : Ahead) : Int × Ahead :=
  match ahead.form? with
  | none => addTo ahead.follower c
  | some .picture =>
    if isSelectable c then
      (match ahead.follower with | .joined _ => 0 | _ => 2, ⟨.picture, none⟩)
    else addTo ahead.follower.unselected c
  | some .text =>
    if hasNarrowText c then (1, ⟨.other, none⟩) else addTo ahead.follower.unselected c

end Ahead

/-- Measures a text from its end. -/
def measure (text : List Char) : Int × Ahead :=
  text.foldr (fun c (columns, ahead) =>
    let (more, ahead) := ahead.add c
    (columns + more, ahead)) (0, ⟨.other, none⟩)

/-- The columns that a text takes on a terminal. It is measured from its end, for what a character
takes depends on what follows it. -/
def columns (text : List Char) : Nat := (measure text).1.toNat

end ScriptKit.Text
