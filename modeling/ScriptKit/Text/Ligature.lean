import ScriptKit.Text.Width

namespace ScriptKit.Text

def joiner : Char := '\u200d'

def lamRanges : List (Nat × Nat) :=
  [(0x0644, 0x0644), (0x06B5, 0x06B8), (0x076A, 0x076A), (0x08A6, 0x08A6), (0x08C7, 0x08C7)]

def alefRanges : List (Nat × Nat) :=
  [(0x0622, 0x0623), (0x0625, 0x0625), (0x0627, 0x0627), (0x0671, 0x0673), (0x0675, 0x0675),
   (0x0773, 0x0774), (0x0870, 0x0882)]

/-- Khmer letters that are written below the letter before them, if the sign for it comes first. -/
def subscriptRanges : List (Nat × Nat) :=
  [(0x1780, 0x1782), (0x1784, 0x1787), (0x1789, 0x178C), (0x178E, 0x1793), (0x1795, 0x1798),
   (0x179B, 0x179D), (0x17A0, 0x17A0), (0x17A2, 0x17A2), (0x17A7, 0x17A7), (0x17AB, 0x17AC),
   (0x17AF, 0x17AF)]

/-- The consonants of Tifinagh. -/
def tifinaghRanges : List (Nat × Nat) := [(0x2D31, 0x2D65), (0x2D6F, 0x2D6F)]

/-- Marks that are ignored by default. -/
def ignoredMarkRanges : List (Nat × Nat) :=
  [(0x034F, 0x034F), (0x17B4, 0x17B5), (0x180B, 0x180D), (0x180F, 0x180F), (0xFE00, 0xFE0F),
   (0xE0100, 0xE01EF)]

/-- Characters without width that keep an alef from its lam. -/
def nonJoiningRanges : List (Nat × Nat) :=
  [(0x0605, 0x0605), (0x0890, 0x0891), (0x08E2, 0x08E2), (0x09BE, 0x09BE), (0x09D7, 0x09D7),
   (0x0B3E, 0x0B3E), (0x0B57, 0x0B57), (0x0BBE, 0x0BBE), (0x0BD7, 0x0BD7), (0x0CC0, 0x0CC0),
   (0x0CC2, 0x0CC2), (0x0CC7, 0x0CC8), (0x0CCA, 0x0CCB), (0x0CD5, 0x0CD6), (0x0D3E, 0x0D3E),
   (0x0D4E, 0x0D4E), (0x0D57, 0x0D57), (0x0DCF, 0x0DCF), (0x0DDF, 0x0DDF), (0x1160, 0x11FF),
   (0x180E, 0x180E), (0x1B35, 0x1B35), (0x1B3B, 0x1B3B), (0x1B3D, 0x1B3D), (0x1B43, 0x1B43),
   (0x200C, 0x200D), (0x2065, 0x2069), (0x302E, 0x302F), (0x3164, 0x3164), (0xA8FA, 0xA8FA),
   (0xD7B0, 0xD7C6), (0xD7CB, 0xD7FB), (0xFF9E, 0xFFA0), (0xFFF0, 0xFFF8), (0x111C2, 0x111C3),
   (0x1133E, 0x1133E), (0x11357, 0x11357), (0x114B0, 0x114B0), (0x114BD, 0x114BD),
   (0x115AF, 0x115AF), (0x11930, 0x11930), (0x1193F, 0x1193F), (0x11941, 0x11941),
   (0x11A3A, 0x11A3A), (0x11A84, 0x11A89), (0x11D46, 0x11D46), (0x11F02, 0x11F02),
   (0x1D165, 0x1D165), (0x1D16E, 0x1D172), (0xE0000, 0xE0000), (0xE0002, 0xE001F),
   (0xE0080, 0xE00FF), (0xE01F0, 0xE0FFF)]

/-- The part of a ligature that has been passed, from its last letter on. -/
inductive Ligature where
  | alef
  | lamed
  /-- The Buginese letter ya. -/
  | ya
  /-- The vowel sign i, a joiner and the letter ya. -/
  | vowelYa
  | subscript
  | tifinagh
  /-- The sign that joins two consonants, and the second of them. -/
  | tifinaghPair
  /-- The second of two Lisu tone letters. -/
  | tone
  /-- The letter i of the Orkhon inscriptions. -/
  | orkhonI
deriving DecidableEq, Repr

namespace Ligature

def ofLast? (c : Char) : Option Ligature :=
  if inRanges alefRanges c.toNat then some alef
  else if c = '\u05dc' then some lamed
  else if c = '\u1a10' then some ya
  else if inRanges subscriptRanges c.toNat then some subscript
  else if inRanges tifinaghRanges c.toNat then some tifinagh
  else if c = '\ua4fc' ∨ c = '\ua4fd' then some tone
  else if c.toNat = 0x10C03 then some orkhonI
  else none

/-- Whether a character that stands before a part of a ligature leaves it as it is. -/
def passes (c : Char) : Ligature → Bool
  | alef => width c == 0 && !inRanges nonJoiningRanges c.toNat
  | _ => inRanges ignoredMarkRanges c.toNat

/-- The columns that a character adds if it belongs to a ligature, and the part that it begins.
Below zero, it takes back what was counted for the letters behind it. Some letters only come
together with a joiner between them. -/
def extend? (isJoined : Bool) (c : Char) : Ligature → Option (Int × Option Ligature)
  | alef => if inRanges lamRanges c.toNat then some (0, none) else none
  | lamed => if isJoined ∧ c = '\u05d0' then some (0, none) else none
  | ya => if isJoined ∧ c = '\u1a17' then some (0, some vowelYa) else none
  | vowelYa => if c = '\u1a15' then some (0, none) else none
  | subscript => if c = '\u17d2' then some (-1, none) else none
  | tifinagh =>
    if c = '\u2d7f' then some (1, some tifinaghPair)
    else if isJoined ∧ inRanges tifinaghRanges c.toNat then some (0, none)
    else none
  | tifinaghPair => if inRanges tifinaghRanges c.toNat then some (-1, none) else none
  | tone => if '\ua4f8' ≤ c ∧ c ≤ '\ua4fb' then some (0, none) else none
  | orkhonI => if isJoined ∧ c.toNat = 0x10C32 then some (0, none) else none

end Ligature

end ScriptKit.Text
