namespace ScriptKit.Decimal

/-- A power of ten. -/
def tenTo (exponent : Nat) : Nat := Nat.pow 10 exponent

/-- A finite positive float: `significand * 2 ^ exponent`. -/
structure Binary where
  significand : Nat
  exponent : Int
  /-- Whether the float below is only half as far away as the one above. -/
  narrowBelow : Bool

def Binary.ofBits (bits : UInt64) : Binary :=
  let exponent := (bits >>> 52 &&& 0x7ff).toNat
  let fraction := (bits &&& 0xfffffffffffff).toNat
  if exponent = 0 then ⟨fraction, -1074, false⟩
  else
    ⟨0x10000000000000 + fraction, (exponent : Int) - 1075,
      fraction == 0 && decide (1 < exponent)⟩

/-- Compares `a * 10 ^ i` with `b * 2 ^ j`. -/
def compareScaled (a : Nat) (i : Int) (b : Nat) (j : Int) : Ordering :=
  compare ((a * tenTo i.toNat) <<< (-j).toNat) ((b * tenTo (-i).toNat) <<< j.toNat)

/-- Whether `digits * 10 ^ place` lies among the reals that round to the float. The ends belong to
them if the significand is even. -/
def Binary.roundsTo (x : Binary) (digits : Nat) (place : Int) : Bool :=
  let low := if x.narrowBelow then 4 * x.significand - 1 else 4 * x.significand - 2
  let atLow := compareScaled digits place low (x.exponent - 2)
  let atHigh := compareScaled digits place (4 * x.significand + 2) (x.exponent - 2)
  if x.significand % 2 = 0 then atLow != .lt && atHigh != .gt else atLow == .gt && atHigh == .lt

/-- The least power of ten above the float, sought upwards from `place`. -/
def Binary.scaleFrom (x : Binary) (place : Int) : Nat → Int
  | 0 => place
  | steps + 1 =>
    if compareScaled 1 place x.significand x.exponent == .gt then place
    else x.scaleFrom (place + 1) steps

/-- The multiple of `10 ^ place` that reads back, the nearer one if there are two, the even one if
they are equally near. -/
def Binary.nearest? (x : Binary) (place : Int) : Option Nat :=
  let below := (x.significand * tenTo (-place).toNat) <<< x.exponent.toNat
    / tenTo place.toNat <<< (-x.exponent).toNat
  match x.roundsTo below place, x.roundsTo (below + 1) place with
  | false, false => none
  | true, false => some below
  | false, true => some (below + 1)
  | true, true =>
    match compareScaled (2 * below + 1) place (2 * x.significand) x.exponent with
    | .gt => some below
    | .lt => some (below + 1)
    | .eq => some (if below % 2 = 0 then below else below + 1)

/-- Moves zeros at the end of the digits into the power of ten. -/
def stripZeros (place : Int) (digits : Nat) : Nat → Nat × Int
  | 0 => (digits, place)
  | steps + 1 =>
    if digits % 10 = 0 ∧ digits ≠ 0 then stripZeros (place + 1) (digits / 10) steps
    else (digits, place)

/-- The digits and the power of ten of the shortest decimal. -/
def Binary.shortest (x : Binary) : Nat × Int :=
  let bits := (x.significand.log2 : Int) + x.exponent
  let scale := x.scaleFrom (bits * 30103 / 100000 - 2) 6
  let found := (List.range 17).findSome? fun (count : Nat) =>
    let place : Int := scale - (count + 1)
    (x.nearest? place).map fun digits => (digits, place)
  match found with
  | some (digits, place) => stripZeros place digits 20
  | none =>
    ((x.significand * Nat.pow 5 (-x.exponent).toNat) <<< x.exponent.toNat, min x.exponent 0)

/-- The digits with a point behind the first `whole`. -/
def withPoint (digits : List Char) (whole : Nat) : String :=
  String.ofList (digits.take whole) ++ "." ++ String.ofList (digits.drop whole)

/-- Lays a decimal out: positionally if its first digit stands for a power of ten from -5 to 15,
and otherwise with a signed exponent. -/
def layout (digits : Nat) (place : Int) : String :=
  let text := toString digits
  let leading := place + text.length - 1
  if 0 ≤ place ∧ leading ≤ 15 then
    text ++ String.ofList (List.replicate place.toNat '0') ++ ".0"
  else if 0 ≤ leading ∧ leading ≤ 15 then
    withPoint text.toList (leading + 1).toNat
  else if -5 ≤ leading ∧ leading < 0 then
    "0." ++ String.ofList (List.replicate (-leading - 1).toNat '0') ++ text
  else
    let head := if text.length = 1 then text else withPoint text.toList 1
    let sign := if leading < 0 then "-" else "+"
    head ++ "e" ++ sign ++ toString leading.natAbs

/-- The text of a finite float. -/
def render (x : Float) : String :=
  let bits := x.toBits
  let sign := if bits >>> 63 = 1 then "-" else ""
  let magnitude := bits &&& 0x7fffffffffffffff
  if magnitude = 0 then sign ++ "0.0"
  else
    let (digits, place) := (Binary.ofBits magnitude).shortest
    sign ++ layout digits place

end ScriptKit.Decimal
