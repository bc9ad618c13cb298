namespace ScriptKit.BitSize

/-- The bits from the lowest one to the highest that is set. -/
def ofNat (n : Nat) : Nat := if n = 0 then 0 else n.log2 + 1

/-- The words of 64 bits that hold a number, the highest one first. -/
def words (n : Nat) : List Nat :=
  (List.range ((ofNat n + 63) / 64)).reverse.map fun i => n >>> (64 * i) % UInt64.size

/-- Whether only one bit is set: one of the highest word, and none of the words below. -/
def isPowerOfTwo (n : Nat) : Bool :=
  match words n with
  | [] => false
  | high :: rest => high == 1 <<< high.log2 && rest.all (· == 0)

/-- The bits of a number in two's complement. A negative power of two needs no bit for its sign. -/
def ofInt (value : Int) : Nat :=
  let bits := ofNat value.natAbs
  if value = 0 then bits
  else if 0 < value then bits + 1
  else if isPowerOfTwo value.natAbs then bits
  else bits + 1

end ScriptKit.BitSize
