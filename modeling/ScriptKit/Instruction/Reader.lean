import ScriptKit.Instruction.Basic

namespace ScriptKit

/-- A cursor over a script. After a fault it can go on: behind the bytes that were read before the
script turned out too short, or at the byte that is no opcode. -/
structure ScriptReader where
  script : Bytes
  /-- The number of bytes read. -/
  offset : Nat := 0
  rest : Bytes := script.drop offset
  rest_eq : rest = script.drop offset := by rfl

namespace ScriptReader

def ofScript (script : Bytes) : ScriptReader := { script }

def isEmpty (r : ScriptReader) : Bool := r.rest.isEmpty

/-- Goes back to the start. -/
def reset (r : ScriptReader) : ScriptReader := ofScript r.script

def skip (r : ScriptReader) (count : Nat) : ScriptReader where
  script := r.script
  offset := r.offset + count
  rest := r.rest.drop count
  rest_eq := by rw [r.rest_eq, List.drop_drop]

/-- The next instruction, or nothing at the end of the script. -/
def next (r : ScriptReader) : Except Fault (Option Instruction) × ScriptReader :=
  match r.rest with
  | [] => (.ok none, r)
  | byte :: bytes =>
    match Instruction.read r.offset byte bytes with
    | .ok (i, _) => (.ok (some i), r.skip i.size)
    | .error (.endOfScript offset missing) =>
      (.error (.endOfScript offset missing), r.skip (offset - r.offset))
    | .error fault => (.error fault, r)

/-- What is found at the cursor as an item: a fault is one too, and the end of the script is none. -/
def toItem : Except Fault (Option Instruction) → Option (Except Fault Instruction)
  | .ok none => none
  | .ok (some i) => some (.ok i)
  | .error fault => some (.error fault)

/-- The next item of an iteration over the script. -/
def nextItem (r : ScriptReader) : Option (Except Fault Instruction) × ScriptReader :=
  (toItem r.next.1, r.next.2)

theorem length_rest_of_next {r : ScriptReader} {i : Instruction}
    (h : r.next.1 = .ok (some i)) : r.next.2.rest.length < r.rest.length := by
  cases hr : r.rest with
  | nil => simp [next, hr] at h
  | cons byte bytes =>
    cases hi : Instruction.read r.offset byte bytes with
    | error fault => cases fault <;> simp [next, hr, hi] at h
    | ok parts =>
      have : 1 ≤ parts.1.size := by
        simp only [Instruction.size]
        split <;> omega
      simp only [next, hr, hi, skip, List.length_drop, List.length_cons]
      omega

end ScriptReader

end ScriptKit
