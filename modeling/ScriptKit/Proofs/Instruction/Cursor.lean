import ScriptKit.Proofs.Instruction.Reader
import ScriptKit.Proofs.Instruction.Truncation

namespace ScriptKit

open Instruction (Lacks)

namespace ScriptReader

variable {script bytes part rest field : Bytes} {r : ScriptReader} {count k : Nat} {i : Instruction}
  {byte : UInt8} {rule : OperandRule} {place missing : Nat} {op : Opcode} {is : List Instruction}

/-- Takes so many bytes at the cursor, which moves only if they are there. The bytes that are missing
are what is left of the count by the bytes that are left of the script. -/
def take (count : Nat) (r : ScriptReader) : Except Fault Bytes × ScriptReader :=
  if r.offset + count ≤ r.script.length then
    (.ok ((r.script.drop r.offset).take count), r.skip count)
  else (.error (.endOfScript r.offset (count - (r.script.length - r.offset))), r)

/-- Takes an operand: of a counted one first the length, behind which the cursor stays if the bytes
are missing. -/
def takeOperand : OperandRule → ScriptReader → Except Fault (Option Bytes) × ScriptReader
  | .none, r => (.ok none, r)
  | .fixed width, r => ((r.take width).1.map some, (r.take width).2)
  | .counted width, r =>
    match r.take width with
    | (.ok field, r) =>
      ((r.take (LittleEndian.toNat field)).1.map some, (r.take (LittleEndian.toNat field)).2)
    | (.error fault, r) => (.error fault, r)

/-- Takes the byte at the cursor, if it is an opcode, and then its operand. -/
def nextByPieces (r : ScriptReader) : Except Fault (Option Instruction) × ScriptReader :=
  match r.script[r.offset]? with
  | none => (.ok none, r)
  | some byte =>
    match Opcode.ofCode? byte with
    | none => (.error (.unsupportedOpcode byte), r)
    | some op =>
      let found := (r.skip 1).takeOperand op.operand
      (found.1.map fun operand => some ⟨op, operand⟩, found.2)

theorem ext_offset {r s : ScriptReader} (hs : r.script = s.script) (ho : r.offset = s.offset) :
    r = s := by
  obtain ⟨script, offset, rest, hr⟩ := r
  obtain ⟨script', offset', rest', hr'⟩ := s
  subst hs ho hr hr'
  rfl

@[simp] theorem skip_script : (r.skip count).script = r.script := rfl

@[simp] theorem skip_offset : (r.skip count).offset = r.offset + count := rfl

theorem skip_skip : (r.skip count).skip k = r.skip (count + k) :=
  ext_offset rfl (Nat.add_assoc ..)

theorem skip_zero : r.skip 0 = r := ext_offset rfl rfl

/-- What is left of the script begins at the cursor. -/
theorem length_rest (r : ScriptReader) : r.rest.length = r.script.length - r.offset := by
  rw [r.rest_eq, List.length_drop]

theorem take_append (hr : r.rest = part ++ rest) (hl : part.length = count)
    (ho : r.offset ≤ r.script.length) : r.take count = (.ok part, r.skip count) := by
  have hlength := r.length_rest
  rw [hr, List.length_append] at hlength
  subst hl
  unfold take
  rw [if_pos (by omega), ← r.rest_eq, hr, List.take_left]

theorem take_short (hl : r.rest.length < count) :
    r.take count = (.error (.endOfScript r.offset (count - r.rest.length)), r) := by
  have hlength := r.length_rest
  unfold take
  rw [if_neg (by omega), hlength]

/-- An operand that lacks bytes leaves the cursor where they are missing. -/
theorem takeOperand_of_lacks (h : Lacks r.offset r.rest rule place missing)
    (ho : r.offset ≤ r.script.length) :
    r.takeOperand rule = (.error (.endOfScript place missing), r.skip (place - r.offset)) := by
  cases h with
  | fixed short =>
    rw [Nat.sub_self, skip_zero, takeOperand, take_short short]
    rfl
  | length short =>
    rw [Nat.sub_self, skip_zero, takeOperand, take_short short]
  | @payload width field rest split whole short =>
    have hrest : (r.skip width).rest = rest := by
      change r.rest.drop width = rest
      rw [split, ← whole, List.drop_left]
    rw [← hrest] at short
    rw [Nat.add_sub_cancel_left, takeOperand, take_append split whole ho]
    simp only [take_short short, hrest]
    rfl

/-- An operand that is read leaves the cursor behind its bytes. -/
theorem takeOperand_of_read {operand : Option Bytes}
    (h : Instruction.readOperand r.offset r.rest rule = .ok (operand, rest))
    (ho : r.offset ≤ r.script.length) :
    r.takeOperand rule = (.ok operand, r.skip (r.rest.length - rest.length)) := by
  have hlength := r.length_rest
  cases rule with
  | none =>
    obtain ⟨rfl, rfl⟩ := Prod.mk.inj (Except.ok.inj h)
    rw [Nat.sub_self, skip_zero, takeOperand]
  | fixed width =>
    obtain ⟨⟨part, left⟩, hc, hp⟩ := bind_eq_ok.mp h
    obtain ⟨rfl, rfl⟩ := Prod.mk.inj (pure_eq_ok.mp hp)
    obtain ⟨hs, hw⟩ := Instruction.cut_eq_ok hc
    have hcount : r.rest.length - left.length = width := by
      rw [← hs, List.length_append, hw, Nat.add_sub_cancel_right]
    rw [hcount, takeOperand, take_append hs.symm hw ho]
    rfl
  | counted width =>
    obtain ⟨⟨field, behind⟩, hf, h⟩ := bind_eq_ok.mp h
    obtain ⟨⟨part, left⟩, hc, hp⟩ := bind_eq_ok.mp h
    obtain ⟨rfl, rfl⟩ := Prod.mk.inj (pure_eq_ok.mp hp)
    obtain ⟨hs, hw⟩ := Instruction.cut_eq_ok hf
    obtain ⟨hs', hw'⟩ := Instruction.cut_eq_ok hc
    have hrest : (r.skip width).rest = part ++ left := by
      change r.rest.drop width = part ++ left
      rw [← hs, ← hw, List.drop_left, hs']
    have hcount : r.rest.length - left.length = width + LittleEndian.toNat field := by
      rw [← hs, ← hs', List.length_append, List.length_append, hw, hw']
      omega
    have hinside : (r.skip width).offset ≤ (r.skip width).script.length := by
      rw [skip_offset, skip_script]
      rw [← hs, List.length_append] at hlength
      omega
    rw [hcount, takeOperand, take_append hs.symm hw ho]
    simp only [take_append hrest hw' hinside, skip_skip]
    rfl

theorem next_of_unsupported (h : r.rest = byte :: bytes) (hop : Opcode.ofCode? byte = none) :
    r.next = (.error (.unsupportedOpcode byte), r) := by
  have hr : Instruction.read r.offset byte bytes = .error (.unsupportedOpcode byte) :=
    Instruction.read_eq_error.mpr (.inl ⟨hop, rfl⟩)
  simp only [next, h, hr]

theorem next_of_lacks (h : r.rest = byte :: bytes) (hop : Opcode.ofCode? byte = some op)
    (hl : Lacks (r.offset + 1) bytes op.operand place missing) :
    r.next = (.error (.endOfScript place missing), r.skip (place - r.offset)) := by
  have hr : Instruction.read r.offset byte bytes = .error (.endOfScript place missing) :=
    Instruction.read_eq_endOfScript.mpr ⟨op, hop, hl⟩
  simp only [next, h, hr]

theorem getElem?_offset (h : r.rest = byte :: bytes) : r.script[r.offset]? = some byte := by
  have hfirst : (r.script.drop r.offset)[0]? = some byte := by
    rw [← r.rest_eq, h]
    rfl
  rwa [List.getElem?_drop, Nat.add_zero] at hfirst

/-- The next instruction is what is taken piece by piece, and the cursor is left where the last piece
that is there ends. -/
theorem next_eq_nextByPieces (r : ScriptReader) : r.next = r.nextByPieces := by
  have hlength := r.length_rest
  unfold nextByPieces
  cases h : r.rest with
  | nil =>
    rw [h, List.length_nil] at hlength
    rw [next_of_rest_nil h, List.getElem?_eq_none (by omega)]
  | cons byte bytes =>
    rw [h, List.length_cons] at hlength
    rw [getElem?_offset h]
    cases hop : Opcode.ofCode? byte with
    | none =>
      rw [next_of_unsupported h hop]
      simp only [hop]
    | some op =>
      have hrest : (r.skip 1).rest = bytes := by
        change r.rest.drop 1 = bytes
        rw [h, List.drop_one, List.tail_cons]
      have hinside : (r.skip 1).offset ≤ (r.skip 1).script.length := by
        rw [skip_offset, skip_script]
        omega
      simp only [hop]
      cases ho : Instruction.readOperand (r.offset + 1) bytes op.operand with
      | error fault =>
        obtain ⟨place, missing, rfl, hl⟩ := Instruction.readOperand_eq_error.mp ho
        have hb := hl.bounds
        rw [next_of_lacks h hop hl]
        rw [← hrest] at hl
        rw [takeOperand_of_lacks hl hinside, skip_skip, skip_offset]
        rw [show 1 + (place - (r.offset + 1)) = place - r.offset by omega]
        rfl
      | ok found =>
        obtain ⟨operand, rest⟩ := found
        have hr : Instruction.read r.offset byte bytes = .ok (⟨op, operand⟩, rest) := by
          simp only [Instruction.read, hop, ho]
          rfl
        obtain ⟨tail, he, ht, -⟩ := Instruction.encode_of_read hr
        have hsize := Instruction.length_of_encode he
        rw [next_of_read_ok h hr]
        rw [← hrest] at ho
        rw [takeOperand_of_read ho hinside, skip_skip, hrest, ← hsize, ← ht, List.length_append,
          Nat.add_sub_cancel_right, List.length_cons, Nat.add_comm]
        rfl

/-- How a call moves the cursor, by what it answers: over the bytes of an instruction, to the place
in the script at which an operand lacks bytes, and not at all at the end of the script and at a byte
that is no opcode. -/
inductive Moves (script : Bytes) (offset : Nat) : Except Fault (Option Instruction) → Nat → Prop where
  | instruction {i : Instruction} (inside : offset + i.size ≤ script.length)
      (written : i.encode = .ok ((script.drop offset).take i.size)) :
      Moves script offset (.ok (some i)) (offset + i.size)
  | ended (all : offset = script.length) : Moves script offset (.ok none) offset
  | truncated {place missing : Nat} (behind : offset < place) (inside : place ≤ script.length)
      (short : 1 ≤ missing) : Moves script offset (.error (.endOfScript place missing)) place
  | unsupported {byte : UInt8} (stands : script[offset]? = some byte)
      (unknown : Opcode.ofCode? byte = none) :
      Moves script offset (.error (.unsupportedOpcode byte)) offset

theorem script_next (r : ScriptReader) : r.next.2.script = r.script := by
  unfold next
  split
  · rfl
  · split <;> rfl

/-- One call. -/
theorem moves_next (ho : r.offset ≤ r.script.length) :
    Moves r.script r.offset r.next.1 r.next.2.offset := by
  have hlength := r.length_rest
  cases h : r.rest with
  | nil =>
    rw [next_of_rest_nil h]
    rw [h, List.length_nil] at hlength
    exact .ended (by omega)
  | cons byte bytes =>
    rw [h, List.length_cons] at hlength
    cases hr : Instruction.read r.offset byte bytes with
    | ok found =>
      obtain ⟨i, rest⟩ := found
      obtain ⟨tail, he, rfl, -⟩ := Instruction.encode_of_read hr
      have hsize := Instruction.length_of_encode he
      rw [next_of_read_ok h hr]
      rw [List.length_append] at hlength
      rw [List.length_cons] at hsize
      refine .instruction (by omega) ?_
      rw [← r.rest_eq, h, ← hsize, List.take_succ_cons, List.take_left, he]
    | error fault =>
      rcases Instruction.read_eq_error.mp hr with ⟨hop, rfl⟩ | ⟨op, place, missing, hop, rfl, hl⟩
      · rw [next_of_unsupported h hop]
        exact .unsupported (getElem?_offset h) hop
      · have hb := hl.bounds
        rw [next_of_lacks h hop hl, skip_offset]
        rw [show r.offset + (place - r.offset) = place by omega]
        exact .truncated (by omega) (by omega) hb.2.2

theorem Moves.inside {offset offset' : Nat} {answer : Except Fault (Option Instruction)}
    (h : Moves script offset answer offset') (ho : offset ≤ script.length) :
    offset' ≤ script.length := by
  cases h with
  | instruction inside written => exact inside
  | ended all => exact ho
  | truncated behind inside short => exact inside
  | unsupported stands unknown => exact ho

end ScriptReader

/-- What can be called on a reader and moves its cursor. -/
inductive ReaderCall where
  | next
  | nextItem
  | reset
deriving DecidableEq, Repr

namespace ScriptReader

variable {script : Bytes} {r : ScriptReader}

def call (r : ScriptReader) : ReaderCall → ScriptReader
  | .next => r.next.2
  | .nextItem => r.nextItem.2
  | .reset => r.reset

/-- The reader after calls, also after those that came to a fault. -/
def after (r : ScriptReader) (calls : List ReaderCall) : ScriptReader := calls.foldl call r

/-- The reader is one of the script, and its cursor stands in it or at its end. -/
def Within (script : Bytes) (r : ScriptReader) : Prop :=
  r.script = script ∧ r.offset ≤ script.length

theorem Within.next (h : Within script r) : Within script r.next.2 := by
  obtain ⟨rfl, ho⟩ := h
  exact ⟨r.script_next, (moves_next ho).inside ho⟩

theorem Within.call (h : Within script r) (c : ReaderCall) : Within script (r.call c) := by
  cases c with
  | next => exact h.next
  | nextItem => exact h.next
  | reset => exact ⟨h.1, Nat.zero_le _⟩

theorem Within.after (h : Within script r) (calls : List ReaderCall) :
    Within script (r.after calls) := by
  induction calls generalizing r with
  | nil => exact h
  | cons c rest ih => exact ih (h.call c)

theorem within_ofScript (script : Bytes) : Within script (ofScript script) :=
  ⟨rfl, Nat.zero_le _⟩

/-- What holds of a reader of the script, wherever its cursor stands. -/
structure Accounted (script : Bytes) (r : ScriptReader) : Prop where
  within : Within script r
  /-- The bytes are taken one piece after the other, each only if it is there. -/
  pieces : r.next = r.nextByPieces
  moves : Moves script r.offset r.next.1 r.next.2.offset
  iterates : r.nextItem = (toItem r.next.1, r.next.2)
  resets : r.reset = ofScript script

theorem Within.accounted (h : Within script r) : Accounted script r := by
  obtain ⟨rfl, ho⟩ := h
  exact ⟨⟨rfl, ho⟩, next_eq_nextByPieces r, moves_next ho, rfl, rfl⟩

theorem after_append (r : ScriptReader) (calls more : List ReaderCall) :
    r.after (calls ++ more) = (r.after calls).after more := List.foldl_append

theorem after_replicate_succ (r : ScriptReader) (k : Nat) (c : ReaderCall) :
    r.after (List.replicate (k + 1) c) = (r.after (List.replicate k c)).call c := by
  rw [List.replicate_succ', after_append]
  rfl

/-- Where instructions are left, the next one is yielded, and the others are left. -/
theorem next_of_decodeFrom {i : Instruction} {is : List Instruction}
    (h : Instruction.decodeFrom r.offset r.rest = .ok (i :: is)) :
    r.next = (.ok (some i), r.skip i.size) ∧
      Instruction.decodeFrom (r.skip i.size).offset (r.skip i.size).rest = .ok is := by
  cases hr : r.rest with
  | nil => simp [hr, Instruction.decodeFrom] at h
  | cons byte bytes =>
    rw [hr, Instruction.decodeFrom_cons] at h
    obtain ⟨⟨j, rest⟩, hread, h⟩ := bind_eq_ok.mp h
    obtain ⟨others, ho, hp⟩ := bind_eq_ok.mp h
    obtain ⟨rfl, rfl⟩ := List.cons.inj (pure_eq_ok.mp hp)
    refine ⟨next_of_read_ok hr hread, ?_⟩
    rw [rest_skip_size hr hread]
    exact ho

theorem rest_of_decodeFrom_nil (h : Instruction.decodeFrom r.offset r.rest = .ok []) :
    r.rest = [] := by
  cases hr : r.rest with
  | nil => rfl
  | cons byte bytes =>
    rw [hr, Instruction.decodeFrom_cons] at h
    obtain ⟨_, -, h⟩ := bind_eq_ok.mp h
    obtain ⟨_, -, hp⟩ := bind_eq_ok.mp h
    cases hp

/-- After as many calls as there are instructions up to a place, the others are left, and the cursor
is behind those before. -/
theorem after_of_decodeFrom {is : List Instruction}
    (h : Instruction.decodeFrom r.offset r.rest = .ok is) {k : Nat} (hk : k ≤ is.length) :
    (r.after (List.replicate k .next)).offset = r.offset + Instruction.sizeAll (is.take k) ∧
      Instruction.decodeFrom (r.after (List.replicate k .next)).offset
        (r.after (List.replicate k .next)).rest = .ok (is.drop k) := by
  induction k with
  | zero => exact ⟨rfl, h⟩
  | succ k ih =>
    obtain ⟨ho, hd⟩ := ih (by omega)
    have hi : is.drop k = is[k] :: is.drop (k + 1) := List.drop_eq_getElem_cons hk
    rw [hi] at hd
    obtain ⟨hn, hd⟩ := next_of_decodeFrom hd
    rw [after_replicate_succ, call, hn]
    refine ⟨?_, hd⟩
    rw [skip_offset, ho, List.take_succ_eq_append_getElem hk, Instruction.sizeAll_append,
      Nat.add_assoc]
    rfl

end ScriptReader

end ScriptKit
