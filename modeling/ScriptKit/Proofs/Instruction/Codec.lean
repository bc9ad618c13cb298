import ScriptKit.Instruction.Basic
import ScriptKit.Proofs.Bytes.LittleEndian
import ScriptKit.Proofs.Except
import ScriptKit.Proofs.Opcode

namespace ScriptKit

namespace OperandRule

/-- Whether the operand may have so many bytes. The length of a counted one must fit into as many
bytes as stand for it. -/
def Admits : OperandRule → Nat → Prop
  | none, length => length = 0
  | fixed width, length => length = width
  | counted width, length => length < LittleEndian.count width

instance : (rule : OperandRule) → (length : Nat) → Decidable (rule.Admits length)
  | none, length => inferInstanceAs (Decidable (length = 0))
  | fixed width, length => inferInstanceAs (Decidable (length = width))
  | counted width, length => inferInstanceAs (Decidable (length < LittleEndian.count width))

/-- What stands between an opcode and an operand of so many bytes. -/
def lengthField : OperandRule → Nat → Bytes
  | counted width, length => LittleEndian.ofNat width length
  | _, _ => []

end OperandRule

namespace Instruction

/-- Whether the operand is as long as the opcode asks; a missing operand counts as empty. -/
def IsValid (i : Instruction) : Prop := i.op.operand.Admits i.payload.length

instance (i : Instruction) : Decidable i.IsValid :=
  inferInstanceAs (Decidable (i.op.operand.Admits i.payload.length))

/-- The form in which the instruction comes back from a script: an empty operand is none where the
opcode has no operand, and is there where it is counted. -/
def normal (i : Instruction) : Instruction :=
  match i.op.operand with
  | .none => { i with operand := none }
  | .fixed _ => i
  | .counted _ => { i with operand := some i.payload }

@[simp] theorem normal_op (i : Instruction) : i.normal.op = i.op := by
  simp only [normal]
  split <;> rfl

theorem checkFixed_eq_ok {op : Opcode} {operand : Bytes} :
    checkFixed op operand = .ok () ↔ operand.length = op.operand.fixedLength := by
  simp [checkFixed]

theorem encode_eq_ok_iff {i : Instruction} {bytes : Bytes} :
    i.encode = .ok bytes ↔
      i.IsValid ∧
        bytes = i.op.code :: (i.op.operand.lengthField i.payload.length ++ i.payload) := by
  cases hr : i.op.operand with
  | none | fixed width =>
    simp only [encode, IsValid, hr, map_eq_ok, OperandRule.Admits,
      OperandRule.lengthField, List.nil_append]
    constructor
    · intro h
      obtain ⟨⟨⟩, hl, rfl⟩ := h
      exact ⟨by simpa [hr, OperandRule.fixedLength] using checkFixed_eq_ok.mp hl, rfl⟩
    · intro h
      obtain ⟨hl, rfl⟩ := h
      exact ⟨(), checkFixed_eq_ok.mpr (by simpa [hr, OperandRule.fixedLength] using hl), rfl⟩
  | counted width =>
    have hp := LittleEndian.count_pos width
    simp only [encode, IsValid, hr, OperandRule.maxPayload, OperandRule.Admits,
      OperandRule.lengthField]
    split
    · next hl =>
      simp only [Except.ok.injEq]
      exact ⟨fun he => ⟨by omega, he.symm⟩, fun he => he.2.symm⟩
    · next hl =>
      simp only [reduceCtorEq, false_iff]
      exact fun he => hl (by omega)

theorem one_le_size (i : Instruction) : 1 ≤ i.size := by
  rw [size]
  split <;> omega

theorem length_of_encode {i : Instruction} {bytes : Bytes} (h : i.encode = .ok bytes) :
    bytes.length = i.size := by
  obtain ⟨hv, rfl⟩ := encode_eq_ok_iff.mp h
  cases hr : i.op.operand with
  | none =>
    simp only [IsValid, hr, OperandRule.Admits] at hv
    simp [size, hr, OperandRule.lengthField, hv]
  | fixed width =>
    simp only [IsValid, hr, OperandRule.Admits] at hv
    simp [size, hr, OperandRule.lengthField, hv, Nat.add_comm]
  | counted width =>
    simp only [size, hr, OperandRule.lengthField, List.length_cons, List.length_append,
      LittleEndian.length_ofNat]
    omega

/-- The operand with which a payload comes back from a script. -/
theorem normal_eq {i : Instruction} (h : i.IsValid) :
    i.normal.operand = if i.op.operand = .none then none else some i.payload := by
  cases hr : i.op.operand with
  | none => simp [normal, hr]
  | fixed width =>
    have hw := i.op.operand_ne_fixed_zero
    cases ho : i.operand with
    | none =>
      simp only [IsValid, hr, OperandRule.Admits, payload, ho, Option.getD_none,
        List.length_nil] at h
      exact absurd (h ▸ hr) hw
    | some operand => simp [normal, hr, payload, ho]
  | counted width => simp [normal, hr]

theorem cut_append (offset : Nat) {part : Bytes} {count : Nat} (h : part.length = count)
    (rest : Bytes) : cut offset count (part ++ rest) = .ok (part, rest) := by
  subst h
  simp [cut]

/-- An operand that the rule admits is read back, whatever follows it. -/
theorem readOperand_append {rule : OperandRule} {payload : Bytes}
    (h : rule.Admits payload.length) (offset : Nat) (rest : Bytes) :
    readOperand offset (rule.lengthField payload.length ++ payload ++ rest) rule =
      .ok (if rule = .none then none else some payload, rest) := by
  cases rule with
  | none =>
    have : payload = [] := List.eq_nil_of_length_eq_zero h
    simp [readOperand, OperandRule.lengthField, this]
  | fixed width => simp [readOperand, OperandRule.lengthField, cut_append offset h]
  | counted width =>
    have hl : (LittleEndian.ofNat width payload.length).length = width :=
      LittleEndian.length_ofNat ..
    have hn : LittleEndian.toNat (LittleEndian.ofNat width payload.length) = payload.length :=
      LittleEndian.toNat_ofNat h
    simp [readOperand, OperandRule.lengthField, bind_eq_ok, cut_append _ hl, hn,
      cut_append _ rfl]

/-- What is written for an instruction is read back in its normal form, whatever follows it. -/
theorem read_of_encode {i : Instruction} {bytes : Bytes} (h : i.encode = .ok bytes) :
    ∃ tail, bytes = i.op.code :: tail ∧
      ∀ offset rest, read offset i.op.code (tail ++ rest) = .ok (i.normal, rest) := by
  obtain ⟨hv, rfl⟩ := encode_eq_ok_iff.mp h
  refine ⟨_, rfl, fun offset rest => ?_⟩
  have hn : i.normal = ⟨i.op, i.normal.operand⟩ := by rw [← i.normal_op]
  simp only [read, Opcode.ofCode?_code, readOperand_append hv]
  rw [hn, normal_eq hv]
  rfl

/-- An operand that is read stood there, and is admitted by the rule. -/
theorem readOperand_eq_ok {rule : OperandRule} {offset : Nat} {bytes rest : Bytes}
    {operand : Option Bytes} (h : readOperand offset bytes rule = .ok (operand, rest)) :
    rule.Admits (operand.getD []).length ∧ (operand = none ↔ rule = .none) ∧
      rule.lengthField (operand.getD []).length ++ operand.getD [] ++ rest = bytes := by
  cases rule with
  | none =>
    obtain ⟨rfl, rfl⟩ := Prod.mk.inj (Except.ok.inj h)
    exact ⟨rfl, by simp, rfl⟩
  | fixed width =>
    simp only [readOperand, bind_eq_ok, pure_eq_ok] at h
    obtain ⟨⟨part, rest'⟩, hc, he⟩ := h
    obtain ⟨rfl, rfl⟩ := Prod.mk.inj he
    obtain ⟨hb, hl⟩ := cut_eq_ok hc
    exact ⟨hl, by simp, hb⟩
  | counted width =>
    simp only [readOperand, bind_eq_ok, pure_eq_ok] at h
    obtain ⟨⟨field, tail⟩, hf, ⟨part, rest'⟩, hc, he⟩ := h
    obtain ⟨rfl, rfl⟩ := Prod.mk.inj he
    obtain ⟨rfl, hw⟩ := cut_eq_ok hf
    obtain ⟨rfl, hl⟩ := cut_eq_ok hc
    have hn : LittleEndian.ofNat width (LittleEndian.toNat field) = field := by
      rw [← hw]
      exact LittleEndian.ofNat_toNat field
    have hlt := LittleEndian.toNat_lt field
    rw [hw] at hlt
    simp only [OperandRule.Admits, OperandRule.lengthField, Option.getD_some, hl, hn]
    exact ⟨hlt, by simp, by simp⟩

/-- What is read was written there, and is in its normal form. -/
theorem encode_of_read {offset : Nat} {byte : UInt8} {bytes rest : Bytes} {i : Instruction}
    (h : read offset byte bytes = .ok (i, rest)) :
    ∃ tail, i.encode = .ok (byte :: tail) ∧ tail ++ rest = bytes ∧ i.normal = i := by
  simp only [read] at h
  split at h
  · cases h
  · next op hop =>
    simp only [bind_eq_ok, pure_eq_ok] at h
    obtain ⟨⟨operand, rest'⟩, ho, he⟩ := h
    obtain ⟨rfl, rfl⟩ := Prod.mk.inj he
    obtain ⟨hv, hn, hb⟩ := readOperand_eq_ok ho
    refine ⟨_, ?_, hb, ?_⟩
    · rw [← Opcode.code_of_ofCode? hop]
      exact encode_eq_ok_iff.mpr ⟨hv, rfl⟩
    · cases hr : op.operand with
      | none => simp [normal, hr, hn.mpr hr]
      | fixed width => simp [normal, hr]
      | counted width =>
        cases operand with
        | none => rw [hn.mp rfl] at hr; cases hr
        | some operand => simp [normal, hr, payload]

theorem encodeAll_cons_eq_ok {i : Instruction} {rest : List Instruction} {script : Bytes} :
    encodeAll (i :: rest) = .ok script ↔
      ∃ bytes others, i.encode = .ok bytes ∧ encodeAll rest = .ok others ∧
        script = bytes ++ others := by
  simp only [encodeAll, bind_eq_ok, pure_eq_ok, eq_comm (b := script)]
  exact ⟨fun ⟨a, ha, b, hb, he⟩ => ⟨a, b, ha, hb, he⟩, fun ⟨a, b, ha, hb, he⟩ => ⟨a, ha, b, hb, he⟩⟩

theorem decodeFrom_cons (offset : Nat) (byte : UInt8) (bytes : Bytes) :
    decodeFrom offset (byte :: bytes) = (do
      let (i, rest) ← read offset byte bytes
      let others ← decodeFrom (offset + i.size) rest
      pure (i :: others)) := by
  rw [decodeFrom]
  split
  · next hr => rw [hr]; rfl
  · next hr => rw [hr]; rfl

theorem decodeFrom_of_read_error {offset : Nat} {byte : UInt8} {bytes : Bytes} {fault : Fault}
    (h : read offset byte bytes = .error fault) :
    decodeFrom offset (byte :: bytes) = .error fault := by
  rw [decodeFrom_cons, h]
  rfl

theorem decodeFrom_of_read_ok {offset : Nat} {byte : UInt8} {bytes rest : Bytes}
    {i : Instruction} (h : read offset byte bytes = .ok (i, rest)) {is : List Instruction} :
    decodeFrom offset (byte :: bytes) = .ok is ↔
      ∃ others, decodeFrom (offset + i.size) rest = .ok others ∧ i :: others = is := by
  simp only [decodeFrom_cons, h, bind_eq_ok, Except.ok.injEq, exists_eq_left', pure_eq_ok]

/-- Instructions are written exactly if each one can be. -/
theorem encodeAll_ok_iff {is : List Instruction} :
    (∃ script, encodeAll is = .ok script) ↔ ∀ i ∈ is, i.IsValid := by
  induction is with
  | nil => simp [encodeAll]
  | cons i rest ih =>
    simp only [encodeAll_cons_eq_ok, List.forall_mem_cons, ← ih, encode_eq_ok_iff]
    constructor
    · intro h
      obtain ⟨_, _, others, ⟨hv, _⟩, ho, _⟩ := h
      exact ⟨hv, others, ho⟩
    · intro h
      obtain ⟨hv, others, ho⟩ := h
      exact ⟨_, _, others, ⟨hv, rfl⟩, ho, rfl⟩

theorem sum_size_of_encodeAll {is : List Instruction} {script : Bytes}
    (h : encodeAll is = .ok script) : (is.map size).foldr (· + ·) 0 = script.length := by
  induction is generalizing script with
  | nil =>
    obtain rfl := Except.ok.inj h
    rfl
  | cons i rest ih =>
    obtain ⟨bytes, others, hb, ho, rfl⟩ := encodeAll_cons_eq_ok.mp h
    simp [ih ho, length_of_encode hb]

/-- Splitting a script and writing the parts again changes nothing. -/
theorem encodeAll_of_decodeFrom {offset : Nat} {script : Bytes} {is : List Instruction}
    (h : decodeFrom offset script = .ok is) :
    encodeAll is = .ok script ∧ ∀ i ∈ is, i.normal = i := by
  induction is generalizing offset script with
  | nil =>
    cases script with
    | nil => exact ⟨rfl, by simp⟩
    | cons byte bytes =>
      simp only [decodeFrom_cons, bind_eq_ok, pure_eq_ok] at h
      obtain ⟨_, _, _, _, he⟩ := h
      cases he
  | cons i rest ih =>
    cases script with
    | nil => simp [decodeFrom] at h
    | cons byte bytes =>
      simp only [decodeFrom_cons, bind_eq_ok, pure_eq_ok] at h
      obtain ⟨⟨j, left⟩, hr, others, ho, he⟩ := h
      obtain ⟨rfl, rfl⟩ := List.cons.inj he
      obtain ⟨tail, ht, rfl, hn⟩ := encode_of_read hr
      obtain ⟨hs, hm⟩ := ih ho
      exact ⟨encodeAll_cons_eq_ok.mpr ⟨_, _, ht, hs, rfl⟩, by simpa using ⟨hn, hm⟩⟩

/-- Splitting a script gives the instructions that it was written from, in their normal form. -/
theorem decodeFrom_of_encodeAll {is : List Instruction} {script : Bytes}
    (h : encodeAll is = .ok script) (offset : Nat) :
    decodeFrom offset script = .ok (is.map normal) := by
  induction is generalizing offset script with
  | nil =>
    obtain rfl := Except.ok.inj h
    simp [decodeFrom]
  | cons i rest ih =>
    obtain ⟨bytes, others, hb, ho, rfl⟩ := encodeAll_cons_eq_ok.mp h
    obtain ⟨tail, rfl, hr⟩ := read_of_encode hb
    simp only [List.cons_append, decodeFrom_cons, hr, List.map_cons, bind_eq_ok, pure_eq_ok]
    exact ⟨_, rfl, _, ih ho _, rfl⟩

theorem encodeAll_append {is js : List Instruction} {first second : Bytes}
    (hf : encodeAll is = .ok first) (hs : encodeAll js = .ok second) :
    encodeAll (is ++ js) = .ok (first ++ second) := by
  induction is generalizing first with
  | nil =>
    obtain rfl := Except.ok.inj hf
    exact hs
  | cons i rest ih =>
    obtain ⟨bytes, others, hb, ho, rfl⟩ := encodeAll_cons_eq_ok.mp hf
    exact encodeAll_cons_eq_ok.mpr ⟨_, _, hb, ih ho, by simp⟩

theorem decode_eq_ok_iff {script : Bytes} {is : List Instruction} :
    decode script = .ok is ↔ encodeAll is = .ok script ∧ ∀ i ∈ is, i.normal = i := by
  constructor
  · exact encodeAll_of_decodeFrom
  · intro h
    obtain ⟨he, hn⟩ := h
    rw [decode, decodeFrom_of_encodeAll he, List.map_congr_left hn, List.map_id']

theorem decode_nil : decode [] = .ok [] :=
  decode_eq_ok_iff.mpr ⟨rfl, by simp⟩

/-- A script that is cut between two instructions splits into the parts of both pieces. -/
theorem decode_append {first second : Bytes} {is js : List Instruction}
    (hf : decode first = .ok is) (hs : decode second = .ok js) :
    decode (first ++ second) = .ok (is ++ js) := by
  obtain ⟨hfe, hfn⟩ := decode_eq_ok_iff.mp hf
  obtain ⟨hse, hsn⟩ := decode_eq_ok_iff.mp hs
  exact decode_eq_ok_iff.mpr ⟨encodeAll_append hfe hse, List.forall_mem_append.mpr ⟨hfn, hsn⟩⟩

theorem decode_of_encode {i : Instruction} {bytes : Bytes} (h : i.encode = .ok bytes)
    (hn : i.normal = i) : decode bytes = .ok [i] :=
  decode_eq_ok_iff.mpr ⟨encodeAll_cons_eq_ok.mpr ⟨bytes, [], h, rfl, by simp⟩, by simpa using hn⟩

theorem encode_of_decode {i : Instruction} {bytes : Bytes} (h : decode bytes = .ok [i]) :
    i.encode = .ok bytes ∧ i.normal = i := by
  obtain ⟨he, hn⟩ := decode_eq_ok_iff.mp h
  obtain ⟨written, rest, hw, hr, rfl⟩ := encodeAll_cons_eq_ok.mp he
  obtain rfl := Except.ok.inj hr
  rw [List.append_nil]
  exact ⟨hw, hn i List.mem_cons_self⟩

/-- Splitting is undone by writing, and the instructions take up the whole script. Writing succeeds
exactly if every operand has the length that its opcode asks for; splitting then gives back the
instructions up to how empty operands are held. -/
theorem decode_encodeAll_inverse :
    (∀ script is, decode script = .ok is →
      encodeAll is = .ok script ∧ (is.map size).foldr (· + ·) 0 = script.length) ∧
    ∀ is, ((∃ script, encodeAll is = .ok script) ↔ ∀ i ∈ is, i.op.operand.Admits i.payload.length) ∧
      ∀ script, encodeAll is = .ok script →
        decode script = .ok (is.map normal) ∧
        ((∀ i ∈ is, i.normal = i) → decode script = .ok is) := by
  refine ⟨fun script is h => ?_, fun is => ⟨encodeAll_ok_iff, fun script h => ?_⟩⟩
  · have hs := (encodeAll_of_decodeFrom h).1
    exact ⟨hs, sum_size_of_encodeAll hs⟩
  · exact ⟨decodeFrom_of_encodeAll h 0, fun hn => decode_eq_ok_iff.mpr ⟨h, hn⟩⟩

/-- An empty operand that is missing comes back where it is counted, and one that is there is lost
where the opcode has none. -/
theorem decode_encodeAll_inverse_empty_operands :
    encodeAll [⟨.pushData1, none⟩, ⟨.ret, some []⟩, ⟨.jmp, some [5]⟩] =
      .ok [0x0c, 0, 0x40, 0x22, 5] ∧
    decode [0x0c, 0, 0x40, 0x22, 5] =
      .ok [⟨.pushData1, some []⟩, ⟨.ret, none⟩, ⟨.jmp, some [5]⟩] ∧
    encodeAll [⟨.pushData1, some []⟩, ⟨.ret, none⟩, ⟨.jmp, some [5]⟩] =
      .ok [0x0c, 0, 0x40, 0x22, 5] := by
  have he : encodeAll [⟨.pushData1, none⟩, ⟨.ret, some []⟩, ⟨.jmp, some [5]⟩] =
      .ok [0x0c, 0, 0x40, 0x22, 5] := rfl
  have hd := ((decode_encodeAll_inverse.2 _).2 _ he).1
  exact ⟨he, hd, (decode_encodeAll_inverse.1 _ _ hd).1⟩

end Instruction

end ScriptKit
