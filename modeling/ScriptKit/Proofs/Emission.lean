import ScriptKit.Emission
import ScriptKit.Proofs.Instruction.Push

namespace ScriptKit.Emission

/-- What is written for the instruction that was found, if one was. -/
def push : Except Fault Instruction → Emission
  | .ok i => instruction i
  | .error fault => failed fault

@[simp] theorem result_ofResult (x : Except Fault Bytes) : (ofResult x).result = x := by
  cases x <;> rfl

@[simp] theorem result_instruction (i : Instruction) : (instruction i).result = i.encode :=
  result_ofResult i.encode

/-- Two steps succeed if both do, and write the one after the other. -/
theorem result_andThen {first second : Emission} {written : Bytes} :
    (first.andThen second).result = .ok written ↔
      ∃ a b, first.result = .ok a ∧ second.result = .ok b ∧ a ++ b = written := by
  obtain ⟨a, fault?⟩ := first
  cases fault? with
  | some fault => simp [andThen, result]
  | none =>
    obtain ⟨b, fault?⟩ := second
    cases fault? <;> simp [andThen, result]

theorem result_push {x : Except Fault Instruction} {written : Bytes} :
    (push x).result = .ok written ↔ ∃ i, x = .ok i ∧ i.encode = .ok written := by
  cases x with
  | error fault => simp [push, failed, result]
  | ok i => simp [push]

/-- Two steps fail to give a result only if one of them does. -/
theorem result_andThen_ok_iff {first second : Emission} :
    (∃ written, (first.andThen second).result = .ok written) ↔
      (∃ a, first.result = .ok a) ∧ ∃ b, second.result = .ok b := by
  simp only [result_andThen]
  constructor
  · intro h
    obtain ⟨_, a, b, ha, hb, _⟩ := h
    exact ⟨⟨a, ha⟩, b, hb⟩
  · intro h
    obtain ⟨⟨a, ha⟩, b, hb⟩ := h
    exact ⟨a ++ b, a, b, ha, hb, rfl⟩

theorem null_eq : null = instruction .pushNull := rfl

theorem bool_eq (value : Bool) : bool value = instruction (.pushBool value) := by
  cases value <;> rfl

/-- Nothing stands between the opcode and the operand of the push of an integer. -/
theorem int_eq (value : Int) : int value = push (Instruction.pushInt value) := by
  rw [int]
  cases hp : Instruction.pushInt value with
  | error fault => rfl
  | ok i =>
    obtain ⟨-, hv, -⟩ := Instruction.pushInt_eq_ok hp
    have he : i.encode = .ok (i.op.code :: i.payload) :=
      Instruction.encode_eq_ok_iff.mpr ⟨hv, by rw [Instruction.lengthField_of_pushInt hp]; rfl⟩
    change raw i.op i.payload = ofResult i.encode
    rw [he]
    rfl

/-- The bytes cut off from a length of four are the length field of the push. -/
theorem data_eq (value : Bytes) : data value = push (Instruction.pushBytes value) := by
  rw [data]
  cases ho : Instruction.dataPush value.length with
  | error fault => rw [Instruction.pushBytes, ho]; rfl
  | ok op =>
    have hp : Instruction.pushBytes value = .ok ⟨op, some value⟩ := by
      rw [Instruction.pushBytes, ho]
      rfl
    obtain ⟨hm, -, hv⟩ := Instruction.pushBytes_eq_ok hp
    obtain ⟨width, hr, -⟩ := Instruction.dataPushes_table hm
    have he : Instruction.encode ⟨op, some value⟩ =
        .ok (op.code :: (LittleEndian.ofNat width value.length ++ value)) :=
      Instruction.encode_eq_ok_iff.mpr ⟨hv, by
        simp only [hr, OperandRule.lengthField, Instruction.payload, Option.getD_some]⟩
    rw [hp]
    change _ = ofResult (Instruction.encode ⟨op, some value⟩)
    simp only [hr, LittleEndian.take_ofNat _ (Instruction.width_le_of_dataPush hm hr), he]
    rfl

theorem result_int {value : Int} {written : Bytes} :
    (int value).result = .ok written ↔
      ∃ i, Instruction.pushInt value = .ok i ∧ i.encode = .ok written := by
  rw [int_eq, result_push]

theorem result_data {value written : Bytes} :
    (data value).result = .ok written ↔
      ∃ i, Instruction.pushBytes value = .ok i ∧ i.encode = .ok written := by
  rw [data_eq, result_push]

theorem decode_int {value : Int} {written : Bytes} (h : (int value).result = .ok written) :
    ∃ i, Instruction.decode written = .ok [i] ∧ i.int? = .ok value := by
  obtain ⟨i, hp, he⟩ := result_int.mp h
  obtain ⟨hv, -, hn⟩ := Instruction.pushInt_eq_ok hp
  exact ⟨i, Instruction.decode_of_encode he hn, hv⟩

theorem int_ok_iff {value : Int} :
    (∃ written, (int value).result = .ok written) ↔ -2 ^ 255 ≤ value ∧ value < 2 ^ 255 := by
  rw [← Instruction.pushInt_ok_iff]
  constructor
  · intro h
    obtain ⟨written, h⟩ := h
    obtain ⟨i, hp, -⟩ := result_int.mp h
    exact ⟨i, hp⟩
  · intro h
    obtain ⟨i, hp⟩ := h
    obtain ⟨-, hv, -⟩ := Instruction.pushInt_eq_ok hp
    exact ⟨_, result_int.mpr ⟨i, hp, Instruction.encode_eq_ok_iff.mpr ⟨hv, rfl⟩⟩⟩

theorem decode_data {value written : Bytes} (h : (data value).result = .ok written) :
    ∃ i, Instruction.decode written = .ok [i] ∧ i.op ∈ Instruction.dataPushes ∧
      i.payload = value := by
  obtain ⟨i, hp, he⟩ := result_data.mp h
  obtain ⟨hm, ho, -⟩ := Instruction.pushBytes_eq_ok hp
  refine ⟨i, Instruction.decode_of_encode he (Instruction.normal_of_dataPush hm ho), hm, ?_⟩
  rw [Instruction.payload, ho]
  rfl

theorem data_ok_iff {value : Bytes} :
    (∃ written, (data value).result = .ok written) ↔ value.length < 2 ^ 32 := by
  rw [← Instruction.pushBytes_ok_iff]
  constructor
  · intro h
    obtain ⟨written, h⟩ := h
    obtain ⟨i, hp, -⟩ := result_data.mp h
    exact ⟨i, hp⟩
  · intro h
    obtain ⟨i, hp⟩ := h
    obtain ⟨-, -, hv⟩ := Instruction.pushBytes_eq_ok hp
    exact ⟨_, result_data.mpr ⟨i, hp, Instruction.encode_eq_ok_iff.mpr ⟨hv, rfl⟩⟩⟩

end ScriptKit.Emission
