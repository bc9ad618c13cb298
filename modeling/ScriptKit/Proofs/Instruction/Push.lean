import Mathlib.Tactic.IntervalCases
import ScriptKit.Instruction.Push
import ScriptKit.Proofs.Instruction.Codec

namespace ScriptKit.Instruction

theorem intPushes_table {width : Nat} {op : Opcode} (h : (width, op) ∈ Opcode.intPushes) :
    op.smallInt? = none ∧ op.operand = .fixed width := by
  simp only [Opcode.intPushes, List.mem_cons, Prod.mk.injEq, List.not_mem_nil, or_false] at h
  rcases h with ⟨rfl, rfl⟩ | ⟨rfl, rfl⟩ | ⟨rfl, rfl⟩ | ⟨rfl, rfl⟩ | ⟨rfl, rfl⟩ | ⟨rfl, rfl⟩ <;>
    exact ⟨rfl, rfl⟩

theorem isIntPush_iff {op : Opcode} :
    op.isIntPush = true ↔ ∃ width, (width, op) ∈ Opcode.intPushes := by
  simp only [Opcode.isIntPush, List.any_eq_true, beq_iff_eq]
  constructor
  · intro h
    obtain ⟨⟨width, _⟩, hm, rfl⟩ := h
    exact ⟨width, hm⟩
  · intro h
    obtain ⟨width, hm⟩ := h
    exact ⟨_, hm, rfl⟩

/-- An integer comes from a push of one byte or from an operand of the right width. -/
theorem int?_eq_ok {i : Instruction} {value : Int} :
    i.int? = .ok value ↔
      i.op.smallInt? = some value ∨
        ∃ operand, i = ⟨i.op, some operand⟩ ∧ (operand.length, i.op) ∈ Opcode.intPushes ∧
          LittleEndian.toInt true operand = value := by
  obtain ⟨op, operand?⟩ := i
  constructor
  · intro h
    simp only [int?] at h
    split at h
    · next small hs =>
      left
      rw [hs, Except.ok.inj h]
    · next operand hs =>
      split at h
      · next hp =>
        obtain ⟨width, hm⟩ := isIntPush_iff.mp hp
        obtain ⟨_, hc, rfl⟩ := map_eq_ok.mp h
        have hl := checkFixed_eq_ok.mp hc
        rw [(intPushes_table hm).2] at hl
        exact .inr ⟨operand, rfl, hl ▸ hm, rfl⟩
      · cases h
    · cases h
  · rintro (hs | ⟨operand, he, hm, rfl⟩)
    · simp only [int?, hs]
    · obtain ⟨-, rfl⟩ := Instruction.mk.inj he
      obtain ⟨hs, hw⟩ := intPushes_table hm
      have hc : checkFixed op operand = .ok () := checkFixed_eq_ok.mpr (by rw [hw]; rfl)
      simp only [int?, hs, isIntPush_iff.mpr ⟨_, hm⟩, ↓reduceIte, hc]
      rfl

/-- Of the integers from -1 to 16 each has its opcode. -/
theorem ofSmallInt?_of_small {value : Int} (hl : -1 ≤ value) (hu : value ≤ 16) :
    ∃ op, Opcode.ofSmallInt? value = some op ∧ op.smallInt? = some value ∧
      op.operand = .none := by
  interval_cases value <;> exact ⟨_, rfl, rfl, rfl⟩

theorem ofSmallInt?_of_large {value : Int} (h : ¬(-1 ≤ value ∧ value ≤ 16)) :
    Opcode.ofSmallInt? value = none := by
  rw [Opcode.ofSmallInt?, if_neg h]

/-- A canonical push has the operand that its opcode asks for and pushes its integer. -/
theorem pushInt_eq_ok {value : Int} {i : Instruction} (h : pushInt value = .ok i) :
    i.int? = .ok value ∧ i.IsValid ∧ i.normal = i := by
  by_cases hs : -1 ≤ value ∧ value ≤ 16
  · obtain ⟨op, ho, hv, hr⟩ := ofSmallInt?_of_small hs.1 hs.2
    simp only [pushInt, ho] at h
    obtain rfl := Except.ok.inj h
    refine ⟨int?_eq_ok.mpr (.inl hv), ?_, ?_⟩
    · simp [IsValid, hr, OperandRule.Admits, payload]
    · simp [normal, hr]
  · simp only [pushInt, ofSmallInt?_of_large hs] at h
    split at h
    · next found hf =>
      obtain rfl := Except.ok.inj h
      obtain ⟨⟨width, op⟩, hm, ho⟩ := List.exists_of_findSome?_eq_some hf
      obtain ⟨operand, hi, rfl⟩ := Option.map_eq_some_iff.mp ho
      obtain ⟨rfl, rfl⟩ := LittleEndian.ofInt?_eq_some hi
      have hw := (intPushes_table hm).2
      refine ⟨int?_eq_ok.mpr (.inr ⟨operand, rfl, hm, rfl⟩), ?_, ?_⟩
      · simp [IsValid, hw, OperandRule.Admits, payload]
      · simp [normal, hw]
    · cases h

/-- The operand of a push of an integer has no length before it. -/
theorem lengthField_of_pushInt {value : Int} {i : Instruction} (h : pushInt value = .ok i)
    (length : Nat) : i.op.operand.lengthField length = [] := by
  by_cases hs : -1 ≤ value ∧ value ≤ 16
  · obtain ⟨op, ho, -, hr⟩ := ofSmallInt?_of_small hs.1 hs.2
    simp only [pushInt, ho] at h
    obtain rfl := Except.ok.inj h
    simp only [hr, OperandRule.lengthField]
  · simp only [pushInt, ofSmallInt?_of_large hs] at h
    split at h
    · next found hf =>
      obtain rfl := Except.ok.inj h
      obtain ⟨⟨width, op⟩, hm, ho⟩ := List.exists_of_findSome?_eq_some hf
      obtain ⟨operand, -, rfl⟩ := Option.map_eq_some_iff.mp ho
      simp only [(intPushes_table hm).2, OperandRule.lengthField]
    · cases h

/-- No operand is wider than the widest. -/
theorem count_le_of_mem_intPushes {width : Nat} {op : Opcode}
    (h : (width, op) ∈ Opcode.intPushes) : LittleEndian.count width ≤ 2 ^ 256 := by
  simp only [Opcode.intPushes, List.mem_cons, Prod.mk.injEq, List.not_mem_nil, or_false] at h
  rcases h with ⟨rfl, -⟩ | ⟨rfl, -⟩ | ⟨rfl, -⟩ | ⟨rfl, -⟩ | ⟨rfl, -⟩ | ⟨rfl, -⟩ <;> decide

/-- An integer that an operand holds lies in the range of the widest one. -/
theorem toInt_bounds {op : Opcode} {operand : Bytes}
    (h : (operand.length, op) ∈ Opcode.intPushes) :
    -2 ^ 255 ≤ LittleEndian.toInt true operand ∧ LittleEndian.toInt true operand < 2 ^ 255 := by
  have hf := LittleEndian.fits_toInt true operand
  have hc := count_le_of_mem_intPushes h
  simp only [LittleEndian.Fits, ↓reduceIte] at hf
  omega

theorem pushInt_ok_iff {value : Int} :
    (∃ i, pushInt value = .ok i) ↔ -2 ^ 255 ≤ value ∧ value < 2 ^ 255 := by
  by_cases hs : -1 ≤ value ∧ value ≤ 16
  · obtain ⟨op, ho, -⟩ := ofSmallInt?_of_small hs.1 hs.2
    simp only [pushInt, ho, Except.ok.injEq, exists_eq', true_iff]
    omega
  · simp only [pushInt, ofSmallInt?_of_large hs]
    constructor
    · intro h
      obtain ⟨i, h⟩ := h
      split at h
      · next found hf =>
        obtain ⟨⟨width, op⟩, hm, ho⟩ := List.exists_of_findSome?_eq_some hf
        obtain ⟨operand, hi, -⟩ := Option.map_eq_some_iff.mp ho
        obtain ⟨rfl, rfl⟩ := LittleEndian.ofInt?_eq_some hi
        exact toInt_bounds hm
      · cases h
    · intro hr
      split
      · exact ⟨_, rfl⟩
      · next hn =>
        have h256 := List.findSome?_eq_none_iff.mp hn (32, .pushInt256) (by decide)
        have hf : LittleEndian.Fits true 32 value := by
          have hc : LittleEndian.count 32 = 2 ^ 256 := by decide
          simp only [LittleEndian.Fits, ↓reduceIte, hc]
          omega
        simp [LittleEndian.ofInt?_eq, hf] at h256

theorem dataPushes_table {op : Opcode} (h : op ∈ dataPushes) :
    ∃ width, op.operand = .counted width ∧
      op.operand.maxPayload = LittleEndian.count width - 1 ∧
      op.operand.maxPayload < 2 ^ 32 := by
  simp only [dataPushes, List.mem_cons, List.not_mem_nil, or_false] at h
  rcases h with rfl | rfl | rfl <;> exact ⟨_, rfl, by decide, by decide⟩

theorem width_le_of_dataPush {op : Opcode} {width : Nat} (h : op ∈ dataPushes)
    (hr : op.operand = .counted width) : width ≤ 4 := by
  simp only [dataPushes, List.mem_cons, List.not_mem_nil, or_false] at h
  rcases h with rfl | rfl | rfl <;> cases hr <;> omega

/-- The data push for so many bytes is the first whose length field is wide enough. -/
theorem dataPush_eq_ok_iff {length : Nat} {op : Opcode} :
    dataPush length = .ok op ↔
      dataPushes.find? (fun op => length ≤ op.operand.maxPayload) = some op := by
  have h1 : Opcode.pushData1.operand.maxPayload = 0xff := rfl
  have h2 : Opcode.pushData2.operand.maxPayload = 0xffff := rfl
  have h4 : Opcode.pushData4.operand.maxPayload = 0xffffffff := rfl
  simp only [dataPush, dataPushes, List.find?_cons, List.find?_nil, h1, h2, h4]
  by_cases hone : length ≤ 0xff
  · simp [hone]
  · by_cases htwo : length ≤ 0xffff
    · simp [hone, htwo]
    · by_cases hfour : length ≤ 0xffffffff <;> simp [hone, htwo, hfour]

theorem dataPush_ok_iff {length : Nat} :
    (∃ op, dataPush length = .ok op) ↔ length < 2 ^ 32 := by
  rw [dataPush]
  constructor
  · intro h
    obtain ⟨op, h⟩ := h
    split at h
    · omega
    · split at h
      · omega
      · split at h
        · omega
        · cases h
  · intro h
    split
    · exact ⟨_, rfl⟩
    · split
      · exact ⟨_, rfl⟩
      · rw [if_pos (by omega)]
        exact ⟨_, rfl⟩

/-- A canonical push has a length field that its data fit, and pushes its data. -/
theorem pushBytes_eq_ok {bytes : Bytes} {i : Instruction} (h : pushBytes bytes = .ok i) :
    i.op ∈ dataPushes ∧ i.operand = some bytes ∧ i.IsValid := by
  obtain ⟨op, ho, rfl⟩ := map_eq_ok.mp h
  have hf := dataPush_eq_ok_iff.mp ho
  have hm := List.mem_of_find?_eq_some hf
  have hl : bytes.length ≤ op.operand.maxPayload := by simpa using List.find?_some hf
  obtain ⟨width, hr, hp, -⟩ := dataPushes_table hm
  have hpos := LittleEndian.count_pos width
  refine ⟨hm, rfl, ?_⟩
  simp only [IsValid, hr, OperandRule.Admits, payload, Option.getD_some]
  omega

/-- A push of data is as it comes back from a script. -/
theorem normal_of_dataPush {i : Instruction} {bytes : Bytes} (h : i.op ∈ dataPushes)
    (ho : i.operand = some bytes) : i.normal = i := by
  obtain ⟨op, operand⟩ := i
  obtain ⟨width, hr, -⟩ := dataPushes_table h
  simp only at hr ho
  simp [normal, hr, ho, payload]

theorem pushBytes_ok_iff {bytes : Bytes} :
    (∃ i, pushBytes bytes = .ok i) ↔ bytes.length < 2 ^ 32 := by
  rw [← dataPush_ok_iff]
  simp only [pushBytes, map_eq_ok]
  constructor
  · intro h
    obtain ⟨-, op, ho, -⟩ := h
    exact ⟨op, ho⟩
  · intro h
    obtain ⟨op, ho⟩ := h
    exact ⟨_, op, ho, rfl⟩

end ScriptKit.Instruction
