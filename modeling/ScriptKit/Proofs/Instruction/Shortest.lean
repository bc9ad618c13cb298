import ScriptKit.Proofs.Instruction.Push

namespace ScriptKit

/-- The width of the length field that stands before an operand. -/
def OperandRule.lengthWidth : OperandRule → Nat
  | counted width => width
  | _ => 0

namespace Instruction

/-- The opcodes that push an integer on their own push -1 to 16, in the order of their codes. -/
theorem smallInt?_eq_some {op : Opcode} {value : Int} (h : op.smallInt? = some value) :
    -1 ≤ value ∧ value ≤ 16 ∧ (op.code.toNat : Int) = 0x10 + value := by
  have hlow : Opcode.pushM1.code.toNat = 15 := rfl
  have hhigh : Opcode.push16.code.toNat = 32 := rfl
  have hzero : Opcode.push0.code.toNat = 16 := rfl
  rw [Opcode.smallInt?, Option.ite_none_right_eq_some, Option.some.injEq, hzero,
    UInt8.le_iff_toNat_le, UInt8.le_iff_toNat_le, hlow, hhigh] at h
  omega

theorem code_of_smallInt? {op : Opcode} {n : Nat} (h : op.smallInt? = some (n : Int)) :
    op.code = UInt8.ofNat (0x10 + n) := by
  obtain ⟨-, hhigh, hcode⟩ := smallInt?_eq_some h
  apply UInt8.toNat_inj.mp
  rw [UInt8.toNat_ofNat']
  omega

/-- The widths of the integer pushes are listed in ascending order. -/
theorem intPushes_ascend : Opcode.intPushes.Pairwise fun a b => a.1 ≤ b.1 := by decide

theorem size_of_intPush {op : Opcode} {operand : Bytes}
    (h : (operand.length, op) ∈ Opcode.intPushes) :
    size ⟨op, some operand⟩ = 1 + operand.length := by
  simp only [size, (intPushes_table h).2]

/-- An integer that some operand spells fits into as many bytes. -/
theorem ofInt?_of_toInt {operand : Bytes} {value : Int}
    (h : LittleEndian.toInt true operand = value) :
    LittleEndian.ofInt? true operand.length value = some operand := by
  rw [← h, LittleEndian.ofInt?_toInt]

theorem size_pushInt_le {value : Int} {i j : Instruction} (h : pushInt value = .ok i)
    (hj : j.int? = .ok value) : i.size ≤ j.size := by
  by_cases hs : -1 ≤ value ∧ value ≤ 16
  · obtain ⟨op, ho, -, hr⟩ := ofSmallInt?_of_small hs.1 hs.2
    simp only [pushInt, ho] at h
    obtain rfl := Except.ok.inj h
    have hi : size ⟨op, none⟩ = 1 := by simp only [size, hr]
    rw [hi]
    exact one_le_size j
  · simp only [pushInt, ofSmallInt?_of_large hs] at h
    split at h
    · next found hf =>
      obtain rfl := Except.ok.inj h
      rcases int?_eq_ok.mp hj with hsmall | ⟨operand, hjo, hmem, hval⟩
      · obtain ⟨hl, hu, -⟩ := smallInt?_eq_some hsmall
        exact absurd ⟨hl, hu⟩ hs
      -- The search passes by the pushes that are too narrow and takes the first other one.
      obtain ⟨narrow, ⟨width, op⟩, wide, hlist, hfound, hnone⟩ :=
        List.findSome?_eq_some_iff.mp hf
      obtain ⟨operand', hi, rfl⟩ := Option.map_eq_some_iff.mp hfound
      obtain ⟨rfl, -⟩ := LittleEndian.ofInt?_eq_some hi
      have hasc := intPushes_ascend
      have hmem' : (operand'.length, op) ∈ Opcode.intPushes := by
        rw [hlist]
        exact List.mem_append_right _ List.mem_cons_self
      rw [hlist, List.pairwise_append, List.pairwise_cons] at hasc
      rw [hjo, size_of_intPush hmem, size_of_intPush hmem', Nat.add_le_add_iff_left]
      rw [hlist] at hmem
      rcases List.mem_append.mp hmem with hn | hw
      · have hno := hnone _ hn
        simp [ofInt?_of_toInt hval] at hno
      · rcases List.mem_cons.mp hw with he | hw
        · rw [(Prod.mk.inj he).1]
        · exact hasc.2.1.1 _ hw
    · cases h

/-- An integer that fits an operand is pushed with one no wider. -/
theorem size_pushInt_of_fits {width : Nat} {op : Opcode} {value : Int} {i : Instruction}
    (hm : (width, op) ∈ Opcode.intPushes) (hf : LittleEndian.Fits true width value)
    (h : pushInt value = .ok i) : i.size ≤ 1 + width := by
  have hl := LittleEndian.length_ofNat width (value % LittleEndian.count width).toNat
  rw [← hl] at hm
  have hpush : int? ⟨op, some (LittleEndian.ofNat width
      (value % LittleEndian.count width).toNat)⟩ = .ok value :=
    int?_eq_ok.mpr (.inr ⟨_, rfl, hm, LittleEndian.toInt_ofNat hf⟩)
  have hsize := size_pushInt_le h hpush
  rwa [size_of_intPush hm, hl] at hsize

/-- The length fields of the data pushes are listed in ascending order. -/
theorem dataPushes_ascend :
    dataPushes.Pairwise fun a b => a.operand.lengthWidth ≤ b.operand.lengthWidth := by decide

theorem size_of_dataPush {i : Instruction} (h : i.op ∈ dataPushes) :
    i.size = 1 + i.op.operand.lengthWidth + i.payload.length := by
  obtain ⟨width, hr, -⟩ := dataPushes_table h
  simp only [size, hr, OperandRule.lengthWidth]

theorem size_pushBytes_le {bytes : Bytes} {i j : Instruction} (h : pushBytes bytes = .ok i)
    (hm : j.op ∈ dataPushes) (hv : j.IsValid) (hp : j.payload = bytes) : i.size ≤ j.size := by
  obtain ⟨hmi, ho, -⟩ := pushBytes_eq_ok h
  have hpi : i.payload = j.payload := by
    rw [payload, ho, hp]
    rfl
  rw [size_of_dataPush hmi, size_of_dataPush hm, hpi, Nat.add_le_add_iff_right,
    Nat.add_le_add_iff_left]
  subst hp
  obtain ⟨op, hpush, rfl⟩ := map_eq_ok.mp h
  obtain ⟨width, hr, hmax, -⟩ := dataPushes_table hm
  have hpos := LittleEndian.count_pos width
  have hfits : j.payload.length ≤ j.op.operand.maxPayload := by
    simp only [IsValid, hr, OperandRule.Admits] at hv
    omega
  -- The search passes by the pushes with too narrow a length field.
  obtain ⟨-, narrow, wide, hlist, hnone⟩ :=
    List.find?_eq_some_iff_append.mp (dataPush_eq_ok_iff.mp hpush)
  have hasc := dataPushes_ascend
  rw [hlist, List.pairwise_append, List.pairwise_cons] at hasc
  rw [hlist] at hm
  rcases List.mem_append.mp hm with hn | hw
  · have hno := hnone _ hn
    simp [hfits] at hno
  · rcases List.mem_cons.mp hw with he | hw
    · rw [he]
    · exact hasc.2.1.1 _ hw

end Instruction

end ScriptKit
