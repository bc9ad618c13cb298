import ScriptKit.Proofs.Bytes.FixedWidth
import ScriptKit.Proofs.Instruction.Shortest

namespace ScriptKit.Instruction

/-- Whether a signed operand of so many bytes holds the integer. -/
def InRange (width : Nat) (value : Int) : Prop :=
  -2 ^ (8 * width - 1) ≤ value ∧ value < 2 ^ (8 * width - 1)

/-- What the canonical push of an integer is. -/
inductive Canonical (value : Int) : Instruction → Prop where
  /-- The opcodes of one byte stand in the order of what they push, with 0x10 for zero. -/
  | small {op : Opcode} (low : -1 ≤ value) (high : value ≤ 16)
      (code : (op.code.toNat : Int) = 0x10 + value) : Canonical value ⟨op, none⟩
  | wide {op : Opcode} {operand : Bytes} (large : value < -1 ∨ 16 < value)
      (push : (operand.length, op) ∈ Opcode.intPushes)
      (spells : LittleEndian.toInt true operand = value)
      (fits : InRange operand.length value)
      (least : ∀ width ∈ [1, 2, 4, 8, 16, 32], InRange width value → operand.length ≤ width) :
      Canonical value ⟨op, some operand⟩

variable {value : Int} {width : Nat} {op : Opcode} {i j : Instruction}

theorem inRange_iff (h : 0 < width) : InRange width value ↔ LittleEndian.Fits true width value := by
  rw [LittleEndian.fits_iff_inRange h, LittleEndian.InRange, if_pos rfl, InRange]

/-- The widths of the integer pushes, each with its opcode. -/
theorem mem_widths_iff : width ∈ [1, 2, 4, 8, 16, 32] ↔ ∃ op, (width, op) ∈ Opcode.intPushes := by
  simp [Opcode.intPushes, exists_or]

theorem width_pos (h : (width, op) ∈ Opcode.intPushes) : 0 < width := by
  have hw := mem_widths_iff.mpr ⟨op, h⟩
  simp only [List.mem_cons, List.not_mem_nil, or_false] at hw
  omega

theorem op_unique {other : Opcode} (h : (width, op) ∈ Opcode.intPushes)
    (ho : (width, other) ∈ Opcode.intPushes) : op = other := by
  have hnodup : (Opcode.intPushes.map Prod.fst).Nodup := by decide
  exact (Prod.mk.inj (List.inj_on_of_nodup_map hnodup h ho rfl)).2

theorem canonical_of_pushInt (h : pushInt value = .ok i) : Canonical value i := by
  by_cases hs : -1 ≤ value ∧ value ≤ 16
  · obtain ⟨op, ho, hv, -⟩ := ofSmallInt?_of_small hs.1 hs.2
    simp only [pushInt, ho] at h
    obtain rfl := Except.ok.inj h
    obtain ⟨hlow, hhigh, hcode⟩ := smallInt?_eq_some hv
    exact .small hlow hhigh hcode
  · simp only [pushInt, ofSmallInt?_of_large hs] at h
    split at h
    · next found hf =>
      obtain rfl := Except.ok.inj h
      obtain ⟨narrow, ⟨width, op⟩, wide, hlist, hfound, hnone⟩ :=
        List.findSome?_eq_some_iff.mp hf
      obtain ⟨operand, hi, rfl⟩ := Option.map_eq_some_iff.mp hfound
      obtain ⟨rfl, rfl⟩ := LittleEndian.ofInt?_eq_some hi
      have hpush : (operand.length, op) ∈ Opcode.intPushes := by
        rw [hlist]
        exact List.mem_append_right _ List.mem_cons_self
      refine .wide (by omega) hpush rfl
        ((inRange_iff (width_pos hpush)).mpr (LittleEndian.fits_toInt true operand)) ?_
      intro other hw hr
      obtain ⟨op', hm⟩ := mem_widths_iff.mp hw
      have hfits := (inRange_iff (width_pos hm)).mp hr
      -- A push that was passed by had no room, and those behind are wider.
      have hasc := intPushes_ascend
      rw [hlist, List.pairwise_append, List.pairwise_cons] at hasc
      rw [hlist] at hm
      rcases List.mem_append.mp hm with hn | hb
      · have hno := hnone _ hn
        simp [LittleEndian.ofInt?_eq, hfits] at hno
      · rcases List.mem_cons.mp hb with he | hb
        · rw [(Prod.mk.inj he).1]
        · exact hasc.2.1.1 _ hb
    · cases h

theorem Canonical.unique (hi : Canonical value i) (hj : Canonical value j) : i = j := by
  cases hi with
  | small low high code =>
    cases hj with
    | small _ _ code' =>
      have hcode := UInt8.toNat_inj.mp (Int.natCast_inj.mp (code.trans code'.symm))
      rw [Opcode.code_inj hcode]
    | wide large => omega
  | wide large push spells fits least =>
    cases hj with
    | small low high => omega
    | wide _ push' spells' fits' least' =>
      have hlength := Nat.le_antisymm (least _ (mem_widths_iff.mpr ⟨_, push'⟩) fits')
        (least' _ (mem_widths_iff.mpr ⟨_, push⟩) fits)
      have hoperand := (ofInt?_of_toInt spells).symm.trans (hlength ▸ ofInt?_of_toInt spells')
      obtain rfl := Option.some.inj hoperand
      rw [op_unique push push']

theorem Canonical.bounds (h : Canonical value i) : -2 ^ 255 ≤ value ∧ value < 2 ^ 255 := by
  cases h with
  | small low high => omega
  | wide large push spells => exact spells ▸ toInt_bounds push

theorem pushInt_eq_ok_iff : pushInt value = .ok i ↔ Canonical value i := by
  refine ⟨canonical_of_pushInt, fun h => ?_⟩
  obtain ⟨j, hj⟩ := pushInt_ok_iff.mpr h.bounds
  rw [hj, h.unique (canonical_of_pushInt hj)]

theorem pushInt_error (h : ¬(-2 ^ 255 ≤ value ∧ value < 2 ^ 255)) :
    pushInt value = .error (.integerOverflow value) := by
  have hno := mt pushInt_ok_iff.mp h
  rw [pushInt] at hno ⊢
  split
  · next op ho =>
    rw [ho] at hno
    exact absurd ⟨_, rfl⟩ hno
  · next ho =>
    simp only [ho] at hno ⊢
    split
    · next found hf =>
      simp only [hf] at hno
      exact absurd ⟨_, rfl⟩ hno
    · rfl

theorem operand_of_code (low : -1 ≤ value) (high : value ≤ 16)
    (code : (op.code.toNat : Int) = 0x10 + value) : op.operand = .none := by
  obtain ⟨other, -, hv, hr⟩ := ofSmallInt?_of_small low high
  obtain ⟨-, -, hother⟩ := smallInt?_eq_some hv
  rw [Opcode.code_inj (UInt8.toNat_inj.mp (Int.natCast_inj.mp (code.trans hother.symm)))]
  exact hr

theorem int?_bounds (h : i.int? = .ok value) : -2 ^ 255 ≤ value ∧ value < 2 ^ 255 := by
  rcases int?_eq_ok.mp h with hsmall | ⟨operand, -, hm, rfl⟩
  · obtain ⟨hlow, hhigh, -⟩ := smallInt?_eq_some hsmall
    omega
  · exact toInt_bounds hm

/-- Of the instructions in scripts that push an integer only the canonical push is as short as the
canonical push. -/
theorem eq_of_size_eq (hi : Canonical value i) (h : j.int? = .ok value) (hn : j.normal = j)
    (hs : i.size = j.size) : i = j := by
  rcases int?_eq_ok.mp h with hsmall | ⟨operand, hj, hm, hspells⟩
  · obtain ⟨hlow, hhigh, hcode⟩ := smallInt?_eq_some hsmall
    have hj : j = ⟨j.op, none⟩ := by
      rw [← hn, normal, operand_of_code hlow hhigh hcode]
    rw [hj]
    exact hi.unique (.small hlow hhigh hcode)
  · rw [hj, size_of_intPush hm] at hs
    cases hi with
    | small low high code =>
      have hpos := width_pos hm
      simp only [size, operand_of_code low high code] at hs
      omega
    | wide large push spells fits least =>
      rw [size_of_intPush push] at hs
      have hoperand := ofInt?_of_toInt spells
      rw [Nat.add_left_cancel hs, ofInt?_of_toInt hspells, Option.some.injEq] at hoperand
      subst hoperand
      rw [hj, op_unique push hm]

/-- An integer has a canonical push from -2^255 up to 2^255, and else is refused as too large. The
push reads back as the integer and is the one that the integer alone tells. Of all instructions of
scripts that push an integer, its canonical push is the shortest, and no other is as short. -/
theorem pushInt_canonical_exact_shortest :
    (∀ value, (∃ i, pushInt value = .ok i) ↔ -2 ^ 255 ≤ value ∧ value < 2 ^ 255) ∧
    (∀ value, ¬(-2 ^ 255 ≤ value ∧ value < 2 ^ 255) →
      pushInt value = .error (.integerOverflow value)) ∧
    (∀ value i, pushInt value = .ok i ↔ Canonical value i) ∧
    (∀ value i, pushInt value = .ok i → i.int? = .ok value) ∧
    ∀ script is, decode script = .ok is → ∀ j ∈ is, ∀ value, j.int? = .ok value →
      ∃ i, pushInt value = .ok i ∧ i.size ≤ j.size ∧ (i.size = j.size → i = j) := by
  refine ⟨fun _ => pushInt_ok_iff, fun _ => pushInt_error, fun _ _ => pushInt_eq_ok_iff,
    fun _ _ h => (pushInt_eq_ok h).1, ?_⟩
  intro script is hd j hj value hv
  have hn := (decode_eq_ok_iff.mp hd).2 j hj
  obtain ⟨i, hi⟩ := pushInt_ok_iff.mpr (int?_bounds hv)
  exact ⟨i, hi, size_pushInt_le hi hv, eq_of_size_eq (canonical_of_pushInt hi) hv hn⟩

/-- The least integer of two bytes is pushed with four, and the least of all with as many as it
needs; the one below has no push. -/
theorem pushInt_canonical_exact_shortest_least_integers :
    (decode [0x02, 0x00, 0x80, 0xff, 0xff] = .ok [⟨.pushInt32, some [0x00, 0x80, 0xff, 0xff]⟩] ∧
      int? ⟨.pushInt32, some [0x00, 0x80, 0xff, 0xff]⟩ = .ok (-2 ^ 15) ∧
      ∃ i, pushInt (-2 ^ 15) = .ok i ∧ i.size ≤ 5 ∧
        (i.size = 5 → i = ⟨.pushInt32, some [0x00, 0x80, 0xff, 0xff]⟩)) ∧
    (∃ i, pushInt (-2 ^ 255) = .ok i ∧ i.int? = .ok (-2 ^ 255)) ∧
    (¬(-2 ^ 255 ≤ (-2 ^ 255 - 1 : Int) ∧ (-2 ^ 255 - 1 : Int) < 2 ^ 255) ∧
      pushInt (-2 ^ 255 - 1) = .error (.integerOverflow (-2 ^ 255 - 1))) := by
  obtain ⟨hrange, herror, -, hexact, hshortest⟩ := pushInt_canonical_exact_shortest
  have hread : decode [0x02, 0x00, 0x80, 0xff, 0xff] =
      .ok [⟨.pushInt32, some [0x00, 0x80, 0xff, 0xff]⟩] := by
    decide +kernel
  have hint : int? ⟨.pushInt32, some [0x00, 0x80, 0xff, 0xff]⟩ = .ok (-2 ^ 15) := by
    decide +kernel
  obtain ⟨i, hi⟩ := (hrange (-2 ^ 255)).mpr (by decide)
  have hout : ¬(-2 ^ 255 ≤ (-2 ^ 255 - 1 : Int) ∧ (-2 ^ 255 - 1 : Int) < 2 ^ 255) := by decide
  exact ⟨⟨hread, hint, hshortest _ _ hread _ List.mem_cons_self _ hint⟩,
    ⟨i, hi, hexact _ _ hi⟩, hout, herror _ hout⟩

end ScriptKit.Instruction
