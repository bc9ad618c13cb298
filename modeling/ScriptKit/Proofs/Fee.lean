import ScriptKit.Fee
import ScriptKit.Proofs.Instruction.Codec

namespace ScriptKit.FeeSchedule

variable {schedule : FeeSchedule} {before further : List Instruction} {i : Instruction}
  {price n : Nat}

/-- The number of 64 bits that an instruction pushes. -/
def numberOf (i : Instruction) : Except Fault Nat := do
  let value ← i.int?
  if 0 ≤ value ∧ value < UInt64.size then .ok value.toNat else .error (.misfit .multisigCheck)

theorem pushedBefore_of_some {distance : Nat} (h : before[distance]? = some i) :
    pushedBefore before distance = numberOf i := by
  rw [pushedBefore, h]
  rfl

theorem numberOf_eq_ok : numberOf i = .ok n ↔ i.int? = .ok (n : Int) ∧ n < 2 ^ 64 := by
  have hsize : UInt64.size = 2 ^ 64 := rfl
  rw [numberOf, bind_eq_ok]
  constructor
  · intro h
    obtain ⟨value, hv, h⟩ := h
    split at h
    · next hr =>
      obtain rfl := Except.ok.inj h
      rw [hv, Except.ok.injEq]
      omega
    · cases h
  · intro h
    obtain ⟨hv, hn⟩ := h
    refine ⟨n, hv, ?_⟩
    rw [if_pos (by omega), Int.toNat_natCast]

/-- A number found among the instructions before is found there when more come before them. -/
theorem pushedBefore_append {distance value : Nat} (h : pushedBefore before distance = .ok value) :
    pushedBefore (before ++ further) distance = .ok value := by
  cases hi : before[distance]? with
  | none => simp only [pushedBefore, hi, reduceCtorEq] at h
  | some i =>
    have hl : distance < before.length := (List.getElem?_eq_some_iff.mp hi).1
    rw [pushedBefore, hi] at h
    rw [pushedBefore, List.getElem?_append_left hl, hi]
    exact h

theorem threshold_append {signatures : Nat} (h : threshold before = .ok signatures) :
    threshold (before ++ further) = .ok signatures := by
  obtain ⟨keys, hk, ht⟩ := bind_eq_ok.mp h
  exact bind_eq_ok.mpr ⟨keys, pushedBefore_append hk, pushedBefore_append ht⟩

theorem servicePrice_append {service : Service}
    (h : schedule.servicePrice before service = .ok price) :
    schedule.servicePrice (before ++ further) service = .ok price := by
  rw [servicePrice] at h ⊢
  cases hp : service.price with
  | fixed price => rwa [hp] at h
  | perByte price => rwa [hp] at h
  | perSignature =>
    rw [hp] at h
    obtain ⟨signatures, hs, rfl⟩ := map_eq_ok.mp h
    exact map_eq_ok.mpr ⟨signatures, threshold_append hs, rfl⟩

/-- What calls no service has the price of its opcode. -/
theorem cost_of_ne_syscall (h : i.op ≠ .syscall) : schedule.cost before i = .ok i.op.price := by
  rw [cost, Instruction.serviceCode?, if_neg h]

/-- The price of an instruction does not depend on what stands further back than it looks. -/
theorem cost_append (h : schedule.cost before i = .ok price) :
    schedule.cost (before ++ further) i = .ok price := by
  rw [cost] at h ⊢
  cases hc : i.serviceCode? with
  | none => rwa [hc] at h
  | some code =>
    simp only [hc] at h ⊢
    cases hs : Service.ofCode? code with
    | none => simp only [hs, reduceCtorEq] at h
    | some service =>
      simp only [hs] at h ⊢
      obtain ⟨more, hm, rfl⟩ := map_eq_ok.mp h
      exact map_eq_ok.mpr ⟨more, servicePrice_append hm, rfl⟩

variable {is js : List Instruction} {total x y : Nat}

theorem costFrom_cons :
    schedule.costFrom before (i :: is) = .ok total ↔
      ∃ first others, schedule.cost before i = .ok first ∧
        schedule.costFrom (i :: before) is = .ok others ∧ first + others = total := by
  simp only [costFrom, bind_eq_ok, pure_eq_ok]
  constructor
  · intro h
    obtain ⟨first, hf, others, ho, he⟩ := h
    exact ⟨first, others, hf, ho, he⟩
  · intro h
    obtain ⟨first, others, hf, ho, he⟩ := h
    exact ⟨first, hf, others, ho, he⟩

/-- A sum that is found stays the same whatever is put before the instructions. -/
theorem costFrom_append_before (h : schedule.costFrom before is = .ok total) :
    schedule.costFrom (before ++ further) is = .ok total := by
  induction is generalizing before total with
  | nil => exact h
  | cons i rest ih =>
    obtain ⟨first, others, hf, ho, rfl⟩ := costFrom_cons.mp h
    have hrest : schedule.costFrom (i :: before ++ further) rest = .ok others := ih ho
    exact costFrom_cons.mpr ⟨first, others, cost_append hf, hrest, rfl⟩

/-- The second of two lists is priced in view of the first. -/
theorem costFrom_append :
    schedule.costFrom before (is ++ js) = .ok total ↔
      ∃ x y, schedule.costFrom before is = .ok x ∧
        schedule.costFrom (is.reverse ++ before) js = .ok y ∧ x + y = total := by
  induction is generalizing before total with
  | nil => simp [costFrom]
  | cons i rest ih =>
    rw [List.cons_append, costFrom_cons, List.reverse_cons, List.append_assoc]
    constructor
    · intro h
      obtain ⟨first, others, hf, ho, rfl⟩ := h
      obtain ⟨x, y, hx, hy, rfl⟩ := ih.mp ho
      exact ⟨first + x, y, costFrom_cons.mpr ⟨first, x, hf, hx, rfl⟩, hy, Nat.add_assoc ..⟩
    · intro h
      obtain ⟨x, y, hx, hy, rfl⟩ := h
      obtain ⟨first, others, hf, ho, rfl⟩ := costFrom_cons.mp hx
      exact ⟨first, others + y, hf, ih.mpr ⟨others, y, ho, hy, rfl⟩, (Nat.add_assoc ..).symm⟩

theorem baseCost_append_eq (hx : schedule.baseCost is = .ok x)
    (hy : schedule.baseCost js = .ok y) : schedule.baseCost (is ++ js) = .ok (x + y) := by
  rw [baseCost] at hx hy ⊢
  have hbehind : schedule.costFrom ([] ++ (is.reverse ++ [])) js = .ok y :=
    costFrom_append_before hy
  exact costFrom_append.mpr ⟨x, y, hx, hbehind, rfl⟩

/-- Where two scripts have fees, the fee of the one followed by the other is their sum, and so it is
with the base costs of two lists of instructions, whatever their operands are. -/
theorem fees_add_up (schedule : FeeSchedule) :
    (∀ a b x y, schedule.feeOfScript a = .ok x → schedule.feeOfScript b = .ok y →
      schedule.feeOfScript (a ++ b) = .ok (x + y)) ∧
    ∀ is js x y, schedule.baseCost is = .ok x → schedule.baseCost js = .ok y →
      schedule.baseCost (is ++ js) = .ok (x + y) := by
  refine ⟨fun a b x y hx hy => ?_, fun is js x y hx hy => baseCost_append_eq hx hy⟩
  obtain ⟨is, hi, hfi⟩ := bind_eq_ok.mp hx
  obtain ⟨js, hj, hfj⟩ := bind_eq_ok.mp hy
  obtain ⟨first, hf, rfl⟩ := map_eq_ok.mp hfi
  obtain ⟨second, hs, rfl⟩ := map_eq_ok.mp hfj
  refine bind_eq_ok.mpr ⟨is ++ js, Instruction.decode_append hi hj, ?_⟩
  exact map_eq_ok.mpr ⟨first + second, baseCost_append_eq hf hs, Nat.add_mul ..⟩

/-- Each of two scripts checks signatures by several keys, and the second one also stores an item.
An operand that no script can hold has a price among instructions. -/
theorem fees_add_up_two_checks :
    (feeOfScript ⟨30, some 5⟩ [0x11, 0x0b, 0x11, 0x41, 0x9e, 0xd0, 0xdc, 0x3a] = .ok 983130 ∧
      feeOfScript ⟨30, some 5⟩ [0x12, 0x0b, 0x0b, 0x12, 0x41, 0x9e, 0xd0, 0xdc, 0x3a,
        0x41, 0xe6, 0x3f, 0x18, 0x84] = .ok 16966200 ∧
      feeOfScript ⟨30, some 5⟩ ([0x11, 0x0b, 0x11, 0x41, 0x9e, 0xd0, 0xdc, 0x3a] ++
        [0x12, 0x0b, 0x0b, 0x12, 0x41, 0x9e, 0xd0, 0xdc, 0x3a, 0x41, 0xe6, 0x3f, 0x18, 0x84]) =
          .ok (983130 + 16966200)) ∧
    (baseCost ⟨1, none⟩ [⟨.push1, none⟩, ⟨.nop, some [7]⟩, ⟨.push1, none⟩,
        ⟨.syscall, some [0x9e, 0xd0, 0xdc, 0x3a]⟩] = .ok 32771 ∧
      baseCost ⟨1, none⟩ [⟨.syscall, some [1]⟩, ⟨.ret, none⟩] = .ok 0 ∧
      baseCost ⟨1, none⟩ ([⟨.push1, none⟩, ⟨.nop, some [7]⟩, ⟨.push1, none⟩,
        ⟨.syscall, some [0x9e, 0xd0, 0xdc, 0x3a]⟩] ++ [⟨.syscall, some [1]⟩, ⟨.ret, none⟩]) =
          .ok (32771 + 0)) := by
  have ha : feeOfScript ⟨30, some 5⟩ [0x11, 0x0b, 0x11, 0x41, 0x9e, 0xd0, 0xdc, 0x3a] =
      .ok 983130 := by
    decide +kernel
  have hb : feeOfScript ⟨30, some 5⟩ [0x12, 0x0b, 0x0b, 0x12, 0x41, 0x9e, 0xd0, 0xdc, 0x3a,
      0x41, 0xe6, 0x3f, 0x18, 0x84] = .ok 16966200 := by
    decide +kernel
  have hi : baseCost ⟨1, none⟩ [⟨.push1, none⟩, ⟨.nop, some [7]⟩, ⟨.push1, none⟩,
      ⟨.syscall, some [0x9e, 0xd0, 0xdc, 0x3a]⟩] = .ok 32771 := by
    decide +kernel
  have hj : baseCost ⟨1, none⟩ [⟨.syscall, some [1]⟩, ⟨.ret, none⟩] = .ok 0 := by
    decide +kernel
  exact ⟨⟨ha, hb, (fees_add_up ⟨30, some 5⟩).1 _ _ _ _ ha hb⟩, hi, hj,
    (fees_add_up ⟨1, none⟩).2 _ _ _ _ hi hj⟩

end ScriptKit.FeeSchedule
