import ScriptKit.Proofs.Emission
import ScriptKit.Proofs.Fee.Account
import ScriptKit.Proofs.Instruction.Canonical

namespace ScriptKit

/-- What pushing an integer costs: operands of up to eight bytes are cheap. -/
def intCost (value : Int) : Nat := if -2 ^ 63 ≤ value ∧ value < 2 ^ 63 then 1 else 4

/-- What pushing so many bytes costs. -/
def dataCost (length : Nat) : Nat :=
  if length ≤ 255 then 8 else if length ≤ 65535 then 512 else 4096

namespace Opcode

theorem price_of_smallInt? {op : Opcode} {value : Int} (h : op.smallInt? = some value) :
    op ≠ .syscall ∧ op.price = 1 := by
  have htable : ∀ op ∈ all, op.smallInt?.isSome = true → op ≠ .syscall ∧ op.price = 1 := by
    decide +kernel
  exact htable op (mem_all op) (by rw [h, Option.isSome_some])

theorem price_of_intPush {op : Opcode} {width : Nat} (h : (width, op) ∈ intPushes) :
    op ≠ .syscall ∧ op.price = if width ≤ 8 then 1 else 4 := by
  have htable : ∀ push ∈ intPushes,
      push.2 ≠ .syscall ∧ push.2.price = if push.1 ≤ 8 then 1 else 4 := by
    decide
  exact htable _ h

end Opcode

namespace Instruction

variable {value : Int} {i : Instruction}

theorem InRange.mono {width wider : Nat} (h : InRange width value) (hw : width ≤ wider) :
    InRange wider value := by
  have hpow : (2 : Int) ^ (8 * width - 1) ≤ 2 ^ (8 * wider - 1) := by
    exact_mod_cast Nat.pow_le_pow_right (by decide) (by omega)
  unfold InRange at *
  omega

/-- The opcode of the canonical push of an integer costs what the integer does. -/
theorem Canonical.price (h : Canonical value i) :
    i.op ≠ .syscall ∧ i.op.price = intCost value := by
  cases h with
  | @small op low high code =>
    obtain ⟨other, -, hv, -⟩ := ofSmallInt?_of_small low high
    obtain ⟨-, -, hother⟩ := smallInt?_eq_some hv
    obtain rfl := Opcode.code_inj (UInt8.toNat_inj.mp (Int.natCast_inj.mp (code.trans hother.symm)))
    rw [intCost, if_pos (by omega)]
    exact Opcode.price_of_smallInt? hv
  | @wide op operand large push spells fits least =>
    have hcheap : operand.length ≤ 8 ↔ -2 ^ 63 ≤ value ∧ value < 2 ^ 63 :=
      ⟨fun hl => fits.mono hl, fun hr => least 8 (by simp) hr⟩
    rw [intCost, ← if_congr hcheap rfl rfl]
    exact Opcode.price_of_intPush push

/-- The opcode of the canonical push of data costs what their number does. -/
theorem price_of_dataPush {length : Nat} {op : Opcode} (h : dataPush length = .ok op) :
    op ≠ .syscall ∧ op.price = dataCost length := by
  unfold dataPush at h
  unfold dataCost
  split at h
  · next hone =>
    obtain rfl := Except.ok.inj h
    rw [if_pos hone]
    exact ⟨nofun, rfl⟩
  · next hone =>
    split at h
    · next htwo =>
      obtain rfl := Except.ok.inj h
      rw [if_neg hone, if_pos htwo]
      exact ⟨nofun, rfl⟩
    · next htwo =>
      split at h
      · obtain rfl := Except.ok.inj h
        rw [if_neg hone, if_neg htwo]
        exact ⟨nofun, rfl⟩
      · cases h

end Instruction

/-- The bytes split into instructions that cost so much, whatever stands before them and whatever
size is set for stored items. -/
def Costs (written : Bytes) (total : Nat) : Prop :=
  ∃ is, Instruction.decode written = .ok is ∧
    ∀ schedule : FeeSchedule, schedule.baseCost is = .ok total

namespace Costs

variable {a b written : Bytes} {x y total : Nat} {i : Instruction}

theorem nil : Costs [] 0 := ⟨[], Instruction.decode_nil, fun _ => rfl⟩

theorem append (ha : Costs a x) (hb : Costs b y) : Costs (a ++ b) (x + y) := by
  obtain ⟨is, hi, hx⟩ := ha
  obtain ⟨js, hj, hy⟩ := hb
  refine ⟨is ++ js, Instruction.decode_append hi hj, ?_⟩
  intro schedule
  exact FeeSchedule.baseCost_append_eq (hx schedule) (hy schedule)

theorem of_cost (hd : Instruction.decode written = .ok [i])
    (hc : ∀ schedule : FeeSchedule, schedule.cost [] i = .ok total) : Costs written total := by
  refine ⟨[i], hd, ?_⟩
  intro schedule
  exact FeeSchedule.costFrom_cons.mpr ⟨total, 0, hc schedule, rfl, rfl⟩

/-- An instruction that calls no service costs the price of its opcode. -/
theorem of_price (hd : Instruction.decode written = .ok [i]) (hop : i.op ≠ .syscall) :
    Costs written i.op.price := by
  apply of_cost hd
  intro schedule
  exact FeeSchedule.cost_of_ne_syscall hop

/-- A call of a service with a fixed price costs that price. -/
theorem of_call {service : Service} {price : Nat} (hp : service.price = .fixed price)
    (hd : Instruction.decode written = .ok [service.call]) :
    Costs written price := by
  apply of_cost hd
  intro schedule
  rw [FeeSchedule.cost_call]
  simp only [FeeSchedule.servicePrice, hp]

/-- The fee of a script that is such a piece. -/
theorem feeOfScript (h : Costs written total) (schedule : FeeSchedule) :
    schedule.feeOfScript written = .ok (schedule.factor * total) := by
  obtain ⟨is, hd, hc⟩ := h
  refine bind_eq_ok.mpr ⟨is, hd, map_eq_ok.mpr ⟨total, hc schedule, ?_⟩⟩
  exact Nat.mul_comm ..

end Costs

namespace Emission

variable {written : Bytes}

theorem costs_of_int {value : Int} (h : (int value).result = .ok written) :
    Costs written (intCost value) := by
  obtain ⟨i, hp, he⟩ := result_int.mp h
  obtain ⟨-, -, hn⟩ := Instruction.pushInt_eq_ok hp
  obtain ⟨hop, hprice⟩ := (Instruction.canonical_of_pushInt hp).price
  rw [← hprice]
  exact .of_price (Instruction.decode_of_encode he hn) hop

theorem costs_of_data {value : Bytes} (h : (data value).result = .ok written) :
    Costs written (dataCost value.length) := by
  obtain ⟨i, hp, he⟩ := result_data.mp h
  obtain ⟨hm, ho, -⟩ := Instruction.pushBytes_eq_ok hp
  have hd := Instruction.decode_of_encode he (Instruction.normal_of_dataPush hm ho)
  obtain ⟨op, hop, rfl⟩ := map_eq_ok.mp hp
  obtain ⟨hne, hprice⟩ := Instruction.price_of_dataPush hop
  rw [← hprice]
  exact .of_price hd hne

end Emission
end ScriptKit
