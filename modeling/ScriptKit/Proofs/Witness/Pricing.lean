import ScriptKit.Proofs.Fee.Checks
import ScriptKit.Proofs.Fee.Pieces
import ScriptKit.Proofs.Witness.Multisig

namespace ScriptKit.Witness

variable {threshold n : Nat} {keys : List PublicKey} {script push : Bytes}

/-- The instruction that calls the check. -/
def callCheck : Instruction := ⟨.syscall, some Service.checkMultisig.code.bytes⟩

/-- What pushes a number is one instruction, which costs as little as a push can. -/
theorem CountPush.decode (h : CountPush n push) :
    ∃ i, Instruction.decode push = .ok [i] ∧ i.int? = .ok (n : Int) ∧ i.op ≠ .syscall ∧
      i.op.price = 1 := by
  cases h with
  | small low high =>
    have hlow : -1 ≤ (n : Int) := by omega
    have hhigh : (n : Int) ≤ 16 := by omega
    obtain ⟨op, -, hv, hr⟩ := Instruction.ofSmallInt?_of_small hlow hhigh
    have hencode : Instruction.encode ⟨op, none⟩ = .ok [UInt8.ofNat (0x10 + n)] := by
      rw [Instruction.encode_eq_ok_iff]
      constructor
      · simp [Instruction.IsValid, hr, OperandRule.Admits, Instruction.payload]
      · simp only [hr, OperandRule.lengthField, Instruction.payload, Option.getD_none,
          List.append_nil, Instruction.code_of_smallInt? hv]
    refine ⟨⟨op, none⟩, Instruction.decode_of_encode hencode ?_, ?_, ?_⟩
    · simp [Instruction.normal, hr]
    · exact Instruction.int?_eq_ok.mpr (.inl hv)
    · exact Opcode.price_of_smallInt? hv
  | @byte a spells =>
    refine ⟨⟨.pushInt8, some [a]⟩, Instruction.decode_of_encode rfl rfl, ?_, by simp, rfl⟩
    rw [← spells]
    rfl
  | @word a b spells =>
    refine ⟨⟨.pushInt16, some [a, b]⟩, Instruction.decode_of_encode rfl rfl, ?_, by simp, rfl⟩
    rw [← spells]
    rfl

theorem decode_keyPushes (keys : List PublicKey) :
    Instruction.decode (keys.flatMap keyPush) = .ok (keys.map pushKey) := by
  induction keys with
  | nil => exact Instruction.decode_nil
  | cons key rest ih =>
    rw [List.flatMap_cons, List.map_cons]
    exact Instruction.decode_append (decode_keyPush key) ih

theorem decode_checkCall : Instruction.decode checkCall = .ok [callCheck] :=
  Instruction.decode_of_encode rfl rfl

/-- Two pushes, with keys between them and the call behind. -/
theorem decode_check {first last : Bytes} {i j : Instruction}
    (hf : Instruction.decode first = .ok [i]) (hl : Instruction.decode last = .ok [j])
    (keys : List PublicKey) :
    Instruction.decode (first ++ (keys.flatMap keyPush ++ (last ++ checkCall))) =
      .ok (i :: (keys.map pushKey ++ [j, callCheck])) := by
  have hend : Instruction.decode (last ++ checkCall) = .ok [j, callCheck] :=
    Instruction.decode_append hl decode_checkCall
  exact Instruction.decode_append hf (Instruction.decode_append (decode_keyPushes keys) hend)

/-- A check splits into the pushes of the threshold, of the keys and of their number, and a call. -/
theorem IsCheck.decode (h : IsCheck threshold keys script) :
    ∃ first last,
      Instruction.decode script = .ok (first :: (keys.map pushKey ++ [last, callCheck])) ∧
      (first.int? = .ok (threshold : Int) ∧ first.op ≠ .syscall ∧ first.op.price = 1) ∧
      last.int? = .ok (keys.length : Int) ∧ last.op ≠ .syscall ∧ last.op.price = 1 := by
  obtain ⟨pushFirst, pushLast, hf, hl, rfl⟩ := h.form
  obtain ⟨first, hfirst, hfv⟩ := hf.decode
  obtain ⟨last, hlast, hlv⟩ := hl.decode
  exact ⟨first, last, decode_check hfirst hlast keys, hfv, hlv⟩

/-- Right before the call stands the number of keys, and before so many keys the threshold. -/
theorem threshold_of_pushes {first last : Instruction}
    (hf : first.int? = .ok (threshold : Int)) (hl : last.int? = .ok (keys.length : Int))
    (hreach : threshold ≤ keys.length) (hbound : keys.length ≤ 1024) :
    FeeSchedule.threshold (first :: (keys.map pushKey ++ [last])).reverse = .ok threshold := by
  have hlength : (keys.map pushKey).length = keys.length := List.length_map ..
  have hpasses : FeeSchedule.Passes (first :: (keys.map pushKey ++ [last])) first
      (keys.map pushKey) := by
    refine ⟨[], last, rfl, ?_, ?_⟩
    · rw [hlength, hl]
    · omega
  exact FeeSchedule.threshold_eq_ok_iff_passes.mpr ⟨first, _, hpasses, hf, by omega⟩

end ScriptKit.Witness

namespace ScriptKit.FeeSchedule

open Witness

variable {schedule : FeeSchedule} {before : List Instruction} {signatures : Nat}

theorem costFrom_pushKeys (keys : List PublicKey) :
    schedule.costFrom before (keys.map pushKey) = .ok (8 * keys.length) := by
  induction keys generalizing before with
  | nil => rfl
  | cons key rest ih =>
    have hkey : schedule.cost before (pushKey key) = .ok 8 := cost_of_ne_syscall (by simp [pushKey])
    refine costFrom_cons.mpr ⟨8, 8 * rest.length, hkey, ih, ?_⟩
    rw [List.length_cons]
    omega

/-- The call itself costs nothing, and as much as checking the signatures that are asked for. -/
theorem cost_callCheck (h : threshold before = .ok signatures) :
    schedule.cost before callCheck = .ok (32768 * signatures) := by
  change schedule.cost before Service.checkMultisig.call = _
  rw [cost_check, h, Nat.mul_comm]
  rfl

end ScriptKit.FeeSchedule

namespace ScriptKit.Witness

open FeeSchedule

variable {threshold : Nat} {keys : List PublicKey} {script : Bytes} {first last : Instruction}

/-- The cost of a check, whatever is pushed as keys. -/
theorem baseCost_of_pushes (schedule : FeeSchedule)
    (hf : first.op ≠ .syscall ∧ first.op.price = 1) (hl : last.op ≠ .syscall ∧ last.op.price = 1)
    (ht : FeeSchedule.threshold (first :: (keys.map pushKey ++ [last])).reverse =
      .ok threshold) :
    schedule.baseCost (first :: (keys.map pushKey ++ [last, callCheck])) =
      .ok (32768 * threshold + 8 * keys.length + 2) := by
  have hfirst : schedule.cost [] first = .ok 1 := hf.2 ▸ cost_of_ne_syscall hf.1
  have hkeys : schedule.costFrom [first] (keys.map pushKey) = .ok (8 * keys.length) :=
    costFrom_pushKeys keys
  have hlast : schedule.cost ((keys.map pushKey).reverse ++ [first]) last = .ok 1 :=
    hl.2 ▸ cost_of_ne_syscall hl.1
  have hcall : schedule.cost (last :: ((keys.map pushKey).reverse ++ [first])) callCheck =
      .ok (32768 * threshold) := by
    apply cost_callCheck
    simpa using ht
  have hend : schedule.costFrom ((keys.map pushKey).reverse ++ [first]) [last, callCheck] =
      .ok (1 + 32768 * threshold) := by
    refine costFrom_cons.mpr ⟨1, 32768 * threshold, hlast, ?_, rfl⟩
    exact costFrom_cons.mpr ⟨32768 * threshold, 0, hcall, rfl, rfl⟩
  have hrest := costFrom_append.mpr ⟨_, _, hkeys, hend, rfl⟩
  refine costFrom_cons.mpr ⟨1, _, hfirst, hrest, ?_⟩
  omega

/-- A script that is recognised as a check splits into as many instructions as there are keys and
three more: a push of the threshold, the pushes of the keys in their order, a push of their number
and the call. Looking back from the call finds the threshold, and the fee depends on the threshold
and the number of keys alone, whatever size is set for stored items, or none. -/
theorem multisig_split_and_priced (script : Bytes) (h : isMultisig script = true) :
    ∃ threshold keys first last,
      Witness.threshold script = .ok threshold ∧ Witness.keys script = .ok keys ∧
      Instruction.decode script = .ok (first :: (keys.map pushKey ++ [last, callCheck])) ∧
      (first :: (keys.map pushKey ++ [last, callCheck])).length = keys.length + 3 ∧
      first.int? = .ok (threshold : Int) ∧ last.int? = .ok (keys.length : Int) ∧
      FeeSchedule.threshold (first :: (keys.map pushKey ++ [last])).reverse = .ok threshold ∧
      ∀ factor itemSize?, feeOfScript ⟨factor, itemSize?⟩ script =
        .ok (factor * (32768 * threshold + 8 * keys.length + 2)) := by
  obtain ⟨threshold, keys, hcheck⟩ := isMultisig_iff.mp h
  obtain ⟨hthreshold, hkeys, -⟩ := hcheck.answers
  obtain ⟨first, last, hdecode, ⟨hfv, hf⟩, hlv, hl⟩ := hcheck.decode
  have hback := threshold_of_pushes hfv hlv hcheck.reachable hcheck.bounded
  refine ⟨threshold, keys, first, last, hthreshold, hkeys, hdecode, ?_, hfv, hlv, hback, ?_⟩
  · simp
  · intro factor itemSize?
    refine bind_eq_ok.mpr ⟨_, hdecode, map_eq_ok.mpr ⟨_, baseCost_of_pushes _ hf hl hback, ?_⟩⟩
    exact Nat.mul_comm ..

/-- The threshold is pushed in two bytes where none would do, and one key is made up of bytes that
look like pushes of keys. -/
theorem multisig_split_and_priced_wide_threshold :
    isMultisig ([0x01, 2, 0] ++ ([⟨.replicate 33 0x0c, rfl⟩, ⟨.replicate 33 0x41, rfl⟩].flatMap
        keyPush ++ ([0x00, 2] ++ checkCall))) = true ∧
      feeOfScript ⟨30, none⟩ ([0x01, 2, 0] ++ ([⟨.replicate 33 0x0c, rfl⟩,
        ⟨.replicate 33 0x41, rfl⟩].flatMap keyPush ++ ([0x00, 2] ++ checkCall))) =
          .ok (30 * (32768 * 2 + 8 * 2 + 2)) := by
  have hcheck : IsCheck 2 [⟨.replicate 33 0x0c, rfl⟩, ⟨.replicate 33 0x41, rfl⟩]
      ([0x01, 2, 0] ++ ([⟨.replicate 33 0x0c, rfl⟩, ⟨.replicate 33 0x41, rfl⟩].flatMap
        keyPush ++ ([0x00, 2] ++ checkCall))) :=
    ⟨by decide, by decide, by decide, [0x01, 2, 0], [0x00, 2], .word (by decide),
      .byte (by decide), rfl⟩
  have hm := isMultisig_iff.mpr ⟨_, _, hcheck⟩
  obtain ⟨threshold, keys, _, _, ht, hk, -, -, -, -, -, hfee⟩ := multisig_split_and_priced _ hm
  obtain ⟨ht', hk', -⟩ := hcheck.answers
  rw [ht] at ht'
  rw [hk] at hk'
  obtain rfl := Except.ok.inj ht'
  obtain rfl := Except.ok.inj hk'
  exact ⟨hm, hfee 30 none⟩

end ScriptKit.Witness
