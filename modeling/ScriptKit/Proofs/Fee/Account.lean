import Mathlib.Algebra.Ring.Nat
import Mathlib.Data.List.Forall2
import ScriptKit.Proofs.Fee
import ScriptKit.Proofs.Service

namespace ScriptKit

namespace Service

/-- The instruction that calls a service. -/
def call (service : Service) : Instruction := ⟨.syscall, some service.code.bytes⟩

/-- What calling the service costs wherever it is called. -/
def fixedPrice (service : Service) : Nat :=
  match service.price with
  | .fixed price => price
  | _ => 0

theorem call_inj {service other : Service} (h : service.call = other.call) : service = other := by
  have hb : service.code.bytes = other.code.bytes :=
    Option.some.inj (congrArg Instruction.operand h)
  exact code_inj (ServiceCode.bytes_inj hb)

end Service

namespace Instruction

variable {i : Instruction}

/-- What the service that the instruction calls costs wherever it is called. -/
def fixedPrice (i : Instruction) : Nat :=
  ((Service.all.find? fun service => service.call = i).map Service.fixedPrice).getD 0

/-- Whether the instruction calls nothing, or what a code names. -/
def HasCode (i : Instruction) : Prop :=
  i.op = .syscall → ∃ code : ServiceCode, i.operand = some code.bytes

/-- Whether the instruction calls nothing, or one of the services. -/
def IsKnown (i : Instruction) : Prop :=
  i.op = .syscall → ∃ service : Service, i = service.call

/-- A script has room for nothing but a code behind a call. -/
theorem hasCode_of_decode {script : Bytes} {is : List Instruction} (h : decode script = .ok is) :
    ∀ i ∈ is, i.HasCode := by
  intro i hi hop
  have hv := encodeAll_ok_iff.mp ⟨script, (decode_eq_ok_iff.mp h).1⟩ i hi
  rw [IsValid, hop] at hv
  cases ho : i.operand with
  | none =>
    rw [payload, ho] at hv
    exact absurd hv (by decide)
  | some operand =>
    rw [payload, ho] at hv
    exact ⟨⟨operand, hv⟩, rfl⟩

theorem serviceCode?_of_operand {code : ServiceCode} (hop : i.op = .syscall)
    (ho : i.operand = some code.bytes) : i.serviceCode? = some code := by
  simp [serviceCode?, hop, ho, ServiceCode.ofBytes?, code.length_eq]

theorem fixedPrice_of_ne_syscall (h : i.op ≠ .syscall) : i.fixedPrice = 0 := by
  have hnone : (Service.all.find? fun service => service.call = i) = none := by
    rw [List.find?_eq_none]
    intro service _ he
    exact h (of_decide_eq_true he ▸ rfl)
  rw [fixedPrice, hnone]
  rfl

@[simp] theorem fixedPrice_call (service : Service) :
    service.call.fixedPrice = service.fixedPrice := by
  have hfind : (Service.all.find? fun other => other.call = service.call) = some service := by
    have hkey := find?_key (List.Nodup.map (fun _ _ => Service.call_inj)
      (List.Nodup.of_map _ Service.codes_nodup)) (Service.mem_all service)
    simpa [beq_eq_decide] using hkey
  rw [fixedPrice, hfind]
  rfl

end Instruction

namespace FeeSchedule

open Service

variable {schedule : FeeSchedule} {before rest is : List Instruction} {i : Instruction}
  {place value signatures price : Nat}

/-- The instruction at a place pushes a number of 64 bits. -/
def PushesAt (is : List Instruction) (place value : Nat) : Prop :=
  ∃ i, is[place]? = some i ∧ i.int? = .ok (value : Int) ∧ value < 2 ^ 64

/-- A check by several keys at a place asks for so many signatures: right before it the number of
keys is pushed, and right before so many other instructions the number of signatures. -/
def AsksFor (is : List Instruction) (place signatures : Nat) : Prop :=
  ∃ keys, keys + 2 ≤ place ∧ PushesAt is (place - 1) keys ∧
    PushesAt is (place - keys - 2) signatures

theorem pushedBefore_eq_ok (rest : List Instruction) {distance : Nat} :
    pushedBefore before distance = .ok value ↔
      distance < before.length ∧
        PushesAt (before.reverse ++ rest) (before.length - 1 - distance) value := by
  cases hi : before[distance]? with
  | none =>
    have hl := List.getElem?_eq_none_iff.mp hi
    simp only [pushedBefore, hi, reduceCtorEq, Nat.not_lt.mpr hl, false_and]
  | some i =>
    have hl : distance < before.length := (List.getElem?_eq_some_iff.mp hi).1
    have hplace : (before.reverse ++ rest)[before.length - 1 - distance]? = some i := by
      rw [List.getElem?_append_left (by rw [List.length_reverse]; omega),
        List.getElem?_reverse (by omega), ← hi]
      congr 1
      omega
    simp only [pushedBefore_of_some hi, numberOf_eq_ok, PushesAt, hplace, hl, true_and,
      Option.some.injEq, exists_eq_left']

theorem threshold_eq_ok (rest : List Instruction) :
    threshold before = .ok signatures ↔
      AsksFor (before.reverse ++ rest) before.length signatures := by
  simp only [threshold, bind_eq_ok, AsksFor, pushedBefore_eq_ok rest]
  refine exists_congr fun keys => ?_
  have hfirst : before.length - 1 - 0 = before.length - 1 := rfl
  have hsecond : before.length - 1 - (keys + 1) = before.length - keys - 2 := by omega
  rw [hfirst, hsecond]
  constructor
  · intro h
    obtain ⟨⟨-, hk⟩, hl, hs⟩ := h
    exact ⟨hl, hk, hs⟩
  · intro h
    obtain ⟨hl, hk, hs⟩ := h
    exact ⟨⟨by omega, hk⟩, hl, hs⟩

/-- The prices of the opcodes and of the services, of as many bytes for each stored item, and of
the signatures that are asked for. -/
def sumOfPrices (size : Nat) (is : List Instruction) (signatures : List Nat) : Nat :=
  (is.map (·.op.price)).sum + (is.map (·.fixedPrice)).sum +
    100000 * size * is.count storagePut.call + 32768 * signatures.sum

/-- How the price of a part of a script comes about, where the part starts at a place. -/
def Accounts (schedule : FeeSchedule) (is : List Instruction) (place : Nat)
    (part : List Instruction) (total : Nat) : Prop :=
  (∀ i ∈ part, i.IsKnown) ∧ (storagePut.call ∈ part → schedule.itemSize? ≠ none) ∧
    ∃ signatures, List.Forall₂ (AsksFor is) (part.idxsOf checkMultisig.call place) signatures ∧
      total = sumOfPrices (schedule.itemSize?.getD 0) part signatures

/-- The call itself costs nothing. -/
theorem cost_of_code (before : List Instruction) (code : ServiceCode) :
    schedule.cost before ⟨.syscall, some code.bytes⟩ =
      match Service.ofCode? code with
      | none => .error (.unknownService code.toText)
      | some service => schedule.servicePrice before service := by
  have hcode : Instruction.serviceCode? ⟨.syscall, some code.bytes⟩ = some code :=
    Instruction.serviceCode?_of_operand rfl rfl
  have hprice : Opcode.syscall.price = 0 := rfl
  cases hs : Service.ofCode? code with
  | none => simp only [cost, hcode, hs]
  | some service =>
    simp only [cost, hcode, hs, hprice]
    cases schedule.servicePrice before service <;> simp [Except.map]

theorem cost_call (before : List Instruction) (service : Service) :
    schedule.cost before service.call = schedule.servicePrice before service := by
  rw [call, cost_of_code, ofCode?_code]

theorem sumOfPrices_singleton (size : Nat) (i : Instruction) (signatures : List Nat) :
    sumOfPrices size [i] signatures =
      i.op.price + i.fixedPrice + 100000 * size * (if i = storagePut.call then 1 else 0) +
        32768 * signatures.sum := by
  simp [sumOfPrices, List.count_singleton]

theorem accounts_of_ne_syscall (h : i.op ≠ .syscall) :
    schedule.Accounts is place [i] price ↔ price = i.op.price := by
  have hother (service : Service) : i ≠ service.call := fun he => h (he ▸ rfl)
  simp [Accounts, Instruction.IsKnown, h, hother, (hother _).symm,
    sumOfPrices_singleton, Instruction.fixedPrice_of_ne_syscall h]

theorem isKnown_call (service : Service) : service.call.IsKnown := fun _ => ⟨service, rfl⟩

theorem accounts_of_fixed {service : Service} {fixed : Nat} (h : service.price = .fixed fixed) :
    schedule.Accounts is place [service.call] price ↔ price = fixed := by
  have hput : service.call ≠ storagePut.call := by
    intro he
    rw [call_inj he] at h
    cases h
  have hcheck : service.call ≠ checkMultisig.call := by
    intro he
    rw [call_inj he] at h
    cases h
  have hprice : service.call.op.price = 0 := rfl
  simp [Accounts, isKnown_call, hput, hput.symm, hcheck, sumOfPrices_singleton,
    Service.fixedPrice, h, hprice]

theorem accounts_of_put :
    schedule.Accounts is place [storagePut.call] price ↔
      ∃ size, schedule.itemSize? = some size ∧ price = size * 100000 := by
  have hcheck : storagePut.call ≠ checkMultisig.call := by decide
  have hprice : storagePut.call.op.price = 0 := rfl
  have hfixed : storagePut.fixedPrice = 0 := rfl
  cases hs : schedule.itemSize? with
  | none => simp [Accounts, hs]
  | some size =>
    simp [Accounts, isKnown_call, hs, hcheck, sumOfPrices_singleton, hprice, hfixed, Nat.mul_comm]

theorem accounts_of_check :
    schedule.Accounts is place [checkMultisig.call] price ↔
      ∃ signatures, AsksFor is place signatures ∧ price = signatures * checkSigPrice := by
  have hput : checkMultisig.call ≠ storagePut.call := by decide
  have hprice : checkMultisig.call.op.price = 0 := rfl
  have hfixed : checkMultisig.fixedPrice = 0 := rfl
  simp [Accounts, isKnown_call, hput, hput.symm, sumOfPrices_singleton, hprice, hfixed,
    List.forall₂_cons_left_iff, checkSigPrice, Nat.mul_comm]

/-- The price of calling a service comes about as that of an instruction does. -/
theorem servicePrice_eq_ok (rest : List Instruction) {service : Service} :
    schedule.servicePrice before service = .ok price ↔
      schedule.Accounts (before.reverse ++ rest) before.length [service.call] price := by
  cases hp : service.price with
  | fixed fixed =>
    rw [accounts_of_fixed hp]
    simp [servicePrice, hp, eq_comm]
  | perByte each =>
    obtain ⟨rfl, rfl⟩ := price_eq_perByte_iff.mp hp
    rw [accounts_of_put, servicePrice, hp]
    cases schedule.itemSize? <;> simp [eq_comm]
  | perSignature =>
    obtain rfl := price_eq_perSignature_iff.mp hp
    rw [accounts_of_check, servicePrice, hp]
    simp only [map_eq_ok, threshold_eq_ok rest, eq_comm (b := price)]

/-- The price of one instruction of a script. -/
theorem cost_eq_ok (rest : List Instruction) (h : i.HasCode) :
    schedule.cost before i = .ok price ↔
      schedule.Accounts (before.reverse ++ rest) before.length [i] price := by
  by_cases hop : i.op = .syscall
  · obtain ⟨code, hcode⟩ := h hop
    obtain rfl : i = ⟨.syscall, some code.bytes⟩ := by rw [← hop, ← hcode]
    rw [cost_of_code]
    cases hs : Service.ofCode? code with
    | none =>
      simp only [reduceCtorEq, false_iff]
      intro ha
      obtain ⟨service, hi⟩ := ha.1 _ List.mem_cons_self rfl
      obtain rfl := ServiceCode.bytes_inj (Option.some.inj (congrArg Instruction.operand hi))
      rw [ofCode?_code] at hs
      cases hs
    | some service =>
      obtain rfl := code_of_ofCode? hs
      exact servicePrice_eq_ok rest
  · rw [cost_of_ne_syscall hop, accounts_of_ne_syscall hop, Except.ok.injEq, eq_comm]

theorem forall₂_append_left_iff {α β : Type} {R : α → β → Prop} {as bs : List α} {cs : List β} :
    List.Forall₂ R (as ++ bs) cs ↔
      ∃ xs ys, List.Forall₂ R as xs ∧ List.Forall₂ R bs ys ∧ cs = xs ++ ys := by
  constructor
  · intro h
    exact ⟨_, _, (List.forall₂_take_append cs as bs h.flip).flip,
      (List.forall₂_drop_append cs as bs h.flip).flip, (List.take_append_drop ..).symm⟩
  · intro h
    obtain ⟨xs, ys, hx, hy, rfl⟩ := h
    exact List.rel_append hx hy

theorem sumOfPrices_append (size : Nat) (is js : List Instruction) (xs ys : List Nat) :
    sumOfPrices size (is ++ js) (xs ++ ys) = sumOfPrices size is xs + sumOfPrices size js ys := by
  simp only [sumOfPrices, List.map_append, List.sum_append, List.count_append, Nat.mul_add]
  omega

theorem sumOfPrices_eq (size : Nat) (is : List Instruction) (signatures : List Nat) :
    sumOfPrices size is signatures =
      sumOfPrices 0 is signatures + 100000 * is.count storagePut.call * size := by
  have hcomm : 100000 * size * is.count storagePut.call =
      100000 * is.count storagePut.call * size := Nat.mul_right_comm ..
  simp only [sumOfPrices, hcomm]
  omega

/-- The price of a part of a script is made up of those of the pieces that it is cut into. -/
theorem accounts_append {part others : List Instruction} {total : Nat} :
    schedule.Accounts is place (part ++ others) total ↔
      ∃ x y, schedule.Accounts is place part x ∧
        schedule.Accounts is (place + part.length) others y ∧ x + y = total := by
  simp only [Accounts, List.mem_append, or_imp, forall_and, List.idxsOf_append,
    forall₂_append_left_iff]
  constructor
  · intro h
    obtain ⟨⟨hp, ho⟩, ⟨hps, hos⟩, _, ⟨xs, ys, hx, hy, rfl⟩, rfl⟩ := h
    exact ⟨_, _, ⟨hp, hps, xs, hx, rfl⟩, ⟨ho, hos, ys, hy, rfl⟩, (sumOfPrices_append ..).symm⟩
  · intro h
    obtain ⟨_, _, ⟨hp, hps, xs, hx, rfl⟩, ⟨ho, hos, ys, hy, rfl⟩, rfl⟩ := h
    exact ⟨⟨hp, ho⟩, ⟨hps, hos⟩, _, ⟨xs, ys, hx, hy, rfl⟩, (sumOfPrices_append ..).symm⟩

/-- The instructions of a script are priced one after the other, each in view of those before it. -/
theorem costFrom_eq_ok {total : Nat} (h : ∀ i ∈ rest, i.HasCode) :
    schedule.costFrom before rest = .ok total ↔
      schedule.Accounts (before.reverse ++ rest) before.length rest total := by
  induction rest generalizing before total with
  | nil => simp [costFrom, Accounts, sumOfPrices, eq_comm]
  | cons i rest ih =>
    have hi := h i List.mem_cons_self
    have hrest : ∀ j ∈ rest, j.HasCode := fun j hj => h j (List.mem_cons_of_mem i hj)
    have hplace : (i :: before).reverse ++ rest = before.reverse ++ i :: rest := by simp
    have hothers (others : Nat) : schedule.costFrom (i :: before) rest = .ok others ↔
        schedule.Accounts (before.reverse ++ i :: rest) (before.length + 1) rest others :=
      hplace ▸ ih hrest
    simp only [costFrom_cons, cost_eq_ok (i :: rest) hi, hothers]
    exact accounts_append.symm

variable {script : Bytes} {fee : Nat}

theorem feeOfScript_of_decode (hd : Instruction.decode script = .ok is) :
    schedule.feeOfScript script = .ok fee ↔
      ∃ total, schedule.Accounts is 0 is total ∧ fee = schedule.factor * total := by
  have hcost (total : Nat) : schedule.baseCost is = .ok total ↔ schedule.Accounts is 0 is total :=
    costFrom_eq_ok (Instruction.hasCode_of_decode hd)
  have hfee : schedule.feeOfScript script = schedule.fee is := by
    rw [feeOfScript, hd]
    rfl
  simp only [hfee, FeeSchedule.fee, map_eq_ok, hcost, Nat.mul_comm schedule.factor,
    eq_comm (b := fee)]

theorem exists_forall₂_iff {α β : Type} {R : α → β → Prop} {as : List α} :
    (∃ bs, List.Forall₂ R as bs) ↔ ∀ a ∈ as, ∃ b, R a b := by
  induction as with
  | nil => simp
  | cons a rest ih =>
    rw [List.forall_mem_cons, ← ih]
    simp only [List.forall₂_cons_left_iff]
    constructor
    · intro h
      obtain ⟨_, b, bs, hb, hbs, -⟩ := h
      exact ⟨⟨b, hb⟩, bs, hbs⟩
    · intro h
      obtain ⟨⟨b, hb⟩, bs, hbs⟩ := h
      exact ⟨_, b, bs, hb, hbs, rfl⟩

/-- A price comes about where every service is known, a size is there for what is stored, and each
check by several keys finds what it asks for. -/
theorem exists_accounts_iff :
    (∃ total, schedule.Accounts is 0 is total) ↔
      (∀ i ∈ is, i.IsKnown) ∧ (storagePut.call ∈ is → schedule.itemSize? ≠ none) ∧
        ∀ place, is[place]? = some checkMultisig.call →
          ∃ signatures, AsksFor is place signatures := by
  have hchecks :
      (∃ signatures, List.Forall₂ (AsksFor is) (is.idxsOf checkMultisig.call) signatures) ↔
        ∀ place, is[place]? = some checkMultisig.call →
          ∃ signatures, AsksFor is place signatures := by
    rw [exists_forall₂_iff]
    refine forall_congr' fun place => ?_
    rw [List.mem_idxsOf_iff_exists_getElem_pos, List.getElem?_eq_some_iff]
    simp only [beq_iff_eq]
  rw [← hchecks]
  constructor
  · intro h
    obtain ⟨_, hk, hs, signatures, hf, -⟩ := h
    exact ⟨hk, hs, signatures, hf⟩
  · intro h
    obtain ⟨hk, hs, signatures, hf⟩ := h
    exact ⟨_, hk, hs, signatures, hf, rfl⟩

/-- With a size set for what is stored, the price grows with it for each item. -/
theorem accounts_withSize {factor size total : Nat} :
    Accounts ⟨factor, some size⟩ is place is total ↔
      ∃ base, Accounts ⟨factor, some 0⟩ is place is base ∧
        total = base + 100000 * is.count storagePut.call * size := by
  constructor
  · intro h
    obtain ⟨hk, -, signatures, hf, rfl⟩ := h
    exact ⟨_, ⟨hk, by simp, signatures, hf, rfl⟩, sumOfPrices_eq ..⟩
  · intro h
    obtain ⟨_, ⟨hk, -, signatures, hf, rfl⟩, rfl⟩ := h
    exact ⟨hk, by simp, signatures, hf, (sumOfPrices_eq ..).symm⟩

/-- For a script, the fee grows by as much for each byte. -/
theorem feeOfScript_withSize {factor size : Nat} (hd : Instruction.decode script = .ok is) :
    feeOfScript ⟨factor, some size⟩ script = .ok fee ↔
      ∃ base, feeOfScript ⟨factor, some 0⟩ script = .ok base ∧
        fee = base + factor * 100000 * is.count storagePut.call * size := by
  have hgrow (base : Nat) : factor * (base + 100000 * is.count storagePut.call * size) =
      factor * base + factor * 100000 * is.count storagePut.call * size := by
    rw [Nat.mul_add]
    simp only [Nat.mul_assoc]
  simp only [feeOfScript_of_decode hd]
  constructor
  · intro h
    obtain ⟨total, ha, rfl⟩ := h
    obtain ⟨base, hb, rfl⟩ := accounts_withSize.mp ha
    exact ⟨_, ⟨base, hb, rfl⟩, hgrow base⟩
  · intro h
    obtain ⟨_, ⟨base, hb, rfl⟩, rfl⟩ := h
    exact ⟨_, accounts_withSize.mpr ⟨base, hb, rfl⟩, (hgrow base).symm⟩

/-- A script has a fee exactly if it splits into instructions that call known services only, a size
is set if it stores an item, and each check by several keys finds pushed how many keys and how many
signatures there are. The fee is the factor times the prices of the opcodes, of the services, of
the stored bytes and of the signatures asked for. No call in a script passes for an instruction
without a service, and the fee grows with the size by a fixed amount for each stored item. -/
theorem fees_accounted (schedule : FeeSchedule) (script : Bytes) :
    ((∃ fee, schedule.feeOfScript script = .ok fee) ↔
      ∃ is, Instruction.decode script = .ok is ∧ (∀ i ∈ is, i.IsKnown) ∧
        (storagePut.call ∈ is → schedule.itemSize? ≠ none) ∧
        ∀ place, is[place]? = some checkMultisig.call →
          ∃ signatures, AsksFor is place signatures) ∧
    ∀ is, Instruction.decode script = .ok is →
      (∀ fee, schedule.feeOfScript script = .ok fee →
        ∃ signatures, List.Forall₂ (AsksFor is) (is.idxsOf checkMultisig.call) signatures ∧
          fee = schedule.factor * sumOfPrices (schedule.itemSize?.getD 0) is signatures) ∧
      (∀ i ∈ is, i.op = .syscall → ∃ code : ServiceCode, i = ⟨.syscall, some code.bytes⟩ ∧
        ∀ before, schedule.cost before i =
          match Service.ofCode? code with
          | none => .error (.unknownService code.toText)
          | some service => schedule.servicePrice before service) ∧
      ∀ size fee, feeOfScript ⟨schedule.factor, some size⟩ script = .ok fee ↔
        ∃ base, feeOfScript ⟨schedule.factor, some 0⟩ script = .ok base ∧
          fee = base + schedule.factor * 100000 * is.count storagePut.call * size := by
  refine ⟨?_, fun is hd => ⟨?_, ?_, ?_⟩⟩
  · simp only [← exists_accounts_iff]
    constructor
    · intro h
      obtain ⟨fee, hf⟩ := h
      obtain ⟨is, hd, -⟩ := bind_eq_ok.mp hf
      obtain ⟨total, ha, -⟩ := (feeOfScript_of_decode hd).mp hf
      exact ⟨is, hd, total, ha⟩
    · intro h
      obtain ⟨is, hd, total, ha⟩ := h
      exact ⟨_, (feeOfScript_of_decode hd).mpr ⟨total, ha, rfl⟩⟩
  · intro fee hf
    obtain ⟨_, ⟨-, -, signatures, hs, rfl⟩, rfl⟩ := (feeOfScript_of_decode hd).mp hf
    exact ⟨signatures, hs, rfl⟩
  · intro i hi hop
    obtain ⟨code, hc⟩ := Instruction.hasCode_of_decode hd i hi hop
    obtain rfl : i = ⟨.syscall, some code.bytes⟩ := by rw [← hop, ← hc]
    exact ⟨code, rfl, fun before => cost_of_code before code⟩
  · exact fun size fee => feeOfScript_withSize hd

/-- A script checks two signatures by one key, which is no key at all, and stores an item. It
has no fee as long as no size is set for the item. -/
theorem fees_accounted_check_and_put :
    (∃ signatures,
      List.Forall₂ (AsksFor [⟨.push2, none⟩, ⟨.nop, none⟩, ⟨.push1, none⟩, checkMultisig.call,
        storagePut.call]) [3] signatures ∧
      2 * (3 + 500000 + 65536) = 2 * sumOfPrices 5 [⟨.push2, none⟩, ⟨.nop, none⟩, ⟨.push1, none⟩,
        checkMultisig.call, storagePut.call] signatures) ∧
    (¬∃ fee, feeOfScript ⟨2, none⟩ [0x12, 0x21, 0x11, 0x41, 0x9e, 0xd0, 0xdc, 0x3a,
      0x41, 0xe6, 0x3f, 0x18, 0x84] = .ok fee) ∧
    ∀ size, feeOfScript ⟨2, some size⟩ [0x12, 0x21, 0x11, 0x41, 0x9e, 0xd0, 0xdc, 0x3a,
      0x41, 0xe6, 0x3f, 0x18, 0x84] = .ok (2 * (3 + 65536) + 2 * 100000 * 1 * size) := by
  have hd : Instruction.decode [0x12, 0x21, 0x11, 0x41, 0x9e, 0xd0, 0xdc, 0x3a, 0x41, 0xe6, 0x3f,
      0x18, 0x84] = .ok [⟨.push2, none⟩, ⟨.nop, none⟩, ⟨.push1, none⟩, checkMultisig.call,
        storagePut.call] := by
    decide +kernel
  have hfive : feeOfScript ⟨2, some 5⟩ [0x12, 0x21, 0x11, 0x41, 0x9e, 0xd0, 0xdc, 0x3a, 0x41, 0xe6,
      0x3f, 0x18, 0x84] = .ok (2 * (3 + 500000 + 65536)) := by
    decide +kernel
  have hnone : feeOfScript ⟨2, some 0⟩ [0x12, 0x21, 0x11, 0x41, 0x9e, 0xd0, 0xdc, 0x3a, 0x41, 0xe6,
      0x3f, 0x18, 0x84] = .ok (2 * (3 + 65536)) := by
    decide +kernel
  refine ⟨((fees_accounted ⟨2, some 5⟩ _).2 _ hd).1 _ hfive, ?_, fun size => ?_⟩
  · rw [(fees_accounted ⟨2, none⟩ _).1]
    intro h
    obtain ⟨is, hi, -, hs, -⟩ := h
    obtain rfl := Except.ok.inj (hd.symm.trans hi)
    exact hs (by decide) rfl
  · exact (((fees_accounted ⟨2, none⟩ _).2 _ hd).2.2 size _).mpr ⟨_, hnone, rfl⟩

end FeeSchedule
end ScriptKit
