import Mathlib.Algebra.Ring.Int.Defs
import ScriptKit.Bytes.Fixed
import ScriptKit.Instruction.Push
import ScriptKit.Proofs.Fee.Account

namespace ScriptKit

/-- The instruction pushes a key. -/
def Instruction.PushesKey (i : Instruction) : Prop :=
  i.op ∈ dataPushes ∧ ∃ key : PublicKey, i.operand = some key.bytes

namespace FeeSchedule

open Service

variable {schedule : FeeSchedule} {before start others rest : List Instruction}
  {first count i : Instruction} {n : Nat}

/-- The instructions end with a number, and of as many before it each one pushes a key. -/
def KeysCounted (before : List Instruction) : Prop :=
  ∃ start keys count, before = start ++ (keys ++ [count]) ∧
    count.int? = .ok (keys.length : Int) ∧ ∀ i ∈ keys, i.PushesKey

/-- The instructions end with a number of 64 bits, which counts the others before it; the first one
stands right before these. -/
def Passes (before : List Instruction) (first : Instruction) (others : List Instruction) : Prop :=
  ∃ start count, before = start ++ first :: (others ++ [count]) ∧
    count.int? = .ok (others.length : Int) ∧ others.length < 2 ^ 64

/-- What is passed over are not all keys, and no number beyond 64 bits in the place of the threshold
makes up for it. -/
def Overlooked (before : List Instruction) : Prop :=
  ∃ first others, Passes before first others ∧ (¬∀ i ∈ others, i.PushesKey) ∧
    ∀ value, first.int? = .ok value → 0 ≤ value ∧ value < 2 ^ 64

theorem pushedBefore_of_length_le {distance : Nat} (h : before.length ≤ distance) :
    pushedBefore before distance = .error (.misfit .multisigCheck) := by
  rw [pushedBefore, List.getElem?_eq_none h]

/-- What pushes no integer has a fault of another kind. -/
theorem int?_ne_misfit (cause : Misfit) : i.int? ≠ .error (.misfit cause) := by
  intro h
  unfold Instruction.int? at h
  split at h
  · cases h
  · split at h
    · unfold Instruction.checkFixed at h
      split at h <;> cases h
    · cases h
  · cases h

theorem numberOf_eq_misfit :
    numberOf i = .error (.misfit .multisigCheck) ↔
      ∃ value, i.int? = .ok value ∧ ¬(0 ≤ value ∧ value < 2 ^ 64) := by
  have hsize : ((UInt64.size : Nat) : Int) = 2 ^ 64 := rfl
  rw [numberOf, bind_eq_error, hsize]
  constructor
  · intro h
    obtain hf | ⟨value, hv, h⟩ := h
    · exact absurd hf (int?_ne_misfit _)
    · by_cases hr : 0 ≤ value ∧ value < 2 ^ 64
      · rw [if_pos hr] at h
        cases h
      · exact ⟨value, hv, hr⟩
  · intro h
    obtain ⟨value, hv, hr⟩ := h
    exact .inr ⟨value, hv, if_neg hr⟩

/-- The last instruction tells how many before it are passed over. -/
theorem threshold_concat (front : List Instruction) (count : Instruction) :
    threshold (front ++ [count]).reverse = numberOf count >>= pushedBefore front.reverse := by
  rw [List.reverse_append]
  rfl

/-- What is passed over makes no difference. -/
theorem Passes.threshold_eq (h : Passes before first others) :
    threshold before.reverse = numberOf first := by
  obtain ⟨start, count, rfl, hc, hl⟩ := h
  have hsplit : start ++ first :: (others ++ [count]) = start ++ first :: others ++ [count] := by
    simp
  have hplace : (start ++ first :: others).reverse[others.length]? = some first := by
    simp
  rw [hsplit, threshold_concat, numberOf_eq_ok.mpr ⟨hc, hl⟩]
  exact pushedBefore_of_some hplace

theorem exists_passed {front : List Instruction} (hn : n < front.length) :
    ∃ start first others, front = start ++ first :: others ∧ others.length = n := by
  have hplace : front.length - (n + 1) < front.length := by omega
  refine ⟨front.take (front.length - (n + 1)), front[front.length - (n + 1)],
    front.drop (front.length - (n + 1) + 1), ?_, ?_⟩
  · rw [← List.drop_eq_getElem_cons hplace, List.take_append_drop]
  · rw [List.length_drop]
    omega

/-- A number that does not reach beyond the first instruction leads to the one before as many. -/
theorem passes_of_lt {front : List Instruction} (hc : count.int? = .ok (n : Int)) (hn : n < 2 ^ 64)
    (hl : n < front.length) : ∃ first others, Passes (front ++ [count]) first others := by
  obtain ⟨start, first, others, rfl, rfl⟩ := exists_passed hl
  exact ⟨first, others, start, count, by simp, hc, hn⟩

/-- Behind a number there is a check that passes over others, or one that does not fit. -/
theorem passes_or_misfit {front : List Instruction} {value : Int} (hc : count.int? = .ok value) :
    (∃ first others, Passes (front ++ [count]) first others) ∨
      threshold (front ++ [count]).reverse = .error (.misfit .multisigCheck) := by
  by_cases hr : 0 ≤ value ∧ value < 2 ^ 64
  · obtain ⟨n, rfl⟩ := Int.eq_ofNat_of_zero_le hr.1
    have hn : n < 2 ^ 64 := by omega
    by_cases hl : n < front.length
    · exact .inl (passes_of_lt hc hn hl)
    · right
      rw [threshold_concat, numberOf_eq_ok.mpr ⟨hc, hn⟩]
      apply pushedBefore_of_length_le
      rw [List.length_reverse]
      omega
  · right
    rw [threshold_concat]
    exact bind_eq_error.mpr (.inl (numberOf_eq_misfit.mpr ⟨value, hc, hr⟩))

/-- A threshold is found in one way only: where others are passed over. -/
theorem passes_of_threshold {signatures : Nat} (h : threshold before.reverse = .ok signatures) :
    ∃ first others, Passes before first others := by
  obtain rfl | ⟨front, count, rfl⟩ := List.eq_nil_or_concat' before
  · cases h
  · have hfound := h
    rw [threshold_concat] at h
    obtain ⟨n, hn, -⟩ := bind_eq_ok.mp h
    obtain hp | hmisfit := passes_or_misfit (numberOf_eq_ok.mp hn).1
    · exact hp
    · rw [hfound] at hmisfit
      cases hmisfit

theorem threshold_eq_ok_iff_passes {signatures : Nat} :
    threshold before.reverse = .ok signatures ↔
      ∃ first others, Passes before first others ∧ first.int? = .ok (signatures : Int) ∧
        signatures < 2 ^ 64 := by
  constructor
  · intro h
    obtain ⟨first, others, hp⟩ := passes_of_threshold h
    rw [hp.threshold_eq] at h
    exact ⟨first, others, hp, numberOf_eq_ok.mp h⟩
  · intro h
    obtain ⟨first, others, hp, hs⟩ := h
    rw [hp.threshold_eq]
    exact numberOf_eq_ok.mpr hs

/-- The keys that are counted are the instructions that are passed over. -/
theorem Passes.keysCounted_iff (h : Passes before first others) :
    KeysCounted before ↔ ∀ i ∈ others, i.PushesKey := by
  obtain ⟨start, count, rfl, hc, -⟩ := h
  have hsplit : start ++ first :: (others ++ [count]) =
      (start ++ [first]) ++ (others ++ [count]) := by
    simp
  rw [hsplit]
  constructor
  · intro h
    obtain ⟨start', keys, count', he, hc', hkeys⟩ := h
    simp only [← List.append_assoc] at he
    obtain ⟨hfront, hlast⟩ := List.append_inj' he rfl
    obtain rfl := List.singleton_inj.mp hlast
    have hlength : others.length = keys.length := by
      have hvalue := Except.ok.inj (hc.symm.trans hc')
      omega
    obtain ⟨-, rfl⟩ := List.append_inj' hfront hlength
    exact hkeys
  · intro h
    exact ⟨_, others, count, rfl, hc, h⟩

/-- A check costs the price of a single one for each signature that it asks for. -/
theorem cost_check (before : List Instruction) :
    schedule.cost before checkMultisig.call = (threshold before).map (· * checkSigPrice) := by
  rw [cost_call]
  rfl

theorem costFrom_append_of_error {is js : List Instruction} {fault : Fault} {x : Nat}
    (hx : schedule.costFrom before is = .ok x)
    (hf : schedule.costFrom (is.reverse ++ before) js = .error fault) :
    schedule.costFrom before (is ++ js) = .error fault := by
  induction is generalizing before x with
  | nil => exact hf
  | cons i rest ih =>
    obtain ⟨first, others, hi, ho, -⟩ := costFrom_cons.mp hx
    rw [List.reverse_cons, List.append_assoc] at hf
    rw [List.cons_append, costFrom]
    exact bind_eq_error.mpr (.inr ⟨first, hi, bind_eq_error.mpr (.inl (ih ho hf))⟩)

/-- The first instruction that has no price is the one that is reported. -/
theorem baseCost_of_error {fault : Fault} {x : Nat} (hx : schedule.baseCost before = .ok x)
    (hi : schedule.cost before.reverse i = .error fault) :
    schedule.baseCost (before ++ i :: rest) = .error fault := by
  refine costFrom_append_of_error hx ?_
  rw [costFrom, List.append_nil]
  exact bind_eq_error.mpr (.inl hi)

theorem cost_of_baseCost {total : Nat} (h : schedule.baseCost (before ++ i :: rest) = .ok total) :
    ∃ price, schedule.cost before.reverse i = .ok price := by
  obtain ⟨_, _, -, hi, -⟩ := costFrom_append.mp h
  obtain ⟨price, _, hprice, -⟩ := costFrom_cons.mp hi
  rw [List.append_nil] at hprice
  exact ⟨price, hprice⟩

theorem cost_check_eq_ok {price : Nat} :
    schedule.cost before.reverse checkMultisig.call = .ok price ↔
      ∃ first others signatures, Passes before first others ∧
        first.int? = .ok ((signatures : Nat) : Int) ∧ signatures < 2 ^ 64 ∧
        price = 32768 * signatures := by
  have hprice : checkSigPrice = 32768 := rfl
  simp only [cost_check, map_eq_ok, threshold_eq_ok_iff_passes, hprice]
  constructor
  · intro h
    obtain ⟨signatures, ⟨first, others, hp, hs, hbound⟩, rfl⟩ := h
    exact ⟨first, others, signatures, hp, hs, hbound, Nat.mul_comm ..⟩
  · intro h
    obtain ⟨first, others, signatures, hp, hs, hbound, rfl⟩ := h
    exact ⟨signatures, ⟨first, others, hp, hs, hbound⟩, Nat.mul_comm ..⟩

theorem cost_check_eq_misfit :
    schedule.cost before.reverse checkMultisig.call = .error (.misfit .multisigCheck) ↔
      threshold before.reverse = .error (.misfit .multisigCheck) := by
  rw [cost_check]
  cases threshold before.reverse <;> simp [Except.map]

/-- Unless they are overlooked, what a check with a price passes over are keys. -/
theorem keysCounted_of_cost {price : Nat} (ho : ¬Overlooked before)
    (h : schedule.cost before.reverse checkMultisig.call = .ok price) : KeysCounted before := by
  obtain ⟨first, others, signatures, hp, hs, hbound, -⟩ := cost_check_eq_ok.mp h
  rw [hp.keysCounted_iff]
  by_contra hkeys
  refine ho ⟨first, others, hp, hkeys, ?_⟩
  intro value hv
  obtain rfl := Except.ok.inj (hs.symm.trans hv)
  omega

theorem threshold_eq_misfit {front : List Instruction} {value : Int}
    (ho : ¬Overlooked (front ++ [count])) (hc : count.int? = .ok value)
    (hkeys : ¬KeysCounted (front ++ [count])) :
    threshold (front ++ [count]).reverse = .error (.misfit .multisigCheck) := by
  obtain ⟨first, others, hp⟩ | hmisfit := passes_or_misfit hc
  · rw [hp.threshold_eq, numberOf_eq_misfit]
    rw [hp.keysCounted_iff] at hkeys
    by_contra hfirst
    refine ho ⟨first, others, hp, hkeys, ?_⟩
    intro value hv
    by_contra hr
    exact hfirst ⟨value, hv, hr⟩
  · exact hmisfit

/-- Where they are overlooked, the check has a price or the instruction before them is reported. -/
theorem Overlooked.not_counted (h : Overlooked before) :
    ¬KeysCounted before ∧ threshold before.reverse ≠ .error (.misfit .multisigCheck) := by
  obtain ⟨first, others, hp, hkeys, hfirst⟩ := h
  rw [hp.keysCounted_iff, hp.threshold_eq]
  refine ⟨hkeys, ?_⟩
  intro hmisfit
  obtain ⟨value, hv, hr⟩ := numberOf_eq_misfit.mp hmisfit
  exact hr (hfirst value hv)

/-- A check has a price exactly if a number stands right before as many others as are counted, and
it is the price of so many signatures, whatever these others are. Unless something is overlooked
among them, they are keys wherever a script is priced that contains the check; where they are not,
the check does not fit, and this is reported for the script if all before has a price. Where
something is overlooked, they are not keys, and it is not reported that the check does not fit. -/
theorem checks_priced_by_count (schedule : FeeSchedule) (before rest : List Instruction) :
    (∀ price, schedule.cost before.reverse checkMultisig.call = .ok price ↔
      ∃ first others signatures, Passes before first others ∧
        first.int? = .ok ((signatures : Nat) : Int) ∧ signatures < 2 ^ 64 ∧
        price = 32768 * signatures) ∧
    (¬Overlooked before →
      (∀ total, schedule.baseCost (before ++ checkMultisig.call :: rest) = .ok total →
        KeysCounted before) ∧
      ∀ front count value, before = front ++ [count] → count.int? = .ok value →
        ¬KeysCounted before →
        schedule.cost before.reverse checkMultisig.call = .error (.misfit .multisigCheck) ∧
          ∀ x, schedule.baseCost before = .ok x →
            schedule.baseCost (before ++ checkMultisig.call :: rest) =
              .error (.misfit .multisigCheck)) ∧
    (Overlooked before →
      ¬KeysCounted before ∧
        schedule.cost before.reverse checkMultisig.call ≠ .error (.misfit .multisigCheck)) := by
  refine ⟨fun price => cost_check_eq_ok, ?_, ?_⟩
  · intro ho
    constructor
    · intro total ht
      obtain ⟨price, hprice⟩ := cost_of_baseCost ht
      exact keysCounted_of_cost ho hprice
    · intro front count value hb hc hkeys
      have hmisfit : schedule.cost before.reverse checkMultisig.call =
          .error (.misfit .multisigCheck) := by
        subst hb
        exact cost_check_eq_misfit.mpr (threshold_eq_misfit ho hc hkeys)
      exact ⟨hmisfit, fun x hx => baseCost_of_error hx hmisfit⟩
  · intro ho
    obtain ⟨hkeys, hfits⟩ := ho.not_counted
    exact ⟨hkeys, fun hmisfit => hfits (cost_check_eq_misfit.mp hmisfit)⟩

/-- A check by one key, one by two keys without any, and one with something else for its key. -/
theorem checks_priced_by_count_three :
    (¬Overlooked [⟨.push1, none⟩, ⟨.pushData1, some (.replicate 33 2)⟩, ⟨.push1, none⟩] ∧
      baseCost ⟨1, none⟩ ([⟨.push1, none⟩, ⟨.pushData1, some (.replicate 33 2)⟩,
        ⟨.push1, none⟩] ++ checkMultisig.call :: [⟨.ret, none⟩]) = .ok 32778 ∧
      KeysCounted [⟨.push1, none⟩, ⟨.pushData1, some (.replicate 33 2)⟩, ⟨.push1, none⟩]) ∧
    (¬Overlooked [⟨.push2, none⟩] ∧ ¬KeysCounted [⟨.push2, none⟩] ∧
      baseCost ⟨1, none⟩ ([⟨.push2, none⟩] ++ checkMultisig.call :: []) =
        .error (.misfit .multisigCheck)) ∧
    (Overlooked [⟨.push1, none⟩, ⟨.nop, none⟩, ⟨.push1, none⟩] ∧
      cost ⟨1, none⟩ [⟨.push1, none⟩, ⟨.nop, none⟩, ⟨.push1, none⟩].reverse checkMultisig.call ≠
        .error (.misfit .multisigCheck)) := by
  have hkey : Passes [⟨.push1, none⟩, ⟨.pushData1, some (.replicate 33 2)⟩, ⟨.push1, none⟩]
      ⟨.push1, none⟩ [⟨.pushData1, some (.replicate 33 2)⟩] :=
    ⟨[], ⟨.push1, none⟩, rfl, rfl, by decide⟩
  have hnop : Passes [⟨.push1, none⟩, ⟨.nop, none⟩, ⟨.push1, none⟩] ⟨.push1, none⟩ [⟨.nop, none⟩] :=
    ⟨[], ⟨.push1, none⟩, rfl, rfl, by decide⟩
  have hcounted : KeysCounted
      [⟨.push1, none⟩, ⟨.pushData1, some (.replicate 33 2)⟩, ⟨.push1, none⟩] := by
    rw [hkey.keysCounted_iff]
    intro i hi
    obtain rfl := List.mem_singleton.mp hi
    exact ⟨by decide, ⟨.replicate 33 2, rfl⟩, rfl⟩
  have hkept : ¬Overlooked
      [⟨.push1, none⟩, ⟨.pushData1, some (.replicate 33 2)⟩, ⟨.push1, none⟩] :=
    fun h => h.not_counted.1 hcounted
  have hshort : ¬Overlooked [⟨.push2, none⟩] := by
    intro h
    obtain ⟨_, _, ⟨_, _, he, -⟩, -⟩ := h
    have hlength := congrArg List.length he
    simp only [List.length_append, List.length_cons, List.length_nil] at hlength
    omega
  have hnone : ¬KeysCounted [⟨.push2, none⟩] := by
    intro h
    obtain ⟨start, keys, count, he, hc, -⟩ := h
    have hlength := congrArg List.length he
    simp only [List.length_append, List.length_cons, List.length_nil] at hlength
    obtain rfl := List.length_eq_zero_iff.mp (show start.length = 0 by omega)
    obtain rfl := List.length_eq_zero_iff.mp (show keys.length = 0 by omega)
    obtain rfl := List.singleton_inj.mp he
    cases hc
  have hover : Overlooked [⟨.push1, none⟩, ⟨.nop, none⟩, ⟨.push1, none⟩] := by
    refine ⟨_, _, hnop, ?_, ?_⟩
    · intro hkeys
      exact absurd (hkeys ⟨.nop, none⟩ (by simp)).1 (by decide)
    · intro value hv
      obtain rfl : (1 : Int) = value := Except.ok.inj hv
      decide
  have hprice : baseCost ⟨1, none⟩ ([⟨.push1, none⟩, ⟨.pushData1, some (.replicate 33 2)⟩,
      ⟨.push1, none⟩] ++ checkMultisig.call :: [⟨.ret, none⟩]) = .ok 32778 := by
    decide +kernel
  refine ⟨⟨hkept, hprice, ?_⟩, ⟨hshort, hnone, ?_⟩, hover, ?_⟩
  · exact ((checks_priced_by_count ⟨1, none⟩ _ _).2.1 hkept).1 _ hprice
  · have hmisfit := ((checks_priced_by_count ⟨1, none⟩ [⟨.push2, none⟩] []).2.1 hshort).2
      [] ⟨.push2, none⟩ 2 rfl rfl hnone
    exact hmisfit.2 1 (by decide +kernel)
  · exact ((checks_priced_by_count ⟨1, none⟩ _ []).2.2 hover).2

/-- The instruction in the place of the key is none that pushes one. -/
theorem check_priced_without_key :
    baseCost ⟨1, none⟩ ([⟨.push1, none⟩, ⟨.nop, none⟩, ⟨.push1, none⟩] ++ [checkMultisig.call]) =
        .ok 32771 ∧
      ¬KeysCounted [⟨.push1, none⟩, ⟨.nop, none⟩, ⟨.push1, none⟩] := by
  refine ⟨by decide +kernel, ?_⟩
  have hp : Passes [⟨.push1, none⟩, ⟨.nop, none⟩, ⟨.push1, none⟩] ⟨.push1, none⟩ [⟨.nop, none⟩] :=
    ⟨[], ⟨.push1, none⟩, rfl, rfl, by decide⟩
  rw [hp.keysCounted_iff]
  intro hkeys
  exact absurd (hkeys ⟨.nop, none⟩ (by simp)).1 (by decide)

end FeeSchedule
end ScriptKit
