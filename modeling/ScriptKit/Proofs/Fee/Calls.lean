import ScriptKit.Proofs.Call.RoundTrip
import ScriptKit.Proofs.Fee.Pieces

namespace ScriptKit

namespace Param

mutual

/-- What pushing the parameter costs. Data cost what their length in the script says; void is never
pushed. -/
def cost : Param → Nat
  | any _ | boolean _ => 1
  | integer value => intCost value
  | byteArray bytes => dataCost bytes.length
  | string text => dataCost (Utf8.encode text).length
  | hash160 hash => dataCost hash.toWire.length
  | hash256 hash => dataCost hash.toWire.length
  | publicKey key => dataCost key.toWire.length
  | array items => costOfAll items + 1 + 2048
  | void => 0

def costOfAll : List Param → Nat
  | [] => 0
  | item :: rest => item.cost + costOfAll rest

end

end Param

/-- What a call costs: its arguments, its operation, the flags, the hash of the contract and the
service. -/
def Call.cost (c : Call) : Nat :=
  (Param.array c.args).cost + dataCost (Utf8.encode c.operation).length + 1 + 8 + 32768

theorem Call.Pushes.length_le {is : List Instruction} {values : List Param}
    (h : Pushes is values) : values.length ≤ is.length := by
  induction h with
  | nil => exact Nat.le_refl 0
  | atom start last ih => simpa using ih
  | pack start inner number last ihStart ihInner =>
    simp only [List.length_append, List.length_cons, List.length_nil]
    omega

theorem Instruction.length_le_of_decode {script : Bytes} {is : List Instruction}
    (h : decode script = .ok is) : is.length ≤ script.length := by
  rw [← sum_size_of_encodeAll (decode_eq_ok_iff.mp h).1]
  clear h
  induction is with
  | nil => exact Nat.le_refl 0
  | cons i rest ih =>
    have hone := one_le_size i
    simp only [List.length_cons, List.map_cons, List.foldr_cons]
    omega

namespace Emission

variable {written : Bytes}

/-- Every item takes at least a byte. -/
theorem length_le_of_reversed {items : List Param} (h : (reversed items).result = .ok written) :
    items.length ≤ written.length := by
  obtain ⟨is, hd, hp⟩ := pushes_of_reversed h
  rw [← Param.length_wireAll items]
  exact hp.length_le.trans (Instruction.length_le_of_decode hd)

theorem costs_of_bool {value : Bool} (h : (bool value).result = .ok written) : Costs written 1 := by
  obtain ⟨i, hd, ha⟩ := atom_of_bool h
  cases ha <;> exact .of_price hd nofun

theorem costs_of_null (h : null.result = .ok written) : Costs written 1 := by
  obtain ⟨i, hd, ha⟩ := atom_of_null h
  cases ha
  exact .of_price hd nofun

/-- The number of items is a small integer in every script that fits a memory. -/
theorem costs_of_count {count : Nat} (hc : count < 2 ^ 63) (h : (int count).result = .ok written) :
    Costs written 1 := by
  have hone : intCost count = 1 := by
    unfold intCost
    rw [if_pos (by omega)]
  rw [← hone]
  exact costs_of_int h

mutual

theorem costs_of_param {p : Param} {written : Bytes} (h : (param p).result = .ok written)
    (hl : written.length < 2 ^ 63) : Costs written p.cost := by
  cases p with
  | any text => exact costs_of_null (by rwa [param] at h)
  | boolean value => exact costs_of_bool (by rwa [param] at h)
  | integer value => exact costs_of_int (by rwa [param] at h)
  | byteArray bytes => exact costs_of_data (by rwa [param] at h)
  | string text => exact costs_of_data (by rwa [param] at h)
  | hash160 hash => exact costs_of_data (by rwa [param] at h)
  | hash256 hash => exact costs_of_data (by rwa [param] at h)
  | publicKey key => exact costs_of_data (by rwa [param] at h)
  | array items =>
    rw [param] at h
    obtain ⟨packed, _, hpacked, hlast, rfl⟩ := result_andThen.mp h
    obtain ⟨number, pack, hnumber, hpack, rfl⟩ := result_andThen.mp hlast
    simp only [List.length_append] at hl
    have hitems : Costs packed (Param.costOfAll items) := costs_of_reversed hpacked (by omega)
    have hcount : Costs number 1 :=
      costs_of_count (by have := length_le_of_reversed hpacked; omega) hnumber
    have hend : Costs pack 2048 := .of_price (decode_pack hpack) nofun
    rw [Param.cost, Nat.add_assoc]
    exact hitems.append (hcount.append hend)
  | void => rw [param] at h; cases h

theorem costs_of_reversed {items : List Param} {written : Bytes}
    (h : (reversed items).result = .ok written) (hl : written.length < 2 ^ 63) :
    Costs written (Param.costOfAll items) := by
  cases items with
  | nil =>
    rw [reversed] at h
    obtain rfl := Except.ok.inj h
    exact .nil
  | cons item rest =>
    rw [reversed] at h
    obtain ⟨others, last, hothers, hlast, rfl⟩ := result_andThen.mp h
    simp only [List.length_append] at hl
    have hrest := costs_of_reversed hothers (by omega)
    have hitem := costs_of_param hlast (by omega)
    rw [Param.costOfAll, Nat.add_comm]
    exact hrest.append hitem

end

theorem costs_of_call {c : Call} (h : (call c).result = .ok written)
    (hl : written.length < 2 ^ 63) : Costs written c.cost := by
  rw [call] at h
  simp only [List.foldr_cons, List.foldr_nil, result_andThen] at h
  obtain ⟨args, _, hargs, ⟨operation, _, hoperation, ⟨flags, _, hflags, ⟨hash, _, hhash,
    ⟨last, _, hlast, hend, rfl⟩, rfl⟩, rfl⟩, rfl⟩, rfl⟩ := h
  obtain rfl := Except.ok.inj hend
  simp only [List.length_append] at hl
  have hprice : Service.contractCall.price = .fixed 32768 := rfl
  have hbyte := c.flags.bits.toNat_lt
  have ha : Costs args (Param.array c.args).cost := costs_of_param hargs (by omega)
  have ho : Costs operation (dataCost (Utf8.encode c.operation).length) := costs_of_data hoperation
  have hf : Costs flags 1 := costs_of_count (by omega) hflags
  have hs : Costs hash 8 := by
    have hd := costs_of_data hhash
    rwa [FixedBytes.length_toWire] at hd
  have hc : Costs last 32768 := .of_call hprice (decode_syscall hlast)
  rw [List.append_nil, Call.cost, Nat.add_assoc, Nat.add_assoc, Nat.add_assoc]
  exact ha.append (ho.append (hf.append (hs.append hc)))

theorem costs_of_calls {calls : List Call} (h : (Emission.calls calls).result = .ok written)
    (hl : written.length < 2 ^ 63) : Costs written (calls.map Call.cost).sum := by
  induction calls generalizing written with
  | nil =>
    obtain rfl := Except.ok.inj h
    exact .nil
  | cons c rest ih =>
    rw [Emission.calls] at h
    obtain ⟨first, others, hfirst, hothers, rfl⟩ := result_andThen.mp h
    simp only [List.length_append] at hl
    rw [List.map_cons, List.sum_cons]
    exact (costs_of_call hfirst (by omega)).append (ih hothers (by omega))

end Emission

/-- A script that was written for calls has a fee, whatever size is set for stored items, or none:
the factor times what the calls cost. No byte string in a memory comes near the bound on its length,
which keeps the number of items of an array small. -/
theorem FeeSchedule.calls_priced_by_arguments (calls : List Call) (script : Bytes)
    (h : Call.script calls = .ok script) (hl : script.length < 2 ^ 63) (schedule : FeeSchedule) :
    schedule.feeOfScript script = .ok (schedule.factor * (calls.map Call.cost).sum) :=
  (Emission.costs_of_calls h hl).feeOfScript schedule

/-- Two calls. Data of the first look like a call of a service that stores, and an integer of it
needs nine bytes. -/
theorem FeeSchedule.calls_priced_by_arguments_two_calls :
    ∃ script,
      Call.script [⟨⟨.replicate 20 0x41, rfl⟩, "put",
          [.array [.byteArray [0x41, 0xe6, 0x3f, 0x18, 0x84], .integer (2 ^ 63)], .any none,
            .hash256 ⟨.replicate 32 0x41, rfl⟩], .all⟩,
        ⟨⟨.replicate 20 7, rfl⟩, "", [], .none⟩] = .ok script ∧
      script.length < 2 ^ 63 ∧
      feeOfScript ⟨30, none⟩ script =
        .ok (30 * (((8 + 4 + 1 + 2048) + 1 + 8 + 1 + 2048 + 8 + 1 + 8 + 32768) +
          (1 + 2048 + 8 + 1 + 8 + 32768))) := by
  have hcost : ([⟨⟨.replicate 20 0x41, rfl⟩, "put",
          [.array [.byteArray [0x41, 0xe6, 0x3f, 0x18, 0x84], .integer (2 ^ 63)], .any none,
            .hash256 ⟨.replicate 32 0x41, rfl⟩], .all⟩,
        ⟨⟨.replicate 20 7, rfl⟩, "", [], .none⟩].map Call.cost).sum =
      ((8 + 4 + 1 + 2048) + 1 + 8 + 1 + 2048 + 8 + 1 + 8 + 32768) +
        (1 + 2048 + 8 + 1 + 8 + 32768) := by
    decide +kernel
  refine ⟨_, rfl, by decide +kernel, ?_⟩
  rw [← hcost]
  exact calls_priced_by_arguments _ _ rfl (by decide +kernel) ⟨30, none⟩

end ScriptKit
