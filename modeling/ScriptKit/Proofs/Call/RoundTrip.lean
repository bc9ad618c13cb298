import ScriptKit.Proofs.Call.Grammar
import ScriptKit.Proofs.Emission

namespace ScriptKit

namespace Param

mutual

/-- What is left of a parameter in a script. -/
def wire : Param → Param
  | any _ => any none
  | boolean value => boolean value
  | integer value => integer value
  | byteArray bytes => byteArray bytes
  | string text => byteArray (Utf8.encode text)
  | hash160 hash => byteArray hash.bytes.reverse
  | hash256 hash => byteArray hash.bytes.reverse
  | publicKey key => byteArray key.bytes
  | array items => array (wireAll items)
  | void => void

def wireAll : List Param → List Param
  | [] => []
  | item :: rest => item.wire :: wireAll rest

end

mutual

/-- Whether the parameter can be pushed: nothing in it is void, its integers fit into 32 bytes and
its data are shorter than 4 GiB. The number of items of an array is pushed as an integer, too; no
array in a memory comes near the bound on it. -/
def Pushable : Param → Prop
  | any _ | boolean _ | hash160 _ | hash256 _ | publicKey _ => True
  | integer value => -2 ^ 255 ≤ value ∧ value < 2 ^ 255
  | byteArray bytes => bytes.length < 2 ^ 32
  | string text => (Utf8.encode text).length < 2 ^ 32
  | array items => items.length < 2 ^ 255 ∧ AllPushable items
  | void => False

def AllPushable : List Param → Prop
  | [] => True
  | item :: rest => item.Pushable ∧ AllPushable rest

end

theorem wireAll_eq_map (items : List Param) : wireAll items = items.map wire := by
  induction items with
  | nil => rfl
  | cons item rest ih => rw [wireAll, ih, List.map_cons]

@[simp] theorem length_wireAll (items : List Param) : (wireAll items).length = items.length := by
  rw [wireAll_eq_map, List.length_map]

theorem allPushable_iff (items : List Param) :
    AllPushable items ↔ ∀ item ∈ items, item.Pushable := by
  induction items with
  | nil => simp [AllPushable]
  | cons item rest ih => simp [AllPushable, ih]

end Param

namespace Emission

open Call (Pushes Atom)

theorem atom_of_int {value : Int} {written : Bytes} (h : (int value).result = .ok written) :
    ∃ i, Instruction.decode written = .ok [i] ∧ Atom i (.integer value) := by
  obtain ⟨i, hd, hv⟩ := decode_int h
  exact ⟨i, hd, Call.atom_of_value (Call.value_of_int? hv)⟩

theorem atom_of_data {value written : Bytes} (h : (data value).result = .ok written) :
    ∃ i, Instruction.decode written = .ok [i] ∧ Atom i (.byteArray value) := by
  obtain ⟨i, hd, hm, rfl⟩ := decode_data h
  exact ⟨i, hd, .data hm⟩

theorem atom_of_text {value : String} {written : Bytes} (h : (text value).result = .ok written) :
    ∃ i, Instruction.decode written = .ok [i] ∧ Atom i (.byteArray (Utf8.encode value)) :=
  atom_of_data h

theorem atom_of_fixed {kind : FixedBytes.Kind} {value : FixedBytes kind} {written : Bytes}
    (h : (fixed value).result = .ok written) :
    ∃ i, Instruction.decode written = .ok [i] ∧ Atom i (.byteArray value.toWire) :=
  atom_of_data h

theorem atom_of_bool {value : Bool} {written : Bytes} (h : (bool value).result = .ok written) :
    ∃ i, Instruction.decode written = .ok [i] ∧ Atom i (.boolean value) := by
  rw [bool_eq, result_instruction] at h
  cases value with
  | true => exact ⟨.pushBool true, Instruction.decode_of_encode h rfl, .true⟩
  | false => exact ⟨.pushBool false, Instruction.decode_of_encode h rfl, .false⟩

theorem atom_of_null {written : Bytes} (h : null.result = .ok written) :
    ∃ i, Instruction.decode written = .ok [i] ∧ Atom i (.any none) := by
  rw [null_eq, result_instruction] at h
  exact ⟨.pushNull, Instruction.decode_of_encode h rfl, .null⟩

theorem decode_pack {written : Bytes} (h : (raw .pack).result = .ok written) :
    Instruction.decode written = .ok [⟨.pack, none⟩] := by
  obtain rfl := Except.ok.inj h
  exact Instruction.decode_of_encode rfl rfl

theorem decode_syscall {service : ServiceCode} {written : Bytes}
    (h : (raw .syscall service.bytes).result = .ok written) :
    Instruction.decode written = .ok [⟨.syscall, some service.bytes⟩] := by
  obtain rfl := Except.ok.inj h
  have hv : Instruction.IsValid ⟨.syscall, some service.bytes⟩ := service.length_eq
  exact Instruction.decode_of_encode (Instruction.encode_eq_ok_iff.mpr ⟨hv, rfl⟩) rfl

mutual

/-- What is written for a parameter pushes its form on the wire. -/
theorem pushes_of_param {p : Param} {written : Bytes} (h : (param p).result = .ok written) :
    ∃ is, Instruction.decode written = .ok is ∧ Pushes is [p.wire] := by
  have single : (∃ i, Instruction.decode written = .ok [i] ∧ Atom i p.wire) →
      ∃ is, Instruction.decode written = .ok is ∧ Pushes is [p.wire] := by
    intro h
    obtain ⟨i, hd, ha⟩ := h
    exact ⟨[i], hd, Pushes.nil.atom ha⟩
  cases p with
  | any text => exact single (atom_of_null (by rwa [param] at h))
  | boolean value => exact single (atom_of_bool (by rwa [param] at h))
  | integer value => exact single (atom_of_int (by rwa [param] at h))
  | byteArray bytes => exact single (atom_of_data (by rwa [param] at h))
  | string text => exact single (atom_of_text (by rwa [param] at h))
  | hash160 hash => exact single (atom_of_fixed (by rwa [param] at h))
  | hash256 hash => exact single (atom_of_fixed (by rwa [param] at h))
  | publicKey key => exact single (atom_of_fixed (by rwa [param] at h))
  | array items =>
    rw [param] at h
    obtain ⟨packed, last, hpacked, hlast, rfl⟩ := result_andThen.mp h
    obtain ⟨number, _, hnumber, hpack, rfl⟩ := result_andThen.mp hlast
    obtain ⟨is, hd, hp⟩ := pushes_of_reversed hpacked
    obtain ⟨count, hc, ha⟩ := atom_of_int hnumber
    refine ⟨is ++ [count, ⟨.pack, none⟩],
      Instruction.decode_append hd (Instruction.decode_append hc (decode_pack hpack)), ?_⟩
    rw [← Param.length_wireAll items] at ha
    exact Pushes.nil.pack hp ha rfl
  | void => rw [param] at h; cases h

/-- What is written for parameters, last to first, leaves the first one on top. -/
theorem pushes_of_reversed {items : List Param} {written : Bytes}
    (h : (reversed items).result = .ok written) :
    ∃ is, Instruction.decode written = .ok is ∧ Pushes is (Param.wireAll items) := by
  cases items with
  | nil =>
    rw [reversed] at h
    obtain rfl := Except.ok.inj h
    exact ⟨[], Instruction.decode_nil, .nil⟩
  | cons item rest =>
    rw [reversed] at h
    obtain ⟨others, last, hothers, hlast, rfl⟩ := result_andThen.mp h
    obtain ⟨is, hd, hp⟩ := pushes_of_reversed hothers
    obtain ⟨js, hj, hq⟩ := pushes_of_param hlast
    exact ⟨is ++ js, Instruction.decode_append hd hj, hp.append hq⟩

end

theorem bool_ok (value : Bool) : ∃ written, (bool value).result = .ok written := by
  cases value <;> exact ⟨_, rfl⟩

theorem fixed_ok {kind : FixedBytes.Kind} (value : FixedBytes kind) :
    ∃ written, (fixed value).result = .ok written := by
  rw [fixed, data_ok_iff, FixedBytes.length_toWire]
  cases kind <;> decide

mutual

/-- A parameter can be written exactly if it can be pushed. -/
theorem param_ok_iff (p : Param) : (∃ written, (param p).result = .ok written) ↔ p.Pushable := by
  cases p with
  | any text =>
    rw [param, Param.Pushable]
    exact iff_true_intro ⟨_, rfl⟩
  | boolean value =>
    rw [param, Param.Pushable]
    exact iff_true_intro (bool_ok value)
  | integer value => rw [param, Param.Pushable, int_ok_iff]
  | byteArray bytes => rw [param, Param.Pushable, data_ok_iff]
  | string text => rw [param, Param.Pushable, Emission.text, data_ok_iff]
  | hash160 hash | hash256 hash | publicKey key =>
    rw [param, Param.Pushable]
    exact iff_true_intro (fixed_ok _)
  | array items =>
    have hpack : ∃ written, (raw .pack).result = .ok written := ⟨_, rfl⟩
    rw [param, Param.Pushable, result_andThen_ok_iff, result_andThen_ok_iff, reversed_ok_iff,
      int_ok_iff, and_iff_left hpack, and_comm]
    exact and_congr_left' (by omega)
  | void =>
    rw [param, Param.Pushable]
    exact iff_false_intro (by rintro ⟨_, h⟩; cases h)

theorem reversed_ok_iff (items : List Param) :
    (∃ written, (reversed items).result = .ok written) ↔ Param.AllPushable items := by
  cases items with
  | nil =>
    rw [reversed, Param.AllPushable]
    exact iff_true_intro ⟨[], rfl⟩
  | cons item rest =>
    rw [reversed, Param.AllPushable, result_andThen_ok_iff, reversed_ok_iff, param_ok_iff, and_comm]

end

end Emission

namespace Call

/-- What is left of a call in a script. -/
def wire (c : Call) : Call := { c with args := c.args.map Param.wire }

/-- Whether everything in the call can be pushed. -/
def Pushable (c : Call) : Prop :=
  (∀ arg ∈ c.args, arg.Pushable) ∧ c.args.length < 2 ^ 255 ∧
    (Utf8.encode c.operation).length < 2 ^ 32

/-- The instructions written for a call make it. -/
theorem makes_of_emission {c : Call} {written : Bytes}
    (h : (Emission.call c).result = .ok written) :
    ∃ is, Instruction.decode written = .ok is ∧ Makes is c.wire := by
  rw [Emission.call] at h
  simp only [List.foldr_cons, List.foldr_nil, Emission.result_andThen] at h
  obtain ⟨args, _, hargs, ⟨operation, _, hoperation, ⟨flags, _, hflags, ⟨hash, _, hhash,
    ⟨last, _, hlast, hend, rfl⟩, rfl⟩, rfl⟩, rfl⟩, rfl⟩ := h
  obtain rfl := Except.ok.inj hend
  obtain ⟨is, hi, hp⟩ := Emission.pushes_of_param hargs
  obtain ⟨o, ho, hao⟩ := Emission.atom_of_text hoperation
  obtain ⟨f, hf, haf⟩ := Emission.atom_of_int hflags
  obtain ⟨s, hs, has⟩ := Emission.atom_of_fixed hhash
  rw [List.append_nil]
  refine ⟨is ++ ([o] ++ ([f] ++ ([s] ++ [⟨.syscall, some Service.contractCall.code.bytes⟩]))),
    Instruction.decode_append hi (Instruction.decode_append ho (Instruction.decode_append hf
      (Instruction.decode_append hs (Emission.decode_syscall hlast)))), ?_⟩
  rw [Param.wire, Param.wireAll_eq_map] at hp
  have hm : Makes (is ++ o :: [f] ++ [s, ⟨.syscall, some Service.contractCall.code.bytes⟩])
      c.wire := .intro hp hao (.inr ⟨f, rfl, haf⟩) has ⟨rfl, rfl⟩
  simpa using hm

theorem emission_ok_iff (c : Call) :
    (∃ written, (Emission.call c).result = .ok written) ↔ c.Pushable := by
  have hflags : ∃ written, (Emission.int c.flags.bits.toNat).result = .ok written := by
    have hl := c.flags.bits.toNat_lt
    exact Emission.int_ok_iff.mpr (by omega)
  have hlast : ∃ written,
      (Emission.raw .syscall Service.contractCall.code.bytes).result = .ok written := ⟨_, rfl⟩
  have hend : ∃ written, ({} : Emission).result = .ok written := ⟨_, rfl⟩
  rw [Emission.call]
  simp only [List.foldr_cons, List.foldr_nil, Emission.result_andThen_ok_iff, hflags, hlast, hend,
    Emission.fixed_ok, and_true]
  rw [Emission.array, Emission.param_ok_iff, Emission.text, Emission.data_ok_iff, Param.Pushable,
    Param.allPushable_iff, Pushable, and_comm (b := ∀ arg ∈ c.args, arg.Pushable), and_assoc]

/-- The instructions written for calls make them one after another. -/
theorem calls_of_emission {calls : List Call} {written : Bytes}
    (h : (Emission.calls calls).result = .ok written) :
    ∃ is, Instruction.decode written = .ok is ∧ Calls is (calls.map wire) := by
  induction calls generalizing written with
  | nil =>
    obtain rfl := Except.ok.inj h
    exact ⟨[], Instruction.decode_nil, .values .nil⟩
  | cons c rest ih =>
    rw [Emission.calls] at h
    obtain ⟨first, others, hfirst, hothers, rfl⟩ := Emission.result_andThen.mp h
    obtain ⟨is, hi, hm⟩ := makes_of_emission hfirst
    obtain ⟨js, hj, hc⟩ := ih hothers
    exact ⟨is ++ js, Instruction.decode_append hi hj, .call hm hc⟩

theorem emissions_ok_iff (calls : List Call) :
    (∃ written, (Emission.calls calls).result = .ok written) ↔ ∀ c ∈ calls, c.Pushable := by
  induction calls with
  | nil =>
    simp only [List.not_mem_nil, false_implies, implies_true, iff_true]
    exact ⟨[], rfl⟩
  | cons c rest ih =>
    rw [Emission.calls, Emission.result_andThen_ok_iff, emission_ok_iff, ih, List.forall_mem_cons]

/-- Calls can be written as one script exactly if each of them can be pushed, and from the script
just these calls are recovered, in order and in the form they have on the wire. -/
theorem ofScript_script (calls : List Call) :
    ((∃ written, script calls = .ok written) ↔ ∀ c ∈ calls, c.Pushable) ∧
      ∀ written, script calls = .ok written → ofScript written = .ok (calls.map wire) := by
  refine ⟨emissions_ok_iff calls, fun written h => ?_⟩
  obtain ⟨is, hd, hc⟩ := calls_of_emission h
  exact ofScript_eq_ok.mpr ⟨is, hd, run_calls hc⟩

/-- Two calls, the second without arguments, an operation or permissions. -/
theorem ofScript_script_two_calls :
    ∃ written,
      script [⟨⟨.replicate 19 7 ++ [8], rfl⟩, "put",
          [.array [.string "a", .integer (-1)], .any (some "b"), .boolean false], .states⟩,
        ⟨⟨.replicate 20 7, rfl⟩, "", [], .none⟩] = .ok written ∧
      ofScript written =
        .ok [⟨⟨.replicate 19 7 ++ [8], rfl⟩, "put",
            [.array [.byteArray [0x61], .integer (-1)], .any none, .boolean false], .states⟩,
          ⟨⟨.replicate 20 7, rfl⟩, "", [], .none⟩] :=
  ⟨_, rfl, (ofScript_script
    [⟨⟨.replicate 19 7 ++ [8], rfl⟩, "put",
        [.array [.string "a", .integer (-1)], .any (some "b"), .boolean false], .states⟩,
      ⟨⟨.replicate 20 7, rfl⟩, "", [], .none⟩]).2 _ rfl⟩

end Call

end ScriptKit
