import ScriptKit.Proofs.Call.RoundTrip
import ScriptKit.Proofs.Instruction.Shortest
import ScriptKit.Proofs.Param.Json

namespace ScriptKit

/-- Whether the parameter can be pushed and comes back unchanged. -/
def Param.IsNormal (p : Param) : Prop := p.wire = p ∧ p.Pushable

theorem Param.isNormal_array {items : List Param} (h : ∀ item ∈ items, item.IsNormal)
    (hl : items.length < 2 ^ 255) : (array items).IsNormal := by
  refine ⟨?_, ?_⟩
  · have he : items.map wire = items :=
      (List.map_congr_left fun item hm => (h item hm).1).trans (List.map_id _)
    rw [wire, wireAll_eq_map, he]
  · rw [Pushable, allPushable_iff]
    exact ⟨hl, fun item hm => (h item hm).2⟩

namespace Call

/-- An operand is never longer than the widest length field can tell. -/
theorem length_payload_lt {i : Instruction} (hv : i.IsValid) (h : i.op ∈ Instruction.dataPushes) :
    i.payload.length < 2 ^ 32 := by
  obtain ⟨width, hr, hmax, hlt⟩ := Instruction.dataPushes_table h
  rw [Instruction.IsValid, hr, OperandRule.Admits] at hv
  omega

theorem isNormal_of_atom {i : Instruction} {value : Param} (hv : i.IsValid) (h : Atom i value) :
    value.IsNormal := by
  cases h with
  | true | false | null => exact ⟨by rw [Param.wire], by rw [Param.Pushable]; trivial⟩
  | data push => exact ⟨by rw [Param.wire], by rw [Param.Pushable]; exact length_payload_lt hv push⟩
  | small push =>
    obtain ⟨hl, hu, -⟩ := Instruction.smallInt?_eq_some push
    exact ⟨by rw [Param.wire], by rw [Param.Pushable]; omega⟩
  | wide push =>
    exact ⟨by rw [Param.wire], by rw [Param.Pushable]; exact Instruction.toInt_bounds push⟩

theorem isNormal_of_pushes {is : List Instruction} {values : List Param} (h : Pushes is values)
    (hv : ∀ i ∈ is, i.IsValid) : ∀ value ∈ values, value.IsNormal := by
  induction h with
  | nil => nofun
  | atom start last ih =>
    obtain ⟨hstart, hlast⟩ := List.forall_mem_append.mp hv
    exact List.forall_mem_cons.mpr
      ⟨isNormal_of_atom (hlast _ List.mem_cons_self) last, ih hstart⟩
  | pack start inner number last ihStart ihInner =>
    obtain ⟨hstart, hpack⟩ := List.forall_mem_append.mp hv
    obtain ⟨hinner, hlast⟩ := List.forall_mem_append.mp hpack
    have hn := (isNormal_of_atom (hlast _ List.mem_cons_self) number).2
    rw [Param.Pushable] at hn
    exact List.forall_mem_cons.mpr
      ⟨Param.isNormal_array (ihInner hinner) (by exact_mod_cast hn.2), ihStart hstart⟩

/-- Whether the call can be pushed and is recovered as it is. -/
def IsNormal (c : Call) : Prop := c.wire = c ∧ c.Pushable

theorem isNormal_of_makes {is : List Instruction} {c : Call} (h : Makes is c)
    (hv : ∀ i ∈ is, i.IsValid) : c.IsNormal := by
  obtain @⟨args, flags, operation, hash, i, _, pushArgs, pushOperation, -, -, -⟩ := h
  simp only [List.forall_mem_append, List.forall_mem_cons] at hv
  obtain ⟨⟨hargs, hop, -⟩, -⟩ := hv
  obtain ⟨hw, hp⟩ := isNormal_of_pushes pushArgs hargs _ List.mem_cons_self
  obtain ⟨-, ho⟩ := isNormal_of_atom hop pushOperation
  rw [Param.wire, Param.wireAll_eq_map, Param.array.injEq] at hw
  rw [Param.Pushable, Param.allPushable_iff] at hp
  rw [Param.Pushable] at ho
  exact ⟨by rw [wire, hw], hp.2, hp.1, ho⟩

theorem isNormal_of_calls {is : List Instruction} {calls : List Call} (h : Calls is calls)
    (hv : ∀ i ∈ is, i.IsValid) : ∀ c ∈ calls, c.IsNormal := by
  induction h with
  | values => nofun
  | ret pushes drop others ih =>
    exact ih (List.forall_mem_cons.mp (List.forall_mem_append.mp hv).2).2
  | call makes others ih =>
    obtain ⟨hmakes, hothers⟩ := List.forall_mem_append.mp hv
    exact List.forall_mem_cons.mpr ⟨isNormal_of_makes makes hmakes, ih hothers⟩

/-- Every operand that was cut out of a script has the length that its opcode asks for. -/
theorem isNormal_of_ofScript {s : Bytes} {calls : List Call} (h : ofScript s = .ok calls) :
    ∀ c ∈ calls, c.IsNormal := by
  obtain ⟨is, hd, hr⟩ := ofScript_eq_ok.mp h
  have hv : ∀ i ∈ is, i.IsValid :=
    Instruction.encodeAll_ok_iff.mp ⟨s, (Instruction.decode_eq_ok_iff.mp hd).1⟩
  exact isNormal_of_calls (run_eq_ok.mp hr) fun i hm => hv i (List.mem_of_mem_filter hm)

theorem mapM_ofJson_toJson (calls : List Call) : (calls.map toJson).mapM ofJson = .ok calls := by
  induction calls with
  | nil => rfl
  | cons c rest ih =>
    rw [List.map_cons, List.mapM_cons]
    exact bind_eq_ok.mpr ⟨c, ofJson_toJson c, bind_eq_ok.mpr ⟨rest, ih, rfl⟩⟩

/-- Calls that are recovered from any script can be written as a script again, from which just these
calls are recovered, and they are read back from their JSON. -/
theorem recovered_calls_are_normal {s : Bytes} {calls : List Call} (h : ofScript s = .ok calls) :
    (∃ written, script calls = .ok written ∧ ofScript written = .ok calls) ∧
      (calls.map toJson).mapM ofJson = .ok calls := by
  have hn := isNormal_of_ofScript h
  obtain ⟨written, hw⟩ := (emissions_ok_iff calls).mpr fun c hm => (hn c hm).2
  obtain ⟨is, hd, hc⟩ := calls_of_emission hw
  have he : calls.map wire = calls :=
    (List.map_congr_left fun c hm => (hn c hm).1).trans (List.map_id _)
  rw [he] at hc
  exact ⟨⟨written, hw, ofScript_eq_ok.mpr ⟨is, hd, run_calls hc⟩⟩, mapM_ofJson_toJson calls⟩

/-- A value that a return drops, wider pushes than there need be, and no flags. -/
theorem recovered_calls_are_normal_wide_pushes :
    ofScript ([0x15, 0x40, 0x02, 0xff, 0xff, 0xff, 0xff, 0x21, 0x01, 1, 0, 0xc0, 0x11, 0xc0,
        0x0d, 3, 0, 0x70, 0x75, 0x74, 0x39, 0x0c, 20] ++ .replicate 20 7 ++
        [0x41, 0x62, 0x7d, 0x5b, 0x52]) =
      .ok [⟨⟨.replicate 20 7, rfl⟩, "put", [.array [.integer (-1)]], .all⟩] ∧
    ∃ written,
      script [⟨⟨.replicate 20 7, rfl⟩, "put", [.array [.integer (-1)]], .all⟩] = .ok written ∧
      ofScript written =
        .ok [⟨⟨.replicate 20 7, rfl⟩, "put", [.array [.integer (-1)]], .all⟩] := by
  refine (and_iff_left_of_imp fun h => (recovered_calls_are_normal h).1).mpr
    (ofScript_eq_ok.mpr ⟨[⟨.push5, none⟩, ⟨.ret, none⟩, ⟨.pushInt32, some [255, 255, 255, 255]⟩,
      ⟨.nop, none⟩, ⟨.pushInt16, some [1, 0]⟩, ⟨.pack, none⟩, ⟨.push1, none⟩, ⟨.pack, none⟩,
      ⟨.pushData2, some [0x70, 0x75, 0x74]⟩, ⟨.assert, none⟩, ⟨.pushData1, some (.replicate 20 7)⟩,
      ⟨.syscall, some [0x62, 0x7d, 0x5b, 0x52]⟩], ?_, rfl⟩)
  exact Instruction.decode_eq_ok_iff.mpr ⟨rfl, by decide⟩

end Call

end ScriptKit
