import ScriptKit.Proofs.Builder
import ScriptKit.Proofs.Instruction.Cursor

namespace ScriptKit

namespace Call

/-- From a stack on, the recovery passes bytes and finds another stack behind them, wherever a
cursor comes to them: with that stack it goes on if more follows, it ends if nothing does, and if a
service is called there, it makes the call from that stack. -/
structure Passes (written : Bytes) (stack last : ArgStack) : Prop where
  goesOn (r : ScriptReader) (more : Bytes) (here : r.rest = written ++ more) :
    nextFrom stack r = nextFrom last (r.skip written.length)
  ends (r : ScriptReader) (here : r.rest = written) :
    nextFrom stack r = (.ok none, r.skip written.length)
  calls (r : ScriptReader) (service : ServiceCode) (more : Bytes)
    (here : r.rest = written ++ Opcode.syscall.code :: (service.bytes ++ more)) :
    nextFrom stack r = ((ofSyscall service.bytes last).map some, r.skip (written.length + 5))

/-- Bytes that put values on the stack, whatever lies on it. Where they are cut off between two of
their instructions, they put other values there, so that nothing below is ever taken. -/
structure StackEffect (written : Bytes) (values : List Param) : Prop where
  ends (stack : ArgStack) : Passes written stack (values ++ stack)
  apart : ∃ is, Instruction.decode written = .ok is ∧ ∀ front, front <+: is →
    ∃ part above, Instruction.encodeAll front = .ok part ∧
      ∀ stack, Passes part stack (above ++ stack)

/-- Pushes that are cut off between two instructions are pushes still, though of other values. -/
theorem Pushes.front {is front : List Instruction} {values : List Param} (h : Pushes is values)
    (hf : front <+: is) : ∃ above, Pushes front above := by
  induction h generalizing front with
  | nil =>
    obtain rfl := List.prefix_nil.mp hf
    exact ⟨[], .nil⟩
  | atom start last ih =>
    rcases List.prefix_concat_iff.mp hf with rfl | hf
    · exact ⟨_, start.atom last⟩
    · exact ih hf
  | @pack before packed values items count i start inner number last ihStart ihInner =>
    have hsplit : before ++ (packed ++ [count, i]) = before ++ packed ++ [count] ++ [i] := by simp
    rw [hsplit] at hf
    rcases List.prefix_concat_iff.mp hf with rfl | hf
    · exact ⟨_, hsplit ▸ start.pack inner number last⟩
    rcases List.prefix_concat_iff.mp hf with rfl | hf
    · exact ⟨_, (start.append inner).atom number⟩
    -- The front ends among the items, or before the first of them.
    have hbefore : before <+: before ++ packed := List.prefix_append before packed
    rcases List.prefix_or_prefix_of_prefix hf hbefore with hf | ⟨part, rfl⟩
    · exact ihStart hf
    · obtain ⟨above, hp⟩ := ihInner ((List.prefix_append_right_inj before).mp hf)
      exact ⟨_, start.append hp⟩

/-- A cursor passes the bytes of instructions that lead from a stack to another one. -/
theorem nextFrom_of_proceed {is : List Instruction} {written more : Bytes} {stack last : ArgStack}
    {r : ScriptReader} (he : Instruction.encodeAll is = .ok written)
    (hn : ∀ i ∈ is, i.normal = i) (hr : r.rest = written ++ more)
    (h : proceed stack is = .ok (.inl last)) :
    nextFrom stack r = nextFrom last (r.skip written.length) := by
  induction is generalizing stack r written with
  | nil =>
    obtain rfl := Except.ok.inj he
    obtain rfl := Sum.inl.inj (Except.ok.inj h)
    rw [List.length_nil, ScriptReader.skip_zero]
  | cons i rest ih =>
    obtain ⟨bytes, others, hb, ho, rfl⟩ := Instruction.encodeAll_cons_eq_ok.mp he
    obtain ⟨hi, hrest⟩ := List.forall_mem_cons.mp hn
    obtain ⟨next, hs, hnext⟩ := proceed_cons_eq_ok.mp h
    rw [List.append_assoc] at hr
    obtain ⟨hread, hbehind⟩ := ScriptReader.next_of_encode hb hi hr
    rw [nextFrom_of_next_some (by rw [hread]), hs, hread]
    change nextFrom next (r.skip i.size) = _
    rw [ih ho hrest hbehind hnext, ScriptReader.skip_skip, List.length_append,
      Instruction.length_of_encode hb]

theorem nextFrom_of_rest_nil {stack : ArgStack} {r : ScriptReader} (h : r.rest = []) :
    nextFrom stack r = (.ok none, r) := by
  have hn := ScriptReader.next_of_rest_nil h
  rw [nextFrom_of_next_none (by rw [hn]), hn]

theorem nextFrom_of_syscall {stack : ArgStack} {r : ScriptReader} {service : ServiceCode}
    {more : Bytes} (h : r.rest = Opcode.syscall.code :: (service.bytes ++ more)) :
    nextFrom stack r = ((ofSyscall service.bytes stack).map some, r.skip 5) := by
  have hcode : Instruction.encode ⟨.syscall, some service.bytes⟩ =
      .ok (Opcode.syscall.code :: service.bytes) :=
    Instruction.encode_eq_ok_iff.mpr ⟨service.length_eq, rfl⟩
  have hsize : Instruction.size ⟨.syscall, some service.bytes⟩ = 5 := by
    rw [← Instruction.length_of_encode hcode, List.length_cons, service.length_eq]
  have hpayload : Instruction.payload ⟨.syscall, some service.bytes⟩ = service.bytes := rfl
  obtain ⟨hread, -⟩ := ScriptReader.next_of_encode hcode rfl h
  rw [nextFrom_of_next_some (by rw [hread]), step_syscall rfl, hread, hsize, hpayload]
  cases ofSyscall service.bytes stack <;> rfl

theorem passes_of_proceed {is : List Instruction} {written : Bytes} {stack last : ArgStack}
    (he : Instruction.encodeAll is = .ok written) (hn : ∀ i ∈ is, i.normal = i)
    (h : proceed stack is = .ok (.inl last)) : Passes written stack last := by
  have hbehind {r : ScriptReader} {more : Bytes} (hr : r.rest = written ++ more) :
      (r.skip written.length).rest = more := by
    simp [ScriptReader.skip, hr]
  refine ⟨fun r more hr => nextFrom_of_proceed he hn hr h, fun r hr => ?_, fun r _ _ hr => ?_⟩
  · rw [← List.append_nil written] at hr
    rw [nextFrom_of_proceed he hn hr h, nextFrom_of_rest_nil (hbehind hr)]
  · rw [nextFrom_of_proceed he hn hr h, nextFrom_of_syscall (hbehind hr), ScriptReader.skip_skip]

theorem stackEffect_of_pushes {written : Bytes} {is : List Instruction} {values : List Param}
    (hd : Instruction.decode written = .ok is) (h : Pushes is values) :
    StackEffect written values := by
  obtain ⟨he, hn⟩ := Instruction.decode_eq_ok_iff.mp hd
  refine ⟨fun stack => passes_of_proceed he hn (proceed_pushes h stack), is, hd, fun front hf => ?_⟩
  obtain ⟨above, hp⟩ := h.front hf
  obtain ⟨behind, rfl⟩ := hf
  obtain ⟨part, _, hpart, -⟩ := Instruction.encodeAll_append_eq_ok.mp he
  refine ⟨part, above, hpart, fun stack => passes_of_proceed hpart ?_ (proceed_pushes hp stack)⟩
  intro i hi
  exact hn i (List.mem_append_left behind hi)

end Call

namespace Emission

open Call (StackEffect)

theorem stackEffect_of_param {p : Param} {written : Bytes} (h : (param p).result = .ok written) :
    StackEffect written [p.wire] := by
  obtain ⟨is, hd, hp⟩ := pushes_of_param h
  exact Call.stackEffect_of_pushes hd hp

theorem stackEffect_of_reversed {items : List Param} {written : Bytes}
    (h : (reversed items).result = .ok written) : StackEffect written (items.map Param.wire) := by
  obtain ⟨is, hd, hp⟩ := pushes_of_reversed h
  rw [Param.wireAll_eq_map] at hp
  exact Call.stackEffect_of_pushes hd hp

/-- The push of a parameter puts just its form on the wire on the stack, and the arguments of a
service lie there when it is called, the first one on top. Every parameter without anything void and
with integers of 32 bytes has a push, unless its data are too long. Also a push that fails takes
nothing from the stack: it has put there the values that it had come to. -/
theorem push_adds_one_value :
    (∀ p : Param, ((∃ written, (param p).result = .ok written) ↔ p.Pushable) ∧
      (∀ written, (param p).result = .ok written → StackEffect written [p.wire]) ∧
      ((param p).fault? ≠ none →
        ∃ pushed, p.FailsAfter pushed ∧
          StackEffect (param p).written (pushed.map Param.wire))) ∧
    ∀ (service : ServiceCode) (args : List Param),
      ((∃ written, (syscall service args).result = .ok written) ↔ ∀ arg ∈ args, arg.Pushable) ∧
      (∀ written, (syscall service args).result = .ok written →
        ∃ front, written = front ++ Opcode.syscall.code :: service.bytes ∧
          StackEffect front (args.map Param.wire) ∧
          ∀ (stack : ArgStack) (r : ScriptReader) (more : Bytes), r.rest = written ++ more →
            Call.nextFrom stack r =
              ((Call.ofSyscall service.bytes (args.map Param.wire ++ stack)).map some,
                r.skip written.length)) ∧
      ((syscall service args).fault? ≠ none →
        ∃ pushed, Param.SomeFailsAfter args pushed ∧
          StackEffect (syscall service args).written (pushed.map Param.wire)) := by
  refine ⟨fun p => ⟨param_ok_iff p, fun written => stackEffect_of_param, fun hf => ?_⟩,
    fun service args => ⟨?_, fun written h => ?_, fun hf => ?_⟩⟩
  · obtain ⟨pushed, hp, hr⟩ := param_fails hf
    exact ⟨pushed, hp, stackEffect_of_reversed hr⟩
  · have hcall : ∃ written, (raw .syscall service.bytes).result = .ok written := ⟨_, rfl⟩
    rw [syscall, result_andThen_ok_iff, reversed_ok_iff, Param.allPushable_iff, and_iff_left hcall]
  · obtain ⟨front, last, hargs, hlast, rfl⟩ := result_andThen.mp h
    obtain rfl := Except.ok.inj hlast
    have heffect := stackEffect_of_reversed hargs
    have hlength : (raw .syscall service.bytes).written.length = 5 :=
      congrArg (· + 1) service.length_eq
    refine ⟨front, rfl, heffect, fun stack r more hr => ?_⟩
    rw [List.append_assoc] at hr
    rw [(heffect.ends stack).calls r service more hr, List.length_append, hlength]
  · obtain ⟨pushed, hp, hr⟩ := syscall_fails hf
    exact ⟨pushed, hp, stackEffect_of_reversed hr⟩

/-- An array in an array; the arguments of a contract's call, from which the call is made unless
something lies below them; and an array that stops at its first item. -/
theorem push_adds_one_value_three_pushes :
    StackEffect [0x0b, 0x0f, 0x0c, 0x01, 0x61, 0x12, 0xc0, 0x12, 0xc0]
        [.array [.array [.byteArray [0x61], .integer (-1)], .any none]] ∧
      ((Call.nextFrom [] (.ofScript ([0x10, 0xc0, 0x0c, 1, 0x61, 0x15, 0x0c, 20] ++
          .replicate 20 7 ++ [0x41, 0x62, 0x7d, 0x5b, 0x52]))).1 =
        .ok (some ⟨⟨.replicate 20 7, rfl⟩, "a", [], ⟨5⟩⟩) ∧
      (Call.nextFrom [.any none] (.ofScript ([0x10, 0xc0, 0x0c, 1, 0x61, 0x15, 0x0c, 20] ++
          .replicate 20 7 ++ [0x41, 0x62, 0x7d, 0x5b, 0x52]))).1 =
        .error (.misfit .leftover)) ∧
      ∃ pushed, Param.FailsAfter (.array [.void, .integer 2]) pushed ∧
        StackEffect [0x12] (pushed.map Param.wire) := by
  obtain ⟨hparam, hsyscall⟩ := push_adds_one_value
  obtain ⟨-, hnested, -⟩ := hparam (.array [.array [.string "a", .integer (-1)], .any (some "b")])
  obtain ⟨-, hargs, -⟩ := hsyscall Service.contractCall.code
    [.byteArray (.replicate 20 7), .integer 5, .string "a", .array []]
  obtain ⟨-, -, hfails⟩ := hparam (.array [.void, .integer 2])
  obtain ⟨front, -, -, hcall⟩ := hargs _ rfl
  refine ⟨hnested _ rfl, ⟨?_, ?_⟩, hfails nofun⟩
  · exact congrArg Prod.fst (hcall [] (.ofScript _) [] rfl)
  · exact congrArg Prod.fst (hcall [.any none] (.ofScript _) [] rfl)

end Emission

end ScriptKit
