import ScriptKit.Builder
import ScriptKit.Proofs.Call.RoundTrip

namespace ScriptKit

namespace Param

/-- What the push of a parameter has pushed when it fails, in the order of an array, so the first
of these was pushed last. -/
inductive FailsAfter : Param → List Param → Prop
  | single {p : Param} (one : p.items? = none) (fails : ¬ p.Pushable) : FailsAfter p []
  | item {before after pushed : List Param} {failing : Param}
      (later : ∀ p ∈ after, p.Pushable) (inner : FailsAfter failing pushed) :
      FailsAfter (array (before ++ failing :: after)) (pushed ++ after)
  | count {items : List Param} (all : ∀ p ∈ items, p.Pushable) (long : 2 ^ 255 ≤ items.length) :
      FailsAfter (array items) items

/-- The same for parameters that are pushed last to first. -/
def SomeFailsAfter (items pushed : List Param) : Prop :=
  ∃ before failing after inside, items = before ++ failing :: after ∧ pushed = inside ++ after ∧
    (∀ p ∈ after, p.Pushable) ∧ FailsAfter failing inside

theorem SomeFailsAfter.array {items pushed : List Param} (h : SomeFailsAfter items pushed) :
    FailsAfter (.array items) pushed := by
  obtain ⟨before, failing, after, inside, rfl, rfl, later, inner⟩ := h
  exact .item later inner

theorem SomeFailsAfter.cons {items pushed : List Param} (h : SomeFailsAfter items pushed)
    (item : Param) : SomeFailsAfter (item :: items) pushed := by
  obtain ⟨before, failing, after, inside, rfl, rfl, later, inner⟩ := h
  exact ⟨item :: before, failing, after, inside, rfl, rfl, later, inner⟩

theorem FailsAfter.head {items pushed : List Param} {item : Param} (h : FailsAfter item pushed)
    (later : ∀ p ∈ items, p.Pushable) : SomeFailsAfter (item :: items) (pushed ++ items) :=
  ⟨[], item, items, pushed, rfl, rfl, later, h⟩

end Param

/-- What a call has pushed when it fails: some arguments, or all of them before an operation that is
too long. -/
def Call.FailsAfter (c : Call) (pushed : List Param) : Prop :=
  (Param.array c.args).FailsAfter pushed ∨
    2 ^ 32 ≤ (Utf8.encode c.operation).length ∧ pushed = [.array c.args]

namespace Emission

open Param (FailsAfter SomeFailsAfter)

theorem result_of_fault_none {e : Emission} (h : e.fault? = none) : e.result = .ok e.written := by
  rw [result, h]

theorem fault_none_of_ok {e : Emission} (h : ∃ written, e.result = .ok written) :
    e.fault? = none := by
  obtain ⟨written, h⟩ := h
  rw [result] at h
  split at h
  · cases h
  · next hf => exact hf

/-- Two steps fail if the first does, or if it succeeds and the second does. -/
theorem andThen_fails {first second : Emission} (h : (first.andThen second).fault? ≠ none) :
    first.fault? ≠ none ∧ (first.andThen second).written = first.written ∨
      first.result = .ok first.written ∧ second.fault? ≠ none ∧
        (first.andThen second).written = first.written ++ second.written := by
  obtain ⟨written, fault?⟩ := first
  cases fault? with
  | none => exact .inr ⟨rfl, h, rfl⟩
  | some fault => exact .inl ⟨nofun, rfl⟩

/-- An instruction is written whole or not at all. -/
theorem written_of_instruction_fails {i : Instruction} (h : (instruction i).fault? ≠ none) :
    (instruction i).written = [] := by
  rw [instruction] at h ⊢
  cases he : i.encode with
  | ok bytes =>
    rw [he] at h
    exact absurd rfl h
  | error fault => rfl

theorem written_of_push_fails {x : Except Fault Instruction} (h : (push x).fault? ≠ none) :
    (push x).written = [] := by
  cases x with
  | ok i => exact written_of_instruction_fails h
  | error fault => rfl

theorem written_of_int_fails {value : Int} (h : (int value).fault? ≠ none) :
    (int value).written = [] := by
  rw [int_eq] at h ⊢
  exact written_of_push_fails h

theorem written_of_data_fails {value : Bytes} (h : (data value).fault? ≠ none) :
    (data value).written = [] := by
  rw [data_eq] at h ⊢
  exact written_of_push_fails h

theorem result_nil : (reversed []).result = .ok [] := by
  rw [reversed]
  rfl

/-- Parameters are pushed in two parts, the hindmost first. -/
theorem result_reversed_append {front back : List Param} {first last : Bytes}
    (hback : (reversed back).result = .ok first) (hfront : (reversed front).result = .ok last) :
    (reversed (front ++ back)).result = .ok (first ++ last) := by
  induction front generalizing last with
  | nil =>
    obtain rfl := Except.ok.inj (result_nil.symm.trans hfront)
    rwa [List.nil_append, List.append_nil]
  | cons item rest ih =>
    rw [reversed] at hfront
    obtain ⟨a, b, ha, hb, rfl⟩ := result_andThen.mp hfront
    rw [List.cons_append, reversed]
    exact result_andThen.mpr ⟨first ++ a, b, ih ha, hb, List.append_assoc ..⟩

theorem pushable_of_reversed {items : List Param} {written : Bytes}
    (h : (reversed items).result = .ok written) : ∀ p ∈ items, p.Pushable :=
  (Param.allPushable_iff items).mp ((reversed_ok_iff items).mp ⟨written, h⟩)

mutual

/-- A push that fails has written the pushes of those parameters that it had come to. -/
theorem param_fails {p : Param} (h : (param p).fault? ≠ none) :
    ∃ pushed, FailsAfter p pushed ∧ (reversed pushed).result = .ok (param p).written := by
  have hp : ¬ p.Pushable := fun hp => h (fault_none_of_ok ((param_ok_iff p).mpr hp))
  have single : p.items? = none → (param p).written = [] →
      ∃ pushed, FailsAfter p pushed ∧ (reversed pushed).result = .ok (param p).written :=
    fun hs hw => ⟨[], .single hs hp, hw ▸ result_nil⟩
  cases p with
  | any text | boolean value =>
    rw [param] at h
    exact absurd rfl h
  | integer value =>
    rw [param] at h
    exact single rfl (by rw [param]; exact written_of_int_fails h)
  | byteArray bytes | string text | hash160 hash | hash256 hash | publicKey key =>
    rw [param] at h
    exact single rfl (by rw [param]; exact written_of_data_fails h)
  | void => exact single rfl (by rw [param]; rfl)
  | array items =>
    rw [param] at h ⊢
    rcases andThen_fails h with ⟨hitems, hw⟩ | ⟨hitems, hlast, hw⟩
    · obtain ⟨pushed, hf, hr⟩ := reversed_fails hitems
      exact ⟨pushed, hf.array, hw ▸ hr⟩
    · rcases andThen_fails hlast with ⟨hcount, hn⟩ | ⟨-, hpack, -⟩
      · have all := pushable_of_reversed hitems
        have long : 2 ^ 255 ≤ items.length := by
          rw [Param.Pushable, Param.allPushable_iff] at hp
          exact Nat.le_of_not_lt fun hl => hp ⟨hl, all⟩
        refine ⟨items, .count all long, ?_⟩
        rw [hw, hn, written_of_int_fails hcount, List.append_nil]
        exact hitems
      · exact absurd rfl hpack

theorem reversed_fails {items : List Param} (h : (reversed items).fault? ≠ none) :
    ∃ pushed, SomeFailsAfter items pushed ∧
      (reversed pushed).result = .ok (reversed items).written := by
  cases items with
  | nil =>
    rw [reversed] at h
    exact absurd rfl h
  | cons item rest =>
    rw [reversed] at h ⊢
    rcases andThen_fails h with ⟨hrest, hw⟩ | ⟨hrest, hitem, hw⟩
    · obtain ⟨pushed, hf, hr⟩ := reversed_fails hrest
      exact ⟨pushed, hf.cons item, hw ▸ hr⟩
    · obtain ⟨pushed, hf, hr⟩ := param_fails hitem
      refine ⟨pushed ++ rest, hf.head (pushable_of_reversed hrest), ?_⟩
      rw [hw]
      exact result_reversed_append hrest hr

end

theorem syscall_fails {service : ServiceCode} {args : List Param}
    (h : (syscall service args).fault? ≠ none) :
    ∃ pushed, SomeFailsAfter args pushed ∧
      (reversed pushed).result = .ok (syscall service args).written := by
  rw [syscall] at h ⊢
  rcases andThen_fails h with ⟨hargs, hw⟩ | ⟨-, hlast, -⟩
  · obtain ⟨pushed, hf, hr⟩ := reversed_fails hargs
    exact ⟨pushed, hf, hw ▸ hr⟩
  · exact absurd rfl hlast

/-- Steps that succeed one by one succeed one after another. -/
theorem foldr_andThen_ok {steps : List Emission}
    (h : ∀ e ∈ steps, ∃ written, e.result = .ok written) :
    ∃ written, (steps.foldr andThen {}).result = .ok written := by
  induction steps with
  | nil => exact ⟨[], rfl⟩
  | cons e rest ih =>
    obtain ⟨he, hrest⟩ := List.forall_mem_cons.mp h
    exact result_andThen_ok_iff.mpr ⟨he, ih hrest⟩

/-- A call fails in its arguments, or after them at an operation that is too long. -/
theorem call_fails {c : Call} (h : (call c).fault? ≠ none) :
    ∃ pushed, c.FailsAfter pushed ∧ (reversed pushed).result = .ok (call c).written := by
  rw [call, List.foldr_cons, List.foldr_cons] at h ⊢
  rcases andThen_fails h with ⟨hargs, hw⟩ | ⟨hargs, hrest, hw⟩
  · obtain ⟨pushed, hf, hr⟩ := param_fails hargs
    exact ⟨pushed, .inl hf, hw ▸ hr⟩
  · rcases andThen_fails hrest with ⟨htext, hn⟩ | ⟨-, hlast, -⟩
    · have long : 2 ^ 32 ≤ (Utf8.encode c.operation).length :=
        Nat.le_of_not_lt fun hl => htext (fault_none_of_ok (data_ok_iff.mpr hl))
      refine ⟨[.array c.args], .inr ⟨long, rfl⟩, ?_⟩
      have none : (text c.operation).written = [] := written_of_data_fails htext
      rw [hw, hn, none, reversed]
      exact result_andThen.mpr ⟨[], _, result_nil, hargs, by simp⟩
    · have hflags : ∃ written, (int c.flags.bits.toNat).result = .ok written := by
        have hl := c.flags.bits.toNat_lt
        exact int_ok_iff.mpr (by omega)
      have hcall : ∃ written,
          (raw .syscall Service.contractCall.code.bytes).result = .ok written := ⟨_, rfl⟩
      exact absurd (fault_none_of_ok (foldr_andThen_ok (by simp [hflags, fixed_ok, hcall]))) hlast

end Emission

namespace BuildStep

/-- What a step has pushed when it fails. -/
def FailsAfter : BuildStep → List Param → Prop
  | param p => p.FailsAfter
  | array items => (Param.array items).FailsAfter
  | syscall _ args => Param.SomeFailsAfter args
  | contractCall scriptHash operation args flags? =>
    Call.FailsAfter ⟨scriptHash, operation, args, flags?.getD .all⟩
  | call c => c.FailsAfter
  | _ => (· = [])

/-- A step that fails has written whole pushes. -/
theorem written_of_fails {step : BuildStep} (h : step.emission.fault? ≠ none) :
    ∃ pushed, step.FailsAfter pushed ∧
      (Emission.reversed pushed).result = .ok step.emission.written := by
  have none : step.FailsAfter [] → step.emission.written = [] →
      ∃ pushed, step.FailsAfter pushed ∧
        (Emission.reversed pushed).result = .ok step.emission.written :=
    fun hf hw => ⟨[], hf, hw ▸ Emission.result_nil⟩
  cases step with
  | raw op operand | null | bool value => exact absurd rfl h
  | instruction i => exact none rfl (Emission.written_of_instruction_fails h)
  | int value => exact none rfl (Emission.written_of_int_fails h)
  | data value | text value | hash160 value | hash256 value | publicKey value =>
    exact none rfl (Emission.written_of_data_fails h)
  | param p | array items => exact Emission.param_fails h
  | syscall service args => exact Emission.syscall_fails h
  | contractCall _ _ _ _ | call c => exact Emission.call_fails h

/-- A typed step that succeeds has written whole instructions. -/
theorem decode_of_ok {step : BuildStep} (ht : step.isTyped = true) {written : Bytes}
    (h : step.emission.result = .ok written) : ∃ is, Instruction.decode written = .ok is := by
  have atom : ∀ {value}, (∃ i, Instruction.decode written = .ok [i] ∧ Call.Atom i value) →
      ∃ is, Instruction.decode written = .ok is := fun ⟨i, hd, _⟩ => ⟨[i], hd⟩
  have pushes : ∀ {values}, (∃ is, Instruction.decode written = .ok is ∧ Call.Pushes is values) →
      ∃ is, Instruction.decode written = .ok is := fun ⟨is, hd, _⟩ => ⟨is, hd⟩
  have makes : ∀ {c}, (∃ is, Instruction.decode written = .ok is ∧ Call.Makes is c) →
      ∃ is, Instruction.decode written = .ok is := fun ⟨is, hd, _⟩ => ⟨is, hd⟩
  cases step with
  | raw op operand => cases ht
  | instruction i =>
    rw [emission, Emission.result_instruction] at h
    have he : Instruction.encodeAll [i] = .ok written :=
      Instruction.encodeAll_cons_eq_ok.mpr ⟨written, [], h, rfl, by simp⟩
    exact ⟨_, Instruction.decodeFrom_of_encodeAll he 0⟩
  | null => exact atom (Emission.atom_of_null h)
  | bool value => exact atom (Emission.atom_of_bool h)
  | int value => exact atom (Emission.atom_of_int h)
  | data value | text value | hash160 value | hash256 value | publicKey value =>
    exact atom (Emission.atom_of_data h)
  | param p | array items => exact pushes (Emission.pushes_of_param h)
  | syscall service args =>
    obtain ⟨first, last, hargs, hlast, rfl⟩ := Emission.result_andThen.mp h
    obtain ⟨is, hd, -⟩ := Emission.pushes_of_reversed hargs
    exact ⟨_, Instruction.decode_append hd (Emission.decode_syscall hlast)⟩
  | contractCall _ _ _ _ | call c => exact makes (Call.makes_of_emission h)

/-- A typed step writes whole instructions, also if it fails. -/
theorem decode_written {step : BuildStep} (ht : step.isTyped = true) :
    ∃ is, Instruction.decode step.emission.written = .ok is := by
  by_cases hf : step.emission.fault? = none
  · exact decode_of_ok ht (Emission.result_of_fault_none hf)
  · obtain ⟨pushed, -, hr⟩ := written_of_fails hf
    obtain ⟨is, hd, -⟩ := Emission.pushes_of_reversed hr
    exact ⟨is, hd⟩

theorem append_of_fails {step : BuildStep} (h : step.emission.fault? ≠ none)
    (hf : step.FailsAfter = (· = [])) (script : Bytes) : step.append script = script := by
  obtain ⟨pushed, hp, hr⟩ := written_of_fails h
  rw [hf] at hp
  subst hp
  rw [append, ← Except.ok.inj (Emission.result_nil.symm.trans hr), List.append_nil]

theorem prefix_build (script : Bytes) (steps : List BuildStep) : script <+: build script steps := by
  induction steps generalizing script with
  | nil => exact List.prefix_rfl
  | cons step rest ih => exact (List.prefix_append script step.emission.written).trans (ih _)

theorem decode_build {script : Bytes} {is : List Instruction} {steps : List BuildStep}
    (hs : Instruction.decode script = .ok is) (ht : ∀ step ∈ steps, step.isTyped = true) :
    ∃ more, Instruction.decode (build script steps) = .ok (is ++ more) := by
  induction steps generalizing script is with
  | nil => exact ⟨[], by rwa [List.append_nil]⟩
  | cons step rest ih =>
    obtain ⟨hstep, hrest⟩ := List.forall_mem_cons.mp ht
    obtain ⟨js, hj⟩ := decode_written hstep
    obtain ⟨more, hm⟩ := ih (Instruction.decode_append hs hj) hrest
    exact ⟨js ++ more, by rwa [← List.append_assoc]⟩

/-- Typed steps put whole instructions behind those of a script, whichever of the steps fail. A step
that fails leaves the pushes of those parameters that it had come to, in arrays at any depth, and
nothing if it writes a single instruction. -/
theorem build_keeps_instructions_whole {script : Bytes} {is : List Instruction}
    {steps : List BuildStep} (hs : Instruction.decode script = .ok is)
    (ht : ∀ step ∈ steps, step.isTyped = true) :
    (∃ more, Instruction.decode (build script steps) = .ok (is ++ more)) ∧
      script <+: build script steps ∧
      ∀ step ∈ steps, step.emission.fault? ≠ none →
        (∃ pushed written, step.FailsAfter pushed ∧
          (Emission.reversed pushed).result = .ok written ∧
          ∀ before, step.append before = before ++ written) ∧
        ((∃ i, step = instruction i) ∨ (∃ value, step = int value) ∨ (∃ value, step = data value) →
          ∀ before, step.append before = before) := by
  refine ⟨decode_build hs ht, prefix_build script steps, fun step _ hf => ⟨?_, fun h => ?_⟩⟩
  · obtain ⟨pushed, hp, hr⟩ := written_of_fails hf
    exact ⟨pushed, _, hp, hr, fun _ => rfl⟩
  · rcases h with ⟨_, rfl⟩ | ⟨_, rfl⟩ | ⟨_, rfl⟩ <;> exact append_of_fails hf rfl

/-- An operand of the wrong length, and an array in an array that stops at its first item. -/
theorem build_keeps_instructions_whole_two_failures :
    build [0x21] [.instruction ⟨.jmp, some [1, 2]⟩,
        .array [.array [.void, .integer 2], .boolean true], .null] = [0x21, 0x08, 0x12, 0x0b] ∧
      (∃ more, Instruction.decode [0x21, 0x08, 0x12, 0x0b] = .ok ([⟨.nop, none⟩] ++ more)) ∧
      FailsAfter (.array [.array [.void, .integer 2], .boolean true])
        [.integer 2, .boolean true] := by
  have hs : Instruction.decode [0x21] = .ok [⟨.nop, none⟩] :=
    Instruction.decode_of_encode rfl rfl
  have ht : ∀ step ∈ [instruction ⟨.jmp, some [1, 2]⟩,
      array [.array [.void, .integer 2], .boolean true], null], step.isTyped = true := by
    simp [isTyped]
  have hv : Param.FailsAfter .void [] := .single rfl (by rw [Param.Pushable]; exact id)
  have hi : Param.FailsAfter (.array [.void, .integer 2]) [.integer 2] :=
    (hv.head (by simp [Param.Pushable])).array
  exact ⟨rfl, (build_keeps_instructions_whole hs ht).1,
    (hi.head (by simp [Param.Pushable])).array⟩

end BuildStep

end ScriptKit
