import ScriptKit.Listing.Assemble
import ScriptKit.Proofs.Except

namespace ScriptKit

namespace Opcode

variable {op : Opcode}

theorem hasTwoNumbers_iff : op.hasTwoNumbers = true ↔ op ∈ [tryOp, tryOpL, initSlot] := by
  constructor
  · intro h
    unfold hasTwoNumbers at h
    split at h
    · simp
    · simp
    · simp
    · cases h
  · intro h
    simp only [List.mem_cons, List.not_mem_nil, or_false] at h
    rcases h with rfl | rfl | rfl
    · rfl
    · rfl
    · rfl

/-- Two numbers share an operand only if it has two halves of the same width. -/
theorem even_of_hasTwoNumbers {width : Nat} (h : op.hasTwoNumbers = true)
    (hw : op.operand = .fixed width) : width - width / 2 = width / 2 := by
  have hmem := hasTwoNumbers_iff.mp h
  simp only [List.mem_cons, List.not_mem_nil, or_false] at hmem
  rcases hmem with rfl | rfl | rfl
  · obtain rfl := OperandRule.fixed.inj hw
    rfl
  · obtain rfl := OperandRule.fixed.inj hw
    rfl
  · obtain rfl := OperandRule.fixed.inj hw
    rfl

end Opcode

namespace Listing

variable {s : Statement} {first second rest : List Statement} {bytes : Bytes}
  {diagnostic : Diagnostic}

namespace Assembler

variable {a b : Assembler}

theorem add_of_ok (h : s.encode a.wantsAll = .ok bytes) :
    a.add s = (.ok (), ⟨a.wantsAll, a.written ++ bytes.toArray⟩) := by
  simp only [add, h]

/-- A statement with a fault leaves no trace. -/
theorem add_of_error (h : s.encode a.wantsAll = .error diagnostic) :
    a.add s = (.error diagnostic, a) := by
  simp only [add, h]

theorem addAll_cons (a : Assembler) (s : Statement) (rest : List Statement) :
    addAll a (s :: rest) = s.encode a.wantsAll >>= fun bytes =>
      addAll ⟨a.wantsAll, a.written ++ bytes.toArray⟩ rest := by
  rw [addAll]
  cases h : s.encode a.wantsAll with
  | ok bytes =>
    rw [add_of_ok h]
    rfl
  | error diagnostic =>
    rw [add_of_error h]
    rfl

/-- What is written already stays in front of what is added, and changes nothing else. -/
theorem addAll_behind (a : Assembler) (statements : List Statement) :
    addAll a statements =
      (addAll ⟨a.wantsAll, #[]⟩ statements).map fun b => ⟨b.wantsAll, a.written ++ b.written⟩ := by
  induction statements generalizing a with
  | nil => simp only [addAll, Except.map, Array.append_empty]
  | cons s rest ih =>
    rw [addAll_cons, addAll_cons]
    cases s.encode a.wantsAll with
    | error diagnostic => rfl
    | ok bytes =>
      change addAll ⟨a.wantsAll, a.written ++ bytes.toArray⟩ rest =
        (addAll ⟨a.wantsAll, #[] ++ bytes.toArray⟩ rest).map _
      rw [ih, ih ⟨a.wantsAll, #[] ++ bytes.toArray⟩]
      cases addAll ⟨a.wantsAll, #[]⟩ rest with
      | error diagnostic => rfl
      | ok b => simp only [Except.map, Array.empty_append, Array.append_assoc]

/-- The faults depend on what is wanted, but not on the script. -/
theorem collectFaults_congr (h : a.wantsAll = b.wantsAll) (statements : List Statement) :
    collectFaults a statements = collectFaults b statements := by
  induction statements generalizing a b with
  | nil => rfl
  | cons s rest ih =>
    rw [collectFaults, collectFaults]
    cases hs : s.encode a.wantsAll with
    | ok bytes =>
      have hb : s.encode b.wantsAll = .ok bytes := h ▸ hs
      rw [add_of_ok hs, add_of_ok hb]
      exact ih h
    | error diagnostic =>
      have hb : s.encode b.wantsAll = .error diagnostic := h ▸ hs
      rw [add_of_error hs, add_of_error hb]
      exact congrArg (diagnostic :: ·) (ih h)

theorem collectFaults_of_ok (h : s.encode a.wantsAll = .ok bytes) :
    collectFaults a (s :: rest) = collectFaults a rest := by
  have hsame : (a.add s).2.wantsAll = a.wantsAll := by rw [add_of_ok h]
  rw [collectFaults, ← collectFaults_congr hsame rest, add_of_ok h]

theorem collectFaults_of_error (h : s.encode a.wantsAll = .error diagnostic) :
    collectFaults a (s :: rest) = diagnostic :: collectFaults a rest := by
  rw [collectFaults, add_of_error h]

theorem collectFaults_append (a : Assembler) (first second : List Statement) :
    collectFaults a (first ++ second) = collectFaults a first ++ collectFaults a second := by
  induction first with
  | nil => rfl
  | cons s rest ih =>
    rw [List.cons_append]
    cases h : s.encode a.wantsAll with
    | ok bytes => rw [collectFaults_of_ok h, collectFaults_of_ok h, ih]
    | error diagnostic =>
      rw [collectFaults_of_error h, collectFaults_of_error h, ih, List.cons_append]

end Assembler

theorem assemble_cons (s : Statement) (rest : List Statement) :
    assemble (s :: rest) =
      s.encode false >>= fun first => assemble rest >>= fun others => pure (first ++ others) := by
  rw [assemble, Assembler.addAll_cons]
  cases s.encode false with
  | error diagnostic => rfl
  | ok bytes =>
    change (Assembler.addAll ⟨false, #[] ++ bytes.toArray⟩ rest).map _ = _
    rw [Assembler.addAll_behind, assemble]
    cases Assembler.addAll {} rest with
    | error diagnostic => rfl
    | ok b => simp [Except.map, bind, Except.bind, pure, Except.pure]

theorem assemble_cons_eq_ok {script : Bytes} :
    assemble (s :: rest) = .ok script ↔
      ∃ bytes others, s.encode false = .ok bytes ∧ assemble rest = .ok others ∧
        bytes ++ others = script := by
  simp only [assemble_cons, bind_eq_ok, pure_eq_ok]
  constructor
  · intro h
    obtain ⟨bytes, hb, others, ho, he⟩ := h
    exact ⟨bytes, others, hb, ho, he⟩
  · intro h
    obtain ⟨bytes, others, hb, ho, he⟩ := h
    exact ⟨bytes, hb, others, ho, he⟩

/-- The script of a listing is made up of the scripts of its parts. -/
theorem assemble_append {script : Bytes} :
    assemble (first ++ second) = .ok script ↔
      ∃ a b, assemble first = .ok a ∧ assemble second = .ok b ∧ a ++ b = script := by
  induction first generalizing script with
  | nil =>
    have hnil : assemble [] = .ok [] := rfl
    simp [hnil]
  | cons s rest ih =>
    rw [List.cons_append, assemble_cons_eq_ok]
    simp only [ih, assemble_cons_eq_ok]
    constructor
    · intro h
      obtain ⟨bytes, _, hb, ⟨a, b, ha, hs, rfl⟩, rfl⟩ := h
      exact ⟨bytes ++ a, b, ⟨bytes, a, hb, ha, rfl⟩, hs, List.append_assoc ..⟩
    · intro h
      obtain ⟨_, b, ⟨bytes, a, hb, ha, rfl⟩, hs, rfl⟩ := h
      exact ⟨bytes, a ++ b, hb, ⟨a, b, ha, hs, rfl⟩, (List.append_assoc ..).symm⟩

theorem check_append (first second : List Statement) :
    check (first ++ second) = check first ++ check second :=
  Assembler.collectFaults_append _ first second

theorem check_of_ok (h : s.encode true = .ok bytes) : check (s :: rest) = check rest :=
  Assembler.collectFaults_of_ok h

theorem check_of_error (h : s.encode true = .error diagnostic) :
    check (s :: rest) = diagnostic :: check rest :=
  Assembler.collectFaults_of_error h

end Listing

end ScriptKit
