import Mathlib.Data.List.Forall2
import ScriptKit.Proofs.Emission
import ScriptKit.Proofs.Instruction.Codec
import ScriptKit.Proofs.Listing.Assembler
import ScriptKit.Proofs.Listing.Line
import ScriptKit.Proofs.Listing.Repetition

namespace ScriptKit.Listing

open Listing.Parser Text

/-- Whether the statement says what the line of the instruction says. -/
def Statement.Shows (s : Statement) (i : Instruction) : Prop :=
  s.mnemonic = i.op.mnemonic ∧ s.args.map (·.value) = instructionRow i

namespace Statement

theorem numberBytes_toInt (op : Opcode) (span : Span) {width : Nat} {bytes : Bytes}
    (h : bytes.length = width) :
    numberBytes op width span (LittleEndian.toInt op.hasSignedOperand bytes) = .ok bytes := by
  subst h
  rw [numberBytes, LittleEndian.ofInt?_toInt]

variable {s : Statement} {op : Opcode} {operand : Bytes} {wantsAll : Bool}

/-- A single literal stands for a single argument. -/
theorem args_of_single {value : Literal} (h : s.args.map (·.value) = [value]) :
    ∃ arg, s.args = [arg] ∧ arg.value = value := by
  obtain ⟨arg, rest, ha, hv, hr⟩ := List.map_eq_cons_iff.mp h
  rw [List.map_eq_nil_iff] at hr
  rw [hr] at ha
  exact ⟨arg, ha, hv⟩

theorem args_of_pair {first second : Literal} (h : s.args.map (·.value) = [first, second]) :
    ∃ a b, s.args = [a, b] ∧ a.value = first ∧ b.value = second := by
  obtain ⟨a, rest, ha, hv, hr⟩ := List.map_eq_cons_iff.mp h
  obtain ⟨b, last, hb, hw, hl⟩ := List.map_eq_cons_iff.mp hr
  rw [List.map_eq_nil_iff] at hl
  subst hl hb
  exact ⟨a, b, ha, hv, hw⟩

theorem operand_of_counted {width : Nat} (hr : op.operand = .counted width)
    (h : s.args.map (·.value) = operandRow op operand) :
    s.operand wantsAll op = .ok (some operand) := by
  simp only [operandRow, hr] at h
  obtain ⟨arg, ha, hv⟩ := args_of_single h
  have hread : ArgReader.data arg = .ok operand := by
    simp only [ArgReader.data, ArgReader.orElse, ArgReader.bytes, ArgReader.ofKind, hv]
  simp only [Statement.operand, hr, oneArg, ha, hread]
  rfl

/-- Where a single argument is read as content that makes up the operand, it is the operand. -/
theorem operand_of_content {width : Nat} {arg : Argument} {content : Content}
    (hr : op.operand = .fixed width) (hn : op.hasTwoNumbers = false) (ha : s.args = [arg])
    (hread : (if op = .syscall then ArgReader.service.orElse .content else .content) arg =
      .ok content)
    (hc : fixedOperand op width arg.span content = .ok operand) :
    s.operand wantsAll op = .ok (some operand) := by
  simp only [Statement.operand, hr, hn, oneArg, ha, hread]
  change (fixedOperand op width arg.span content).map some = _
  rw [hc]
  rfl

/-- Two numbers that were read from the halves of an operand make it up again. -/
theorem twoNumbers_of_halves {width : Nat} {a b : Argument} (he : width - width / 2 = width / 2)
    (hl : operand.length = width)
    (ha : a.value = .number (LittleEndian.toInt op.hasSignedOperand
      (operand.take (operand.length / 2))))
    (hb : b.value = .number (LittleEndian.toInt op.hasSignedOperand
      (operand.drop (operand.length / 2)))) :
    twoNumbers wantsAll op width a b = .ok operand := by
  have hlow : numberBytes op (width / 2) a.span (LittleEndian.toInt op.hasSignedOperand
      (operand.take (operand.length / 2))) = .ok (operand.take (operand.length / 2)) := by
    apply numberBytes_toInt
    rw [List.length_take]
    omega
  have hhigh : numberBytes op (width / 2) b.span (LittleEndian.toInt op.hasSignedOperand
      (operand.drop (operand.length / 2))) = .ok (operand.drop (operand.length / 2)) := by
    apply numberBytes_toInt
    rw [List.length_drop]
    omega
  have hjoin : operand = operand.take (operand.length / 2) ++ operand.drop (operand.length / 2) :=
    (List.take_append_drop ..).symm
  rw [twoNumbers]
  refine bind_eq_ok.mpr ⟨_, by rw [numberOf, numberOf, ha, hb]; rfl, ?_⟩
  simp only [hlow, hhigh]
  refine bind_eq_ok.mpr ⟨_, rfl, ?_⟩
  rw [← hjoin]
  rfl

theorem operand_of_fixed {width : Nat} (hr : op.operand = .fixed width)
    (hl : operand.length = width) (h : s.args.map (·.value) = operandRow op operand) :
    s.operand wantsAll op = .ok (some operand) := by
  have hne : ¬ operand.length ≠ width := not_not_intro hl
  simp only [operandRow, hr, hne, or_false, List.splitAt_eq] at h
  by_cases hs : op = .syscall
  · subst hs
    obtain ⟨arg, ha, hv⟩ := args_of_single h
    have hc : fixedOperand .syscall width arg.span (.bytes operand) = .ok operand := by
      rw [fixedOperand, if_pos hl]
    refine operand_of_content hr rfl ha ?_ hc
    simp only [↓reduceIte, ArgReader.orElse, ArgReader.service, ArgReader.content,
      ArgReader.number, ArgReader.bytes, ArgReader.ofKind, hv]
    rfl
  · rw [if_neg hs] at h
    by_cases ht : op.hasTwoNumbers = true
    · rw [if_pos ht] at h
      have heven := Opcode.even_of_hasTwoNumbers ht hr
      obtain ⟨a, b, ha, hv, hw⟩ := args_of_pair h
      have htwo : twoNumbers wantsAll op width a b = .ok operand :=
        twoNumbers_of_halves heven hl hv hw
      simp only [Statement.operand, hr, ht, ha, htwo]
      rfl
    · rw [if_neg ht] at h
      obtain ⟨arg, ha, hv⟩ := args_of_single h
      have hc : fixedOperand op width arg.span
          (.number (LittleEndian.toInt op.hasSignedOperand operand)) = .ok operand := by
        rw [fixedOperand, numberBytes_toInt op arg.span hl]
      refine operand_of_content hr (by simpa using ht) ha ?_ hc
      simp only [hs, ↓reduceIte, ArgReader.content, ArgReader.orElse, ArgReader.number,
        ArgReader.ofKind, hv]
      rfl

/-- A statement that shows an instruction as it comes from a script has its operand. -/
theorem operand_of_shows {i : Instruction} (h : s.Shows i) (hv : i.IsValid)
    (hn : i.normal = i) : s.operand wantsAll i.op = .ok i.operand := by
  obtain ⟨-, ha⟩ := h
  obtain ⟨op, operand?⟩ := i
  have hop := Instruction.normal_eq hv
  rw [hn] at hop
  cases operand? with
  | none =>
    have hr : op.operand = .none := by
      by_contra hr
      simp [hr] at hop
    have hargs : s.args = [] := List.map_eq_nil_iff.mp ha
    simp only [Statement.operand, hr, noArgs, hargs]
    rfl
  | some operand =>
    cases hr : op.operand with
    | none => simp [hr] at hop
    | fixed width =>
      have hl : operand.length = width := by
        simpa [Instruction.IsValid, hr, OperandRule.Admits, Instruction.payload] using hv
      exact operand_of_fixed hr hl ha
    | counted width => exact operand_of_counted hr ha

theorem encode_of_shows {i : Instruction} {bytes : Bytes} (h : s.Shows i)
    (he : i.encode = .ok bytes) (hn : i.normal = i) : s.encode wantsAll = .ok bytes := by
  have ho : s.operand wantsAll i.op = .ok i.operand :=
    operand_of_shows h (Instruction.encode_eq_ok_iff.mp he).1 hn
  rw [Statement.encode, h.1, Opcode.ofMnemonic?_mnemonic]
  refine bind_eq_ok.mpr ⟨i.operand, ho, ?_⟩
  rw [Emission.result_instruction, he]
  rfl

end Statement

/-- The text of the lines of instructions, each given with its offset. -/
def linesText (width : Nat) (lines : List (Nat × Instruction)) : List Char :=
  lines.flatMap fun (offset, i) => (line width offset i).toList

theorem linesText_stops_gap (width : Nat) (lines : List (Nat × Instruction)) :
    Stops isGap (linesText width lines) := by
  cases lines with
  | nil => exact stops_nil _
  | cons first rest => exact line_stops_gap width first.1 first.2

/-- The lines are read one by one. -/
theorem readsAll_lines (width : Nat) (lines : List (Nat × Instruction)) :
    ReadsAll (skipUntil isLineEnd do let s ← statement; trivia; pure s) (linesText width lines) []
      (List.Forall₂ (fun l s => s.Shows l.2) lines) := by
  induction lines with
  | nil => exact .stop refuses_nextStatement_end .nil
  | cons first rest ih =>
    have hr := reads_line width first.1 first.2 (linesText_stops_gap width rest)
    refine .more hr.skipUntil ?_ ih fun s statements hs hrest => .cons hs hrest
    obtain ⟨n, comment, -, ht⟩ := toList_line width first.1 first.2
    simp only [linesText, List.flatMap_cons, ht, List.length_append, List.length_cons]
    omega

theorem map_withOffsets (offset : Nat) (is : List Instruction) :
    (withOffsets offset is).map Prod.snd = is := by
  induction is generalizing offset with
  | nil => rfl
  | cons i rest ih => rw [withOffsets, List.map_cons, ih]

theorem toList_print (is : List Instruction) :
    ∃ width, (print is).toList = linesText width (withOffsets 0 is) := by
  refine ⟨is.foldl (fun width i => max width (instructionText i).length) 0, ?_⟩
  rw [print, String.toList_join, List.flatMap_map]
  rfl

/-- A listing is read without a fault, as one statement for each instruction. -/
theorem parse_print (is : List Instruction) :
    ∃ statements, parse (print is).toList = ⟨some statements, []⟩ ∧
      List.Forall₂ (fun i s => s.Shows i) is statements := by
  obtain ⟨width, ht⟩ := toList_print is
  have hgap := linesText_stops_gap width (withOffsets 0 is)
  have hreads : Reads statements (linesText width (withOffsets 0 is)) []
      (List.Forall₂ (fun l s => s.Shows l.2) (withOffsets 0 is)) :=
    (skips_gap hgap).reads.bind fun _ _ => .many (readsAll_lines width _)
  obtain ⟨found, offset, blame, hp, hs⟩ := hreads 0 none []
  refine ⟨found, ?_, ?_⟩
  · rw [ht, parse, State.ofText, hp]
    rfl
  · have hm : List.Forall₂ (fun i s => s.Shows i) ((withOffsets 0 is).map Prod.snd) found :=
      List.forall₂_map_left_iff.mpr hs
    rwa [map_withOffsets] at hm

/-- Statements that show the instructions of a script assemble to it. -/
theorem assemble_of_shows {is : List Instruction} {script : Bytes} {statements : List Statement}
    (h : List.Forall₂ (fun i s => s.Shows i) is statements)
    (he : Instruction.encodeAll is = .ok script) (hn : ∀ i ∈ is, i.normal = i) :
    assemble statements = .ok script ∧
      List.Forall₂ (fun i s => ∃ bytes, i.encode = .ok bytes ∧ s.encode false = .ok bytes) is
        statements := by
  induction h generalizing script with
  | nil =>
    obtain rfl := Except.ok.inj he
    exact ⟨rfl, .nil⟩
  | @cons i s is statements hs _ ih =>
    obtain ⟨bytes, others, hb, ho, rfl⟩ := Instruction.encodeAll_cons_eq_ok.mp he
    obtain ⟨hi, hn⟩ := List.forall_mem_cons.mp hn
    obtain ⟨ha, hrest⟩ := ih ho hn
    have henc : s.encode false = .ok bytes := Statement.encode_of_shows hs hb hi
    refine ⟨?_, .cons ⟨bytes, hb, henc⟩ hrest⟩
    rw [assemble_cons]
    exact bind_eq_ok.mpr ⟨bytes, henc, bind_eq_ok.mpr ⟨others, ha, rfl⟩⟩

/-- The listing of a script assembles to the script. No fault is found in its text, it has one
statement for each instruction, and every statement is encoded as its instruction is. -/
theorem assembleText_printScript (script : Bytes) (listing : String)
    (h : printScript script = .ok listing) :
    assembleText listing = .ok script ∧
      ∃ is statements, Instruction.decode script = .ok is ∧
        parse listing.toList = ⟨some statements, []⟩ ∧
        List.Forall₂ (fun i s => ∃ bytes, i.encode = .ok bytes ∧ s.encode false = .ok bytes) is
          statements := by
  obtain ⟨is, hd, rfl⟩ := map_eq_ok.mp h
  obtain ⟨he, hn⟩ := Instruction.decode_eq_ok_iff.mp hd
  obtain ⟨statements, hp, hs⟩ := parse_print is
  obtain ⟨ha, hb⟩ := assemble_of_shows hs he hn
  refine ⟨?_, is, statements, hd, hp, hb⟩
  simp only [assembleText, hp, Parsed.valid, ha]

/-- Two numbers in one operand, a negative one among them, the name of a service behind the offset,
and an instruction without an operand. -/
theorem assembleText_printScript_three_lines :
    printScript [0x3b, 1, 0xfe, 0x41, 0x62, 0x7d, 0x5b, 0x52, 0x40] =
        .ok ("TRY          1, -2        // 0000\n" ++
          "SYSCALL      x\x7b627d5b52\x7d  // 0003 System.Contract.Call\n" ++
          "RET                       // 0008\n") ∧
      assembleText ("TRY          1, -2        // 0000\n" ++
          "SYSCALL      x\x7b627d5b52\x7d  // 0003 System.Contract.Call\n" ++
          "RET                       // 0008\n") =
        .ok [0x3b, 1, 0xfe, 0x41, 0x62, 0x7d, 0x5b, 0x52, 0x40] := by
  have h : printScript [0x3b, 1, 0xfe, 0x41, 0x62, 0x7d, 0x5b, 0x52, 0x40] =
      .ok ("TRY          1, -2        // 0000\n" ++
        "SYSCALL      x\x7b627d5b52\x7d  // 0003 System.Contract.Call\n" ++
        "RET                       // 0008\n") := by
    decide +kernel
  exact ⟨h, (assembleText_printScript _ _ h).1⟩

end ScriptKit.Listing
