import Mathlib.Data.List.Forall2
import ScriptKit.Proofs.Emission
import ScriptKit.Proofs.Instruction.Shortest
import ScriptKit.Proofs.Listing.Check

namespace ScriptKit.Listing

/-- What literals say about the operand of an opcode. -/
inductive Denotes (op : Opcode) : List Literal → Option Bytes → Prop where
  | none (rule : op.operand = .none) : Denotes op [] none
  | number {operand : Bytes} (rule : op.operand = .fixed operand.length) :
    Denotes op [.number (LittleEndian.toInt op.hasSignedOperand operand)] (some operand)
  | halves {low high : Bytes} (two : op ∈ [.tryOp, .tryOpL, .initSlot])
    (rule : op.operand = .fixed (low ++ high).length) (even : low.length = high.length) :
    Denotes op [.number (LittleEndian.toInt op.hasSignedOperand low),
      .number (LittleEndian.toInt op.hasSignedOperand high)] (some (low ++ high))
  | bytes {operand : Bytes} (rule : op.operand ≠ .none) : Denotes op [.bytes operand] (some operand)
  | text {width : Nat} (text : String) (rule : op.operand = .counted width) :
    Denotes op [.text text] (some (Utf8.encode text))
  | service (service : Service) (call : op = .syscall) :
    Denotes op [.service service.name] (some service.code.bytes)

/-- The canonical push of an integer: it pushes the integer, and nothing shorter does. -/
structure IsCanonicalInt (value : Int) (i : Instruction) : Prop where
  canonical : Instruction.pushInt value = .ok i
  pushes : i.int? = .ok value
  shortest : ∀ j : Instruction, j.int? = .ok value → i.size ≤ j.size

/-- The smallest push of a byte string. -/
structure IsSmallestData (bytes : Bytes) (i : Instruction) : Prop where
  push : i.op ∈ Instruction.dataPushes
  pushes : i.operand = some bytes
  smallest : ∀ j : Instruction, j.op ∈ Instruction.dataPushes → j.IsValid → j.payload = bytes →
    i.size ≤ j.size

namespace Statement

def literals (s : Statement) : List Literal := s.args.map (·.value)

/-- The instruction that a statement stands for: the one of its mnemonic, with the operand that the
arguments denote, or the push that one of three further mnemonics asks for. -/
inductive StandsFor (s : Statement) : Instruction → Prop where
  | native {op : Opcode} {operand : Option Bytes} (named : s.mnemonic = op.mnemonic)
    (given : Denotes op s.literals operand) : StandsFor s ⟨op, operand⟩
  | int {value : Int} {i : Instruction} (named : s.mnemonic = "PUSHINT")
    (given : s.literals = [.number value]) (push : IsCanonicalInt value i) : StandsFor s i
  | data {bytes : Bytes} {i : Instruction} (named : s.mnemonic = "PUSHDATA")
    (given : s.literals = [.bytes bytes] ∨ ∃ text, s.literals = [.text text] ∧
      Utf8.encode text = bytes)
    (push : IsSmallestData bytes i) : StandsFor s i
  | bool (value : Bool) (named : s.mnemonic = "PUSHBOOL")
    (given : s.literals = [.number value.toInt]) :
    StandsFor s ⟨if value then .pushT else .pushF, none⟩

end Statement

namespace ArgReader

variable {α : Type} {arg : Argument}

theorem ofKind_eq_ok {kind : ArgKind} {value? : Literal → Option α} {value : α} :
    ofKind kind value? arg = .ok value ↔ value? arg.value = some value := by
  rw [ofKind]
  cases value? arg.value <;> simp

theorem orElse_eq_ok {p q : ArgReader α} {value : α} (h : orElse p q arg = .ok value) :
    p arg = .ok value ∨ q arg = .ok value := by
  rw [orElse] at h
  split at h
  · split at h
    · cases h
    · exact .inr h
  · exact .inl h

theorem number_eq_ok {value : Int} (h : number arg = .ok value) : arg.value = .number value := by
  have hk := ofKind_eq_ok.mp h
  split at hk
  · next hv => rw [hv, Option.some.inj hk]
  · cases hk

theorem bytes_eq_ok {value : Bytes} (h : bytes arg = .ok value) : arg.value = .bytes value := by
  have hk := ofKind_eq_ok.mp h
  split at hk
  · next hv => rw [hv, Option.some.inj hk]
  · cases hk

theorem text_eq_ok {value : Bytes} (h : text arg = .ok value) :
    ∃ text, arg.value = .text text ∧ Utf8.encode text = value := by
  have hk := ofKind_eq_ok.mp h
  split at hk
  · next text hv => exact ⟨text, hv, Option.some.inj hk⟩
  · cases hk

theorem data_eq_ok {value : Bytes} (h : data arg = .ok value) :
    arg.value = .bytes value ∨ ∃ text, arg.value = .text text ∧ Utf8.encode text = value := by
  rcases orElse_eq_ok h with hb | ht
  · exact .inl (bytes_eq_ok hb)
  · exact .inr (text_eq_ok ht)

theorem content_eq_ok {value : Content} (h : content arg = .ok value) :
    (∃ number, arg.value = .number number ∧ value = .number number) ∨
      ∃ bytes, arg.value = .bytes bytes ∧ value = .bytes bytes := by
  rcases orElse_eq_ok h with hn | hb
  · obtain ⟨number, hv, rfl⟩ := map_eq_ok.mp hn
    exact .inl ⟨number, number_eq_ok hv, rfl⟩
  · obtain ⟨bytes, hv, rfl⟩ := map_eq_ok.mp hb
    exact .inr ⟨bytes, bytes_eq_ok hv, rfl⟩

theorem service_eq_ok {value : Content} (h : service arg = .ok value) :
    ∃ service : Service, arg.value = .service service.name ∧ value = .bytes service.code.bytes := by
  obtain ⟨name, hn, hs⟩ := bind_eq_ok.mp h
  have hk := ofKind_eq_ok.mp hn
  split at hk
  · next found hv =>
    obtain rfl := Option.some.inj hk
    split at hs
    · next service hf =>
      have hname : service.name = found := by simpa using List.find?_some hf
      exact ⟨service, hname ▸ hv, (Except.ok.inj hs).symm⟩
    · cases hs
  · cases hk

theorem flag_eq_ok {value : Bool} (h : flag arg = .ok value) :
    arg.value = .number value.toInt := by
  obtain ⟨number, hn, hf⟩ := bind_eq_ok.mp h
  rw [number_eq_ok hn]
  split at hf
  · next hzero =>
    obtain rfl := Except.ok.inj hf
    rw [hzero]
    rfl
  · split at hf
    · next hone =>
      obtain rfl := Except.ok.inj hf
      rw [hone]
      rfl
    · cases hf

end ArgReader

namespace Statement

variable {α : Type} {s : Statement} {op : Opcode} {width : Nat} {operand : Bytes}
  {wantsAll : Bool} {i : Instruction}

theorem noArgs_eq_ok {u : Unit} (h : s.noArgs = .ok u) : s.literals = [] := by
  rw [noArgs] at h
  split at h
  · next ha => rw [literals, ha, List.map_nil]
  · cases h

theorem oneArg_eq_ok {read : ArgReader α} {arg : Argument} {value : α}
    (h : s.oneArg read = .ok (arg, value)) : s.literals = [arg.value] ∧ read arg = .ok value := by
  rw [oneArg] at h
  split at h
  · cases h
  · next only ha =>
    obtain ⟨_, hr, he⟩ := map_eq_ok.mp h
    obtain ⟨rfl, rfl⟩ := Prod.mk.inj he
    exact ⟨by rw [literals, ha, List.map_cons, List.map_nil], hr⟩
  · cases h

theorem numberBytes_eq_ok {span : Span} {value : Int}
    (h : numberBytes op width span value = .ok operand) :
    operand.length = width ∧ LittleEndian.toInt op.hasSignedOperand operand = value := by
  rw [numberBytes] at h
  split at h
  · next hf =>
    obtain rfl := Except.ok.inj h
    exact LittleEndian.ofInt?_eq_some hf
  · cases h

/-- Two numbers are written one after the other, each in half the width. -/
theorem twoNumbers_eq_ok {first second : Argument}
    (h : twoNumbers wantsAll op width first second = .ok operand) :
    ∃ low high, operand = low ++ high ∧ low.length = width / 2 ∧ high.length = width / 2 ∧
      first.value = .number (LittleEndian.toInt op.hasSignedOperand low) ∧
      second.value = .number (LittleEndian.toInt op.hasSignedOperand high) := by
  obtain ⟨⟨a, b⟩, hj, h⟩ := bind_eq_ok.mp h
  obtain ⟨hfirst, hsecond⟩ := joinBoth_eq_ok.mp hj
  dsimp only at h
  split at h
  · cases h
  · obtain ⟨⟨low, high⟩, hbytes, he⟩ := bind_eq_ok.mp h
    obtain ⟨hlow, hhigh⟩ := joinBoth_eq_ok.mp hbytes
    obtain ⟨hll, rfl⟩ := numberBytes_eq_ok hlow
    obtain ⟨hhl, rfl⟩ := numberBytes_eq_ok hhigh
    exact ⟨low, high, (pure_eq_ok.mp he).symm, hll, hhl, numberOf_eq_ok.mp hfirst,
      numberOf_eq_ok.mp hsecond⟩

theorem denotes_of_content {arg : Argument} {content : Content} (hr : op.operand = .fixed width)
    (hread : ArgReader.content arg = .ok content)
    (h : fixedOperand op width arg.span content = .ok operand) :
    Denotes op [arg.value] (some operand) := by
  rcases ArgReader.content_eq_ok hread with ⟨number, hv, rfl⟩ | ⟨bytes, hv, rfl⟩
  · rw [fixedOperand] at h
    split at h
    · next hb =>
      obtain rfl := Except.ok.inj h
      obtain ⟨rfl, rfl⟩ := numberBytes_eq_ok hb
      exact hv ▸ .number hr
    · cases h
  · rw [fixedOperand] at h
    split at h
    · obtain rfl := Except.ok.inj h
      exact hv ▸ .bytes (by simp [hr])
    · cases h

theorem denotes_of_service {arg : Argument} {content : Content} (ho : op = .syscall)
    (hread : ArgReader.service arg = .ok content)
    (h : fixedOperand op width arg.span content = .ok operand) :
    Denotes op [arg.value] (some operand) := by
  obtain ⟨service, hv, rfl⟩ := ArgReader.service_eq_ok hread
  rw [fixedOperand] at h
  split at h
  · obtain rfl := Except.ok.inj h
    exact hv ▸ .service service ho
  · cases h

/-- Arguments that are accepted denote the operand that is made of them. -/
theorem denotes_of_operand {operand : Option Bytes} (h : s.operand wantsAll op = .ok operand) :
    Denotes op s.literals operand := by
  rw [Statement.operand] at h
  cases hr : op.operand with
  | none =>
    simp only [hr] at h
    obtain ⟨_, hn, rfl⟩ := map_eq_ok.mp h
    rw [noArgs_eq_ok hn]
    exact .none hr
  | counted width =>
    simp only [hr] at h
    obtain ⟨⟨arg, bytes⟩, ha, rfl⟩ := map_eq_ok.mp h
    obtain ⟨hl, hread⟩ := oneArg_eq_ok ha
    rw [hl]
    rcases ArgReader.data_eq_ok hread with hv | ⟨text, hv, rfl⟩
    · exact hv ▸ .bytes (by simp [hr])
    · exact hv ▸ .text text hr
  | fixed width =>
    simp only [hr] at h
    split at h
    · next first second ho ha =>
      obtain ⟨_, hb, rfl⟩ := map_eq_ok.mp h
      obtain ⟨low, high, rfl, hlow, hhigh, hv, hw⟩ := twoNumbers_eq_ok hb
      have heven := Opcode.even_of_hasTwoNumbers ho hr
      have hwidth : (low ++ high).length = width := by
        rw [List.length_append]
        omega
      rw [literals, ha, List.map_cons, List.map_cons, List.map_nil, hv, hw]
      exact .halves (Opcode.hasTwoNumbers_iff.mp ho) (hwidth ▸ hr) (hlow.trans hhigh.symm)
    · obtain ⟨⟨arg, content⟩, ha, h⟩ := bind_eq_ok.mp h
      obtain ⟨bytes, hf, rfl⟩ := map_eq_ok.mp h
      obtain ⟨hl, hread⟩ := oneArg_eq_ok ha
      rw [hl]
      split at hread
      · next ho =>
        rcases ArgReader.orElse_eq_ok hread with hs | hc
        · exact denotes_of_service ho hs hf
        · exact denotes_of_content hr hc hf
      · exact denotes_of_content hr hread hf

/-- What is denoted is there if the opcode has an operand, and only then. -/
theorem normal_of_denotes {literals : List Literal} {operand : Option Bytes}
    (h : Denotes op literals operand) : Instruction.normal ⟨op, operand⟩ = ⟨op, operand⟩ := by
  cases h with
  | none rule => simp only [Instruction.normal, rule]
  | number rule => simp only [Instruction.normal, rule]
  | halves two rule even => simp only [Instruction.normal, rule]
  | bytes rule =>
    rw [Instruction.normal]
    split
    · next hr => exact absurd hr rule
    · rfl
    · rfl
  | text text rule => simp only [Instruction.normal, rule, Instruction.payload, Option.getD_some]
  | service service call =>
    subst call
    rfl

theorem located_eq_ok {x : Except Fault α} {value : α} :
    s.located x = .ok value ↔ x = .ok value := by
  cases x <;> simp [located]

/-- What is written for a statement is one instruction, as it comes back from a script. -/
theorem decode_of_encode {bytes : Bytes} (h : s.encode wantsAll = .ok bytes) :
    ∃ i, s.StandsFor i ∧ Instruction.decode bytes = .ok [i] := by
  rw [encode] at h
  split at h
  · next op ho =>
    obtain ⟨operand, hd, hl⟩ := bind_eq_ok.mp h
    have he := located_eq_ok.mp hl
    rw [Emission.result_instruction] at he
    have hsays := denotes_of_operand hd
    exact ⟨_, .native (Opcode.mnemonic_of_ofMnemonic? ho).symm hsays,
      Instruction.decode_of_encode he (normal_of_denotes hsays)⟩
  · split at h
    · next hm =>
      obtain ⟨⟨arg, value⟩, ha, hp⟩ := bind_eq_ok.mp h
      obtain ⟨hl, hread⟩ := oneArg_eq_ok ha
      obtain ⟨i, hpush, he⟩ := Emission.result_int.mp (located_eq_ok.mp hp)
      obtain ⟨hint, -, hnormal⟩ := Instruction.pushInt_eq_ok hpush
      rw [ArgReader.number_eq_ok hread] at hl
      exact ⟨i, .int hm hl ⟨hpush, hint, fun _ => Instruction.size_pushInt_le hpush⟩,
        Instruction.decode_of_encode he hnormal⟩
    · split at h
      · next hm =>
        obtain ⟨⟨arg, bytes⟩, ha, hp⟩ := bind_eq_ok.mp h
        obtain ⟨hl, hread⟩ := oneArg_eq_ok ha
        obtain ⟨i, hpush, he⟩ := Emission.result_data.mp (located_eq_ok.mp hp)
        obtain ⟨hop, hbytes, -⟩ := Instruction.pushBytes_eq_ok hpush
        refine ⟨i, .data hm ?_ ⟨hop, hbytes, fun _ => Instruction.size_pushBytes_le hpush⟩,
          Instruction.decode_of_encode he (Instruction.normal_of_dataPush hop hbytes)⟩
        rw [hl]
        rcases ArgReader.data_eq_ok hread with hv | ⟨text, hv, he⟩
        · exact .inl (by rw [hv])
        · exact .inr ⟨text, by rw [hv], he⟩
      · split at h
        · next hm =>
          obtain ⟨⟨arg, value⟩, ha, hp⟩ := bind_eq_ok.mp h
          obtain ⟨hl, hread⟩ := oneArg_eq_ok ha
          have he := located_eq_ok.mp hp
          rw [Emission.bool_eq, Emission.result_instruction] at he
          rw [ArgReader.flag_eq_ok hread] at hl
          refine ⟨_, .bool value hm hl, Instruction.decode_of_encode he ?_⟩
          cases value <;> rfl
        · cases h

end Statement

/-- The script of statements splits into the instructions that they stand for. -/
theorem decode_of_assemble {statements : List Statement} {script : Bytes}
    (h : assemble statements = .ok script) :
    ∃ is, Instruction.decode script = .ok is ∧
      List.Forall₂ Statement.StandsFor statements is := by
  induction statements generalizing script with
  | nil =>
    obtain rfl := Except.ok.inj h
    exact ⟨[], Instruction.decode_nil, .nil⟩
  | cons s rest ih =>
    obtain ⟨bytes, others, hb, ho, rfl⟩ := assemble_cons_eq_ok.mp h
    obtain ⟨i, hs, hi⟩ := Statement.decode_of_encode hb
    obtain ⟨is, hd, hrest⟩ := ih ho
    exact ⟨i :: is, Instruction.decode_append hi hd, .cons hs hrest⟩

theorem valid_eq_ok {parsed : Parsed} {statements : List Statement}
    (h : parsed.valid = .ok statements) : parsed = ⟨some statements, []⟩ := by
  obtain ⟨statements?, errors⟩ := parsed
  rw [Parsed.valid] at h
  split at h
  · next he hs =>
    obtain rfl := Except.ok.inj h
    simp only at he hs
    rw [he, hs]
  · cases h

/-- A text that is read without a fault and assembled gives a script that splits into just as many
instructions as the text has statements, and each is the one that its statement stands for. -/
theorem decode_of_assembleText (text : String) (script : Bytes)
    (h : assembleText text = .ok script) :
    ∃ statements is, parse text.toList = ⟨some statements, []⟩ ∧
      assemble statements = .ok script ∧ Instruction.decode script = .ok is ∧
      is.length = statements.length ∧ List.Forall₂ Statement.StandsFor statements is := by
  rw [assembleText] at h
  split at h
  · cases h
  · next statements hvalid =>
    split at h
    · next assembled ha =>
      obtain rfl := Except.ok.inj h
      obtain ⟨is, hd, hs⟩ := decode_of_assemble ha
      exact ⟨statements, is, valid_eq_ok hvalid, ha, hd, hs.length_eq.symm, hs⟩
    · cases h

/-- Two numbers in one operand, a service, an operand in bytes that looks like two instructions, and
the three mnemonics that are no opcodes. -/
theorem decode_of_assembleText_six_lines :
    assembleText ("TRY 3, -2\nSYSCALL System.Contract.Call\nJMP_L x\x7b40404040\x7d\n" ++
        "PUSHINT -129\nPUSHDATA \"abc\" // text\nPUSHBOOL 0") =
      .ok [0x3b, 3, 0xfe, 0x41, 0x62, 0x7d, 0x5b, 0x52, 0x23, 0x40, 0x40, 0x40, 0x40,
        0x01, 0x7f, 0xff, 0x0c, 3, 0x61, 0x62, 0x63, 0x09] ∧
    ∃ statements is,
      parse ("TRY 3, -2\nSYSCALL System.Contract.Call\nJMP_L x\x7b40404040\x7d\n" ++
        "PUSHINT -129\nPUSHDATA \"abc\" // text\nPUSHBOOL 0").toList = ⟨some statements, []⟩ ∧
      Instruction.decode [0x3b, 3, 0xfe, 0x41, 0x62, 0x7d, 0x5b, 0x52, 0x23, 0x40, 0x40, 0x40, 0x40,
        0x01, 0x7f, 0xff, 0x0c, 3, 0x61, 0x62, 0x63, 0x09] = .ok is ∧
      List.Forall₂ Statement.StandsFor statements is := by
  have h : assembleText
      ("TRY 3, -2\nSYSCALL System.Contract.Call\nJMP_L x\x7b40404040\x7d\n" ++
        "PUSHINT -129\nPUSHDATA \"abc\" // text\nPUSHBOOL 0") =
      .ok [0x3b, 3, 0xfe, 0x41, 0x62, 0x7d, 0x5b, 0x52, 0x23, 0x40, 0x40, 0x40, 0x40,
        0x01, 0x7f, 0xff, 0x0c, 3, 0x61, 0x62, 0x63, 0x09] := by
    decide +kernel
  obtain ⟨statements, is, hp, -, hd, -, hs⟩ := decode_of_assembleText _ _ h
  exact ⟨h, statements, is, hp, hd, hs⟩

end ScriptKit.Listing
