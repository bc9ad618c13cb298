import ScriptKit.Proofs.Listing.Literal
import ScriptKit.Proofs.Opcode
import ScriptKit.Proofs.Text.Utf8

namespace ScriptKit.Listing

open Listing.Parser Text

variable {a word next : List Char}

/-- Literals in a row, with a comma and a blank between them. -/
inductive RowWritten : List Literal → List Char → Prop
  | last {value : Literal} {word : List Char} (written : value.Written word) :
      RowWritten [value] word
  | more {value : Literal} {word : List Char} {others : List Literal} {row : List Char}
      (written : value.Written word) (rest : RowWritten others row) :
      RowWritten (value :: others) (word ++ ',' :: ' ' :: row)

/-- A literal starts with a digit, a sign or a letter. -/
theorem Literal.Written.first {value : Literal} (h : value.Written word) :
    ∃ c rest, word = c :: rest ∧ isBlank c = false ∧ c ≠ '/' := by
  have hdigits : ∀ n, ∃ c rest, Nat.toDigits 10 n = c :: rest ∧ isBlank c = false ∧ c ≠ '/' := by
    intro n
    obtain ⟨c, rest, hd⟩ := List.exists_cons_of_ne_nil (Nat.toDigits_ne_nil (b := 10) (n := n))
    have hc : c ∈ Nat.toDigits 10 n := by
      rw [hd]
      exact List.mem_cons_self
    have hp := forall_isDigit (P := fun c => !isBlank c && c != '/') (by decide)
      (isDigit_of_mem_toDigits hc)
    exact ⟨c, rest, hd, by simpa using hp⟩
  cases h with
  | number value =>
    rw [Numeral.toList_toString]
    split
    · exact hdigits _
    · exact ⟨'-', _, rfl, by decide, by decide⟩
  | bytes value =>
    exact ⟨'x', _, toList_bytesText value, by decide, by decide⟩

/-- The characters that numbers and byte strings are written by. -/
def literalChars : List Char :=
  ['0', '1', '2', '3', '4', '5', '6', '7', '8', '9', 'a', 'b', 'c', 'd', 'e', 'f', '-', 'x', '{', '}']

theorem Literal.Written.mem {value : Literal} (h : value.Written word) :
    ∀ c ∈ word, c ∈ literalChars := by
  have hdigits : ∀ n, ∀ c ∈ Nat.toDigits 10 n, c ∈ literalChars := by
    intro n c hc
    have hp := forall_isDigit (P := literalChars.contains) (by decide) (isDigit_of_mem_toDigits hc)
    simpa using hp
  cases h with
  | number value =>
    rw [Numeral.toList_toString]
    split
    · exact hdigits _
    · exact List.forall_mem_cons.mpr ⟨by decide, hdigits _⟩
  | bytes value =>
    have hhex : ∀ c ∈ Hex.encode value, c ∈ literalChars := fun c hc =>
      List.mem_append_left ['-', 'x', '{', '}'] (Hex.mem_encode hc)
    rw [toList_bytesText]
    simp only [List.forall_mem_cons, List.forall_mem_append]
    exact ⟨by decide, by decide, hhex, by decide, by simp⟩

/-- Nor is there a blank in it. -/
theorem Literal.Written.noBlank {value : Literal} (h : value.Written word) :
    ∀ c ∈ word, isBlank c = false := by
  have hall : literalChars.all (fun c => !isBlank c) = true := by decide
  intro c hc
  simpa using List.all_eq_true.mp hall c (h.mem c hc)

theorem RowWritten.first {row : List Literal} (h : RowWritten row word) :
    ∃ c rest, word = c :: rest ∧ isBlank c = false ∧ c ≠ '/' := by
  cases h with
  | last written => exact written.first
  | more written rest =>
    obtain ⟨c, more, rfl, hc⟩ := written.first
    exact ⟨c, _, rfl, hc⟩

/-- The first literal of a row, and how the others are read behind it. -/
theorem RowWritten.reads {row : List Literal} (h : RowWritten row word) {tail : List Char}
    (ht : EndsNumber tail) (hc : Refuses comma tail) :
    ∃ value others first rest, row = value :: others ∧ word = first ++ rest ∧
      value.Written first ∧ EndsNumber (rest ++ tail) ∧
      ReadsAll (do comma; argument) (rest ++ tail) tail
        (fun args => args.map (·.value) = others) := by
  induction h with
  | @last value word written =>
    exact ⟨value, [], word, [], rfl, by simp, written, ht, .stop hc.bind rfl⟩
  | @more value word others row written rest ih =>
    obtain ⟨second, more, first, last, rfl, rfl, hw, hf, hr⟩ := ih
    refine ⟨value, _, word, ',' :: ' ' :: (first ++ last), rfl, rfl, written, ?_, ?_⟩
    · exact stops_cons.mpr (by decide)
    obtain ⟨c, others, hfirst, hb, hs⟩ := hw.first
    have hcomma : Reads comma (',' :: ' ' :: (first ++ last) ++ tail) (first ++ (last ++ tail))
        fun _ => True := by
      rw [List.cons_append, List.cons_append, List.append_assoc]
      apply reads_comma
      · rw [hfirst, List.cons_append, stops_cons]
        exact hb
      · intro rest he
        rw [hfirst, List.cons_append] at he
        exact hs (List.cons.inj he).1
    refine .more (hcomma.bind fun _ _ => reads_argument hw hf) ?_ hr ?_
    · simp only [List.length_append, List.length_cons]
      omega
    · rintro arg args rfl hargs
      rw [List.map_cons, hargs]

/-- A row of literals is read as the arguments with these values. -/
theorem reads_arguments {row : List Literal} (h : RowWritten row word) {tail : List Char}
    (ht : EndsNumber tail) (hc : Refuses comma tail) :
    Reads arguments (word ++ tail) tail (fun args => args.map (·.value) = row) := by
  obtain ⟨value, others, first, rest, rfl, rfl, hw, hf, hr⟩ := h.reads ht hc
  rw [List.append_assoc]
  apply Reads.orElse_left
  refine (reads_argument hw hf).bind fun arg ha => (Reads.many hr).bind fun args hargs => .pure ?_
  rw [List.map_cons, ha, hargs]

theorem reads_no_arguments (h : NoArgument a) : Reads arguments a a (· = []) :=
  .orElse_right (refuses_argument h).bind (.pure rfl)

/-- A word that is spelt as a mnemonic. -/
def IsMnemonic (word : List Char) : Prop := word ≠ [] ∧ mnemonicFault? word = none

instance (word : List Char) : Decidable (IsMnemonic word) := inferInstanceAs (Decidable (_ ∧ _))

theorem isMnemonic_mnemonic (op : Opcode) : IsMnemonic op.mnemonic.toList := by
  -- The bytes of a text are found faster than its characters, and `all` tries no others.
  have h : ∀ op ∈ Opcode.all, (Utf8.encode op.mnemonic).all (fun byte => byte.toNat < 128) = true ∧
      IsMnemonic ((Utf8.encode op.mnemonic).map fun byte => Char.ofNat byte.toNat) := by
    decide +kernel
  obtain ⟨hl, hm⟩ := h op (Opcode.mem_all op)
  rw [Utf8.toList_of_lt (by simpa using hl)]
  exact hm

/-- A mnemonic starts with a capital, and all its characters may stand in one. -/
theorem IsMnemonic.spelling (h : IsMnemonic word) :
    ∃ c rest, word = c :: rest ∧ c.isUpper = true ∧ ∀ d ∈ word, isMnemonicChar d = true := by
  obtain ⟨hn, hf⟩ := h
  cases word with
  | nil => exact absurd rfl hn
  | cons c rest =>
    simp only [mnemonicFault?] at hf
    split at hf
    · next hc =>
      refine ⟨c, rest, rfl, hc, ?_⟩
      intro d hd
      rcases List.mem_cons.mp hd with rfl | hd
      · exact forall_isUpper (by decide) hc
      · have hs := List.find?_eq_none.mp hf d hd
        simp only [Bool.not_eq_true', Bool.not_eq_false, Bool.or_eq_true, beq_iff_eq] at hs
        rcases hs with (hu | hg) | rfl
        · exact forall_isUpper (by decide) hu
        · exact forall_isDigit (by decide) hg
        · decide
    · cases hf

/-- Nothing between statements starts like a mnemonic. -/
theorem IsMnemonic.stops_gap (h : IsMnemonic word) : Stops isGap (word ++ a) := by
  obtain ⟨c, rest, rfl, hc, -⟩ := h.spelling
  have hp := forall_isUpper (P := fun c => !isGap c) (by decide) hc
  rw [List.cons_append, stops_cons]
  simpa using hp

theorem reads_mnemonic (h : IsMnemonic word) (hs : Stops isMnemonicChar a) :
    Reads mnemonic (word ++ a) a (· = String.ofList word) := by
  intro offset blame errors
  obtain ⟨_, _, -, -, hchars⟩ := h.spelling
  obtain ⟨_, offset', blame', hr, rfl⟩ := reads_run1 notes_kind h.1 hchars hs offset blame errors
  exact ⟨_, offset', blame', by simp only [mnemonic, hr, h.2], rfl⟩

/-- The literals that an operand is written by. -/
def operandRow (op : Opcode) (operand : Bytes) : List Literal :=
  match op.operand with
  | .fixed width =>
    if op = .syscall ∨ operand.length ≠ width then [.bytes operand]
    else if op.hasTwoNumbers then
      let (first, second) := operand.splitAt (operand.length / 2)
      [.number (LittleEndian.toInt op.hasSignedOperand first),
        .number (LittleEndian.toInt op.hasSignedOperand second)]
    else [.number (LittleEndian.toInt op.hasSignedOperand operand)]
  | _ => [.bytes operand]

theorem rowWritten_operandText (op : Opcode) (operand : Bytes) :
    RowWritten (operandRow op operand) (operandText op operand).toList := by
  have hnumber : ∀ bytes : Bytes,
      (Literal.number (LittleEndian.toInt op.hasSignedOperand bytes)).Written
        (numberText op bytes).toList := fun bytes => .number _
  cases hr : op.operand with
  | none | counted _ =>
    simp only [operandRow, operandText, hr]
    exact .last (.bytes operand)
  | fixed width =>
    simp only [operandRow, operandText, hr, List.splitAt_eq]
    by_cases hb : op = .syscall ∨ operand.length ≠ width
    · rw [if_pos hb, if_pos hb]
      exact .last (.bytes operand)
    · rw [if_neg hb, if_neg hb]
      by_cases ht : op.hasTwoNumbers = true
      · have hrow := RowWritten.more (hnumber (operand.take (operand.length / 2)))
          (.last (hnumber (operand.drop (operand.length / 2))))
        simpa [if_pos ht] using hrow
      · rw [if_neg ht, if_neg ht]
        exact .last (hnumber operand)

/-- The literals behind a mnemonic. -/
def instructionRow (i : Instruction) : List Literal := i.operand.elim [] (operandRow i.op)

theorem instructionText_none {i : Instruction} (h : i.operand = none) :
    (instructionText i).toList = i.op.mnemonic.toList := by
  rw [instructionText, h]

theorem instructionText_some {i : Instruction} {operand : Bytes} (h : i.operand = some operand) :
    ∃ n, (instructionText i).toList = i.op.mnemonic.toList ++
      (List.replicate (n + 1) ' ' ++ (operandText i.op operand).toList) := by
  refine ⟨Instruction.mnemonicWidth - i.op.mnemonic.length, ?_⟩
  rw [instructionText, h]
  simp [padRight, List.replicate_succ']

/-- A character that neither ends a line nor separates arguments. -/
def IsCommentChar (c : Char) : Prop := isLineEnd c = false ∧ c ≠ ','

instance (c : Char) : Decidable (IsCommentChar c) := inferInstanceAs (Decidable (_ ∧ _))

theorem isCommentChar_offsetText (offset : Nat) :
    ∀ c ∈ (offsetText offset).toList, IsCommentChar c := by
  have hd : ∀ digit < 16, IsCommentChar (Nat.digitChar digit) := by decide
  intro c hc
  simp only [offsetText, String.toList_ofList, List.mem_append] at hc
  rcases hc with hc | hc
  · rw [(List.mem_replicate.mp hc).2]
    decide
  · obtain ⟨digit, hl, rfl⟩ := mem_toDigits (by decide) hc
    exact hd digit hl

theorem isCommentChar_serviceName {i : Instruction} {name : String}
    (h : serviceName? i = some name) : ∀ c ∈ name.toList, IsCommentChar c := by
  have hall : ∀ service ∈ Service.all, (Utf8.encode service.name).all (fun byte =>
      byte.toNat < 128 ∧ IsCommentChar (Char.ofNat byte.toNat)) = true := by
    decide +kernel
  unfold serviceName? at h
  split at h
  · obtain ⟨code, -, hs⟩ := Option.bind_eq_some_iff.mp h
    obtain ⟨service, hf, rfl⟩ := Option.map_eq_some_iff.mp hs
    have hbytes : ∀ byte ∈ Utf8.encode service.name,
        byte.toNat < 128 ∧ IsCommentChar (Char.ofNat byte.toNat) := by
      simpa using hall service (List.mem_of_find?_eq_some hf)
    intro c hc
    rw [Utf8.toList_of_lt fun byte hb => (hbytes byte hb).1] at hc
    obtain ⟨byte, hb, rfl⟩ := List.mem_map.mp hc
    exact (hbytes byte hb).2
  · cases h

/-- A line is the text of its instruction and a comment, with at least two blanks between them. -/
theorem toList_line (width offset : Nat) (i : Instruction) :
    ∃ n comment, (∀ c ∈ comment, IsCommentChar c) ∧
      (line width offset i).toList = (instructionText i).toList ++
        (List.replicate (n + 2) ' ' ++ '/' :: '/' :: (comment ++ ['\n'])) := by
  obtain ⟨service, hs, hc⟩ : ∃ service, (serviceName? i).elim "" (" " ++ ·) = service ∧
      ∀ c ∈ service.toList, IsCommentChar c := by
    cases hn : serviceName? i with
    | none => exact ⟨"", rfl, by simp⟩
    | some name =>
      refine ⟨" " ++ name, rfl, ?_⟩
      intro c hc
      rcases List.mem_append.mp (by simpa using hc : c ∈ [' '] ++ name.toList) with hc | hc
      · rw [List.mem_singleton.mp hc]
        decide
      · exact isCommentChar_serviceName hn c hc
  refine ⟨width - (instructionText i).length,
    ' ' :: ((offsetText offset).toList ++ service.toList), ?_, ?_⟩
  · intro c hm
    rcases List.mem_cons.mp hm with rfl | hm
    · decide
    · rcases List.mem_append.mp hm with hm | hm
      · exact isCommentChar_offsetText offset c hm
      · exact hc c hm
  · simp only [line, hs]
    simp [padRight, List.replicate_add]

/-- A mnemonic and blanks are read, and the arguments behind them. -/
theorem reads_statement {name : String} (hname : IsMnemonic name.toList) {row : List Literal}
    {text tail : List Char} (n : Nat) (hs : Stops (fun c => c == ' ' || c == '\t') text)
    (ha : Reads arguments text tail fun args => args.map (·.value) = row) :
    Reads statement (name.toList ++ (List.replicate (n + 1) ' ' ++ text)) tail
      fun s => s.mnemonic = name ∧ s.args.map (·.value) = row := by
  have hm : Reads mnemonic (name.toList ++ (List.replicate (n + 1) ' ' ++ text))
      (List.replicate (n + 1) ' ' ++ text) (· = name) := by
    have hr := reads_mnemonic hname (a := List.replicate (n + 1) ' ' ++ text)
      (by rw [List.replicate_succ, List.cons_append, stops_cons]; decide)
    rwa [String.ofList_toList] at hr
  have hb : Reads (run unexpectedNonBlank fun c => c == ' ' || c == '\t')
      (List.replicate (n + 1) ' ' ++ text) text fun _ => True := by
    refine (reads_run notes_nonBlank ?_ hs).mono fun _ _ => trivial
    intro c hc
    rw [(List.mem_replicate.mp hc).2]
    decide
  refine hm.spanned.bind fun found hf => hb.bind fun _ _ => ha.bind fun args hargs => .pure ?_
  exact ⟨hf, hargs⟩

/-- What stands behind the arguments of a line: blanks, a comment and the next line. -/
def lineTail (n : Nat) (comment next : List Char) : List Char :=
  List.replicate n ' ' ++ '/' :: '/' :: (comment ++ '\n' :: next)

theorem skips_lineTail {comment : List Char} (n : Nat) (hc : ∀ c ∈ comment, IsCommentChar c)
    (h : Stops isGap next) : Skips (lineTail n comment next) next := by
  induction n with
  | zero => exact .comment (fun c hm => (hc c hm).1) (stops_cons.mpr (by decide)) (skips_lineEnd h)
  | succ n ih => exact .blank (by decide) ih

theorem refuses_comma_lineTail {comment : List Char} (n : Nat)
    (hc : ∀ c ∈ comment, IsCommentChar c) (h : Stops isGap next) :
    Refuses comma (lineTail n comment next) := by
  have hw : ∀ c ∈ List.replicate n ' ' ++ '/' :: '/' :: comment, isBarrier c = false := by
    intro c hm
    simp only [List.mem_append, List.mem_cons] at hm
    rcases hm with hm | rfl | rfl | hm
    · rw [(List.mem_replicate.mp hm).2]
      decide
    · decide
    · decide
    · obtain ⟨hline, hne⟩ := hc c hm
      simp [isBarrier, hline, hne]
  have hr := refuses_comma hw h
  rwa [List.append_assoc] at hr

/-- A line is read as one statement, whatever the next line is. -/
theorem reads_line (width offset : Nat) (i : Instruction) (h : Stops isGap next) :
    Reads (do let s ← statement; trivia; pure s) ((line width offset i).toList ++ next) next
      fun s => s.mnemonic = i.op.mnemonic ∧ s.args.map (·.value) = instructionRow i := by
  obtain ⟨n, comment, hc, ht⟩ := toList_line width offset i
  have hstatement : ∃ k, Reads statement ((line width offset i).toList ++ next)
      (lineTail k comment next) fun s =>
        s.mnemonic = i.op.mnemonic ∧ s.args.map (·.value) = instructionRow i := by
    cases ho : i.operand with
    | none =>
      -- The blanks behind the mnemonic belong to the statement even if no argument follows.
      refine ⟨0, ?_⟩
      have hstop : Stops (fun c => c == ' ' || c == '\t') (lineTail 0 comment next) :=
        stops_cons.mpr (by decide)
      have hargs : Reads arguments (lineTail 0 comment next) (lineTail 0 comment next)
          fun args => args.map (·.value) = [] :=
        (reads_no_arguments (stops_cons.mpr (by decide))).mono fun args hargs => by
          rw [hargs, List.map_nil]
      rw [ht, instructionText_none ho, instructionRow, ho]
      simpa [lineTail] using reads_statement (isMnemonic_mnemonic i.op) (n + 1) hstop hargs
    | some operand =>
      refine ⟨n + 2, ?_⟩
      obtain ⟨k, hk⟩ := instructionText_some ho
      have hrow := rowWritten_operandText i.op operand
      have hends : EndsNumber (lineTail (n + 2) comment next) := stops_cons.mpr (by decide)
      have hargs := reads_arguments hrow hends (refuses_comma_lineTail (n + 2) hc h)
      have hstop : Stops (fun c => c == ' ' || c == '\t')
          ((operandText i.op operand).toList ++ lineTail (n + 2) comment next) := by
        obtain ⟨c, rest, hfirst, hb, -⟩ := hrow.first
        rw [hfirst, List.cons_append]
        exact (stops_cons.mpr hb).of_imp fun _ => isBlank_of_isInline
      rw [ht, hk, instructionRow, ho]
      simpa [lineTail] using reads_statement (isMnemonic_mnemonic i.op) k hstop hargs
  obtain ⟨k, hs⟩ := hstatement
  exact hs.bind fun s hv => (skips_lineTail k hc h).reads.bind fun _ _ => .pure hv

/-- The next line starts with a mnemonic. -/
theorem line_stops_gap (width offset : Nat) (i : Instruction) :
    Stops isGap ((line width offset i).toList ++ next) := by
  obtain ⟨n, comment, -, ht⟩ := toList_line width offset i
  have hm : ∃ rest, (instructionText i).toList = i.op.mnemonic.toList ++ rest := by
    cases ho : i.operand with
    | none => exact ⟨[], by rw [instructionText_none ho, List.append_nil]⟩
    | some operand =>
      obtain ⟨k, hk⟩ := instructionText_some ho
      exact ⟨_, hk⟩
  obtain ⟨rest, hm⟩ := hm
  rw [ht, hm, List.append_assoc, List.append_assoc]
  exact (isMnemonic_mnemonic i.op).stops_gap

end ScriptKit.Listing
