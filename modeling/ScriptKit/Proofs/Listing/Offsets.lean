import ScriptKit.Proofs.Instruction.Cursor
import ScriptKit.Proofs.Listing.RoundTrip
import ScriptKit.Proofs.Text.Radix

namespace ScriptKit.Listing

open Instruction (sizeAll)
open Text

variable {word : List Char} {i : Instruction} {is : List Instruction}

/-- What stands behind the first two slashes of a line. -/
def commentOf : List Char → List Char
  | '/' :: '/' :: comment => comment
  | _ :: rest => commentOf rest
  | [] => []

/-- The first word of the comment of a line, behind a blank, read as a number in hexadecimal. -/
def writtenOffset (line : List Char) : Except Numeral.Problem Nat :=
  Numeral.natural 16 (((commentOf line).drop 1).takeWhile (· != ' '))

theorem commentOf_append {front comment : List Char} (h : ∀ c ∈ front, c ≠ '/') :
    commentOf (front ++ '/' :: '/' :: comment) = comment := by
  induction front with
  | nil => rfl
  | cons c rest ih =>
    obtain ⟨hc, hr⟩ := List.forall_mem_cons.mp h
    rw [List.cons_append, commentOf, ih hr]
    exact fun _ he _ => hc he

theorem toList_offsetText (offset : Nat) :
    (offsetText offset).toList = List.replicate (4 - (Nat.toDigits 16 offset).length) '0' ++
      Nat.toDigits 16 offset := by
  rw [offsetText, String.toList_ofList]

theorem isDigit_offsetText (offset : Nat) :
    ∀ c ∈ (offsetText offset).toList, ∃ d, Numeral.IsDigit 16 c d := by
  intro c hc
  rw [toList_offsetText] at hc
  rcases List.mem_append.mp hc with hc | hc
  · rw [(List.mem_replicate.mp hc).2]
    exact ⟨0, by decide⟩
  · obtain ⟨d, hl, rfl⟩ := mem_toDigits (by decide) hc
    exact ⟨d, Numeral.isDigit_digitChar (by decide) hl⟩

/-- No digit ends a line or a word. -/
theorem offsetText_ne (offset : Nat) :
    ∀ c ∈ (offsetText offset).toList, c ≠ '\n' ∧ c ≠ ' ' := by
  intro c hc
  obtain ⟨d, hd⟩ := isDigit_offsetText offset c hc
  constructor <;> rintro rfl <;> exact absurd hd.code (by decide)

theorem natural_offsetText (offset : Nat) :
    Numeral.natural 16 (offsetText offset).toList = .ok offset := by
  apply Numeral.natural_of_digits ?_ (isDigit_offsetText offset)
  · rw [toList_offsetText]
    exact Numeral.digits_toDigits (by decide) (by decide) _ offset
  · rw [toList_offsetText]
    exact List.append_ne_nil_of_right_ne_nil _ Nat.toDigits_ne_nil

/-- An offset is read back, whatever the line begins with and whatever word follows the offset. -/
theorem writtenOffset_comment {front service : List Char} (offset : Nat)
    (hf : ∀ c ∈ front, c ≠ '/') (hs : service.takeWhile (· != ' ') = []) :
    writtenOffset (front ++ '/' :: '/' :: ' ' :: ((offsetText offset).toList ++ service)) =
      .ok offset := by
  have hword : ∀ c ∈ (offsetText offset).toList, (c != ' ') = true := by
    intro c hc
    simpa using (offsetText_ne offset c hc).2
  rw [writtenOffset, commentOf_append hf, List.drop_one, List.tail_cons,
    List.takeWhile_append_of_pos hword, hs, List.append_nil, natural_offsetText]

/-- A character that neither ends a line nor starts a comment. -/
def isPlain (c : Char) : Bool := c != '\n' && c != '/'

theorem Literal.Written.plain {value : Literal} (h : value.Written word) :
    ∀ c ∈ word, isPlain c = true := by
  have hall : literalChars.all isPlain = true := by decide
  exact fun c hc => List.all_eq_true.mp hall c (h.mem c hc)

theorem RowWritten.plain {row : List Literal} (h : RowWritten row word) :
    ∀ c ∈ word, isPlain c = true := by
  induction h with
  | last written => exact written.plain
  | more written rest ih =>
    simp only [List.forall_mem_append, List.forall_mem_cons]
    exact ⟨written.plain, by decide, by decide, ih⟩

theorem isPlain_instructionText (i : Instruction) :
    ∀ c ∈ (instructionText i).toList, isPlain c = true := by
  have hmnemonic : ∀ c ∈ i.op.mnemonic.toList, isPlain c = true := by
    obtain ⟨_, _, -, -, hchars⟩ := (isMnemonic_mnemonic i.op).spelling
    intro c hc
    have hm := hchars c hc
    simp only [isPlain, Bool.and_eq_true, bne_iff_ne]
    constructor
    · rintro rfl
      exact absurd hm (by decide)
    · rintro rfl
      exact absurd hm (by decide)
  cases ho : i.operand with
  | none =>
    rw [instructionText_none ho]
    exact hmnemonic
  | some operand =>
    obtain ⟨n, hn⟩ := instructionText_some ho
    rw [hn]
    simp only [List.forall_mem_append]
    refine ⟨hmnemonic, ?_, (rowWritten_operandText i.op operand).plain⟩
    intro c hc
    rw [(List.mem_replicate.mp hc).2]
    decide

/-- The line, without its end, is that of an instruction at an offset. -/
structure LineShows (line : List Char) (offset : Nat) (i : Instruction) : Prop where
  single : '\n' ∉ line
  /-- The line starts with the text of the instruction. -/
  starts : (instructionText i).toList <+: line
  offset : writtenOffset line = .ok offset

/-- Behind the offset stand a blank and the name of the service, or nothing. -/
theorem exists_serviceText (i : Instruction) :
    ∃ service : String, (serviceName? i).elim "" (" " ++ ·) = service ∧ '\n' ∉ service.toList ∧
      service.toList.takeWhile (· != ' ') = [] := by
  cases hn : serviceName? i with
  | none => exact ⟨"", rfl, by simp, by simp⟩
  | some name =>
    refine ⟨" " ++ name, rfl, ?_, by simp⟩
    intro hm
    have hm : '\n' ∈ name.toList := by simpa using hm
    exact absurd (isCommentChar_serviceName hn '\n' hm) (by decide)

theorem shows_line (width offset : Nat) (i : Instruction) :
    ∃ shown, (line width offset i).toList = shown ++ ['\n'] ∧ LineShows shown offset i := by
  obtain ⟨service, hs, hend, hstop⟩ := exists_serviceText i
  -- The text of the instruction with the blanks behind it, and the comment.
  let front := (instructionText i).toList ++
    (List.replicate (width - (instructionText i).length) ' ' ++ [' ', ' '])
  let comment := ' ' :: ((offsetText offset).toList ++ service.toList)
  have hfront : ∀ c ∈ front, isPlain c = true := by
    simp only [front, List.forall_mem_append]
    have hblank : isPlain ' ' = true := by decide
    refine ⟨isPlain_instructionText i, ?_, by simp [hblank]⟩
    intro c hc
    rw [(List.mem_replicate.mp hc).2]
    exact hblank
  refine ⟨front ++ '/' :: '/' :: comment, ?_, ?_, ?_, ?_⟩
  · simp only [line, hs]
    simp [front, comment, padRight]
  · intro hm
    simp only [comment, List.mem_append, List.mem_cons] at hm
    rcases hm with hm | hm | hm | hm | hm | hm
    · exact absurd (hfront _ hm) (by decide)
    · cases hm
    · cases hm
    · cases hm
    · exact (offsetText_ne offset _ hm).1 rfl
    · exact hend hm
  · rw [List.append_assoc]
    exact List.prefix_append _ _
  · refine writtenOffset_comment offset ?_ hstop
    rintro c hc rfl
    exact absurd (hfront _ hc) (by decide)

/-- The lines of a listing are those of its instructions in turn, and an empty one behind the last
line end. -/
theorem splitOn_linesText (width : Nat) (lines : List (Nat × Instruction)) :
    ∃ shown, (linesText width lines).splitOn '\n' = shown ++ [[]] ∧
      List.Forall₂ (fun text l => LineShows text l.1 l.2) shown lines := by
  induction lines with
  | nil => exact ⟨[], rfl, .nil⟩
  | cons l rest ih =>
    obtain ⟨shown, hs, hf⟩ := ih
    obtain ⟨first, ht, hl⟩ := shows_line width l.1 l.2
    refine ⟨first :: shown, ?_, .cons hl hf⟩
    simp only [linesText, List.flatMap_cons, ht]
    rw [List.append_assoc, List.singleton_append, List.splitOn_append_cons_self,
      List.splitOn_eq_singleton hl.single]
    change [first] ++ (linesText width rest).splitOn '\n' = _
    rw [hs]
    rfl

/-- The offset of an instruction is that of the first one with the sizes of those before. -/
theorem getElem?_withOffsets (offset k : Nat) (is : List Instruction) :
    (withOffsets offset is)[k]? =
      is[k]?.map fun i => (offset + sizeAll (is.take k), i) := by
  induction is generalizing offset k with
  | nil => rfl
  | cons i rest ih =>
    cases k with
    | zero => rfl
    | succ k =>
      rw [withOffsets, List.getElem?_cons_succ, ih, List.getElem?_cons_succ, List.take_succ_cons,
        Instruction.sizeAll_cons, Nat.add_assoc]

/-- The line of an instruction holds the sum of the sizes of the instructions before it. -/
theorem shows_of_forall₂ {shown : List (List Char)} {k : Nat}
    (h : List.Forall₂ (fun text l => LineShows text l.1 l.2) shown (withOffsets 0 is))
    (hk : is[k]? = some i) :
    ∃ text, shown[k]? = some text ∧ LineShows text (sizeAll (is.take k)) i := by
  obtain ⟨hlength, hget⟩ := List.forall₂_iff_get.mp h
  have hw : (withOffsets 0 is)[k]? = some (sizeAll (is.take k), i) := by
    rw [getElem?_withOffsets, hk, Option.map_some, Nat.zero_add]
  obtain ⟨hl, hg⟩ := List.getElem?_eq_some_iff.mp hw
  have hline := hget k (hlength ▸ hl) hl
  rw [List.get_eq_getElem, List.get_eq_getElem, hg] at hline
  exact ⟨_, List.getElem?_eq_getElem (hlength ▸ hl), hline⟩

/-- A reader of a script, whatever has been called on it and whatever faults have come up, stands in
the script or at its end, and a call moves it over just the bytes of the instruction that it yields,
to the place at which bytes are missing, or not at all. The lines of the listing of a script are those
of its instructions, and the offset that stands in the comment of each is the sum of the sizes of the
instructions before it, which is where the reader stands when so many instructions have been read. -/
theorem cursor_accounted (script : Bytes) :
    (∀ calls, ((ScriptReader.ofScript script).after calls).Accounted script) ∧
      ∀ listing, printScript script = .ok listing →
        ∃ is lines, Instruction.decode script = .ok is ∧
          listing.toList.splitOn '\n' = lines ++ [[]] ∧ lines.length = is.length ∧
          ∀ k i, is[k]? = some i →
            ∃ text, lines[k]? = some text ∧
              LineShows text (sizeAll (is.take k)) i ∧
              ((ScriptReader.ofScript script).after (List.replicate k .next)).offset =
                sizeAll (is.take k) := by
  refine ⟨fun calls => ((ScriptReader.within_ofScript script).after calls).accounted, ?_⟩
  intro listing h
  obtain ⟨is, hd, rfl⟩ := map_eq_ok.mp h
  obtain ⟨width, ht⟩ := toList_print is
  obtain ⟨lines, hs, hf⟩ := splitOn_linesText width (withOffsets 0 is)
  refine ⟨is, lines, hd, by rw [ht, hs], ?_, ?_⟩
  · rw [hf.length_eq, ← List.length_map, map_withOffsets]
  · intro k i hk
    obtain ⟨text, hl, hshows⟩ := shows_of_forall₂ hf hk
    obtain ⟨hlt, -⟩ := List.getElem?_eq_some_iff.mp hk
    have hcursor := (ScriptReader.after_of_decodeFrom (r := .ofScript script) hd (Nat.le_of_lt hlt)).1
    exact ⟨text, hl, hshows, hcursor.trans (Nat.zero_add _)⟩

/-- The third line of a listing, and a reader that goes on after a fault in the middle of an
instruction. -/
theorem cursor_accounted_three_lines :
    printScript [0x3b, 1, 0xfe, 0x0c, 0x01, 0x2f, 0x40] =
        .ok ("TRY          1, -2  // 0000\n" ++ "PUSHDATA1    x\x7b2f\x7d  // 0003\n" ++
          "RET                 // 0006\n") ∧
      (∃ text ∈ ("TRY          1, -2  // 0000\n" ++ "PUSHDATA1    x\x7b2f\x7d  // 0003\n" ++
          "RET                 // 0006\n").toList.splitOn '\n', LineShows text 6 ⟨.ret, none⟩) ∧
      ((ScriptReader.ofScript [0x0c, 5, 0x40]).after [.next, .nextItem]).offset ≤ 3 := by
  have h : printScript [0x3b, 1, 0xfe, 0x0c, 0x01, 0x2f, 0x40] =
      .ok ("TRY          1, -2  // 0000\n" ++ "PUSHDATA1    x\x7b2f\x7d  // 0003\n" ++
        "RET                 // 0006\n") := by
    decide +kernel
  have hd : Instruction.decode [0x3b, 1, 0xfe, 0x0c, 0x01, 0x2f, 0x40] =
      .ok [⟨.tryOp, some [1, 0xfe]⟩, ⟨.pushData1, some [0x2f]⟩, ⟨.ret, none⟩] := by
    decide +kernel
  obtain ⟨is, lines, his, hs, -, hk⟩ := (cursor_accounted _).2 _ h
  obtain rfl := Except.ok.inj (his.symm.trans hd)
  obtain ⟨text, ht, hshows, -⟩ := hk 2 _ rfl
  refine ⟨h, ⟨text, ?_, hshows⟩, ((cursor_accounted [0x0c, 5, 0x40]).1 _).within.2⟩
  rw [hs]
  exact List.mem_append_left _ (List.mem_of_getElem? ht)

end ScriptKit.Listing
