import ScriptKit.Proofs.Listing.Lines.Beside
import ScriptKit.Proofs.Listing.Literal

namespace ScriptKit.Listing

open Listing.Parser Text

open State (Beside Aligned)

variable {line : Setting} {earlier : List SyntaxError} {s t : State}

def Argument.moved (distance : Nat) (arg : Argument) : Argument :=
  { arg with span := arg.span.moved distance }

def Statement.moved (distance : Nat) (s : Statement) : Statement where
  span := s.span.moved distance
  mnemonicSpan := s.mnemonicSpan.moved distance
  mnemonic := s.mnemonic
  args := s.args.map (·.moved distance)

theorem local_unsignedNumber : Local line unsignedNumber := by
  have hrun : Local line (run1 unexpectedKind isNumberChar) :=
    local_run1 notesHere_kind (by decide)
  have hmarked : ∀ mark radix, '\n' ∉ mark → Local line (markedNumber mark radix) :=
    fun mark radix hmark => Agrees.judge (toOption_numberValue radix)
      (fun _ _ _ => span_of_numberValue radix) ((local_symbol hmark).bind fun _ => hrun)
  have hdecimal : Local line decimalNumber :=
    (local_char notesHere_kind (by decide)).ahead.bind fun _ =>
      Agrees.judge (toOption_numberValue 10) (fun _ _ _ => span_of_numberValue 10) hrun
  exact (hmarked _ _ (by decide)).orElse ((hmarked _ _ (by decide)).orElse hdecimal)

theorem points_blanks {blame : Option Blame} (h : blanks s = .stuck blame) : Points s blame := by
  rcases bind_eq_stuck.mp h with hs | ⟨_, _, -, hs⟩
  · exact points_run1 notesHere_nonBlank hs
  · exact absurd hs pure_ne_stuck

/-- Where nothing ends a number, this place is to blame. -/
theorem points_numberEnd {blame : Option Blame} (h : numberEnd s = .stuck blame) :
    Points s blame := by
  obtain ⟨first, hfirst, h⟩ := orElse_eq_stuck.mp h
  obtain ⟨second, hsecond, h⟩ := orElse_eq_stuck.mp h
  have hend : Points s first := by
    obtain ⟨-, rfl⟩ := endOfText_eq_stuck.mp hfirst
    obtain ⟨blame, he, hp⟩ := notesHere_here s
    rwa [he]
  have hblanks : Points { s with blame := first } second := points_blanks hsecond
  have hmark : Points { s with blame := second } blame := by
    rcases bind_eq_stuck.mp h with hs | ⟨_, _, -, hs⟩
    · obtain ⟨-, rfl⟩ := char_eq_stuck.mp hs
      obtain ⟨blame, he, hp⟩ := notesHere_here { s with blame := second }
      rwa [he]
    · exact absurd hs pure_ne_stuck
  exact (hend.trans hblanks).trans hmark

/-- A line end ends a number as the end of a text does. -/
theorem endsNumber_append (a : List Char) : EndsNumber (a ++ line.behind) ↔ EndsNumber a := by
  cases a with
  | nil => exact iff_of_true (line.stops_behind (by decide)) (stops_nil _)
  | cons c rest => rw [List.cons_append, EndsNumber, EndsNumber, stops_cons, stops_cons]

theorem agrees_numberEnd : Agrees line (Beside line) id (ahead numberEnd) := by
  intro earlier s t h
  have hends : EndsNumber (s.rest ++ line.behind) ↔ EndsNumber s.rest := endsNumber_append s.rest
  rw [← h.rest] at hends
  by_cases he : EndsNumber s.rest
  · obtain ⟨_, hs⟩ := reads_numberEnd he
    obtain ⟨_, ht⟩ := reads_numberEnd (hends.mpr he)
    obtain ⟨_, _, blame, hs, -⟩ := hs s.offset s.blame s.errors
    obtain ⟨_, _, blame', ht, -⟩ := ht t.offset t.blame t.errors
    exact .inl ⟨(), _, _, ahead_eq_done.mpr ⟨_, _, hs, rfl⟩, ahead_eq_done.mpr ⟨_, _, ht, rfl⟩,
      h.rest, h.offset, h.size, h.errors⟩
  · obtain ⟨blame, hs⟩ := refuses_numberEnd he s.offset s.blame s.errors
    obtain ⟨blame', ht⟩ := refuses_numberEnd (hends.not.mpr he) t.offset t.blame t.errors
    obtain ⟨first, rfl, -⟩ := points_numberEnd hs
    obtain ⟨known, rfl, hk⟩ := (points_numberEnd ht).has h
    exact .inr ⟨first, known, ahead_eq_stuck.mpr hs, ahead_eq_stuck.mpr ht, hk⟩

theorem agrees_number : Agrees line (Beside line) id number := by
  have hnegative : Local line negativeNumber :=
    (local_symbol (by decide)).bind fun _ => local_unsignedNumber.bind fun _ => .pure _
  exact (hnegative.orElse local_unsignedNumber).bind fun value =>
    agrees_numberEnd.map (f := fun _ => value) fun _ => rfl

theorem local_serviceName : Local line serviceName :=
  ((local_char notesHere_kind (by decide)).ahead.bind fun _ =>
    (local_run1 notesHere_kind (by decide)).bind fun _ => .pure _).filter

theorem local_closing {mark : Char} {rest : Parser Unit} (hm : '\n' ∉ [mark])
    (h : Local line rest) : Local line (closing mark rest) :=
  ((local_symbol hm).bind fun _ => .pure _).insteadRead (h.bind fun _ => .pure _)
    fun _ _ _ => id

theorem local_byteString : Local line byteString := by
  have hdigits : Local line (run unexpectedKind isHexChar) :=
    local_run notesHere_kind (by decide)
  have hread := (Agrees.judge toOption_hexValue (fun _ _ _ => span_of_hexValue) hdigits).insteadRead
    (hdigits.bind fun _ => .pure none) fun _ _ _ => id
  have hrest : Local line (do
      let _ ← run unexpectedHere fun c => c != '}' && c != '\n'
      orElse (symbol ['}']) (pure ())) :=
    (local_run notesHere_here (by decide)).bind fun _ =>
      (local_symbol (by decide)).orElse (.pure ())
  exact (local_symbol (by decide)).bind fun _ => hread.bind fun _ =>
    (local_closing (by decide) hrest).bind fun _ => .pure _

/-- One character of a text in quotes. A backslash at the end of a line escapes nothing. -/
theorem local_textChar :
    Local line (orElse (char unexpectedHere isPlainChar) escapedChar) := by
  refine (local_char notesHere_here (by decide)).orElse ((local_symbol (by decide)).bind fun _ =>
    local_judge_char (fun span other c => ?_) (fun span c error h => ?_) fun span => rfl)
  · split <;> rfl
  · split at h
    · cases h
    · cases h
      rfl

theorem local_quotedText : Local line quotedText := by
  have hrest : Local line (do let _ ← run unexpectedHere (· != '\n')) :=
    (local_run notesHere_here (by decide)).bind fun _ => .pure ()
  exact (local_symbol (by decide)).bind fun _ =>
    (local_textChar.many advances_textChar honest_textChar).bind fun _ =>
      (local_closing (by decide) hrest).bind fun _ => .pure _

theorem agrees_literal : Agrees line (Beside line) id literal := by
  have hweak : ∀ earlier s t, Aligned line earlier s t → Beside line earlier s t :=
    fun _ _ _ h => h.toBeside
  have hnumber : Agrees line (Beside line) id (do
      let value ← number
      pure (Literal.number value)) := agrees_number.map fun _ => rfl
  exact hnumber.orElse
    ((local_byteString.orElse (local_quotedText.orElse local_serviceName)).mono hweak)

theorem agrees_argument : Agrees line (Beside line) (·.moved line.start) argument := by
  have hother : Local line (do
      let _ ← run1 unexpectedKind fun c => !isBlank c && c != ',' && c != '/'
      pure Literal.unreadable) :=
    (local_run1 notesHere_kind (by decide)).bind fun _ => .pure _
  exact ((agrees_literal.insteadRead hother fun _ _ _ h => h.toBeside).spanned
    fun _ _ _ => id).map fun _ => rfl

theorem local_mnemonic : Local line mnemonic := by
  have hword : Local line (run1 unexpectedKind isMnemonicChar) :=
    local_run1 notesHere_kind (by decide)
  intro earlier s t h
  rcases hword earlier s t h with ⟨word, s', t', hs, ht, ha⟩ | ⟨first, known, hs, ht, hk⟩
  · cases hf : mnemonicFault? word with
    | none =>
      refine .inl ⟨String.ofList word, s', t', ?_, ?_, ha⟩
      · simp only [mnemonic, hs, hf]
      · simp only [mnemonic, ht, hf, id]
    | some c =>
      have hreport : Aligned line earlier
          (s'.report (some ⟨0, .unexpected ⟨s.offset, s'.offset⟩ (some c)⟩))
          (t'.report (some ⟨0, .unexpected ⟨t.offset, t'.offset⟩ (some c)⟩)) :=
        ha.report (h.has rfl)
      refine .inl ⟨unreadableMnemonic, _, _, ?_, ?_, hreport⟩
      · simp only [mnemonic, hs, hf, State.report]
      · simp only [mnemonic, ht, hf, State.report, id]
  · refine .inr ⟨first, known, ?_, ?_, hk⟩
    · simp only [mnemonic, hs]
    · simp only [mnemonic, ht]

theorem unseparated_of_not_mem {a : List Char} (h : ',' ∉ a) : Unseparated a := by
  obtain ⟨b, hb⟩ := exists_skips a
  refine ⟨b, hb, fun c hc => ?_⟩
  rw [beq_eq_false_iff_ne]
  rintro rfl
  exact h (hb.suffix.subset (List.mem_of_mem_head? hc))

/-- Without a comma, none is found. -/
theorem refuses_comma_of_not_mem {a : List Char} (h : ',' ∉ a) : Refuses comma a := by
  refine comma_of_misses (unseparated_of_not_mem h) ?_
  induction a with
  | nil => exact .stop (stops_nil _)
  | cons c rest ih =>
    have hrest := (not_or.mp (List.mem_cons.not.mp h)).2
    cases hc : isBarrier c with
    | true => exact .stop (stops_cons.mpr (by simp [hc]))
    | false => exact .later hc (unseparated_of_not_mem hrest) (ih hrest)

/-- Without a comma, a statement has at most one argument. -/
theorem arguments_of_not_mem {middle : State} {arg : Argument} (hd : argument s = .done arg middle)
    (hc : ',' ∉ middle.rest) :
    ∃ blame, arguments s = .done [arg] { middle with blame } := by
  obtain ⟨blame, hr⟩ := refuses_comma_of_not_mem hc middle.offset middle.blame middle.errors
  have hmany : many (do comma; argument) middle = .done [] { middle with blame } :=
    (many_eq_done advances_nextArgument honest_nextArgument).mpr
      (.stop (bind_eq_stuck.mpr (.inl hr)))
  exact ⟨blame, orElse_eq_done.mpr (.inl (bind_eq_done.mpr ⟨arg, middle, hd,
    bind_eq_done.mpr ⟨[], _, hmany, rfl⟩⟩))⟩

theorem arguments_agree (h : Aligned line earlier s t) (hc : ',' ∉ t.rest) :
    ∃ args s' t', arguments s = .done args s' ∧
      arguments t = .done (args.map (·.moved line.start)) t' ∧ Beside line earlier s' t' := by
  rcases agrees_argument earlier s t h with ⟨arg, s', t', hs, ht, hb⟩ | ⟨first, known, hs, ht, -⟩
  · have hbefore := (honest_argument.done t _ t' ht).1.before
    have hct : ',' ∉ t'.rest := fun hm => hc (hbefore.suffix.subset hm)
    have hcs : ',' ∉ s'.rest := by
      rw [hb.rest, List.mem_append, not_or] at hct
      exact hct.1
    obtain ⟨_, hs⟩ := arguments_of_not_mem hs hcs
    obtain ⟨_, ht⟩ := arguments_of_not_mem ht hct
    exact ⟨[arg], _, _, hs, ht, hb.rest, hb.offset, hb.size, hb.errors⟩
  · exact ⟨[], _, _, orElse_eq_done.mpr (.inr ⟨_, bind_eq_stuck.mpr (.inl hs), rfl⟩),
      orElse_eq_done.mpr (.inr ⟨_, bind_eq_stuck.mpr (.inl ht), rfl⟩),
      h.rest, h.offset, h.size, h.errors⟩

theorem Statement.moved_foldl (distance : Nat) (first : Span) (args : List Argument) :
    (args.foldl (fun span arg => span.hull arg.span) first).moved distance =
      (args.map (·.moved distance)).foldl (fun span arg => span.hull arg.span)
        (first.moved distance) := by
  induction args generalizing first with
  | nil => rfl
  | cons arg rest ih =>
    rw [List.foldl_cons, ih, Span.moved_hull]
    rfl

theorem statement_agrees (h : Aligned line earlier s t) (hc : ',' ∉ t.rest) :
    AgreesFrom line (Beside line earlier) (·.moved line.start) statement s t := by
  have hname : Agrees line (Aligned line)
      (fun found => (found.1, found.2.moved line.start)) (spanned mnemonic) :=
    local_mnemonic.spanned fun _ _ _ => State.Aligned.toBeside
  rcases hname earlier s t h with ⟨⟨name, span⟩, s₁, t₁, hs, ht, ha⟩ | ⟨first, known, hs, ht, hk⟩
  · have hblank : Local line (run unexpectedNonBlank fun c => c == ' ' || c == '\t') :=
      local_run notesHere_nonBlank (by decide)
    obtain ⟨blank, s₂, t₂, hs₂, ht₂, ha₂⟩ := Or.resolve_right (hblank earlier s₁ t₁ ha)
      fun ⟨_, _, hstuck, _⟩ => run_ne_stuck hstuck
    have hbefore := ((honest_mnemonic.spanned.done t _ t₁ ht).1.trans
      ((honest_run tells_nonBlank).done t₁ blank t₂ ht₂).1).before
    have hct : ',' ∉ t₂.rest := fun hm => hc (hbefore.suffix.subset hm)
    obtain ⟨args, s', t', hargs, hargs', hb⟩ := arguments_agree ha₂ hct
    refine .inl ⟨_, s', t', bind_eq_done.mpr ⟨_, s₁, hs, bind_eq_done.mpr ⟨blank, s₂, hs₂,
      bind_eq_done.mpr ⟨args, s', hargs, rfl⟩⟩⟩, bind_eq_done.mpr ⟨_, t₁, ht, bind_eq_done.mpr
      ⟨blank, t₂, ht₂, bind_eq_done.mpr ⟨_, t', hargs', ?_⟩⟩⟩, hb⟩
    simp only [Statement.moved, Statement.moved_foldl]
    rfl
  · exact .inr ⟨first, known, bind_eq_stuck.mpr (.inl hs), bind_eq_stuck.mpr (.inl ht), hk⟩

end ScriptKit.Listing
