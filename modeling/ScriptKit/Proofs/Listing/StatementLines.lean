import ScriptKit.Proofs.Listing.Faultless
import ScriptKit.Proofs.Listing.Lines.Grammar
import ScriptKit.Proofs.Listing.Line

namespace ScriptKit.Listing

open Listing.Parser Text

variable {a b text : List Char} {s middle s' : State} {found : Statement}

/-- The blanks that are passed over in front of the arguments of a statement. -/
def isInline (c : Char) : Bool := c == ' ' || c == '\t'

/-- A blank that is neither one of these nor ends a line. -/
def IsOddBlank (c : Char) : Prop := isBlank c = true ∧ isInline c = false ∧ isLineEnd c = false

instance (c : Char) : Decidable (IsOddBlank c) := inferInstanceAs (Decidable (_ ∧ _))

/-- The text starts with such a blank, apart from spaces and tabs in front. -/
def StartsOdd (gap : List Char) : Prop := ∃ c ∈ (gap.dropWhile isInline).head?, IsOddBlank c

instance (gap : List Char) : Decidable (StartsOdd gap) :=
  Option.decidableExistsMem (gap.dropWhile isInline).head?

/-- What may stand behind a statement, up to the next one. -/
def MayFollow (s : Statement) (gap : List Char) : Prop :=
  (∃ c ∈ gap, isLineEnd c = true) ∨
    (∀ c ∈ gap, isBlank c = true) ∧ (s.args ≠ [] ∨ StartsOdd gap)

/-- A comment takes the rest of its line, so without a line end only blanks are passed over. -/
theorem gap_of_skips (h : Skips a b) (hb : b ≠ []) :
    ∃ gap, a = gap ++ b ∧ ((∃ c ∈ gap, isLineEnd c = true) ∨ ∀ c ∈ gap, isBlank c = true) := by
  induction h with
  | stop => exact ⟨[], rfl, .inr (by simp)⟩
  | @blank c a b hblank others ih =>
    obtain ⟨gap, rfl, hgap⟩ := ih hb
    refine ⟨c :: gap, rfl, ?_⟩
    rcases hgap with ⟨d, hd, hline⟩ | hall
    · exact .inl ⟨d, .tail _ hd, hline⟩
    · exact .inr (List.forall_mem_cons.mpr ⟨hblank, hall⟩)
  | @comment word rest b inLine ends others ih =>
    obtain ⟨gap, rfl, -⟩ := ih hb
    refine ⟨'/' :: '/' :: (word ++ gap), by simp, .inl ?_⟩
    -- The line end behind the comment is a blank, so it is passed over as well.
    cases gap with
    | nil =>
      obtain ⟨c, rest, rfl⟩ := List.exists_cons_of_ne_nil hb
      have hline : isLineEnd c = true := by simpa using stops_cons.mp ends
      have hblank := isBlank_of_isLineEnd hline
      rw [stops_cons.mp others.stops] at hblank
      cases hblank
    | cons c gap =>
      have hline : isLineEnd c = true := by simpa using stops_cons.mp ends
      exact ⟨c, by simp, hline⟩

/-- Where no argument and neither a space nor a tab stands, only a line end or a blank of another
kind leads on to a statement. -/
theorem startsOdd_of_noArgument {c : Char} {gap rest : List Char}
    (ha : NoArgument (gap ++ c :: rest))
    (hs : Stops isInline (gap ++ c :: rest))
    (hc : isMnemonicChar c = true) (hb : ∀ d ∈ gap, isBlank d = true)
    (hl : ∀ d ∈ gap, isLineEnd d = false) : ∃ d others, gap = d :: others ∧ IsOddBlank d := by
  cases gap with
  | nil =>
    have hmark : isBlank c = false ∧ c ≠ ',' ∧ c ≠ '/' := by
      simp only [isMnemonicChar, Bool.and_eq_true, Bool.not_eq_true'] at hc
      refine ⟨hc.1, ?_, ?_⟩
      · rintro rfl
        exact absurd hc.2 (by decide)
      · rintro rfl
        exact absurd hc.2 (by decide)
    have hnone := stops_cons.mp ha
    simp [hmark] at hnone
  | cons d others =>
    exact ⟨d, others, rfl, hb d List.mem_cons_self, stops_cons.mp hs, hl d List.mem_cons_self⟩

/-- A statement without arguments ends with its mnemonic. Spaces and tabs are passed over behind it,
and then no argument starts. -/
theorem stop_of_no_args (hd : statement s = .done found middle) (hn : found.args = []) :
    ∃ stop inline, s.Before stop ∧ stop.Before middle ∧ stop.offset = found.span.stop ∧
      stop.rest = inline ++ middle.rest ∧ (∀ d ∈ inline, isInline d = true) ∧
      Stops isInline middle.rest ∧ NoArgument middle.rest := by
  obtain ⟨⟨name, span⟩, stop, hm, hd⟩ := bind_eq_done.mp hd
  obtain ⟨inline, behind, hb, hd⟩ := bind_eq_done.mp hd
  obtain ⟨args, last, ha, hd⟩ := bind_eq_done.mp hd
  obtain ⟨rfl, rfl⟩ := pure_eq_done.mp hd
  obtain ⟨hname, rfl⟩ := spanned_eq_done.mp hm
  obtain rfl : args = [] := hn
  obtain ⟨hnone, hsame⟩ := noArgument_of_arguments ha
  obtain ⟨hrest, hall⟩ := word_of_run notes_nonBlank hb
  have hblanks := ((honest_run tells_nonBlank).done stop inline behind hb).1.before
  have hargs := (honest_arguments.done behind [] middle ha).1.before
  have hstops : Stops isInline middle.rest := by
    rw [hsame, (rest_of_run notes_nonBlank hb).1]
    exact stops_dropWhile _ stop.rest
  refine ⟨stop, inline, (honest_mnemonic.done s name stop hname).1.before, hblanks.trans hargs, rfl,
    by rw [hrest, hsame], hall, hstops, hsame ▸ hnone⟩

/-- What stands between the end of a statement and the next one. -/
theorem gap_behind_statement (hd : statement s = .done found middle)
    (hs : Skips middle.rest s'.rest) (hb : middle.Before s')
    (hnext : ∃ c rest, s'.rest = c :: rest ∧ isMnemonicChar c = true) :
    ∃ stop gap, s.Before stop ∧ stop.Before s' ∧ stop.offset = found.span.stop ∧
      stop.rest = gap ++ s'.rest ∧ Skips stop.rest s'.rest ∧ MayFollow found gap := by
  obtain ⟨c, rest, hc, hmnemonic⟩ := hnext
  obtain ⟨gap, hrest, hgap⟩ := gap_of_skips hs (by simp [hc])
  by_cases hargs : found.args = []
  · obtain ⟨stop, inline, hstop, hmiddle, hspan, hinline, hall, hends, hnone⟩ :=
      stop_of_no_args hd hargs
    have hspaces : ∀ d ∈ inline, isBlank d = true := fun d hd => isBlank_of_isInline (hall d hd)
    refine ⟨stop, inline ++ gap, hstop, hmiddle.trans hb, hspan, by rw [hinline, hrest,
      List.append_assoc], hinline ▸ hs.blanks hspaces, ?_⟩
    by_cases hline : ∃ d ∈ gap, isLineEnd d = true
    · obtain ⟨d, hd, hline⟩ := hline
      exact .inl ⟨d, List.mem_append_right inline hd, hline⟩
    · have hblank := hgap.resolve_left hline
      simp only [not_exists, not_and, Bool.not_eq_true] at hline
      rw [hrest, hc] at hends hnone
      obtain ⟨d, others, rfl, hodd⟩ :=
        startsOdd_of_noArgument hnone hends hmnemonic hblank hline
      refine .inr ⟨List.forall_mem_append.mpr ⟨hspaces, hblank⟩, .inr ⟨d, ?_, hodd⟩⟩
      rw [List.dropWhile_append_of_pos hall, List.dropWhile_cons_of_neg (by simp [hodd.2.1])]
      rfl
  · refine ⟨middle, gap, (honest_statement.done s found middle hd).1.before, hb,
      ((span_of_statement hd).2 hargs).symm, hrest, hs, ?_⟩
    exact hgap.imp id fun hall => ⟨hall, .inl hargs⟩

/-- A line ends between two places of the text. -/
def LineEndsBetween (text : List Char) (start stop : Nat) : Prop :=
  ∃ before between after, text = before ++ (between ++ after) ∧ Utf8.size before = start ∧
    Utf8.size (before ++ between) = stop ∧ ∃ c ∈ between, isLineEnd c = true

/-- What stands in a text between two statements is passed over, and may stand there. -/
def Follows (text : List Char) (s t : Statement) : Prop :=
  ∃ before gap after, text = before ++ (gap ++ after) ∧ Utf8.size before = s.span.stop ∧
    Utf8.size (before ++ gap) = t.span.start ∧ Skips (gap ++ after) after ∧ MayFollow s gap

/-- The text behind a statement. -/
def Statement.behind (s : Statement) (text : List Char) : List Char :=
  (Utf8.splitAt s.span.stop text).2

/-- What was read from one place to another, as a part of the text. -/
theorem State.Before.between (h : s.Before s') (hp : (State.ofText text).Before s) :
    ∃ before between, text = before ++ (between ++ s'.rest) ∧ s.rest = between ++ s'.rest ∧
      Utf8.size before = s.offset ∧ Utf8.size (before ++ between) = s'.offset := by
  obtain ⟨before, hbefore, hstart⟩ := hp
  obtain ⟨between, hbetween, hstop⟩ := h
  have hsize : Utf8.size before = s.offset := by simpa [State.ofText] using hstart.symm
  refine ⟨before, between, ?_, hbetween, hsize, by rw [Utf8.size_append, hsize, hstop]⟩
  rw [← hbetween]
  exact hbefore

theorem lineEndsBetween_of_mem {gap : List Char} {start stop : State}
    (hp : (State.ofText text).Before start) (hs : start.Before s) (hgap : s.Before s')
    (ht : s'.Before stop) (hr : s.rest = gap ++ s'.rest) {c : Char} (hc : c ∈ gap)
    (hl : isLineEnd c = true) : LineEndsBetween text start.offset stop.offset := by
  obtain ⟨before, between, htext, hrest, hstart, hstop⟩ := ((hs.trans hgap).trans ht).between hp
  refine ⟨before, between, stop.rest, htext, hstart, hstop, c, ?_, hl⟩
  obtain ⟨first, hf, -⟩ := hs
  obtain ⟨last, hlast, -⟩ := ht
  have hbetween : between = first ++ (gap ++ last) := by
    rw [hf, hr, hlast] at hrest
    exact List.append_cancel_right (hrest.symm.trans (by simp only [List.append_assoc]))
  rw [hbetween]
  simp [hc]

theorem StartsOdd.append {gap : List Char} (h : StartsOdd gap) (rest : List Char) :
    StartsOdd (gap ++ rest) := by
  obtain ⟨c, hc, hodd⟩ := h
  obtain ⟨others, hothers⟩ := List.head?_eq_some_iff.mp hc
  refine ⟨c, ?_, hodd⟩
  rw [List.dropWhile_append, hothers]
  rfl

/-- The first of the statements starts where they do. -/
theorem statement_of_runs {statements : List Statement}
    (h : Runs nextStatement s (found :: statements) s') (he : s'.errors = s.errors) :
    ∃ middle, statement s = .done found middle := by
  cases h with
  | more done others =>
    obtain ⟨hm, -⟩ := (honest_nextStatement.done s found _ done).1.errors_eq
      (honest_nextStatement.rounds others.rounds).1 he
    obtain ⟨middle, hd, -⟩ := statement_of_nextStatement done hm
    exact ⟨middle, hd⟩

/-- What statements that are read one after another have between them. -/
theorem follows_of_runs {statements : List Statement} (h : Runs nextStatement s statements s')
    (he : s'.errors = s.errors) (hp : (State.ofText text).Before s) :
    statements.IsChain (Follows text) ∧
      statements.Pairwise fun s t => s.args = [] → ¬ StartsOdd (s.behind text) →
        LineEndsBetween text s.span.start t.span.start := by
  induction h with
  | stop => exact ⟨.nil, .nil⟩
  | @more s middle s' found statements done others ih =>
    have hfirst := (honest_nextStatement.done s found middle done).1
    obtain ⟨hm, hm'⟩ := hfirst.errors_eq (honest_nextStatement.rounds others.rounds).1 he
    obtain ⟨hchain, hpairs⟩ := ih hm' (hp.trans hfirst.before)
    cases statements with
    | nil => exact ⟨.singleton found, List.pairwise_singleton ..⟩
    | cons next statements =>
      obtain ⟨behind, hd, hskips, -, hmiddle⟩ := statement_of_nextStatement done hm
      obtain ⟨_, hnext⟩ := statement_of_runs others hm'
      obtain ⟨stop, gap, hstop, hgap, hspan, hrest, hskips, hmay⟩ :=
        gap_behind_statement hd hskips hmiddle (first_of_statement hnext)
      obtain ⟨before, between, htext, hbetween, hsize, hends⟩ := hgap.between (hp.trans hstop)
      obtain rfl : between = gap := List.append_cancel_right (hbetween.symm.trans hrest)
      rw [hspan] at hsize
      rw [← (span_of_statement hnext).1] at hends
      rw [hrest] at hskips
      refine ⟨.cons_cons ⟨before, between, middle.rest, htext, hsize, hends, hskips, hmay⟩ hchain,
        .cons (fun other hother hargs hodd => ?_) hpairs⟩
      have hbehind : found.behind text = between ++ middle.rest := by
        rw [Statement.behind, htext, ← hsize, Utf8.splitAt_append]
      rw [hbehind] at hodd
      obtain ⟨c, hc, hl⟩ := hmay.resolve_right fun hblank => hblank.2.elim (fun h => h hargs)
        fun hstarts => hodd (hstarts.append _)
      obtain ⟨t, t', ht, hdone, hquiet⟩ := others.exists_quiet honest_nextStatement hm' other hother
      obtain ⟨_, hother, -⟩ := statement_of_nextStatement hdone hquiet
      rw [(span_of_statement hd).1, (span_of_statement hother).1]
      exact lineEndsBetween_of_mem hp hstop hgap ht hrest hc hl

/-- A mnemonic at the end of a text is a statement. -/
theorem reads_bare_statement {name : String} (hname : IsMnemonic name.toList) :
    Reads statement name.toList [] fun s => s.mnemonic = name ∧ s.args = [] := by
  have hm := reads_mnemonic hname (stops_nil isMnemonicChar)
  rw [String.ofList_toList, List.append_nil] at hm
  have hb : Reads (run unexpectedNonBlank fun c => c == ' ' || c == '\t') [] [] (· = []) :=
    reads_run (a := []) notes_nonBlank (fun _ hc => absurd hc List.not_mem_nil) (stops_nil _)
  exact hm.spanned.bind fun found hf => hb.bind fun _ _ =>
    (reads_no_arguments (stops_nil _)).bind fun args hargs => .pure ⟨hf, hargs⟩

theorem IsMnemonic.noBlank {word : List Char} (h : IsMnemonic word) :
    ∀ c ∈ word, isBlank c = false ∧ c ≠ ',' := by
  obtain ⟨_, _, -, -, hall⟩ := h.spelling
  intro c hc
  have hc := hall c hc
  simp only [isMnemonicChar, Bool.and_eq_true, Bool.not_eq_true'] at hc
  refine ⟨hc.1, ?_⟩
  rintro rfl
  exact absurd hc.2 (by decide)

section OneLine

variable {name other : String} {value : Literal} {word blank : List Char}
  (hname : IsMnemonic name.toList) (hother : IsMnemonic other.toList) (hw : value.Written word)
  (hne : blank ≠ []) (hb : ∀ c ∈ blank, isBlank c = true ∧ isLineEnd c = false)

include hname hother hw hne hb

/-- The first statement ends where the blanks behind its argument do. -/
theorem reads_with_statement_behind :
    Reads wholeStatement (name.toList ++ ' ' :: (word ++ (blank ++ other.toList))) other.toList
      fun s => s.mnemonic = name ∧ s.args.map (·.value) = [value] := by
  have hends : EndsNumber (blank ++ other.toList) := by
    obtain ⟨c, rest, rfl⟩ := List.exists_cons_of_ne_nil hne
    rw [List.cons_append, EndsNumber, stops_cons, (hb c List.mem_cons_self).1]
    rfl
  have hcomma : ',' ∉ blank ++ other.toList := by
    refine List.not_mem_append (fun hc => ?_) fun hc => (hother.noBlank _ hc).2 rfl
    exact absurd (hb _ hc).1 (by decide)
  have hinline : Stops (fun c => c == ' ' || c == '\t') (word ++ (blank ++ other.toList)) := by
    obtain ⟨c, rest, rfl, hc, -⟩ := hw.first
    exact (stops_cons.mpr hc).of_imp fun _ => isBlank_of_isInline
  have hgap : Stops isGap other.toList := by
    simpa using hother.stops_gap (a := [])
  have hskips := (skips_gap hgap).blanks fun c hc => (hb c hc).1
  exact (reads_statement hname 0 hinline (reads_arguments (.last hw) hends
    (refuses_comma_of_not_mem hcomma))).bind fun s hv => hskips.reads.bind fun _ _ => .pure hv

/-- Behind a number or a byte string, another statement may stand on the same line. -/
theorem parse_two_on_line :
    (∃ s t, parse (name.toList ++ ' ' :: (word ++ (blank ++ other.toList))) = ⟨some [s, t], []⟩ ∧
      s.mnemonic = name ∧ s.args.map (·.value) = [value] ∧ t.mnemonic = other ∧ t.args = []) ∧
    ∀ c ∈ name.toList ++ ' ' :: (word ++ (blank ++ other.toList)), isLineEnd c = false := by
  constructor
  · have hfirst := reads_with_statement_behind hname hother hw hne hb
    have hsecond : Reads wholeStatement other.toList [] fun t => t.mnemonic = other ∧ t.args = [] :=
      (reads_bare_statement hother).bind fun t hv =>
        (skips_gap (stops_nil _)).reads.bind fun _ _ => .pure hv
    have hrest : ReadsAll nextStatement other.toList []
        fun found => ∃ t, found = [t] ∧ t.mnemonic = other ∧ t.args = [] := by
      refine .more hsecond.skipUntil (List.length_pos_iff.mpr hother.1)
        (.stop refuses_nextStatement_end rfl) ?_
      rintro t _ ht rfl
      exact ⟨t, rfl, ht⟩
    have hall : ReadsAll nextStatement (name.toList ++ ' ' :: (word ++ (blank ++ other.toList))) []
        fun found => ∃ s t, found = [s, t] ∧ s.mnemonic = name ∧
          s.args.map (·.value) = [value] ∧ t.mnemonic = other ∧ t.args = [] := by
      refine .more hfirst.skipUntil ?_ hrest ?_
      · simp only [List.length_append, List.length_cons]
        omega
      · rintro s _ ⟨hm, hv⟩ ⟨t, rfl, ht⟩
        exact ⟨s, t, rfl, hm, hv, ht⟩
    obtain ⟨_, hp, s, t, rfl, hv⟩ := parse_of_readsAll (skips_gap hname.stops_gap) hall
    exact ⟨s, t, hp, hv⟩
  · have hline : ∀ {c : Char}, isBlank c = false → isLineEnd c = false := by
      intro c hc
      by_contra hl
      rw [isBlank_of_isLineEnd (by simpa using hl)] at hc
      cases hc
    simp only [List.forall_mem_append, List.forall_mem_cons]
    exact ⟨fun c hc => hline (hname.noBlank c hc).1, by decide, fun c hc => hline (hw.noBlank c hc),
      fun c hc => (hb c hc).2, fun c hc => hline (hother.noBlank c hc).1⟩

end OneLine

/-- Between two statements of a listing without faults stand blanks and comments, and without a line
end only blanks. Two statements start on different lines unless the first has an argument or a rare
blank behind it. -/
theorem statements_on_lines {text : List Char} {statements : List Statement}
    (h : parse text = ⟨some statements, []⟩) :
    statements.IsChain (Follows text) ∧
      statements.Pairwise fun s t => s.args = [] → ¬ StartsOdd (s.behind text) →
        LineEndsBetween text s.span.start t.span.start := by
  obtain ⟨s', hd, -, he⟩ := parse_eq_iff.mp h
  obtain ⟨_, middle, ht, hs⟩ := bind_eq_done.mp hd
  have htrivia := (honest_trivia.done _ _ middle ht).1
  have hruns := (many_eq_done advances_nextStatement honest_nextStatement).mp hs
  obtain ⟨-, hquiet⟩ := htrivia.errors_eq (honest_nextStatement.rounds hruns.rounds).1 he
  exact follows_of_runs hruns hquiet htrivia.before

/-- A statement without arguments, one with an argument and a comment behind it, and one at the end
of the text. -/
theorem statements_on_lines_three :
    parse "NOP \nPUSHINT 5 // five\nRET".toList =
      ⟨some [⟨⟨0, 3⟩, ⟨0, 3⟩, "NOP", []⟩, ⟨⟨5, 14⟩, ⟨5, 12⟩, "PUSHINT", [⟨⟨13, 14⟩, .number 5⟩]⟩,
        ⟨⟨23, 26⟩, ⟨23, 26⟩, "RET", []⟩], []⟩ ∧
    LineEndsBetween "NOP \nPUSHINT 5 // five\nRET".toList 0 5 := by
  have h : parse "NOP \nPUSHINT 5 // five\nRET".toList =
      ⟨some [⟨⟨0, 3⟩, ⟨0, 3⟩, "NOP", []⟩, ⟨⟨5, 14⟩, ⟨5, 12⟩, "PUSHINT", [⟨⟨13, 14⟩, .number 5⟩]⟩,
        ⟨⟨23, 26⟩, ⟨23, 26⟩, "RET", []⟩], []⟩ := by
    decide +kernel
  obtain ⟨-, hpairs⟩ := statements_on_lines h
  exact ⟨h, (List.pairwise_cons.mp hpairs).1 _ List.mem_cons_self rfl (by decide +kernel)⟩

/-- On one line, a second statement is read behind an argument. -/
theorem second_statement_is_read :
    parse "PUSHINT 5 RET".toList =
      ⟨some [⟨⟨0, 9⟩, ⟨0, 7⟩, "PUSHINT", [⟨⟨8, 9⟩, .number 5⟩]⟩, ⟨⟨10, 13⟩, ⟨10, 13⟩, "RET", []⟩],
        []⟩ ∧
    ¬ LineEndsBetween "PUSHINT 5 RET".toList 0 10 := by
  refine ⟨by decide +kernel, ?_⟩
  rintro ⟨before, between, after, htext, -, -, c, hc, hl⟩
  have hall : ∀ c ∈ "PUSHINT 5 RET".toList, isLineEnd c = false := by simp [isLineEnd]
  rw [hall c (by rw [htext]; simp [hc])] at hl
  cases hl

end ScriptKit.Listing
