import ScriptKit.CommandLine.Report
import ScriptKit.Proofs.Listing.Check
import ScriptKit.Proofs.Listing.FaultSpans
import ScriptKit.Proofs.Text.Position

namespace ScriptKit.CommandLine

open Listing (Span check parse)
open Text (Position trimEnd)

variable {text line before marked behind : List Char} {start stop : Position} {span : Span}

theorem exists_trimEnd (line : List Char) : ∃ blanks, line = trimEnd line ++ blanks := by
  refine ⟨(line.reverse.takeWhile Text.isBlank).reverse, ?_⟩
  rw [trimEnd, ← List.reverse_append, List.takeWhile_append_dropWhile, List.reverse_reverse]

theorem lineAt_append (behind : List Char) (hs : Utf8.size before = start.lineStart)
    (he : Utf8.size (before ++ line) = start.lineEnd) :
    lineAt (before ++ line ++ behind) start = trimEnd line := by
  have hsize : start.lineEnd - start.lineStart = Utf8.size line := by
    rw [← hs, ← he, Utf8.size_append]
    omega
  simp only [lineAt, hsize]
  rw [← hs, List.append_assoc, Utf8.splitAt_append]
  dsimp only
  rw [Utf8.splitAt_append]

/-- The line of a place is cut out of the text, and what is marked up to a second place is cut out
of the line, without splitting a character. -/
structure Cuts (text : List Char) (start stop : Position) : Prop where
  line : ∃ before line behind, text = before ++ line ++ behind ∧
    Utf8.size before = start.lineStart ∧ Utf8.size (before ++ line) = start.lineEnd ∧
    lineAt text start = trimEnd line
  marked : ∃ before marked behind, lineAt text start = before ++ marked ++ behind ∧
    markRange (lineAt text start) start stop = (Utf8.size before, Utf8.size (before ++ marked))

theorem marked_of_isBoundary (blanks : List Char)
    (hs : Utf8.IsBoundary (line ++ blanks) start.column)
    (ho : stop.line = start.line → Utf8.IsBoundary (line ++ blanks) stop.column) :
    ∃ before marked behind, line = before ++ marked ++ behind ∧
      markRange line start stop = (Utf8.size before, Utf8.size (before ++ marked)) := by
  have hfirst := hs.min_size
  have hlast : Utf8.IsBoundary line (markRange line start stop).2 := by
    rw [markRange]
    dsimp only
    split
    · next hl => exact ((ho hl).max (hfirst.append blanks)).min_size
    · exact ((Utf8.isBoundary_size line).max hfirst).min (Utf8.isBoundary_size line)
  have hle : (markRange line start stop).1 ≤ (markRange line start stop).2 := by
    simp only [markRange]
    omega
  obtain ⟨before, marked, behind, hline, hb, hm⟩ := hfirst.exists_between hlast hle
  exact ⟨before, marked, behind, hline, by rw [hb, hm]; rfl⟩

/-- The places of both ends of a span that lies in the text. -/
theorem cuts_of_liesIn (h : span.LiesIn text) :
    ∃ start stop, Position.at? text span.start = some start ∧
      Position.at? text span.stop = some stop ∧ Cuts text start stop := by
  obtain ⟨before, between, behind, rfl, hstart, hstop⟩ := h.start.exists_between h.stop h.ordered
  obtain ⟨early, left, right, late, p, hbefore, hbehind, hp, hps, hpc, hpe⟩ :=
    Position.exists_line before (between ++ behind)
  obtain ⟨early', left', right', late', q, hbefore', hbehind', hq, hqs, hqc, hqe⟩ :=
    Position.exists_line (before ++ between) behind
  rw [← List.append_assoc] at hp
  have htext : before ++ between ++ behind = early ++ (left ++ right) ++ late := by
    rw [List.append_assoc, hbehind, hbefore]
    simp only [List.append_assoc]
  have hend : Utf8.size (early ++ (left ++ right)) = p.lineEnd := by
    rw [hpe, hbefore, List.append_assoc]
  have hline := lineAt_append late hps.symm hend
  rw [← htext] at hline
  obtain ⟨blanks, hblanks⟩ := exists_trimEnd (left ++ right)
  refine ⟨p, q, hstart ▸ hp, hstop ▸ hq,
    ⟨early, left ++ right, late, htext, hps.symm, hend, hline⟩, ?_⟩
  rw [hline]
  refine marked_of_isBoundary blanks ?_ fun hsame => ?_
  · rw [← hblanks, hpc]
    exact Utf8.isBoundary_append left right
  · -- In one line, the second place stands behind the first.
    obtain ⟨hs, he⟩ := Position.line_eq hp hq hsame
    rw [hbefore, List.append_assoc] at hbefore'
    obtain ⟨-, hleft⟩ := Utf8.append_inj_of_size_eq hbefore' (by rw [← hps, ← hqs, hs])
    have hright : between ++ right' = right := by
      have hall : before ++ (between ++ right') ++ late' = before ++ right ++ late := by
        rw [List.append_assoc, List.append_assoc, List.append_assoc, ← hbehind', ← hbehind]
      have hsize : Utf8.size (before ++ (between ++ right')) = Utf8.size (before ++ right) := by
        rw [← hpe, ← he, hqe, List.append_assoc]
      exact List.append_cancel_left (Utf8.append_inj_of_size_eq hall hsize).1
    rw [← hblanks, hqc, ← hleft, ← hright, ← List.append_assoc]
    exact Utf8.isBoundary_append (left ++ between) right'

/-- The line in which a span starts, without blanks at its end: what of it comes before the span,
what lies in the span, and what comes behind it. -/
structure Excerpt (text : List Char) (span : Span) (place : Position)
    (before marked behind : List Char) : Prop where
  found : Position.IsPlaceOf (Utf8.encodeChars text) span.start place
  line : ∃ above line below, text = above ++ line ++ below ∧ Utf8.size above = place.lineStart ∧
    Utf8.size (above ++ line) = place.lineEnd ∧ trimEnd line = before ++ marked ++ behind
  first : place.lineStart + Utf8.size before =
    min span.start (place.lineStart + Utf8.size (before ++ marked ++ behind))
  last : place.lineStart + Utf8.size (before ++ marked) =
    min span.stop (place.lineStart + Utf8.size (before ++ marked ++ behind))

/-- What is marked of a line is what of it lies in the span. -/
theorem markRange_eq (hl : span.LiesIn text) (hstart : Position.at? text span.start = some start)
    (hstop : Position.at? text span.stop = some stop)
    (hsize : start.lineStart + Utf8.size line ≤ start.lineEnd) :
    start.lineStart + (markRange line start stop).1 =
      min span.start (start.lineStart + Utf8.size line) ∧
    start.lineStart + (markRange line start stop).2 =
      min span.stop (start.lineStart + Utf8.size line) := by
  have hcolumn := (Position.isPlaceOf_of_at? hstart).column
  have hwithin := (Position.isPlaceOf_of_at? hstart).within.1
  have hend := (Position.isPlaceOf_of_at? hstop).column
  have hordered := hl.ordered
  obtain ⟨front, between, rest, rfl, hfront, hback⟩ := hl.start.exists_between hl.stop hordered
  rw [← hfront] at hstart
  rw [← hback] at hstop
  unfold markRange
  dsimp only
  constructor
  · omega
  · split
    · next hsame =>
      have hstarts := (Position.line_eq hstart hstop hsame).1
      omega
    · next hlater =>
      -- The mark ends with the line, and the line ends before the span does.
      have hbehind := Position.lineEnd_le hstart hstop hlater
      omega

theorem Cuts.excerpt (h : Cuts text start stop) (hl : span.LiesIn text)
    (hstart : Position.at? text span.start = some start)
    (hstop : Position.at? text span.stop = some stop) :
    ∃ before marked behind, Excerpt text span start before marked behind ∧
      lineAt text start = before ++ marked ++ behind ∧
      markRange (lineAt text start) start stop =
        (Utf8.size before, Utf8.size (before ++ marked)) := by
  obtain ⟨above, line, below, htext, hs, he, hline⟩ := h.line
  obtain ⟨before, marked, behind, hcut, hmark⟩ := h.marked
  have hsize : start.lineStart + Utf8.size (lineAt text start) ≤ start.lineEnd := by
    obtain ⟨blanks, hblanks⟩ := exists_trimEnd line
    have hcount := congrArg Utf8.size hblanks
    rw [Utf8.size_append] at hcount he
    rw [hline]
    omega
  obtain ⟨hfirst, hlast⟩ := markRange_eq hl hstart hstop hsize
  rw [hmark, hcut] at hfirst hlast
  have hplace := Position.isPlaceOf_of_at? hstart
  have htrim : trimEnd line = before ++ marked ++ behind := by rw [← hline, hcut]
  exact ⟨before, marked, behind, ⟨hplace, ⟨above, line, below, htext, hs, he, htrim⟩, hfirst, hlast⟩,
    hcut, hmark⟩

/-- A fault with this place is shown, with a line of the text and a part of it marked. -/
def IsShown (text : List Char) (span : Span) : Prop :=
  ∃ start stop, Position.at? text span.start = some start ∧
    Position.at? text span.stop = some stop ∧ Cuts text start stop ∧
    ∀ path origin message, showAt path text origin message span =
      showFault path text origin message start stop ++ "\n\n"

theorem isShown_of_liesIn (h : span.LiesIn text) : IsShown text span := by
  obtain ⟨start, stop, hstart, hstop, hcuts⟩ := cuts_of_liesIn h
  refine ⟨start, stop, hstart, hstop, hcuts, fun path origin message => ?_⟩
  simp only [showAt, hstart, hstop]

/-- All that a check finds lies in the text. -/
theorem check_liesIn : ∀ d ∈ (parse text).check, ∀ span ∈ d.spans, span.LiesIn text := by
  intro d hd span hspan
  rw [Listing.Parsed.check] at hd
  cases hs : (parse text).statements? with
  | none =>
    rw [hs] at hd
    cases hd
  | some statements =>
    rw [hs, Option.getD_some, Listing.check_eq_flatMap] at hd
    obtain ⟨s, hm, hd⟩ := List.mem_flatMap.mp hd
    obtain ⟨hl, hc⟩ := (Listing.statements_placed hs).1 s hm
    exact (Listing.check_placed hl hc d hd span hspan).1

/-- All places lie in the text, between characters: those of its faults, of its statements and their
parts, and of what a check finds. A statement covers its parts and what is found in it, and
statements follow each other. So each fault is shown with its line. -/
theorem spans_lie_in_text (text : List Char) :
    (∀ error ∈ (parse text).errors, error.span.LiesIn text ∧ IsShown text error.span) ∧
    (∀ diagnostic ∈ (parse text).check, ∀ span ∈ diagnostic.spans,
      span.LiesIn text ∧ IsShown text span) ∧
    ∀ statements, (parse text).statements? = some statements →
      statements.Pairwise (fun s t => s.span.stop ≤ t.span.start) ∧
      ∀ s ∈ statements, s.span.start < s.span.stop ∧
        (∀ span ∈ s.spans, span.LiesIn text ∧ span.Within s.span) ∧
        ∀ diagnostic ∈ check [s], ∀ span ∈ diagnostic.spans, span.Within s.span := by
  refine ⟨fun error he => ?_, fun diagnostic hd span hspan => ?_, fun statements h => ?_⟩
  · have hl := Listing.errors_placed error he
    exact ⟨hl, isShown_of_liesIn hl⟩
  · have hin := check_liesIn diagnostic hd span hspan
    exact ⟨hin, isShown_of_liesIn hin⟩
  · obtain ⟨hall, hpairs⟩ := Listing.statements_placed h
    refine ⟨hpairs, fun s hm => ?_⟩
    obtain ⟨hl, hc⟩ := hall s hm
    refine ⟨?_, fun span hs => ⟨hl span hs, hc.within span hs⟩, fun diagnostic hd span hs =>
      (Listing.check_placed hl hc diagnostic hd span hs).2⟩
    have := hc.mnemonic.start
    have := hc.mnemonic.stop
    have := hc.nonempty
    omega

/-- A quoted text with a wide character ends with its line instead of a quote. -/
theorem spans_lie_in_text_open_quote :
    ((parse "PUSHDATA \"é\nJMP x\x7b\x7d".toList).errors.map (·.span) = [⟨12, 13⟩] ∧
      IsShown "PUSHDATA \"é\nJMP x\x7b\x7d".toList ⟨12, 13⟩) ∧
    (parse "PUSHDATA \"é\nJMP x\x7b\x7d".toList).statements? =
      some [⟨⟨0, 12⟩, ⟨0, 8⟩, "PUSHDATA", [⟨⟨9, 12⟩, .unreadable⟩]⟩,
        ⟨⟨13, 20⟩, ⟨13, 16⟩, "JMP", [⟨⟨17, 20⟩, .bytes []⟩]⟩] ∧
    Span.LiesIn ⟨9, 12⟩ "PUSHDATA \"é\nJMP x\x7b\x7d".toList ∧ Span.Within ⟨9, 12⟩ ⟨0, 12⟩ := by
  have herrors : (parse "PUSHDATA \"é\nJMP x\x7b\x7d".toList).errors.map (·.span) = [⟨12, 13⟩] := by
    decide +kernel
  have hread : (parse "PUSHDATA \"é\nJMP x\x7b\x7d".toList).statements? =
      some [⟨⟨0, 12⟩, ⟨0, 8⟩, "PUSHDATA", [⟨⟨9, 12⟩, .unreadable⟩]⟩,
        ⟨⟨13, 20⟩, ⟨13, 16⟩, "JMP", [⟨⟨17, 20⟩, .bytes []⟩]⟩] := by
    decide +kernel
  obtain ⟨hfaults, -, hstatements⟩ := spans_lie_in_text "PUSHDATA \"é\nJMP x\x7b\x7d".toList
  obtain ⟨-, hall⟩ := hstatements _ hread
  obtain ⟨hlies, hwithin⟩ := (hall _ List.mem_cons_self).2.1 ⟨9, 12⟩
    (by simp [Listing.Statement.spans])
  have hmem : (⟨12, 13⟩ : Span) ∈
      (parse "PUSHDATA \"é\nJMP x\x7b\x7d".toList).errors.map (·.span) := by
    rw [herrors]
    exact List.mem_cons_self
  obtain ⟨error, he, hspan⟩ := List.mem_map.mp hmem
  exact ⟨⟨herrors, hspan ▸ (hfaults error he).2⟩, hread, hlies, hwithin⟩

end ScriptKit.CommandLine
