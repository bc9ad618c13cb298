import ScriptKit.Proofs.Listing.Faultless
import ScriptKit.Proofs.Listing.Lines.Grammar

namespace ScriptKit.Listing

open Listing.Parser Text

open State (Beside Aligned)

variable {line : Setting} {earlier : List SyntaxError} {s t s' : State} {a b c : List Char}

/-- What is passed over at the end of a line ends with it, or goes on behind it. -/
theorem Skips.append (h : Skips a b) (ho : Skips (b ++ line.behind) c) :
    Skips (a ++ line.behind) c := by
  induction h with
  | stop => exact ho
  | blank isBlank _ ih => exact .blank isBlank (ih ho)
  | @comment word a b inLine ends others ih =>
    have hends : LineEnds (a ++ line.behind) := by
      cases a with
      | nil => exact line.stops_behind (by decide)
      | cons c rest => exact ends
    rw [List.cons_append, List.cons_append, List.append_assoc]
    exact .comment inLine hends (ih ho)

/-- What is no trivia in a line is none in the text. -/
theorem Skips.inside (h : Skips b b) (hn : b ≠ []) :
    Skips (b ++ line.behind) (b ++ line.behind) := by
  obtain ⟨c, rest, rfl⟩ := List.exists_cons_of_ne_nil hn
  cases h with
  | stop noBlank noComment =>
    refine .stop noBlank fun others he => ?_
    obtain ⟨rfl, hrest⟩ := List.cons.inj he
    cases rest with
    | nil =>
      have hbehind : line.behind = '/' :: others := hrest
      exact absurd (line.ends '/' (by simp [hbehind])) (by decide)
    | cons d rest =>
      obtain ⟨rfl, -⟩ := List.cons.inj hrest
      exact noComment rest rfl
  | blank _ others => exact absurd others.suffix.length_le (by simp)
  | comment _ _ others =>
    have := others.suffix.length_le
    simp only [List.length_cons, List.length_append] at this
    omega

/-- The reader of a text that starts at the given place is past the trivia in front, and what stands
there is to blame unless the text has ended. -/
structure Ready (start : Nat) (text : List Char) (s : State) : Prop where
  skips : Skips text s.rest
  place : s.offset + Utf8.size s.rest = start + Utf8.size text
  blame : s.rest ≠ [] → ∃ known, s.blame = some known ∧ known.error.span.start = s.offset

/-- Trivia ends where a character is that is no blank, and this is to blame. -/
theorem blame_of_triviaPiece {blame : Option Blame} (h : triviaPiece s = .stuck blame)
    (hn : s.rest ≠ []) : ∃ known, blame = some known ∧ known.error.span.start = s.offset := by
  obtain ⟨first, -, h⟩ := orElse_eq_stuck.mp h
  rcases bind_eq_stuck.mp h with h | ⟨_, _, -, h⟩
  · obtain ⟨middle, hr, rfl⟩ := run1_eq_stuck.mp h
    obtain ⟨hw, rfl⟩ := run_eq_done.mp hr
    obtain ⟨c, rest, hrest⟩ := List.exists_cons_of_ne_nil hn
    dsimp only at hw ⊢
    rw [hrest] at hw ⊢
    have hc : isBlank c = false := by
      by_contra hc
      rw [List.takeWhile_cons_of_pos (by simpa using hc)] at hw
      cases hw
    rw [List.takeWhile_cons_of_neg (by simp [hc]), List.dropWhile_cons_of_neg (by simp [hc]),
      unexpectedNonBlank]
    exact ⟨_, rfl, rfl⟩
  · exact absurd h pure_ne_stuck

theorem ready_of_trivia {u : Unit} (h : trivia s = .done u s') :
    Ready s.offset s.rest s' ∧ s'.errors = s.errors := by
  have hskips := skips_of_trivia h
  refine ⟨⟨hskips.1, ?_, fun hn => ?_⟩, hskips.2⟩
  · obtain ⟨read, hr, ho⟩ := (honest_trivia.done s u s' h).1.before
    rw [hr, ho, Utf8.size_append, Nat.add_assoc]
  · obtain ⟨values, middle, hm, hu⟩ := bind_eq_done.mp h
    obtain ⟨-, rfl⟩ := pure_eq_done.mp hu
    obtain ⟨blame, hstuck⟩ := ((many_eq_done advances_triviaPiece
      (honest_comment.orElse honest_blanks)).mp hm).stuck
    exact blame_of_triviaPiece (s := { s' with blame }) hstuck hn

/-- Both readers are past some trivia. They are at the same place of the line; or the line has
ended, and the reader of the text is past the trivia behind it as well. -/
inductive Goes (line : Setting) (earlier : List SyntaxError) (s t : State) : Prop
  | inside (notEnd : s.rest ≠ []) (aligned : Aligned line earlier s t)
  | beyond (atEnd : s.rest = []) (ready : Ready (line.start + line.size) line.behind t)
    (errors : line.Reports earlier s.errors t.errors)

theorem Goes.errors (h : Goes line earlier s t) : line.Reports earlier s.errors t.errors := by
  cases h with
  | inside _ aligned => exact aligned.errors
  | beyond _ _ errors => exact errors

/-- With other faults known, the readers are as far. -/
theorem Goes.withErrors {before alone whole : List SyntaxError} (h : Goes line before s t)
    (he : line.Reports earlier alone whole) :
    Goes line earlier { s with errors := alone } { t with errors := whole } := by
  cases h with
  | inside notEnd aligned =>
    exact .inside notEnd ⟨⟨aligned.rest, aligned.offset, aligned.size, he⟩, aligned.blame⟩
  | beyond atEnd ready _ => exact .beyond atEnd ⟨ready.skips, ready.place, ready.blame⟩ he

theorem goes_of_ready {offset : Nat} (hl : offset + Utf8.size a = line.size)
    (hs : Ready offset a s) (ht : Ready (line.start + offset) (a ++ line.behind) t)
    (he : line.Reports earlier s.errors t.errors) : Goes line earlier s t := by
  have hplace := hs.place
  have hplace' := ht.place
  rw [Utf8.size_append] at hplace'
  by_cases hn : s.rest = []
  · have hskips := hs.skips
    rw [hn] at hskips
    obtain ⟨b, hb⟩ := exists_skips line.behind
    obtain rfl := ht.skips.unique (hskips.append hb)
    exact .beyond hn ⟨hb, by omega, ht.blame⟩ he
  · have hrest : t.rest = s.rest ++ line.behind :=
      ht.skips.unique (hs.skips.append (hs.skips.again.inside hn))
    rw [hrest, Utf8.size_append] at hplace'
    have hbeside : Beside line earlier s t := ⟨hrest, by omega, by omega, he⟩
    refine .inside hn ⟨hbeside, fun known hk => ?_⟩
    obtain ⟨other, ho, hstart⟩ := ht.blame (hbeside.rest_ne_nil hn)
    rw [Option.mem_def, ho] at hk
    obtain rfl := Option.some.inj hk
    exact hbeside.has hstart

theorem wholeStatement_agrees (h : Aligned line earlier s t) (hc : ',' ∉ t.rest) :
    AgreesFrom line (Goes line earlier) (·.moved line.start) wholeStatement s t := by
  rcases statement_agrees h hc with ⟨found, s₁, t₁, hs, ht, hb⟩ | ⟨first, known, hs, ht, hk⟩
  · obtain ⟨_, s', hs'⟩ := total_trivia.exists_done s₁
    obtain ⟨_, t', ht'⟩ := total_trivia.exists_done t₁
    obtain ⟨hready, he⟩ := ready_of_trivia hs'
    obtain ⟨hready', he'⟩ := ready_of_trivia ht'
    rw [hb.rest, hb.offset] at hready'
    have herrors : line.Reports earlier s'.errors t'.errors := by
      rw [he, he']
      exact hb.errors
    exact .inl ⟨found, s', t', bind_eq_done.mpr ⟨_, s₁, hs, bind_eq_done.mpr ⟨_, s', hs', rfl⟩⟩,
      bind_eq_done.mpr ⟨_, t₁, ht, bind_eq_done.mpr ⟨_, t', ht', rfl⟩⟩,
      goes_of_ready hb.size hready hready' herrors⟩
  · exact .inr ⟨first, known, bind_eq_stuck.mpr (.inl hs), bind_eq_stuck.mpr (.inl ht), hk⟩

/-- The search for a statement finds the same one in the line alone and in the text, or finds none
in both. -/
theorem search_agrees (first : Blame) {known : Blame} (hk : line.Has known.error.span)
    (rest : List Char) (offset : Nat) (hl : offset + Utf8.size rest = line.size)
    (hc : ',' ∉ rest ++ line.behind) {alone whole : List SyntaxError}
    (he : line.Reports earlier alone whole) :
    (∃ found s' t',
      skipUntil.search isLineEnd wholeStatement (some first) rest offset alone = .done found s' ∧
      skipUntil.search isLineEnd wholeStatement (some known) (rest ++ line.behind)
        (line.start + offset) whole = .done (found.moved line.start) t' ∧
      Goes line earlier s' t') ∨
    skipUntil.search isLineEnd wholeStatement (some first) rest offset alone = .stuck (some first) ∧
      skipUntil.search isLineEnd wholeStatement (some known) (rest ++ line.behind)
        (line.start + offset) whole = .stuck (some known) := by
  induction rest generalizing offset with
  | nil =>
    refine .inr ⟨rfl, ?_⟩
    rw [List.nil_append]
    cases hb : line.behind with
    | nil => rfl
    | cons c others =>
      obtain rfl : c = '\n' := line.ends c (by simp [hb])
      rfl
  | cons c rest ih =>
    rw [Utf8.size_cons] at hl
    rw [List.cons_append, List.mem_cons, not_or] at hc
    rw [List.cons_append]
    cases hbarrier : isLineEnd c with
    | true => exact .inr ⟨search_barrier hbarrier, search_barrier hbarrier⟩
    | false =>
      -- Each try starts without reports, so it is without a fault in both texts or in none.
      have halign : Aligned line [] ⟨rest, offset + c.utf8Size, none, []⟩
          ⟨rest ++ line.behind, line.start + offset + c.utf8Size, none, []⟩ :=
        ⟨⟨rfl, Nat.add_assoc .., by dsimp only; omega, line.reports_nil []⟩, by simp⟩
      have hnext := ih (offset + c.utf8Size) (by omega) hc.2
      rw [← Nat.add_assoc] at hnext
      rcases wholeStatement_agrees halign hc.2 with ⟨found, s', t', hs, ht, hgoes⟩ |
        ⟨_, _, hs, ht, -⟩
      · obtain ⟨news, hnews, hboth, -⟩ := hgoes.errors
        rw [List.append_nil] at hnews
        rw [← hnews] at hboth
        by_cases hquiet : s'.errors = []
        · exact .inl ⟨found, _, _, search_found hbarrier hs hquiet,
            search_found hbarrier ht (hboth.mpr hquiet), hgoes.withErrors (he.cons hk)⟩
        · rw [search_later hbarrier (by simp [hs, hquiet]),
            search_later hbarrier (by simp [ht, hboth, hquiet])]
          exact hnext
      · rw [search_later hbarrier (by simp [hs]), search_later hbarrier (by simp [ht])]
        exact hnext

/-- Behind the same characters, or none, both readers find the next statement on the line. -/
theorem nextStatement_agrees (h : Aligned line earlier s t) (hc : ',' ∉ t.rest) :
    AgreesFrom line (Goes line earlier) (·.moved line.start) nextStatement s t := by
  rcases wholeStatement_agrees h hc with ⟨found, s', t', hs, ht, hgoes⟩ | ⟨first, known, hs, ht, hk⟩
  · exact .inl ⟨found, s', t', skipUntil_eq_done.mpr (.inl hs), skipUntil_eq_done.mpr (.inl ht),
      hgoes⟩
  · rw [h.rest] at hc
    have hsearch := search_agrees first hk s.rest s.offset h.size hc h.errors
    rw [← h.rest, ← h.offset] at hsearch
    rcases hsearch with ⟨found, s', t', hs', ht', hgoes⟩ | ⟨hs', ht'⟩
    · exact .inl ⟨found, s', t', skipUntil_eq_done.mpr (.inr ⟨_, hs, hs'⟩),
        skipUntil_eq_done.mpr (.inr ⟨_, ht, ht'⟩), hgoes⟩
    · refine .inr ⟨first, known, ?_, ?_, hk⟩
      · rwa [nextStatement, skipUntil, hs]
      · rwa [nextStatement, skipUntil, ht]

/-- The reader of the text comes as far as the one of the line alone. Where that one is stuck in the
line, so is the other; where it ends with the line, the other reads on behind it. -/
theorem runs_agree {values : List Statement} (h : Goes line earlier s t) (hc : ',' ∉ t.rest)
    (hr : Runs nextStatement s values s') :
    (s'.rest ≠ [] ∧ ∃ t', Runs nextStatement t (values.map (·.moved line.start)) t' ∧
      Aligned line earlier s' t') ∨
    (s'.rest = [] ∧ ∃ middle, Ready (line.start + line.size) line.behind middle ∧
      line.Reports earlier s'.errors middle.errors ∧ ',' ∉ middle.rest ∧
      ∀ later t', Runs nextStatement middle later t' →
        Runs nextStatement t (values.map (·.moved line.start) ++ later) t') := by
  -- The rounds alone lead: in the text, each has its counterpart until the line has ended.
  induction hr generalizing t with
  | @stop s blame stuck =>
    cases h with
    | inside notEnd aligned =>
      rcases nextStatement_agrees aligned hc with ⟨_, _, _, hs, -⟩ | ⟨first, known, hs, ht, hk⟩
      · cases stuck.symm.trans hs
      · exact .inl ⟨notEnd, _, .stop ht, aligned.withBlame blame hk⟩
    | beyond atEnd ready errors =>
      exact .inr ⟨atEnd, t, ready, errors, hc, fun later t' hlater => hlater⟩
  | @more s middle s' value values done others ih =>
    cases h with
    | inside notEnd aligned =>
      rcases nextStatement_agrees aligned hc with ⟨_, _, next, hs, ht, hgoes⟩ | ⟨_, _, hs, -⟩
      · cases done.symm.trans hs
        have hbefore := (honest_nextStatement.done t _ next ht).1.before
        have hcn : ',' ∉ next.rest := fun hm => hc (hbefore.suffix.subset hm)
        rcases ih hgoes hcn with ⟨hn, t', hr, ha⟩ | ⟨hn, last, hready, he, hcl, hr⟩
        · exact .inl ⟨hn, t', .more ht hr, ha⟩
        · exact .inr ⟨hn, last, hready, he, hcl,
            fun later t' hlater => .more ht (hr later t' hlater)⟩
      · cases done.symm.trans hs
    | beyond atEnd _ _ =>
      obtain ⟨_, hs⟩ := refuses_nextStatement_end s.offset s.blame s.errors
      rw [← atEnd] at hs
      cases done.symm.trans hs

end ScriptKit.Listing
