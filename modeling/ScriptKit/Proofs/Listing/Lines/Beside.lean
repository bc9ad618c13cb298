import ScriptKit.Proofs.Except
import ScriptKit.Proofs.Listing.Repetition

namespace ScriptKit.Listing

variable {α β : Type}

def Span.moved (distance : Nat) (span : Span) : Span :=
  ⟨distance + span.start, distance + span.stop⟩

theorem Span.moved_hull (distance : Nat) (a b : Span) :
    (a.hull b).moved distance = (a.moved distance).hull (b.moved distance) := by
  simp only [moved, hull, Nat.add_min_add_left, Nat.add_max_add_left]

/-- A line of a text: where it starts, how many bytes it has, and what stands behind it. -/
structure Setting where
  start : Nat
  size : Nat
  behind : List Char
  ends : ∀ c ∈ behind.head?, c = '\n'

namespace Setting

variable {line : Setting} {earlier alone whole : List SyntaxError} {error known : SyntaxError}

/-- The span starts in the line, or where it ends. -/
def Has (line : Setting) (span : Span) : Prop :=
  line.start ≤ span.start ∧ span.start ≤ line.start + line.size

/-- In the text there are faults of the line if there are some of it alone, and they lie in it. -/
def Reports (line : Setting) (earlier alone whole : List SyntaxError) : Prop :=
  ∃ news, whole = news ++ earlier ∧ (news = [] ↔ alone = []) ∧ ∀ error ∈ news, line.Has error.span

theorem reports_nil (line : Setting) (earlier : List SyntaxError) :
    line.Reports earlier [] earlier :=
  ⟨[], rfl, Iff.rfl, by simp⟩

theorem Reports.cons (h : line.Reports earlier alone whole) (hk : line.Has known.span) :
    line.Reports earlier (error :: alone) (known :: whole) := by
  obtain ⟨news, rfl, -, hnews⟩ := h
  exact ⟨known :: news, rfl, by simp, List.forall_mem_cons.mpr ⟨hk, hnews⟩⟩

/-- A class without the newline stops where the line does. -/
theorem stops_behind {test : Char → Bool} (ht : test '\n' = false) :
    Parser.Stops test line.behind := by
  intro c hc
  rwa [line.ends c hc]

end Setting

namespace State

variable {line : Setting} {earlier : List SyntaxError} {s t : State} {first known : Blame}

/-- The first state reads the line alone, the second one in the text, at the same place of it. -/
structure Beside (line : Setting) (earlier : List SyntaxError) (s t : State) : Prop where
  rest : t.rest = s.rest ++ line.behind
  offset : t.offset = line.start + s.offset
  size : s.offset + Utf8.size s.rest = line.size
  errors : line.Reports earlier s.errors t.errors

/-- What the reader of the text would blame lies in the line, too. -/
structure Aligned (line : Setting) (earlier : List SyntaxError) (s t : State) : Prop extends
    Beside line earlier s t where
  blame : ∀ known ∈ t.blame, line.Has known.error.span

theorem Beside.has (h : Beside line earlier s t) {span : Span} (hs : span.start = t.offset) :
    line.Has span := by
  have ho := h.offset
  have hl := h.size
  rw [Setting.Has]
  omega

theorem Beside.rest_ne_nil (h : Beside line earlier s t) (hn : s.rest ≠ []) : t.rest ≠ [] := by
  rw [h.rest]
  exact List.append_ne_nil_of_left_ne_nil hn _

theorem Beside.withBlame (h : Beside line earlier s t) (other : Option Blame)
    (hk : line.Has known.error.span) :
    Aligned line earlier { s with blame := other } { t with blame := some known } :=
  ⟨⟨h.rest, h.offset, h.size, h.errors⟩, by simpa using hk⟩

theorem Beside.forget (h : Beside line earlier s t) :
    Aligned line earlier { s with blame := none } { t with blame := none } :=
  ⟨⟨h.rest, h.offset, h.size, h.errors⟩, by simp⟩

theorem Beside.report (h : Beside line earlier s t) (hk : line.Has known.error.span) :
    Beside line earlier (s.report (some first)) (t.report (some known)) :=
  ⟨h.rest, h.offset, h.size, h.errors.cons hk⟩

theorem Aligned.report (h : Aligned line earlier s t) (hk : line.Has known.error.span) :
    Aligned line earlier (s.report (some first)) (t.report (some known)) :=
  ⟨h.toBeside.report hk, h.blame⟩

end State

namespace Parser

open State (Beside Aligned)

variable {line : Setting} {earlier : List SyntaxError} {s t s' t' : State} {p q : Parser α}
  {Post : List SyntaxError → State → State → Prop} {move : α → α} {move' : β → β}

/-- What there is to blame was known before, or starts here. -/
def Points (s : State) (blame : Option Blame) : Prop :=
  ∃ known, blame = some known ∧ (s.blame = some known ∨ known.error.span.start = s.offset)

theorem Points.trans {first second : Option Blame} (hf : Points s first)
    (hs : Points { s with blame := first } second) : Points s second := by
  obtain ⟨known, rfl, hk⟩ := hs
  rcases hk with rfl | hk
  · exact hf
  · exact ⟨known, rfl, .inr hk⟩

theorem Points.has {blame : Option Blame} (hp : Points t blame)
    (h : Aligned line earlier s t) : ∃ known, blame = some known ∧ line.Has known.error.span := by
  obtain ⟨known, rfl, hk⟩ := hp
  rcases hk with hk | hk
  · exact ⟨known, rfl, h.blame known hk⟩
  · exact ⟨known, rfl, h.has hk⟩

/-- A note on what does not fit changes only what there is to blame. -/
def NotesHere (miss : State → State) : Prop :=
  ∀ s, ∃ blame, miss s = { s with blame } ∧ Points s blame

theorem points_mismatch (s : State) (place : Nat) {error : SyntaxError}
    (h : error.span.start = s.offset) :
    ∃ blame, s.mismatch place error = { s with blame } ∧ Points s blame := by
  rw [State.mismatch]
  split
  · next known hk =>
    split
    · exact ⟨_, rfl, _, rfl, .inr h⟩
    · exact ⟨s.blame, rfl, known, hk, .inl hk⟩
  · exact ⟨_, rfl, _, rfl, .inr h⟩

theorem start_nextSpan (s : State) : s.nextSpan.start = s.offset := by
  rw [State.nextSpan]
  split <;> rfl

theorem notesHere_here : NotesHere unexpectedHere := fun s =>
  points_mismatch s _ (start_nextSpan s)

theorem notesHere_kind : NotesHere unexpectedKind := fun s =>
  points_mismatch s _ (start_nextSpan s)

theorem notesHere_nonBlank : NotesHere unexpectedNonBlank := by
  intro s
  rw [unexpectedNonBlank]
  split
  · exact notesHere_here s
  · exact ⟨_, rfl, _, rfl, .inr (start_nextSpan s)⟩

theorem NotesHere.aligned {miss : State → State} (hm : NotesHere miss)
    (h : Aligned line earlier s t) :
    ∃ first known, miss s = { s with blame := some first } ∧
      miss t = { t with blame := some known } ∧ line.Has known.error.span := by
  obtain ⟨_, hs, first, rfl, -⟩ := hm s
  obtain ⟨blame, ht, hp⟩ := hm t
  obtain ⟨known, rfl, hk⟩ := hp.has h
  exact ⟨first, known, hs, ht, hk⟩

/-- Both readers are stuck; in the text the line is to blame. -/
def BothStuck (line : Setting) (p : Parser α) (s t : State) : Prop :=
  ∃ first known, p s = .stuck (some first) ∧ p t = .stuck (some known) ∧
    line.Has known.error.span

/-- Both readers read, apart from places the same, and are related afterwards, or both are
stuck. -/
def AgreesFrom (line : Setting) (Post : State → State → Prop) (move : α → α) (p : Parser α)
    (s t : State) : Prop :=
  (∃ value s' t', p s = .done value s' ∧ p t = .done (move value) t' ∧ Post s' t') ∨
    BothStuck line p s t

/-- From one place of the line on, the readers agree. -/
def Agrees (line : Setting) (Post : List SyntaxError → State → State → Prop) (move : α → α)
    (p : Parser α) : Prop :=
  ∀ earlier s t, Aligned line earlier s t → AgreesFrom line (Post earlier) move p s t

/-- The parser stays in the line. -/
abbrev Local (line : Setting) (p : Parser α) : Prop := Agrees line (Aligned line) id p

theorem Agrees.mono {Post' : List SyntaxError → State → State → Prop}
    (h : Agrees line Post move p) (hpost : ∀ earlier s t, Post earlier s t → Post' earlier s t) :
    Agrees line Post' move p := by
  intro earlier s t ha
  rcases h earlier s t ha with ⟨value, s', t', hs, ht, hp⟩ | hstuck
  · exact .inl ⟨value, s', t', hs, ht, hpost _ _ _ hp⟩
  · exact .inr hstuck

theorem Agrees.pure (value : α) : Local line (pure value : Parser α) :=
  fun _ s t h => .inl ⟨value, s, t, rfl, rfl, h⟩

theorem Agrees.bind {f : α → Parser β} (hp : Local line p)
    (hf : ∀ value, Agrees line Post move' (f value)) : Agrees line Post move' (p >>= f) := by
  intro earlier s t h
  rcases hp earlier s t h with ⟨value, s', t', hs, ht, ha⟩ | ⟨first, known, hs, ht, hk⟩
  · rcases hf value earlier s' t' ha with ⟨result, s'', t'', hs', ht', hp⟩ |
      ⟨first, known, hs', ht', hk⟩
    · exact .inl ⟨result, s'', t'', bind_eq_done.mpr ⟨value, s', hs, hs'⟩,
        bind_eq_done.mpr ⟨value, t', ht, ht'⟩, hp⟩
    · exact .inr ⟨first, known, bind_eq_stuck.mpr (.inr ⟨value, s', hs, hs'⟩),
        bind_eq_stuck.mpr (.inr ⟨value, t', ht, ht'⟩), hk⟩
  · exact .inr ⟨first, known, bind_eq_stuck.mpr (.inl hs), bind_eq_stuck.mpr (.inl ht), hk⟩

theorem Agrees.map {f : α → β} (h : Agrees line Post move p)
    (hf : ∀ value, f (move value) = move' (f value)) :
    Agrees line Post move' (p >>= fun value => Pure.pure (f value)) := by
  intro earlier s t ha
  rcases h earlier s t ha with ⟨value, s', t', hs, ht, hp⟩ | ⟨first, known, hs, ht, hk⟩
  · exact .inl ⟨f value, s', t', bind_eq_done.mpr ⟨value, s', hs, rfl⟩,
      bind_eq_done.mpr ⟨move value, t', ht, by rw [hf]; rfl⟩, hp⟩
  · exact .inr ⟨first, known, bind_eq_stuck.mpr (.inl hs), bind_eq_stuck.mpr (.inl ht), hk⟩

theorem Agrees.orElse (hp : Agrees line Post move p) (hq : Agrees line Post move q) :
    Agrees line Post move (orElse p q) := by
  intro earlier s t h
  rcases hp earlier s t h with ⟨value, s', t', hs, ht, ha⟩ | ⟨first, known, hs, ht, hk⟩
  · exact .inl ⟨value, s', t', orElse_eq_done.mpr (.inl hs), orElse_eq_done.mpr (.inl ht), ha⟩
  · rcases hq earlier _ _ (h.withBlame (some first) hk) with ⟨value, s', t', hs', ht', ha⟩ |
      ⟨first', known', hs', ht', hk'⟩
    · exact .inl ⟨value, s', t', orElse_eq_done.mpr (.inr ⟨_, hs, hs'⟩),
        orElse_eq_done.mpr (.inr ⟨_, ht, ht'⟩), ha⟩
    · exact .inr ⟨first', known', orElse_eq_stuck.mpr ⟨_, hs, hs'⟩,
        orElse_eq_stuck.mpr ⟨_, ht, ht'⟩, hk'⟩

/-- Where something is read in the stead of something else, both readers report it. -/
theorem Agrees.insteadRead (hp : Agrees line Post move p)
    (hq : Agrees line (Aligned line) move q)
    (hpost : ∀ earlier s t, Aligned line earlier s t → Post earlier s t) :
    Agrees line Post move (insteadRead p q) := by
  intro earlier s t h
  rcases hp earlier s t h with ⟨value, s', t', hs, ht, ha⟩ | ⟨first, known, hs, ht, hk⟩
  · exact .inl ⟨value, s', t', insteadRead_eq_done.mpr (.inl hs),
      insteadRead_eq_done.mpr (.inl ht), ha⟩
  · rcases hq earlier _ _ h.forget with ⟨value, s', t', hs', ht', ha⟩ | ⟨_, _, hs', ht', -⟩
    · exact .inl ⟨value, _, _, insteadRead_eq_done.mpr (.inr ⟨_, s', hs, hs', rfl⟩),
        insteadRead_eq_done.mpr (.inr ⟨_, t', ht, ht', rfl⟩), hpost _ _ _ (ha.report hk)⟩
    · exact .inr ⟨first, known, insteadRead_eq_stuck.mpr ⟨hs, _, hs'⟩,
        insteadRead_eq_stuck.mpr ⟨ht, _, ht'⟩, hk⟩

theorem Agrees.ahead (h : Local line p) : Local line (ahead p) := by
  intro earlier s t ha
  rcases h earlier s t ha with ⟨value, s', t', hs, ht, ha'⟩ | ⟨first, known, hs, ht, hk⟩
  · exact .inl ⟨(), _, _, ahead_eq_done.mpr ⟨value, s', hs, rfl⟩,
      ahead_eq_done.mpr ⟨value, t', ht, rfl⟩, ⟨ha.rest, ha.offset, ha.size, ha.errors⟩, ha'.blame⟩
  · exact .inr ⟨first, known, ahead_eq_stuck.mpr hs, ahead_eq_stuck.mpr ht, hk⟩

section Judging

variable {f : Span → α → Except SyntaxError β}
  (hsame : ∀ span other value, (f span value).toOption = (f other value).toOption)
  (herror : ∀ span value error, f span value = .error error → error.span = span)

include hsame herror

/-- A refusal starts where the refused value does. -/
theorem judge_of_done {value : α} (ha : Aligned line earlier s t) (hs : p s = .done value s')
    (ht : p t = .done value t') (ha' : Aligned line earlier s' t') :
    AgreesFrom line (Aligned line earlier) id (judge p f) s t := by
  have heq := hsame ⟨s.offset, s'.offset⟩ ⟨t.offset, t'.offset⟩ value
  cases hv : f ⟨s.offset, s'.offset⟩ value with
  | ok result =>
    rw [hv] at heq
    have hv' := toOption_eq_some.mp heq.symm
    exact .inl ⟨result, s', t', judge_eq_done.mpr ⟨value, hs, hv⟩,
      judge_eq_done.mpr ⟨value, ht, hv'⟩, ha'⟩
  | error error =>
    cases hv' : f ⟨t.offset, t'.offset⟩ value with
    | ok result =>
      rw [hv, hv'] at heq
      cases heq
    | error error' =>
      refine .inr ⟨_, _, judge_eq_stuck.mpr (.inr ⟨value, s', error, hs, hv, rfl⟩),
        judge_eq_stuck.mpr (.inr ⟨value, t', error', ht, hv', rfl⟩), ha.has ?_⟩
      rw [herror _ value error' hv']

theorem Agrees.judge (h : Local line p) : Local line (judge p f) := by
  intro earlier s t ha
  rcases h earlier s t ha with ⟨value, s', t', hs, ht, ha'⟩ | ⟨first, known, hs, ht, hk⟩
  · exact judge_of_done hsame herror ha hs ht ha'
  · exact .inr ⟨first, known, judge_eq_stuck.mpr (.inl hs), judge_eq_stuck.mpr (.inl ht), hk⟩

end Judging

theorem Agrees.filter {test : α → Bool} (h : Local line p) : Local line (filter p test) := by
  intro earlier s t ha
  rcases h earlier s t ha with ⟨value, s', t', hs, ht, ha'⟩ | ⟨first, known, hs, ht, hk⟩
  · cases hv : test value with
    | true =>
      exact .inl ⟨value, s', t', filter_eq_done.mpr ⟨hs, hv⟩, filter_eq_done.mpr ⟨ht, hv⟩, ha'⟩
    | false =>
      have hblame : ∀ s s' : State, ∃ known,
          (s'.mismatch s'.offset (.unexpected ⟨s.offset, s'.offset⟩ none)).blame = some known ∧
            (s'.blame = some known ∨ known.error.span.start = s.offset) := by
        intro s s'
        rw [State.mismatch]
        split
        · next known hk =>
          split
          · exact ⟨_, rfl, .inr rfl⟩
          · exact ⟨known, hk, .inl hk⟩
        · exact ⟨_, rfl, .inr rfl⟩
      obtain ⟨first, hfirst, -⟩ := hblame s s'
      obtain ⟨known, hknown, hk⟩ := hblame t t'
      refine .inr ⟨first, known, filter_eq_stuck.mpr (.inr ⟨value, s', hs, hv, hfirst⟩),
        filter_eq_stuck.mpr (.inr ⟨value, t', ht, hv, hknown⟩), ?_⟩
      rcases hk with hk | hk
      · exact ha'.blame known hk
      · exact ha.has hk
  · exact .inr ⟨first, known, filter_eq_stuck.mpr (.inl hs), filter_eq_stuck.mpr (.inl ht), hk⟩

theorem Agrees.spanned (h : Agrees line Post move p)
    (hpost : ∀ earlier s t, Post earlier s t → Beside line earlier s t) :
    Agrees line Post (fun found => (move found.1, found.2.moved line.start)) (spanned p) := by
  intro earlier s t ha
  rcases h earlier s t ha with ⟨value, s', t', hs, ht, hp⟩ | ⟨first, known, hs, ht, hk⟩
  · refine .inl ⟨(value, ⟨s.offset, s'.offset⟩), s', t', spanned_eq_done.mpr ⟨hs, rfl⟩,
      spanned_eq_done.mpr ⟨ht, ?_⟩, hp⟩
    rw [Span.moved, ha.offset, (hpost _ _ _ hp).offset]
  · exact .inr ⟨first, known, spanned_eq_stuck.mpr hs, spanned_eq_stuck.mpr ht, hk⟩

section Characters

variable {miss : State → State} {test : Char → Bool}

/-- Both readers go over the same characters. -/
theorem aligned_skip {word rest : List Char} (h : Aligned line earlier s t)
    (hr : s.rest = word ++ rest) :
    Aligned line earlier { s with rest, offset := s.offset + Utf8.size word }
      { t with rest := rest ++ line.behind, offset := t.offset + Utf8.size word } := by
  have hl := h.size
  rw [hr, Utf8.size_append] at hl
  refine ⟨⟨rfl, ?_, ?_, h.errors⟩, h.blame⟩
  · dsimp only
    rw [h.offset, Nat.add_assoc]
  · dsimp only
    omega

theorem local_char (hm : NotesHere miss) (ht : test '\n' = false) :
    Local line (char miss test) := by
  intro earlier s t h
  by_cases hs : Stops test s.rest
  · have hstops : Stops test t.rest := by
      rw [h.rest]
      cases hr : s.rest with
      | nil => exact line.stops_behind ht
      | cons c rest =>
        rw [hr] at hs
        exact hs
    obtain ⟨first, known, hs', ht', hk⟩ := hm.aligned h
    exact .inr ⟨first, known, char_eq_stuck.mpr ⟨hs, by rw [hs']⟩,
      char_eq_stuck.mpr ⟨hstops, by rw [ht']⟩, hk⟩
  · cases hr : s.rest with
    | nil =>
      rw [hr] at hs
      exact absurd (stops_nil test) hs
    | cons c rest =>
      rw [hr, stops_cons, Bool.not_eq_false] at hs
      have ha := aligned_skip h (show s.rest = [c] ++ rest from hr)
      rw [Utf8.size_cons, Utf8.size_nil, Nat.add_zero] at ha
      have hr' : t.rest = c :: (rest ++ line.behind) := by rw [h.rest, hr, List.cons_append]
      exact .inl ⟨c, _, _, char_eq_done.mpr ⟨hs, rest, hr, rfl⟩,
        char_eq_done.mpr ⟨hs, _, hr', rfl⟩, ha⟩

/-- Behind a run there is always something to blame. -/
theorem run_aligned (hm : NotesHere miss) (ht : test '\n' = false) (h : Aligned line earlier s t) :
    ∃ word s' t' first known, run miss test s = .done word s' ∧ run miss test t = .done word t' ∧
      Aligned line earlier s' t' ∧ s'.blame = some first ∧ t'.blame = some known := by
  have hstops := line.stops_behind ht
  have hr := List.takeWhile_append_dropWhile (p := test) (l := s.rest)
  have hskip := aligned_skip h hr.symm
  obtain ⟨first, known, hs', ht', hk⟩ := hm.aligned hskip
  refine ⟨_, _, _, first, known, run_eq_done.mpr ⟨rfl, hs'.symm⟩,
    run_eq_done.mpr ⟨?_, ?_⟩, hskip.withBlame (some first) hk, rfl, rfl⟩
  · rw [h.rest, takeWhile_append_of_stops _ hstops]
  · rw [h.rest, takeWhile_append_of_stops _ hstops, dropWhile_append_of_stops _ hstops, ht']

theorem local_run (hm : NotesHere miss) (ht : test '\n' = false) :
    Local line (run miss test) := by
  intro earlier s t h
  obtain ⟨word, s', t', -, -, hs, ht', ha, -, -⟩ := run_aligned hm ht h
  exact .inl ⟨word, s', t', hs, ht', ha⟩

theorem local_run1 (hm : NotesHere miss) (ht : test '\n' = false) :
    Local line (run1 miss test) := by
  intro earlier s t h
  obtain ⟨word, s', t', first, known, hs, ht', ha, hfirst, hknown⟩ := run_aligned hm ht h
  by_cases hw : word = []
  · subst hw
    exact .inr ⟨first, known, run1_eq_stuck.mpr ⟨s', hs, hfirst⟩,
      run1_eq_stuck.mpr ⟨t', ht', hknown⟩, ha.blame known hknown⟩
  · exact .inl ⟨word, s', t', run1_eq_done.mpr ⟨hw, hs⟩, run1_eq_done.mpr ⟨hw, ht'⟩, ha⟩

/-- A run that is empty is blamed on the place where it should be. -/
theorem points_run1 (hm : NotesHere miss) {blame : Option Blame}
    (h : run1 miss test s = .stuck blame) : Points s blame := by
  obtain ⟨middle, hr, rfl⟩ := run1_eq_stuck.mp h
  obtain ⟨hw, rfl⟩ := run_eq_done.mp hr
  have hd : s.rest.dropWhile test = s.rest := by
    have hall := List.takeWhile_append_dropWhile (p := test) (l := s.rest)
    rwa [← hw, List.nil_append] at hall
  rw [hd, ← hw, Utf8.size_nil, Nat.add_zero]
  obtain ⟨blame, he, hp⟩ := hm s
  rwa [he]

theorem local_symbol {word : List Char} (hw : '\n' ∉ word) : Local line (symbol word) := by
  induction word with
  | nil => exact .pure ()
  | cons c rest ih =>
    obtain ⟨hc, hrest⟩ := not_or.mp (List.mem_cons.not.mp hw)
    exact (local_char notesHere_here (by simpa using hc)).bind fun _ => ih hrest

/-- Any character may stand there but the end of the line, which is refused. -/
theorem local_judge_char {f : Span → Char → Except SyntaxError α}
    (hsame : ∀ span other c, (f span c).toOption = (f other c).toOption)
    (herror : ∀ span c error, f span c = .error error → error.span = span)
    (hline : ∀ span, (f span '\n').toOption = none) :
    Local line (judge (char unexpectedHere fun _ => true) f) := by
  intro earlier s t h
  cases hr : s.rest with
  | cons c rest =>
    have hr' : t.rest = c :: (rest ++ line.behind) := by rw [h.rest, hr, List.cons_append]
    have ha := aligned_skip h (show s.rest = [c] ++ rest from hr)
    rw [Utf8.size_cons, Utf8.size_nil, Nat.add_zero] at ha
    exact judge_of_done hsame herror h (char_eq_done.mpr ⟨rfl, rest, hr, rfl⟩)
      (char_eq_done.mpr ⟨rfl, _, hr', rfl⟩) ha
  | nil =>
    have hr' : t.rest = line.behind := by rw [h.rest, hr, List.nil_append]
    obtain ⟨first, known, hs, ht, hk⟩ := notesHere_here.aligned h
    have hstuck : judge (char unexpectedHere fun _ => true) f s = .stuck (some first) :=
      judge_eq_stuck.mpr (.inl (char_eq_stuck.mpr ⟨by simp [hr], by rw [hs]⟩))
    cases hb : line.behind with
    | nil =>
      exact .inr ⟨first, known, hstuck,
        judge_eq_stuck.mpr (.inl (char_eq_stuck.mpr ⟨by simp [hr', hb], by rw [ht]⟩)), hk⟩
    | cons c rest =>
      obtain rfl : c = '\n' := line.ends c (by simp [hb])
      rw [hb] at hr'
      cases hv : f ⟨t.offset, t.offset + '\n'.utf8Size⟩ '\n' with
      | ok result =>
        have hnone := hline ⟨t.offset, t.offset + '\n'.utf8Size⟩
        rw [hv] at hnone
        cases hnone
      | error error =>
        refine .inr ⟨first, ⟨t.offset, error⟩, hstuck, judge_eq_stuck.mpr (.inr
          ⟨'\n', _, error, char_eq_done.mpr ⟨rfl, rest, hr', rfl⟩, hv, rfl⟩), h.has ?_⟩
        rw [herror _ _ error hv]

end Characters

theorem Agrees.many {Q : α → Prop} (h : Local line p) (ha : Advances p) (hp : Honest p Q) :
    Local line (many p) := by
  intro earlier s t hst
  obtain ⟨values, s', hr⟩ := exists_runs ha hp s
  have hrun : ∃ t', Runs p t values t' ∧ Aligned line earlier s' t' := by
    induction hr generalizing t with
    | @stop s blame stuck =>
      rcases h earlier s t hst with ⟨_, _, _, hs, -⟩ | ⟨first, known, hs, ht, hk⟩
      · cases stuck.symm.trans hs
      · exact ⟨_, .stop ht, hst.withBlame blame hk⟩
    | more done others ih =>
      rcases h earlier _ t hst with ⟨_, _, middle, hs, ht, hm⟩ | ⟨_, _, hs, -⟩
      · cases done.symm.trans hs
        obtain ⟨t', hr', ha'⟩ := ih middle hm
        exact ⟨t', .more ht hr', ha'⟩
      · cases done.symm.trans hs
  obtain ⟨t', hr', ha'⟩ := hrun
  exact .inl ⟨values, s', t', (many_eq_done ha hp).mpr hr, (many_eq_done ha hp).mpr hr', ha'⟩

end Parser

end ScriptKit.Listing
