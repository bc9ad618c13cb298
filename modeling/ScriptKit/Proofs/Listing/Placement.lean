import ScriptKit.Listing.Assemble
import ScriptKit.Proofs.Listing.Repetition

namespace ScriptKit.Listing

variable {α β : Type}

/-- The bytes of the first span are among those of the second. -/
structure Span.Within (inner outer : Span) : Prop where
  start : outer.start ≤ inner.start
  stop : inner.stop ≤ outer.stop

theorem Span.Within.refl (span : Span) : span.Within span := ⟨Nat.le_refl _, Nat.le_refl _⟩

theorem Span.Within.hull {a b outer : Span} (ha : a.Within outer) (hb : b.Within outer) :
    (a.hull b).Within outer :=
  ⟨Nat.le_min.mpr ⟨ha.start, hb.start⟩, Nat.max_le.mpr ⟨ha.stop, hb.stop⟩⟩

theorem Span.Within.of_hull {a b outer : Span} (h : (a.hull b).Within outer) :
    a.Within outer ∧ b.Within outer := by
  obtain ⟨hstart, hstop⟩ := h
  exact ⟨⟨(Nat.le_min.mp hstart).1, (Nat.max_le.mp hstop).1⟩,
    (Nat.le_min.mp hstart).2, (Nat.max_le.mp hstop).2⟩

/-- The span that grows over arguments has a property that the spans have and that hulls keep. -/
theorem foldl_hull {P : Span → Prop} (hull : ∀ a b, P a → P b → P (a.hull b)) {first : Span}
    {args : List Argument} (hf : P first) (ha : ∀ arg ∈ args, P arg.span) :
    P (args.foldl (fun span arg => span.hull arg.span) first) := by
  induction args generalizing first with
  | nil => exact hf
  | cons arg rest ih =>
    obtain ⟨harg, hrest⟩ := List.forall_mem_cons.mp ha
    exact ih (hull first arg.span hf harg) hrest

/-- A span covers the spans that it has grown over. -/
theorem within_foldl_hull (first : Span) (args : List Argument) :
    first.Within (args.foldl (fun span arg => span.hull arg.span) first) ∧
      ∀ arg ∈ args, arg.span.Within (args.foldl (fun span arg => span.hull arg.span) first) := by
  induction args generalizing first with
  | nil => exact ⟨.refl first, by simp⟩
  | cons arg rest ih =>
    obtain ⟨hhull, hrest⟩ := ih (first.hull arg.span)
    obtain ⟨hf, ha⟩ := hhull.of_hull
    exact ⟨hf, List.forall_mem_cons.mpr ⟨ha, hrest⟩⟩

/-- The span covers a part of what was read from the first state to the second. -/
structure State.Covers (s s' : State) (span : Span) : Prop where
  start : s.offset ≤ span.start
  stop : span.stop ≤ s'.offset
  liesIn : ∀ text, (ofText text).Before s → span.LiesIn text

namespace State

variable {s middle s' : State} {a b : Span}

theorem Before.covers (h : s.Before s') : s.Covers s' ⟨s.offset, s'.offset⟩ :=
  ⟨Nat.le_refl _, Nat.le_refl _, fun _ => h.liesIn⟩

theorem Covers.behind (h : middle.Covers s' a) (hb : s.Before middle) : s.Covers s' a :=
  ⟨Nat.le_trans hb.offset_le h.start, h.stop, fun text hs => h.liesIn text (hs.trans hb)⟩

theorem Covers.ahead (h : s.Covers middle a) (hb : middle.Before s') : s.Covers s' a :=
  ⟨h.start, Nat.le_trans h.stop hb.offset_le, h.liesIn⟩

theorem Covers.hull (ha : s.Covers s' a) (hb : s.Covers s' b) : s.Covers s' (a.hull b) :=
  ⟨Nat.le_min.mpr ⟨ha.start, hb.start⟩, Nat.max_le.mpr ⟨ha.stop, hb.stop⟩,
    fun text hs => (ha.liesIn text hs).hull (hb.liesIn text hs)⟩

end State

namespace Parser

variable {p : Parser α} {q : Parser β} {spans : α → List Span} {V Q : α → Prop} {R : β → Prop}
  {s s' : State}

/-- The spans of what the parser yields cover what it reads, and the value has a property, whatever
was reported. -/
def Places (p : Parser α) (spans : α → List Span) (V : α → Prop) : Prop :=
  ∀ s value s', p s = .done value s' → (∀ span ∈ spans value, s.Covers s' span) ∧ V value

theorem Places.behind (h : Places p spans V) (hq : Honest q R) :
    Places (q >>= fun _ => p) spans V := by
  intro s value s' hd
  obtain ⟨_, middle, hm, hv⟩ := bind_eq_done.mp hd
  obtain ⟨hspans, hV⟩ := h middle value s' hv
  exact ⟨fun span hs => (hspans span hs).behind (hq.done s _ middle hm).1.before, hV⟩

theorem Places.ahead (h : Places p spans V) (hq : Honest q R) :
    Places (p >>= fun value => q >>= fun _ => pure value) spans V := by
  intro s value s' hd
  obtain ⟨found, middle, hv, hd⟩ := bind_eq_done.mp hd
  obtain ⟨_, last, hq', hd⟩ := bind_eq_done.mp hd
  obtain ⟨rfl, rfl⟩ := pure_eq_done.mp hd
  obtain ⟨hspans, hV⟩ := h s value middle hv
  exact ⟨fun span hs => (hspans span hs).ahead (hq.done middle _ s' hq').1.before, hV⟩

theorem Places.skipUntil {barrier : Char → Bool} (h : Places p spans V) :
    Places (skipUntil barrier p) spans V := by
  intro s value s' hd
  rcases skipUntil_eq_done.mp hd with hd | ⟨blame, -, hd⟩
  · exact h s value s' hd
  · obtain ⟨skipped, rest, found, hr, hv, -, rfl⟩ := of_search_eq_done hd
    obtain ⟨hspans, hV⟩ := h _ value found hv
    have hskip : s.Before ⟨rest, s.offset + Utf8.size skipped, none, []⟩ := ⟨skipped, hr, rfl⟩
    have hreport : found.Before (State.report { found with errors := s.errors } blame) :=
      ⟨[], by simp, by simp⟩
    exact ⟨fun span hs => ((hspans span hs).behind hskip).ahead hreport, hV⟩

/-- The spans of values that follow each other do so as well. -/
theorem Places.rounds (h : Places p spans V) (hp : Honest p Q) {values : List α}
    (hr : Rounds p s values s') :
    (∀ value ∈ values, (∀ span ∈ spans value, s.Covers s' span) ∧ V value) ∧
      values.Pairwise fun first second =>
        ∀ a ∈ spans first, ∀ b ∈ spans second, a.stop ≤ b.start := by
  induction hr with
  | stop stuck => exact ⟨by simp, .nil⟩
  | @last s s' value done => exact ⟨by simpa using h s value s' done, List.pairwise_singleton ..⟩
  | @more s middle s' value values done others ih =>
    obtain ⟨hvalues, hpairs⟩ := ih
    obtain ⟨hspans, hV⟩ := h s value middle done
    have hfirst := (hp.done s value middle done).1.before
    have hothers := (hp.rounds others).1.before
    refine ⟨List.forall_mem_cons.mpr ⟨⟨?_, hV⟩, ?_⟩, .cons ?_ hpairs⟩
    · exact fun span hs => (hspans span hs).ahead hothers
    · intro other ho
      obtain ⟨hc, hO⟩ := hvalues other ho
      exact ⟨fun span hs => (hc span hs).behind hfirst, hO⟩
    · intro other ho a ha b hb
      exact Nat.le_trans (hspans a ha).stop ((hvalues other ho).1 b hb).start

end Parser

open Listing.Parser

namespace Statement

/-- The places of a statement and its parts. -/
def spans (s : Statement) : List Span := s.span :: s.mnemonicSpan :: s.args.map (·.span)

/-- A statement covers its parts. Its mnemonic is not empty. -/
structure CoversParts (s : Statement) : Prop where
  mnemonic : s.mnemonicSpan.Within s.span
  args : ∀ arg ∈ s.args, arg.span.Within s.span
  nonempty : s.mnemonicSpan.start < s.mnemonicSpan.stop

theorem CoversParts.within {s : Statement} (h : s.CoversParts) :
    ∀ span ∈ s.spans, span.Within s.span := by
  intro span hs
  simp only [spans, List.mem_cons, List.mem_map] at hs
  rcases hs with rfl | rfl | ⟨arg, ha, rfl⟩
  · exact .refl _
  · exact h.mnemonic
  · exact h.args arg ha

end Statement

theorem argument_places : Places argument (fun arg => [arg.span]) fun _ => True := by
  intro s arg s' hd
  have hbefore := (honest_argument.done s arg s' hd).1.before
  obtain ⟨⟨value, span⟩, middle, hv, hd⟩ := bind_eq_done.mp hd
  obtain ⟨rfl, rfl⟩ := pure_eq_done.mp hd
  obtain ⟨-, rfl⟩ := spanned_eq_done.mp hv
  exact ⟨by simpa using hbefore.covers, trivial⟩

theorem arguments_places : Places arguments (fun args => args.map (·.span)) fun _ => True := by
  intro s args s' hd
  rcases orElse_eq_done.mp hd with hd | ⟨_, -, hd⟩
  · obtain ⟨first, middle, hf, hd⟩ := bind_eq_done.mp hd
    obtain ⟨others, last, ho, hd⟩ := bind_eq_done.mp hd
    obtain ⟨rfl, rfl⟩ := pure_eq_done.mp hd
    have hrounds := rounds_of_many ho
    have hmore := (argument_places.behind honest_comma).rounds honest_nextArgument hrounds
    have hbehind := (honest_argument.done s first middle hf).1.before
    have hahead := (honest_nextArgument.rounds hrounds).1.before
    refine ⟨?_, trivial⟩
    simp only [List.map_cons, List.forall_mem_cons, List.forall_mem_map]
    refine ⟨((argument_places s first middle hf).1 _ (by simp)).ahead hahead, fun arg ha => ?_⟩
    exact ((hmore.1 arg ha).1 _ (by simp)).behind hbehind
  · obtain ⟨rfl, rfl⟩ := pure_eq_done.mp hd
    exact ⟨by simp, trivial⟩

theorem statement_places : Places statement Statement.spans Statement.CoversParts := by
  intro s found s' hd
  obtain ⟨⟨name, span⟩, middle, hm, hd⟩ := bind_eq_done.mp hd
  obtain ⟨_, behind, hb, hd⟩ := bind_eq_done.mp hd
  obtain ⟨args, last, ha, hd⟩ := bind_eq_done.mp hd
  obtain ⟨rfl, rfl⟩ := pure_eq_done.mp hd
  obtain ⟨hname, rfl⟩ := spanned_eq_done.mp hm
  have hmnemonic := (honest_mnemonic.done s name middle hname).1.before
  have hblanks := ((honest_run tells_nonBlank).done middle _ behind hb).1.before
  have hargs := (honest_arguments.done behind args s' ha).1.before
  have hcovers : s.Covers s' ⟨s.offset, middle.offset⟩ :=
    hmnemonic.covers.ahead (hblanks.trans hargs)
  have hall : ∀ arg ∈ args, s.Covers s' arg.span := by
    intro arg harg
    exact ((arguments_places behind args s' ha).1 _ (List.mem_map_of_mem harg)).behind
      (hmnemonic.trans hblanks)
  obtain ⟨hwithin, hwithins⟩ := within_foldl_hull ⟨s.offset, middle.offset⟩ args
  refine ⟨?_, hwithin, hwithins, offset_lt_of_mnemonic hname⟩
  simp only [Statement.spans, List.forall_mem_cons, List.forall_mem_map]
  exact ⟨foldl_hull (fun _ _ => State.Covers.hull) hcovers hall, hcovers, hall⟩

theorem statements_of_parse {text : List Char} {found : List Statement}
    (h : (parse text).statements? = some found) :
    ∃ s', statements (.ofText text) = .done found s' := by
  obtain ⟨others, s', hd⟩ := exists_statements (.ofText text)
  rw [parse, hd] at h
  dsimp only at h
  split at h
  · exact ⟨s', Option.some.inj h ▸ hd⟩
  · cases h

/-- The statements of a text lie in it and follow each other. -/
theorem statements_placed {text : List Char} {statements : List Statement}
    (h : (parse text).statements? = some statements) :
    (∀ s ∈ statements, (∀ span ∈ s.spans, span.LiesIn text) ∧ s.CoversParts) ∧
      statements.Pairwise fun s t => s.span.stop ≤ t.span.start := by
  obtain ⟨s', hd⟩ := statements_of_parse h
  obtain ⟨_, middle, ht, hs⟩ := bind_eq_done.mp hd
  have hstart := (honest_trivia.done _ _ _ ht).1.before
  obtain ⟨hall, hpairs⟩ :=
    (statement_places.ahead honest_trivia).skipUntil.rounds honest_nextStatement (rounds_of_many hs)
  refine ⟨fun s hm => ⟨fun span hspan => ((hall s hm).1 span hspan).liesIn text hstart,
    (hall s hm).2⟩, hpairs.imp ?_⟩
  intro s t hst
  exact hst s.span List.mem_cons_self t.span List.mem_cons_self

/-- Whatever is read in some round is read at a place behind the start. -/
theorem Parser.Rounds.exists_done {p : Parser α} {Q : α → Prop} (hp : Honest p Q) {s s' : State}
    {values : List α} (h : Rounds p s values s') :
    ∀ value ∈ values, ∃ t t', s.Before t ∧ p t = .done value t' := by
  induction h with
  | stop => simp
  | @last s s' value done => simpa using ⟨s, .refl s, s', done⟩
  | @more s middle s' value values done others ih =>
    have hfirst := (hp.done s value middle done).1.before
    refine List.forall_mem_cons.mpr ⟨⟨s, middle, .refl s, done⟩, fun other ho => ?_⟩
    obtain ⟨t, t', ht, hd⟩ := ih other ho
    exact ⟨t, t', hfirst.trans ht, hd⟩

theorem argument_of_arguments {s s' : State} {args : List Argument}
    (h : arguments s = .done args s') :
    ∀ arg ∈ args, ∃ t t', s.Before t ∧ argument t = .done arg t' := by
  rcases orElse_eq_done.mp h with hd | ⟨_, -, hd⟩
  · obtain ⟨first, middle, hf, hd⟩ := bind_eq_done.mp hd
    obtain ⟨others, last, ho, hd⟩ := bind_eq_done.mp hd
    obtain ⟨rfl, rfl⟩ := pure_eq_done.mp hd
    have hbehind := (honest_argument.done s first middle hf).1.before
    refine List.forall_mem_cons.mpr ⟨⟨s, middle, .refl s, hf⟩, fun arg ha => ?_⟩
    obtain ⟨t, t', ht, hd⟩ := (rounds_of_many ho).exists_done honest_nextArgument arg ha
    obtain ⟨_, behind, hc, hd⟩ := bind_eq_done.mp hd
    exact ⟨behind, t', (hbehind.trans ht).trans (honest_comma.done t _ behind hc).1.before, hd⟩
  · obtain ⟨rfl, rfl⟩ := pure_eq_done.mp hd
    simp

theorem argument_of_statement {s s' : State} {found : Statement}
    (h : statement s = .done found s') :
    ∀ arg ∈ found.args, ∃ t t', s.Before t ∧ argument t = .done arg t' := by
  obtain ⟨⟨name, span⟩, middle, hm, hd⟩ := bind_eq_done.mp h
  obtain ⟨_, behind, hb, hd⟩ := bind_eq_done.mp hd
  obtain ⟨args, last, ha, hd⟩ := bind_eq_done.mp hd
  obtain ⟨rfl, rfl⟩ := pure_eq_done.mp hd
  have hmnemonic := (honest_mnemonic.spanned.done s _ middle hm).1.before
  have hblanks := ((honest_run tells_nonBlank).done middle _ behind hb).1.before
  intro arg harg
  obtain ⟨t, t', ht, hd⟩ := argument_of_arguments ha arg harg
  exact ⟨t, t', (hmnemonic.trans hblanks).trans ht, hd⟩

/-- Every argument of a listing is read at a place in its text. -/
theorem argument_of_parse {text : List Char} {statements : List Statement}
    (h : (parse text).statements? = some statements) :
    ∀ s ∈ statements, ∀ arg ∈ s.args,
      ∃ t t', (State.ofText text).Before t ∧ argument t = .done arg t' := by
  intro s hs arg harg
  obtain ⟨s', hd⟩ := statements_of_parse h
  obtain ⟨_, middle, ht, hs'⟩ := bind_eq_done.mp hd
  have hstart := (honest_trivia.done _ _ _ ht).1.before
  obtain ⟨t, t', hbefore, hd⟩ := (rounds_of_many hs').exists_done honest_nextStatement s hs
  have hread : ∃ u u', t.Before u ∧ wholeStatement u = .done s u' := by
    rcases skipUntil_eq_done.mp hd with hd | ⟨blame, -, hd⟩
    · exact ⟨t, t', .refl t, hd⟩
    · obtain ⟨skipped, rest, found, hr, hv, -, -⟩ := of_search_eq_done hd
      exact ⟨_, found, ⟨skipped, hr, rfl⟩, hv⟩
  obtain ⟨u, u', hu, hw⟩ := hread
  obtain ⟨found, middle, hv, hd⟩ := bind_eq_done.mp hw
  obtain ⟨_, _, -, hd⟩ := bind_eq_done.mp hd
  obtain ⟨rfl, -⟩ := pure_eq_done.mp hd
  obtain ⟨v, v', hv', ha⟩ := argument_of_statement hv arg harg
  exact ⟨v, v', ((hstart.trans hbefore).trans hu).trans hv', ha⟩

/-- The faults in a text lie in it. -/
theorem errors_placed {text : List Char} :
    ∀ error ∈ (parse text).errors, error.span.LiesIn text := by
  obtain ⟨found, s', hd⟩ := exists_statements (.ofText text)
  have hsound := (honest_statements.done _ _ _ hd).1.sound text (State.sound_ofText text)
  rw [parse, hd]
  dsimp only
  split
  · simpa using hsound.errors
  · obtain ⟨blame, hu, hb⟩ := tells_here s'
    obtain ⟨known, rfl, hk⟩ := hb
    rw [hu]
    intro error he
    rcases List.mem_cons.mp (List.mem_reverse.mp he) with rfl | he
    · exact hk text hsound
    · exact hsound.errors error he

end ScriptKit.Listing
