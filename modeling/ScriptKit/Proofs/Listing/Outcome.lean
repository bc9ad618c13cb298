import ScriptKit.Listing.Scan
import ScriptKit.Proofs.Text.Boundary

namespace ScriptKit.Listing.Parser

variable {α β : Type} {p q : Parser α} {s s' : State} {blame : Option Blame}

section Sequences

variable {f : α → Parser β} {result : β}

theorem pure_eq_done {value found : α} :
    (pure value : Parser α) s = .done found s' ↔ found = value ∧ s' = s := by
  change Step.done value s = _ ↔ _
  rw [Step.done.injEq, eq_comm, @eq_comm _ s]

theorem pure_ne_stuck {value : α} : (pure value : Parser α) s ≠ .stuck blame := nofun

theorem bind_eq_done :
    (p >>= f) s = .done result s' ↔
      ∃ value middle, p s = .done value middle ∧ f value middle = .done result s' := by
  change Parser.bind p f s = _ ↔ _
  rw [Parser.bind]
  cases p s with
  | done value middle => simp
  | stuck blame => simp

theorem bind_eq_stuck :
    (p >>= f) s = .stuck blame ↔
      p s = .stuck blame ∨ ∃ value middle, p s = .done value middle ∧
        f value middle = .stuck blame := by
  change Parser.bind p f s = _ ↔ _
  rw [Parser.bind]
  cases p s with
  | done value middle => simp
  | stuck blame => simp

end Sequences

section Characters

variable {miss : State → State} {test : Char → Bool} {c : Char} {word : List Char}

theorem char_eq_done :
    char miss test s = .done c s' ↔ test c = true ∧ ∃ rest, s.rest = c :: rest ∧
      s' = { s with rest, offset := s.offset + c.utf8Size } := by
  rw [char]
  cases s.rest with
  | nil => simp
  | cons first rest =>
    dsimp only
    split
    · next h =>
      rw [Step.done.injEq]
      constructor
      · rintro ⟨rfl, rfl⟩
        exact ⟨h, rest, rfl, rfl⟩
      · rintro ⟨-, rest, he, rfl⟩
        obtain ⟨rfl, rfl⟩ := List.cons.inj he
        exact ⟨rfl, rfl⟩
    · next h =>
      constructor
      · intro hs
        cases hs
      · rintro ⟨hc, _, he, -⟩
        obtain ⟨rfl, -⟩ := List.cons.inj he
        exact absurd hc h

theorem char_eq_stuck :
    char miss test s = .stuck blame ↔
      (∀ c ∈ s.rest.head?, test c = false) ∧ (miss s).blame = blame := by
  rw [char]
  cases s.rest with
  | nil => simp
  | cons first rest => cases h : test first <;> simp [h]

theorem run_eq_done :
    run miss test s = .done word s' ↔ word = s.rest.takeWhile test ∧
      s' = miss { s with
        rest := s.rest.dropWhile test
        offset := s.offset + Utf8.size (s.rest.takeWhile test) } := by
  rw [run, Step.done.injEq, eq_comm, @eq_comm _ s']

theorem run_ne_stuck : run miss test s ≠ .stuck blame := nofun

theorem run1_eq_done :
    run1 miss test s = .done word s' ↔ word ≠ [] ∧ run miss test s = .done word s' := by
  rw [run1]
  split
  · next h =>
    rw [h]
    constructor
    · intro he
      cases he
    · rintro ⟨hn, he⟩
      cases he
      exact absurd rfl hn
  · next hn =>
    constructor
    · intro h
      refine ⟨?_, h⟩
      rintro rfl
      exact hn _ h
    · exact And.right

theorem run1_eq_stuck :
    run1 miss test s = .stuck blame ↔
      ∃ middle, run miss test s = .done [] middle ∧ middle.blame = blame := by
  rw [run1]
  split
  · next middle h => simp [h]
  · next hn =>
    constructor
    · intro h
      exact absurd h run_ne_stuck
    · rintro ⟨middle, h, -⟩
      exact absurd h (hn middle)

theorem rest_of_symbol {u : Unit} (h : symbol word s = .done u s') :
    s.rest = word ++ s'.rest := by
  induction word generalizing s with
  | nil =>
    obtain ⟨-, rfl⟩ := pure_eq_done.mp h
    rfl
  | cons c word ih =>
    obtain ⟨_, middle, hc, hw⟩ := bind_eq_done.mp h
    obtain ⟨he, rest, hr, rfl⟩ := char_eq_done.mp hc
    rw [hr, beq_iff_eq.mp he, List.cons_append, ← ih hw]

theorem endOfText_eq_done {u : Unit} : endOfText s = .done u s' ↔ s.rest = [] ∧ s' = s := by
  rw [endOfText]
  cases s.rest <;> simp [eq_comm]

theorem endOfText_eq_stuck :
    endOfText s = .stuck blame ↔ s.rest ≠ [] ∧ (unexpectedHere s).blame = blame := by
  rw [endOfText]
  cases s.rest <;> simp

end Characters

section Alternatives

variable {value : α}

theorem orElse_eq_done :
    orElse p q s = .done value s' ↔
      p s = .done value s' ∨ ∃ blame, p s = .stuck blame ∧
        q { s with blame } = .done value s' := by
  rw [orElse]
  cases p s <;> simp

theorem orElse_eq_stuck :
    orElse p q s = .stuck blame ↔
      ∃ first, p s = .stuck first ∧ q { s with blame := first } = .stuck blame := by
  rw [orElse]
  cases p s <;> simp

theorem insteadRead_eq_done :
    insteadRead p q s = .done value s' ↔
      p s = .done value s' ∨ ∃ blame middle, p s = .stuck blame ∧
        q { s with blame := none } = .done value middle ∧ s' = middle.report blame := by
  rw [insteadRead]
  cases p s with
  | done found s₁ => simp
  | stuck blame =>
    dsimp only
    cases q { s with blame := none } with
    | done found middle => simp [eq_comm]
    | stuck other => simp

theorem insteadRead_eq_stuck :
    insteadRead p q s = .stuck blame ↔
      p s = .stuck blame ∧ ∃ other, q { s with blame := none } = .stuck other := by
  rw [insteadRead]
  cases p s with
  | done found s₁ => simp
  | stuck blame =>
    dsimp only
    cases q { s with blame := none } <;> simp

end Alternatives

section Judging

variable {f : Span → α → Except SyntaxError β} {test : α → Bool} {value : α} {result : β}

theorem ahead_eq_done {u : Unit} :
    ahead p s = .done u s' ↔
      ∃ value middle, p s = .done value middle ∧ s' = { s with blame := middle.blame } := by
  rw [ahead]
  cases p s <;> simp [eq_comm]

theorem ahead_eq_stuck : ahead p s = .stuck blame ↔ p s = .stuck blame := by
  rw [ahead]
  cases p s <;> simp

theorem judge_eq_done :
    judge p f s = .done result s' ↔
      ∃ value, p s = .done value s' ∧ f ⟨s.offset, s'.offset⟩ value = .ok result := by
  rw [judge]
  cases p s with
  | stuck blame => simp
  | done found middle =>
    dsimp only
    split
    · next he =>
      rw [Step.done.injEq]
      constructor
      · rintro ⟨rfl, rfl⟩
        exact ⟨found, rfl, he⟩
      · rintro ⟨value, hv, hr⟩
        cases hv
        rw [he] at hr
        exact ⟨Except.ok.inj hr, rfl⟩
    · next he =>
      constructor
      · intro h
        cases h
      · rintro ⟨value, hv, hr⟩
        cases hv
        rw [he] at hr
        cases hr

theorem judge_eq_stuck :
    judge p f s = .stuck blame ↔
      p s = .stuck blame ∨ ∃ value middle error, p s = .done value middle ∧
        f ⟨s.offset, middle.offset⟩ value = .error error ∧ some ⟨s.offset, error⟩ = blame := by
  rw [judge]
  cases p s with
  | stuck blame => simp
  | done found middle =>
    dsimp only
    cases he : f ⟨s.offset, middle.offset⟩ found <;> simp [he]

theorem filter_eq_done :
    filter p test s = .done value s' ↔ p s = .done value s' ∧ test value = true := by
  rw [filter]
  cases p s with
  | stuck blame => simp
  | done found middle =>
    dsimp only
    split
    · next h =>
      rw [Step.done.injEq]
      constructor
      · rintro ⟨rfl, rfl⟩
        exact ⟨⟨rfl, rfl⟩, h⟩
      · exact And.left
    · next h =>
      constructor
      · intro he
        cases he
      · rintro ⟨he, ht⟩
        cases he
        exact absurd ht h

theorem filter_eq_stuck :
    filter p test s = .stuck blame ↔
      p s = .stuck blame ∨ ∃ value middle, p s = .done value middle ∧ test value = false ∧
        (middle.mismatch middle.offset
          (.unexpected ⟨s.offset, middle.offset⟩ none)).blame = blame := by
  rw [filter]
  cases p s with
  | stuck blame => simp
  | done found middle => cases h : test found <;> simp [h]

theorem spanned_eq_done {span : Span} :
    spanned p s = .done (value, span) s' ↔
      p s = .done value s' ∧ span = ⟨s.offset, s'.offset⟩ := by
  rw [spanned]
  cases p s with
  | stuck blame => simp
  | done found middle =>
    simp only [Step.done.injEq, Prod.mk.injEq]
    constructor
    · rintro ⟨⟨rfl, rfl⟩, rfl⟩
      exact ⟨⟨rfl, rfl⟩, rfl⟩
    · rintro ⟨⟨rfl, rfl⟩, rfl⟩
      exact ⟨⟨rfl, rfl⟩, rfl⟩

theorem spanned_eq_stuck : spanned p s = .stuck blame ↔ p s = .stuck blame := by
  rw [spanned]
  cases p s <;> simp

end Judging

/-- The rounds of a repetition. The last one may be the one that the bound on their number
allows. -/
inductive Rounds (p : Parser α) : State → List α → State → Prop
  | stop {s : State} {blame : Option Blame} (stuck : p s = .stuck blame) :
    Rounds p s [] { s with blame }
  | last {s s' : State} {value : α} (done : p s = .done value s') : Rounds p s [value] s'
  | more {s middle s' : State} {value : α} {values : List α} (done : p s = .done value middle)
    (others : Rounds p middle values s') : Rounds p s (value :: values) s'

theorem exists_rounds (read : List α) (bound : List Char) (s : State) :
    ∃ values s', many.rounds p read bound s = .done (read.reverse ++ values) s' ∧
      Rounds p s values s' := by
  induction bound generalizing read s with
  | nil =>
    rw [many.rounds]
    cases h : p s with
    | stuck blame => exact ⟨[], { s with blame }, by simp, .stop h⟩
    | done value s' => exact ⟨[value], s', by simp, .last h⟩
  | cons c bound ih =>
    rw [many.rounds]
    cases h : p s with
    | stuck blame => exact ⟨[], { s with blame }, by simp, .stop h⟩
    | done value middle =>
      obtain ⟨values, s', hr, hs⟩ := ih (value :: read) middle
      exact ⟨value :: values, s', by simpa using hr, .more h hs⟩

/-- A repetition is never stuck. -/
theorem exists_many (p : Parser α) (s : State) :
    ∃ values s', many p s = .done values s' ∧ Rounds p s values s' :=
  exists_rounds [] s.rest s

theorem rounds_of_many {values : List α} (h : many p s = .done values s') :
    Rounds p s values s' := by
  obtain ⟨_, _, hm, hr⟩ := exists_many p s
  rw [hm] at h
  cases h
  exact hr

theorem many_ne_stuck : many p s ≠ .stuck blame := by
  obtain ⟨_, _, hm, -⟩ := exists_many p s
  rw [hm]
  exact nofun

/-- The parser is never stuck, though it may read nothing. -/
def Total (p : Parser α) : Prop := ∀ s blame, p s ≠ .stuck blame

namespace Total

theorem pure (value : α) : Total (pure value : Parser α) := fun _ _ => pure_ne_stuck

theorem bind {f : α → Parser β} (hp : Total p) (hf : ∀ value, Total (f value)) :
    Total (p >>= f) := by
  intro s blame hs
  rcases bind_eq_stuck.mp hs with hs | ⟨value, middle, -, hs⟩
  · exact hp s blame hs
  · exact hf value middle blame hs

theorem run (miss : State → State) (test : Char → Bool) : Total (run miss test) :=
  fun _ _ => run_ne_stuck

theorem orElse (hq : Total q) : Total (orElse p q) := by
  intro s blame hs
  obtain ⟨first, -, hs⟩ := orElse_eq_stuck.mp hs
  exact hq _ blame hs

theorem insteadRead (hq : Total q) : Total (insteadRead p q) := by
  intro s blame hs
  obtain ⟨-, other, hs⟩ := insteadRead_eq_stuck.mp hs
  exact hq _ other hs

theorem many (p : Parser α) : Total (many p) := fun _ _ => many_ne_stuck

theorem exists_done (hp : Total p) (s : State) : ∃ value s', p s = .done value s' := by
  cases h : p s with
  | done value s' => exact ⟨value, s', rfl⟩
  | stuck blame => exact absurd h (hp s blame)

end Total

section Search

variable {barrier : Char → Bool} {value : α}

/-- A search passes over some characters, and what is read behind them is read without a fault. -/
theorem of_search_eq_done {rest : List Char} {offset : Nat} {errors : List SyntaxError}
    (h : skipUntil.search barrier p blame rest offset errors = .done value s') :
    ∃ skipped text found, rest = skipped ++ text ∧
      p ⟨text, offset + Utf8.size skipped, none, []⟩ = .done value found ∧ found.errors = [] ∧
      s' = { found with errors }.report blame := by
  induction rest generalizing offset with
  | nil => cases h
  | cons c rest ih =>
    rw [skipUntil.search] at h
    split at h
    · cases h
    · dsimp only at h
      split at h
      · next found rest' offset' blame' hp =>
        cases h
        exact ⟨[c], rest, _, rfl, by simpa using hp, rfl, rfl⟩
      · obtain ⟨skipped, text, found, rfl, hp, he, hs⟩ := ih h
        exact ⟨c :: skipped, text, found, rfl, by simpa [Nat.add_assoc] using hp, he, hs⟩

theorem of_search_eq_stuck {rest : List Char} {offset : Nat} {errors : List SyntaxError}
    {other : Option Blame}
    (h : skipUntil.search barrier p blame rest offset errors = .stuck other) : other = blame := by
  induction rest generalizing offset with
  | nil => cases h; rfl
  | cons c rest ih =>
    rw [skipUntil.search] at h
    split at h
    · cases h
      rfl
    · dsimp only at h
      split at h
      · cases h
      · exact ih h

section Steps

variable {c : Char} {rest : List Char} {offset : Nat} {errors : List SyntaxError}

theorem search_barrier (h : barrier c = true) :
    skipUntil.search barrier p blame (c :: rest) offset errors = .stuck blame := by
  rw [skipUntil.search, if_pos h]

/-- What is read without a fault is found. -/
theorem search_found (h : barrier c = false)
    (hp : p ⟨rest, offset + c.utf8Size, none, []⟩ = .done value s') (he : s'.errors = []) :
    skipUntil.search barrier p blame (c :: rest) offset errors =
      .done value ({ s' with errors }.report blame) := by
  obtain ⟨rest', offset', blame', errors'⟩ := s'
  subst he
  rw [skipUntil.search, if_neg (by simp [h])]
  simp only [hp]

/-- What is read with a fault is passed over, as what does not fit is. -/
theorem search_later (h : barrier c = false)
    (hp : ∀ value s', p ⟨rest, offset + c.utf8Size, none, []⟩ = .done value s' → s'.errors ≠ []) :
    skipUntil.search barrier p blame (c :: rest) offset errors =
      skipUntil.search barrier p blame rest (offset + c.utf8Size) errors := by
  rw [skipUntil.search, if_neg (by simp [h])]
  dsimp only
  split
  · next hd => exact absurd rfl (hp _ _ hd)
  · rfl

end Steps

theorem skipUntil_eq_done :
    skipUntil barrier p s = .done value s' ↔
      p s = .done value s' ∨ ∃ blame, p s = .stuck blame ∧
        skipUntil.search barrier p blame s.rest s.offset s.errors = .done value s' := by
  rw [skipUntil]
  cases p s <;> simp

theorem stuck_of_skipUntil (h : skipUntil barrier p s = .stuck blame) : p s = .stuck blame := by
  rw [skipUntil] at h
  split at h
  · next hp => rwa [of_search_eq_stuck h]
  · exact h

end Search

end ScriptKit.Listing.Parser
