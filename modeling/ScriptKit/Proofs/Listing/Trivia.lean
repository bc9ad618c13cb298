import ScriptKit.Listing.Parse
import ScriptKit.Proofs.Listing.Reading
import ScriptKit.Proofs.Text.Char

namespace ScriptKit.Listing

open Listing.Parser Text

variable {a b c word next : List Char}

/-- A text ends here, or a line. -/
abbrev LineEnds (text : List Char) : Prop := Stops (fun c => !isLineEnd c) text

theorem reads_blanks (hn : word ≠ []) (hw : ∀ c ∈ word, isBlank c = true)
    (hs : Stops isBlank a) : Reads blanks (word ++ a) a fun _ => True :=
  (reads_run1 notes_nonBlank hn hw hs).bind fun _ _ => .pure trivial

theorem refuses_blanks (h : Stops isBlank a) : Refuses blanks a :=
  (refuses_run1 notes_nonBlank h).bind

theorem reads_comment (hw : ∀ c ∈ word, isLineEnd c = false) (hs : LineEnds a) :
    Reads comment ('/' :: '/' :: (word ++ a)) a fun _ => True := by
  have hr : Reads (run unexpectedLineEnd fun c => !isLineEnd c) (word ++ a) a (· = word) := by
    apply reads_run notes_lineEnd _ hs
    intro c hc
    simp [hw c hc]
  exact (reads_symbol ['/', '/']).bind fun _ _ => hr.bind fun _ _ => .pure trivial

theorem refuses_comment (h : ∀ rest, a ≠ '/' :: '/' :: rest) : Refuses comment a := by
  apply Refuses.bind
  cases a with
  | nil => exact refuses_symbol (stops_nil _)
  | cons first rest =>
    by_cases hf : first = '/'
    · subst hf
      refine (reads_char (by decide)).bind_refuses fun _ _ => refuses_symbol ?_
      cases rest with
      | nil => exact stops_nil _
      | cons second rest =>
        rw [stops_cons, beq_eq_false_iff_ne]
        intro he
        subst he
        exact h rest rfl
    · exact refuses_symbol (stops_cons.mpr (by simpa using hf))

/-- A piece of trivia. -/
def triviaPiece : Parser Unit := orElse comment blanks

theorem reads_trivia (h : ReadsAll triviaPiece a b fun _ => True) :
    Reads trivia a b fun _ => True :=
  (Reads.many h).bind fun _ _ => .pure trivial

theorem trivia_none (hs : Stops isBlank a) (hc : ∀ rest, a ≠ '/' :: '/' :: rest) :
    ReadsAll triviaPiece a a fun _ => True :=
  .stop ((refuses_comment hc).orElse (refuses_blanks hs)) trivial

/-- Blanks in front of trivia are trivia. -/
theorem trivia_blanks (hn : word ≠ []) (hw : ∀ c ∈ word, isBlank c = true)
    (hs : Stops isBlank a) (h : ReadsAll triviaPiece a b fun _ => True) :
    ReadsAll triviaPiece (word ++ a) b fun _ => True := by
  have hc : ∀ rest, word ++ a ≠ '/' :: '/' :: rest := by
    intro rest he
    cases word with
    | nil => exact hn rfl
    | cons first others =>
      obtain ⟨rfl, -⟩ := List.cons.inj he
      exact absurd (hw '/' List.mem_cons_self) (by decide)
  have hl : a.length < (word ++ a).length := by
    have := List.length_pos_iff.mpr hn
    rw [List.length_append]
    omega
  exact .more (.orElse_right (refuses_comment hc) (reads_blanks hn hw hs)) hl h
    fun _ _ _ _ => trivial

/-- What is left of a text behind the blanks and comments in front. -/
inductive Skips : List Char → List Char → Prop
  | stop {a : List Char} (noBlank : Stops isBlank a) (noComment : ∀ rest, a ≠ '/' :: '/' :: rest) :
    Skips a a
  | blank {c : Char} {a b : List Char} (isBlank : isBlank c = true) (others : Skips a b) :
    Skips (c :: a) b
  | comment {word a b : List Char} (inLine : ∀ c ∈ word, isLineEnd c = false) (ends : LineEnds a)
    (others : Skips a b) : Skips ('/' :: '/' :: (word ++ a)) b

theorem exists_skips (a : List Char) : ∃ b, Skips a b := by
  induction hl : a.length using Nat.strongRecOn generalizing a with
  | ind length ih =>
    subst hl
    by_cases hc : ∃ rest, a = '/' :: '/' :: rest
    · obtain ⟨rest, rfl⟩ := hc
      have hshort : (rest.dropWhile fun c => !isLineEnd c).length <
          ('/' :: '/' :: rest).length := by
        have := (List.dropWhile_suffix (l := rest) fun c => !isLineEnd c).length_le
        simp only [List.length_cons]
        omega
      obtain ⟨b, hb⟩ := ih _ hshort _ rfl
      refine ⟨b, ?_⟩
      rw [← List.takeWhile_append_dropWhile (p := fun c => !isLineEnd c) (l := rest)]
      refine .comment (fun c hc => ?_) (stops_dropWhile _ rest) hb
      simpa using List.all_eq_true.mp List.all_takeWhile c hc
    · cases a with
      | nil => exact ⟨[], .stop (stops_nil _) (by simp)⟩
      | cons c rest =>
        cases hb : isBlank c with
        | true =>
          obtain ⟨b, hr⟩ := ih rest.length (by simp) rest rfl
          exact ⟨b, .blank hb hr⟩
        | false => exact ⟨_, .stop (stops_cons.mpr hb) fun rest he => hc ⟨rest, he⟩⟩

/-- A run of blanks is passed over as a whole. -/
theorem Skips.dropWhile (h : Skips a b) : Skips (a.dropWhile isBlank) b := by
  induction h with
  | @stop a noBlank noComment =>
    have hsame : a.dropWhile isBlank = a := by
      cases a with
      | nil => rfl
      | cons c rest => exact List.dropWhile_cons_of_neg (by simpa using noBlank)
    rw [hsame]
    exact .stop noBlank noComment
  | blank isBlank others ih => rwa [List.dropWhile_cons_of_pos isBlank]
  | comment inLine ends others ih =>
    rw [List.dropWhile_cons_of_neg (by decide)]
    exact .comment inLine ends others

theorem Skips.blanks (h : Skips a b) (hw : ∀ c ∈ word, isBlank c = true) : Skips (word ++ a) b := by
  induction word with
  | nil => exact h
  | cons c rest ih =>
    obtain ⟨hc, hrest⟩ := List.forall_mem_cons.mp hw
    exact .blank hc (ih hrest)

/-- Nothing but a comment or a blank is passed over. -/
theorem Skips.readsAll (h : Skips a b) : ReadsAll triviaPiece a b fun _ => True := by
  induction hl : a.length using Nat.strongRecOn generalizing a with
  | ind length ih =>
    subst hl
    cases h with
    | stop noBlank noComment => exact trivia_none noBlank noComment
    | @blank c rest _ isBlank others =>
      have hshort : (rest.dropWhile Text.isBlank).length < (c :: rest).length := by
        have := (List.dropWhile_suffix (l := rest) Text.isBlank).length_le
        simp only [List.length_cons]
        omega
      have hrest := ih _ hshort others.dropWhile rfl
      have hword : ∀ d ∈ c :: rest.takeWhile Text.isBlank, Text.isBlank d = true := by
        rw [List.forall_mem_cons]
        exact ⟨isBlank, fun d hd => List.all_eq_true.mp List.all_takeWhile d hd⟩
      have hall := trivia_blanks (List.cons_ne_nil _ _) hword (stops_dropWhile _ rest) hrest
      rwa [List.cons_append, List.takeWhile_append_dropWhile] at hall
    | @comment word rest _ inLine ends others =>
      have hshort : rest.length < ('/' :: '/' :: (word ++ rest)).length := by
        simp only [List.length_cons, List.length_append]
        omega
      exact .more (.orElse_left (reads_comment inLine ends)) hshort (ih _ hshort others rfl)
        fun _ _ _ _ => trivial

theorem Skips.suffix (h : Skips a b) : b <:+ a := by
  induction h with
  | stop => exact List.suffix_rfl
  | blank _ _ ih => exact ih.trans (List.suffix_cons _ _)
  | comment _ _ _ ih =>
    exact ih.trans ⟨_, List.append_assoc ['/', '/'] _ _⟩

/-- No blank is left. -/
theorem Skips.stops (h : Skips a b) : Stops isBlank b := by
  induction h with
  | stop noBlank _ => exact noBlank
  | blank _ _ ih => exact ih
  | comment _ _ _ ih => exact ih

/-- Nothing is passed over twice. -/
theorem Skips.again (h : Skips a b) : Skips b b := by
  induction h with
  | stop noBlank noComment => exact .stop noBlank noComment
  | blank _ _ ih => exact ih
  | comment _ _ _ ih => exact ih

theorem Skips.reads (h : Skips a b) : Reads trivia a b fun _ => True := reads_trivia h.readsAll

theorem Skips.unique (h : Skips a b) (ho : Skips a c) : b = c := h.reads.unique ho.reads

/-- What is left behind a comma, with what may stand around it. -/
def Separates (a c : List Char) : Prop := ∃ b, Skips a (',' :: b) ∧ Skips b c

/-- The text does not start with a comma, whatever is passed over. -/
def Unseparated (a : List Char) : Prop := ∃ b, Skips a b ∧ Stops (· == ',') b

theorem separates_or_unseparated (a : List Char) : (∃ c, Separates a c) ∨ Unseparated a := by
  obtain ⟨b, hb⟩ := exists_skips a
  cases b with
  | nil => exact .inr ⟨[], hb, stops_nil _⟩
  | cons first rest =>
    by_cases hf : first = ','
    · subst hf
      obtain ⟨c, hc⟩ := exists_skips rest
      exact .inl ⟨c, rest, hb, hc⟩
    · exact .inr ⟨_, hb, stops_cons.mpr (by simpa using hf)⟩

/-- The comma between two arguments, with what may stand around it. -/
def separator : Parser Unit := do
  trivia
  symbol [',']
  trivia

theorem Separates.reads (h : Separates a c) : Reads separator a c fun _ => True := by
  obtain ⟨b, hb, hc⟩ := h
  exact hb.reads.bind fun _ _ => (reads_symbol [',']).bind fun _ _ => hc.reads

theorem Unseparated.refuses (h : Unseparated a) : Refuses separator a := by
  obtain ⟨b, hb, hs⟩ := h
  exact hb.reads.bind_refuses fun _ _ => (refuses_symbol hs).bind

/-- The search for a comma stops here. -/
def isBarrier (c : Char) : Bool := c == ',' || isLineEnd c

/-- What is left behind the first comma that is found where some characters are left out. -/
inductive Finds : List Char → List Char → Prop
  | here {c : Char} {rest b : List Char} (free : isBarrier c = false) (found : Separates rest b) :
    Finds (c :: rest) b
  | later {c : Char} {rest b : List Char} (free : isBarrier c = false)
    (missing : Unseparated rest) (others : Finds rest b) : Finds (c :: rest) b

/-- There is no comma where some characters are left out. -/
inductive Misses : List Char → Prop
  | stop {a : List Char} (barrier : Stops (fun c => !isBarrier c) a) : Misses a
  | later {c : Char} {rest : List Char} (free : isBarrier c = false) (missing : Unseparated rest)
    (others : Misses rest) : Misses (c :: rest)

theorem finds_or_misses (a : List Char) : (∃ b, Finds a b) ∨ Misses a := by
  induction a with
  | nil => exact .inr (.stop (stops_nil _))
  | cons c rest ih =>
    cases hc : isBarrier c with
    | true => exact .inr (.stop (stops_cons.mpr (by simp [hc])))
    | false =>
      rcases separates_or_unseparated rest with ⟨b, hb⟩ | hn
      · exact .inl ⟨b, .here hc hb⟩
      · rcases ih with ⟨b, hb⟩ | hm
        · exact .inl ⟨b, .later hc hn hb⟩
        · exact .inr (.later hc hn hm)

theorem Finds.search (h : Finds a b) (blame : Option Blame) (offset : Nat)
    (errors : List SyntaxError) :
    ∃ offset' blame', skipUntil.search isBarrier separator blame a offset errors =
      .done () (State.report ⟨b, offset', blame', errors⟩ blame) := by
  induction h generalizing offset with
  | @here c rest b free found =>
    obtain ⟨_, offset', blame', hr, -⟩ := found.reads (offset + c.utf8Size) none []
    refine ⟨offset', blame', ?_⟩
    simp only [skipUntil.search, free, Bool.false_eq_true, ↓reduceIte, hr]
  | @later c rest b free missing others ih =>
    obtain ⟨_, hr⟩ := missing.refuses (offset + c.utf8Size) none []
    obtain ⟨offset', blame', hs⟩ := ih (offset + c.utf8Size)
    refine ⟨offset', blame', ?_⟩
    simp only [skipUntil.search, free, Bool.false_eq_true, ↓reduceIte, hr, hs]

theorem Misses.search (h : Misses a) (blame : Option Blame) (offset : Nat)
    (errors : List SyntaxError) :
    skipUntil.search isBarrier separator blame a offset errors = .stuck blame := by
  induction h generalizing offset with
  | @stop a barrier =>
    cases a with
    | nil => rfl
    | cons c rest =>
      have hc : isBarrier c = true := by simpa using stops_cons.mp barrier
      simp only [skipUntil.search, hc, ↓reduceIte]
  | @later c rest free missing others ih =>
    obtain ⟨_, hr⟩ := missing.refuses (offset + c.utf8Size) none []
    simp only [skipUntil.search, free, Bool.false_eq_true, ↓reduceIte, hr, ih]

/-- No comma is found in the rest of a line without commas if none follows the line. -/
theorem Unseparated.append (hb : Unseparated a) (he : LineEnds a)
    (hw : ∀ c ∈ word, isBarrier c = false) : Unseparated (word ++ a) := by
  induction word with
  | nil => exact hb
  | cons c rest ih =>
    obtain ⟨hc, hrest⟩ := List.forall_mem_cons.mp hw
    obtain ⟨d, hd, hs⟩ := ih hrest
    have hline : ∀ c ∈ rest, isLineEnd c = false := by
      intro c hm
      have := hrest c hm
      simp only [isBarrier, Bool.or_eq_false_iff] at this
      exact this.2
    cases hblank : isBlank c with
    | true => exact ⟨d, .blank hblank hd, hs⟩
    | false =>
      by_cases hcomment : ∃ others, c = '/' ∧ rest = '/' :: others
      · obtain ⟨others, rfl, rfl⟩ := hcomment
        obtain ⟨e, hskips, hstops⟩ := hb
        exact ⟨e, .comment (List.forall_mem_cons.mp hline).2 he hskips, hstops⟩
      · refine ⟨_, .stop (stops_cons.mpr hblank) ?_, stops_cons.mpr ?_⟩
        · intro others heq
          obtain ⟨hslash, htail⟩ := List.cons.inj heq
          cases rest with
          | nil =>
            have ha : a = '/' :: others := htail
            rw [ha, LineEnds, stops_cons] at he
            exact absurd he (by decide)
          | cons d rest => exact hcomment ⟨rest, hslash, by rw [(List.cons.inj htail).1]⟩
        · simp only [isBarrier, Bool.or_eq_false_iff] at hc
          exact hc.1

theorem Misses.append (h : Misses a) (he : LineEnds a) (hb : Unseparated a)
    (hw : ∀ c ∈ word, isBarrier c = false) : Misses (word ++ a) := by
  induction word with
  | nil => exact h
  | cons c rest ih =>
    obtain ⟨hc, hrest⟩ := List.forall_mem_cons.mp hw
    exact .later hc (hb.append he hrest) (ih hrest)

/-- A comma that is found further on is read. -/
theorem comma_of_finds {s : State} (hn : Unseparated s.rest) (hf : Finds s.rest b) :
    ∃ s', comma s = .done () s' ∧ s'.rest = b := by
  obtain ⟨blame, hs⟩ := hn.refuses s.offset s.blame s.errors
  obtain ⟨offset', blame', hd⟩ := hf.search blame s.offset s.errors
  have hsearch : comma s = skipUntil.search isBarrier separator blame s.rest s.offset s.errors := by
    change skipUntil isBarrier separator _ = _
    rw [skipUntil, hs]
  refine ⟨_, hsearch.trans hd, ?_⟩
  cases blame with
  | none => rfl
  | some known => rfl

theorem comma_of_misses (hn : Unseparated a) (hm : Misses a) : Refuses comma a := by
  intro offset blame errors
  obtain ⟨blame', hs⟩ := hn.refuses offset blame errors
  have hsearch : comma ⟨a, offset, blame, errors⟩ =
      skipUntil.search isBarrier separator blame' a offset errors := by
    change skipUntil isBarrier separator _ = _
    rw [skipUntil, hs]
  exact ⟨blame', hsearch.trans (hm.search blame' offset errors)⟩

/-- The first character of a line that is neither trivia nor a comma. -/
def isGap (c : Char) : Bool := isBlank c || c == '/' || c == ','

theorem skips_gap (h : Stops isGap next) : Skips next next := by
  refine .stop (h.of_imp fun c hc => by simp [isGap, hc]) ?_
  rintro rest rfl
  rw [stops_cons] at h
  exact absurd h (by decide)

theorem skips_lineEnd (h : Stops isGap next) : Skips ('\n' :: next) next :=
  .blank (by decide) (skips_gap h)

/-- The search for another argument ends with the line if there is no comma left on it, whatever
stands in the comment behind it. -/
theorem refuses_comma (hw : ∀ c ∈ word, isBarrier c = false) (h : Stops isGap next) :
    Refuses comma (word ++ '\n' :: next) := by
  have hends : LineEnds ('\n' :: next) := stops_cons.mpr (by decide)
  have hnone : Unseparated ('\n' :: next) :=
    ⟨next, skips_lineEnd h, h.of_imp fun c hc => by simp [isGap, hc]⟩
  have hmisses : Misses ('\n' :: next) := .stop (stops_cons.mpr (by decide))
  exact comma_of_misses (hnone.append hends hw) (hmisses.append hends hnone hw)

/-- A comma with one blank behind it. -/
theorem reads_comma (hs : Stops isBlank a) (hc : ∀ rest, a ≠ '/' :: '/' :: rest) :
    Reads comma (',' :: ' ' :: a) a fun _ => True := by
  have hcomma : Separates (',' :: ' ' :: a) a :=
    ⟨' ' :: a, .stop (stops_cons.mpr (by decide)) (by simp), .blank (by decide) (.stop hs hc)⟩
  exact hcomma.reads.skipUntil

end ScriptKit.Listing
