import ScriptKit.Listing.Scan

namespace ScriptKit.Listing.Parser

variable {α β : Type} {p q : Parser α} {a b c : List Char} {Q : α → Prop} {R : β → Prop}

/-- The parser reads from the first text on until the second is left, and what it yields is as
described. It reports no fault. -/
def Reads (p : Parser α) (before after : List Char) (Q : α → Prop) : Prop :=
  ∀ offset blame errors, ∃ value offset' blame',
    p ⟨before, offset, blame, errors⟩ = .done value ⟨after, offset', blame', errors⟩ ∧ Q value

/-- The parser does not fit the text. -/
def Refuses (p : Parser α) (text : List Char) : Prop :=
  ∀ offset blame errors, ∃ blame', p ⟨text, offset, blame, errors⟩ = .stuck blame'

/-- A run of characters of the class ends here: none stands in front. -/
def Stops (p : Char → Bool) (text : List Char) : Prop := ∀ c ∈ text.head?, p c = false

/-- What is read of a text is read wherever the text stands. -/
theorem Reads.exists_done (h : Reads p a b Q) {s : State} (hs : s.rest = a) :
    ∃ value s', p s = .done value s' ∧ s'.rest = b ∧ s'.errors = s.errors ∧ Q value := by
  obtain ⟨value, offset, blame, hd, hv⟩ := h s.offset s.blame s.errors
  rw [← hs] at hd
  exact ⟨value, _, hd, rfl, rfl, hv⟩

/-- A text is read up to one place only. -/
theorem Reads.unique {Q' : α → Prop} (h : Reads p a b Q) (ho : Reads p a c Q') : b = c := by
  obtain ⟨_, _, _, hb, -⟩ := h 0 none []
  obtain ⟨_, _, _, hc, -⟩ := ho 0 none []
  rw [hb] at hc
  cases hc
  rfl

@[simp] theorem stops_nil (p : Char → Bool) : Stops p [] := by
  simp [Stops]

@[simp] theorem stops_cons {p : Char → Bool} {c : Char} {rest : List Char} :
    Stops p (c :: rest) ↔ p c = false := by
  simp [Stops]

theorem Stops.of_imp {p q : Char → Bool} (h : Stops q a) (hpq : ∀ c, p c = true → q c = true) :
    Stops p a := by
  intro c hc
  cases hp : p c with
  | false => rfl
  | true => rw [← hpq c hp, h c hc]

theorem stops_dropWhile (test : Char → Bool) (text : List Char) :
    Stops test (text.dropWhile test) := by
  intro c hc
  have hn := List.head?_dropWhile_not test text
  rw [Option.mem_def.mp hc] at hn
  simpa using hn

theorem takeWhile_append_of_stops {test : Char → Bool} (a : List Char) (h : Stops test b) :
    (a ++ b).takeWhile test = a.takeWhile test := by
  induction a with
  | nil =>
    cases b with
    | nil => rfl
    | cons c rest => exact List.takeWhile_cons_of_neg (by simp [stops_cons.mp h])
  | cons c rest ih => simp only [List.cons_append, List.takeWhile_cons, ih]

theorem dropWhile_append_of_stops {test : Char → Bool} (a : List Char) (h : Stops test b) :
    (a ++ b).dropWhile test = a.dropWhile test ++ b := by
  induction a with
  | nil =>
    cases b with
    | nil => rfl
    | cons c rest => exact List.dropWhile_cons_of_neg (by simp [stops_cons.mp h])
  | cons c rest ih =>
    simp only [List.cons_append, List.dropWhile_cons, ih]
    split
    · rfl
    · rfl

/-- Noting why a character does not fit leaves all else as it is. -/
def Notes (miss : State → State) : Prop := ∀ s, ∃ blame, miss s = { s with blame }

theorem notes_mismatch (s : State) (place : Nat) (error : SyntaxError) :
    ∃ blame, s.mismatch place error = { s with blame } := by
  unfold State.mismatch
  split
  · split
    · exact ⟨_, rfl⟩
    · exact ⟨s.blame, rfl⟩
  · exact ⟨_, rfl⟩

theorem notes_here : Notes unexpectedHere := fun _ => notes_mismatch ..

theorem notes_kind : Notes unexpectedKind := fun _ => notes_mismatch ..

theorem notes_lineEnd : Notes unexpectedLineEnd := by
  intro s
  unfold unexpectedLineEnd
  split <;> exact notes_mismatch ..

theorem notes_nonBlank : Notes unexpectedNonBlank := by
  intro s
  unfold unexpectedNonBlank
  split
  · exact notes_mismatch ..
  · exact ⟨_, rfl⟩

theorem Reads.mono {Q' : α → Prop} (h : Reads p a b Q) (hq : ∀ value, Q value → Q' value) :
    Reads p a b Q' := by
  intro offset blame errors
  obtain ⟨value, offset', blame', hp, hv⟩ := h offset blame errors
  exact ⟨value, offset', blame', hp, hq value hv⟩

theorem Reads.pure {value : α} (h : Q value) : Reads (Pure.pure value) a a Q := by
  intro offset blame errors
  exact ⟨value, offset, blame, rfl, h⟩

theorem Reads.bind {f : α → Parser β} (hp : Reads p a b Q)
    (hf : ∀ value, Q value → Reads (f value) b c R) : Reads (p >>= f) a c R := by
  intro offset blame errors
  obtain ⟨value, offset', blame', hv, hq⟩ := hp offset blame errors
  obtain ⟨result, offset'', blame'', hr, hR⟩ := hf value hq offset' blame' errors
  refine ⟨result, offset'', blame'', ?_, hR⟩
  change Parser.bind p f _ = _
  simp only [Parser.bind, hv, hr]

theorem Refuses.bind {f : α → Parser β} (h : Refuses p a) : Refuses (p >>= f) a := by
  intro offset blame errors
  obtain ⟨blame', hp⟩ := h offset blame errors
  refine ⟨blame', ?_⟩
  change Parser.bind p f _ = _
  simp only [Parser.bind, hp]

theorem Reads.bind_refuses {f : α → Parser β} (hp : Reads p a b Q)
    (hf : ∀ value, Q value → Refuses (f value) b) : Refuses (p >>= f) a := by
  intro offset blame errors
  obtain ⟨value, offset', blame', hv, hq⟩ := hp offset blame errors
  obtain ⟨blame'', hr⟩ := hf value hq offset' blame' errors
  refine ⟨blame'', ?_⟩
  change Parser.bind p f _ = _
  simp only [Parser.bind, hv, hr]

section Characters

variable {miss : State → State} {test : Char → Bool}

theorem reads_char {first : Char} (h : test first = true) :
    Reads (char miss test) (first :: a) a (· = first) := by
  intro offset blame errors
  exact ⟨first, offset + first.utf8Size, blame, by simp only [char, h, ↓reduceIte], rfl⟩

theorem refuses_char (h : Stops test a) : Refuses (char miss test) a := by
  intro offset blame errors
  cases a with
  | nil => exact ⟨_, rfl⟩
  | cons first rest =>
    rw [stops_cons] at h
    exact ⟨_, by simp only [char, h, Bool.false_eq_true, ↓reduceIte]; rfl⟩

/-- A run takes the characters of the class up to the first other one. -/
theorem reads_run {word : List Char} (hm : Notes miss) (hw : ∀ c ∈ word, test c = true)
    (hs : Stops test a) : Reads (run miss test) (word ++ a) a (· = word) := by
  intro offset blame errors
  have ht : (word ++ a).takeWhile test = word := by
    have hnone : a.takeWhile test = [] := takeWhile_append_of_stops [] hs
    rw [List.takeWhile_append_of_pos hw, hnone, List.append_nil]
  have hd : (word ++ a).dropWhile test = a := by
    have hall : a.dropWhile test = a := dropWhile_append_of_stops [] hs
    rw [List.dropWhile_append_of_pos hw, hall]
  obtain ⟨blame', hb⟩ := hm ⟨a, offset + Utf8.size word, blame, errors⟩
  exact ⟨word, offset + Utf8.size word, blame', by simp only [run, ht, hd, hb], rfl⟩

theorem reads_run1 {word : List Char} (hm : Notes miss) (hn : word ≠ [])
    (hw : ∀ c ∈ word, test c = true) (hs : Stops test a) :
    Reads (run1 miss test) (word ++ a) a (· = word) := by
  intro offset blame errors
  obtain ⟨value, offset', blame', hr, hv⟩ := reads_run hm hw hs offset blame errors
  refine ⟨value, offset', blame', ?_, hv⟩
  subst hv
  cases value with
  | nil => exact absurd rfl hn
  | cons first rest => simp only [run1, hr]

theorem refuses_run1 (hm : Notes miss) (hs : Stops test a) :
    Refuses (run1 miss test) a := by
  intro offset blame errors
  have hnone : ∀ c ∈ ([] : List Char), test c = true := by simp
  obtain ⟨_, offset', blame', hr, rfl⟩ := reads_run hm hnone hs offset blame errors
  simp only [List.nil_append] at hr
  exact ⟨blame', by simp only [run1, hr]⟩

end Characters

theorem reads_symbol (word : List Char) : Reads (symbol word) (word ++ a) a fun _ => True := by
  induction word with
  | nil => exact Reads.pure trivial
  | cons first rest ih => exact (reads_char (by simp)).bind fun _ _ => ih

theorem refuses_symbol {first : Char} {rest : List Char} (h : Stops (· == first) a) :
    Refuses (symbol (first :: rest)) a :=
  (refuses_char h).bind

theorem Reads.orElse_left (h : Reads p a b Q) : Reads (orElse p q) a b Q := by
  intro offset blame errors
  obtain ⟨value, offset', blame', hp, hv⟩ := h offset blame errors
  exact ⟨value, offset', blame', by simp only [orElse, hp], hv⟩

theorem Reads.orElse_right (hp : Refuses p a) (hq : Reads q a b Q) :
    Reads (orElse p q) a b Q := by
  intro offset blame errors
  obtain ⟨blame₁, hb⟩ := hp offset blame errors
  obtain ⟨value, offset', blame', hv, hQ⟩ := hq offset blame₁ errors
  exact ⟨value, offset', blame', by simp only [orElse, hb, hv], hQ⟩

theorem Refuses.orElse (hp : Refuses p a) (hq : Refuses q a) : Refuses (orElse p q) a := by
  intro offset blame errors
  obtain ⟨blame₁, hb⟩ := hp offset blame errors
  obtain ⟨blame₂, hc⟩ := hq offset blame₁ errors
  exact ⟨blame₂, by simp only [Parser.orElse, hb, hc]⟩

theorem Reads.insteadRead (h : Reads p a b Q) : Reads (insteadRead p q) a b Q := by
  intro offset blame errors
  obtain ⟨value, offset', blame', hp, hv⟩ := h offset blame errors
  exact ⟨value, offset', blame', by simp only [Parser.insteadRead, hp], hv⟩

theorem Refuses.insteadRead (hp : Refuses p a) (hq : Refuses q a) :
    Refuses (insteadRead p q) a := by
  intro offset blame errors
  obtain ⟨blame₁, hb⟩ := hp offset blame errors
  obtain ⟨blame₂, hc⟩ := hq offset none errors
  exact ⟨blame₁, by simp only [Parser.insteadRead, hb, hc]⟩

theorem Reads.ahead (h : Reads p a b Q) : Reads (ahead p) a a fun _ => True := by
  intro offset blame errors
  obtain ⟨value, offset', blame', hp, hv⟩ := h offset blame errors
  exact ⟨(), offset, blame', by simp only [Parser.ahead, hp], trivial⟩

theorem Refuses.ahead (h : Refuses p a) : Refuses (ahead p) a := by
  intro offset blame errors
  obtain ⟨blame', hp⟩ := h offset blame errors
  exact ⟨blame', by simp only [Parser.ahead, hp]⟩

theorem Reads.judge {f : Span → α → Except SyntaxError β} (h : Reads p a b Q)
    (hf : ∀ span value, Q value → ∃ result, f span value = .ok result ∧ R result) :
    Reads (judge p f) a b R := by
  intro offset blame errors
  obtain ⟨value, offset', blame', hp, hv⟩ := h offset blame errors
  obtain ⟨result, hr, hR⟩ := hf ⟨offset, offset'⟩ value hv
  exact ⟨result, offset', blame', by simp only [Parser.judge, hp, hr], hR⟩

theorem Refuses.judge {f : Span → α → Except SyntaxError β} (h : Refuses p a) :
    Refuses (judge p f) a := by
  intro offset blame errors
  obtain ⟨blame', hp⟩ := h offset blame errors
  exact ⟨blame', by simp only [Parser.judge, hp]⟩

theorem Refuses.filter {test : α → Bool} (h : Refuses p a) : Refuses (filter p test) a := by
  intro offset blame errors
  obtain ⟨blame', hp⟩ := h offset blame errors
  exact ⟨blame', by simp only [Parser.filter, hp]⟩

theorem Reads.spanned (h : Reads p a b Q) : Reads (spanned p) a b fun found => Q found.1 := by
  intro offset blame errors
  obtain ⟨value, offset', blame', hp, hv⟩ := h offset blame errors
  exact ⟨(value, ⟨offset, offset'⟩), offset', blame', by simp only [Parser.spanned, hp], hv⟩

theorem Refuses.spanned (h : Refuses p a) : Refuses (spanned p) a := by
  intro offset blame errors
  obtain ⟨blame', hp⟩ := h offset blame errors
  exact ⟨blame', by simp only [Parser.spanned, hp]⟩

/-- The parser reads piece after piece, none of them empty, until it does not fit any more. -/
inductive ReadsAll (p : Parser α) : List Char → List Char → (List α → Prop) → Prop
  | stop {text : List Char} {S : List α → Prop} (refuses : Refuses p text) (none : S []) :
      ReadsAll p text text S
  | more {a b c : List Char} {Q : α → Prop} {R S : List α → Prop} (first : Reads p a b Q)
      (shorter : b.length < a.length) (others : ReadsAll p b c R)
      (both : ∀ value values, Q value → R values → S (value :: values)) : ReadsAll p a c S

theorem reads_rounds {S : List α → Prop} (h : ReadsAll p a c S) (read : List α)
    (bound : List Char) (hb : a.length ≤ bound.length) (offset : Nat) (blame : Option Blame)
    (errors : List SyntaxError) :
    ∃ values offset' blame',
      many.rounds p read bound ⟨a, offset, blame, errors⟩ =
        .done (read.reverse ++ values) ⟨c, offset', blame', errors⟩ ∧ S values := by
  induction h generalizing read bound offset blame with
  | stop refuses none =>
    obtain ⟨blame', hp⟩ := refuses offset blame errors
    refine ⟨[], offset, blame', ?_, none⟩
    rw [many.rounds.eq_def, hp, List.append_nil]
  | @more a b c Q R S first shorter others both ih =>
    obtain ⟨value, offset', blame', hp, hv⟩ := first offset blame errors
    cases bound with
    | nil => simp only [List.length_nil] at hb; omega
    | cons head bound =>
      have hl : b.length ≤ bound.length := by
        simp only [List.length_cons] at hb
        omega
      obtain ⟨values, offset'', blame'', hr, hs⟩ := ih (value :: read) bound hl offset' blame'
      refine ⟨value :: values, offset'', blame'', ?_, both value values hv hs⟩
      rw [many.rounds.eq_def, hp]
      simp only [hr, List.reverse_cons, List.append_assoc, List.cons_append, List.nil_append]

/-- A repetition reads all pieces: the text is a bound on how many there can be. -/
theorem Reads.many {S : List α → Prop} (h : ReadsAll p a c S) : Reads (many p) a c S := by
  intro offset blame errors
  exact reads_rounds h [] a (Nat.le_refl _) offset blame errors

theorem Reads.skipUntil {barrier : Char → Bool} (h : Reads p a b Q) :
    Reads (skipUntil barrier p) a b Q := by
  intro offset blame errors
  obtain ⟨value, offset', blame', hp, hv⟩ := h offset blame errors
  exact ⟨value, offset', blame', by simp only [Parser.skipUntil, hp], hv⟩

theorem search_stuck {barrier : Char → Bool}
    (h : ∀ skipped text, a = skipped ++ text → skipped ≠ [] →
      (∀ c ∈ skipped, barrier c = false) → Refuses p text)
    (blame : Option Blame) (offset : Nat) (errors : List SyntaxError) :
    skipUntil.search barrier p blame a offset errors = .stuck blame := by
  induction a generalizing offset with
  | nil => rfl
  | cons first rest ih =>
    rw [skipUntil.search]
    split
    · rfl
    · next hb =>
      have hf : barrier first = false := by simpa using hb
      obtain ⟨blame', hp⟩ := h [first] rest rfl (by simp) (by simpa using hf)
        (offset + first.utf8Size) none []
      have hrest := ih (fun skipped text he _ hs =>
        h (first :: skipped) text (by rw [he]; rfl) (by simp) (by simpa [hf] using hs))
      simp only [hp, hrest]

/-- The search finds nothing if the parser fits nowhere before the barrier. -/
theorem Refuses.skipUntil {barrier : Char → Bool}
    (h : ∀ skipped text, a = skipped ++ text → (∀ c ∈ skipped, barrier c = false) →
      Refuses p text) : Refuses (skipUntil barrier p) a := by
  intro offset blame errors
  obtain ⟨blame', hp⟩ := h [] a rfl (by simp) offset blame errors
  refine ⟨blame', ?_⟩
  simp only [Parser.skipUntil, hp]
  exact search_stuck (fun skipped text he _ hs => h skipped text he hs) ..

end ScriptKit.Listing.Parser
