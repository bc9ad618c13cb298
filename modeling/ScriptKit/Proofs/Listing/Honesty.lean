import ScriptKit.Listing.Parse
import ScriptKit.Proofs.Listing.Outcome
import ScriptKit.Proofs.Listing.Trivia

namespace ScriptKit.Listing

variable {text : List Char} {span other : Span}

/-- A range of bytes of the text that splits no character. -/
structure Span.LiesIn (span : Span) (text : List Char) : Prop where
  ordered : span.start ≤ span.stop
  start : Utf8.IsBoundary text span.start
  stop : Utf8.IsBoundary text span.stop

theorem Span.LiesIn.hull (h : span.LiesIn text) (ho : other.LiesIn text) :
    (span.hull other).LiesIn text where
  ordered := by
    have := h.ordered
    simp only [Span.hull]
    omega
  start := h.start.min ho.start
  stop := h.stop.max ho.stop

namespace State

variable {s middle s' : State} {blame : Option Blame} {error : SyntaxError}

/-- The second state is reached from the first by reading on. -/
def Before (s s' : State) : Prop :=
  ∃ read, s.rest = read ++ s'.rest ∧ s'.offset = s.offset + Utf8.size read

theorem Before.refl (s : State) : s.Before s := ⟨[], rfl, rfl⟩

theorem Before.trans (h : s.Before middle) (ho : middle.Before s') : s.Before s' := by
  obtain ⟨first, hf, hfo⟩ := h
  obtain ⟨second, hs, hso⟩ := ho
  refine ⟨first ++ second, by rw [hf, hs, List.append_assoc], ?_⟩
  rw [hso, hfo, Utf8.size_append, Nat.add_assoc]

theorem Before.offset_le (h : s.Before s') : s.offset ≤ s'.offset := by
  obtain ⟨read, -, ho⟩ := h
  omega

/-- The bytes of what was read tell how far it goes. -/
theorem Before.offset_eq (h : s.Before s') {word : List Char} (hr : s.rest = word ++ s'.rest) :
    s'.offset = s.offset + Utf8.size word := by
  obtain ⟨read, hread, ho⟩ := h
  rw [ho, List.append_cancel_right (hread.symm.trans hr)]

theorem Before.suffix (h : s.Before s') : s'.rest <:+ s.rest := by
  obtain ⟨read, hr, -⟩ := h
  exact ⟨read, hr.symm⟩

@[simp] theorem report_rest (s : State) (blame : Option Blame) :
    (s.report blame).rest = s.rest := by
  cases blame <;> rfl

@[simp] theorem report_offset (s : State) (blame : Option Blame) :
    (s.report blame).offset = s.offset := by
  cases blame <;> rfl

/-- What was read on the way is a part of the text. -/
theorem Before.liesIn (h : s.Before s') (hs : (ofText text).Before s) :
    Span.LiesIn ⟨s.offset, s'.offset⟩ text := by
  have hend := hs.trans h
  obtain ⟨read, hr, ho⟩ := hs
  obtain ⟨all, ha, hao⟩ := hend
  refine ⟨h.offset_le, ⟨read, s.rest, hr, ?_⟩, ⟨all, s'.rest, ha, ?_⟩⟩
  · simpa [ofText] using ho.symm
  · simpa [ofText] using hao.symm

/-- The next character, or nothing at the end of the text. -/
theorem nextSpan_liesIn (hs : (ofText text).Before s) : s.nextSpan.LiesIn text := by
  rw [nextSpan]
  split
  · exact (Before.refl s).liesIn hs
  · next c rest hc =>
    have hnext : s.Before { s with rest, offset := s.offset + c.utf8Size } := ⟨[c], hc, by simp⟩
    exact hnext.liesIn hs

/-- The state is one of reading the text, and all faults known so far lie in it. -/
structure Sound (text : List Char) (s : State) : Prop where
  place : (ofText text).Before s
  errors : ∀ error ∈ s.errors, error.span.LiesIn text
  blame : ∀ known ∈ s.blame, known.error.span.LiesIn text

theorem sound_ofText (text : List Char) : (ofText text).Sound text :=
  ⟨Before.refl _, by simp [ofText], by simp [ofText]⟩

/-- There is a fault to report, and it lies in the text. -/
def Explains (s : State) (blame : Option Blame) : Prop :=
  ∃ known, blame = some known ∧ ∀ text, s.Sound text → known.error.span.LiesIn text

/-- The second state is reached from the first, and the reports of the first stay. -/
structure Leads (s s' : State) : Prop where
  before : s.Before s'
  keeps : s.errors <:+ s'.errors
  sound : ∀ text, s.Sound text → s'.Sound text

theorem Leads.refl (s : State) : s.Leads s := ⟨.refl s, List.suffix_rfl, fun _ => id⟩

theorem Leads.trans (h : s.Leads middle) (ho : middle.Leads s') : s.Leads s' :=
  ⟨h.before.trans ho.before, h.keeps.trans ho.keeps, fun text hs => ho.sound text (h.sound text hs)⟩

/-- Where nothing new is reported on the whole way, nothing is on either half. -/
theorem Leads.errors_eq (h : s.Leads middle) (ho : middle.Leads s') (he : s'.errors = s.errors) :
    middle.errors = s.errors ∧ s'.errors = middle.errors := by
  have hm : middle.errors = s.errors :=
    (h.keeps.eq_of_length_le (he ▸ ho.keeps.length_le)).symm
  exact ⟨hm, he.trans hm.symm⟩

theorem Leads.explains (h : s.Leads middle) (hb : middle.Explains blame) : s.Explains blame := by
  obtain ⟨known, rfl, hk⟩ := hb
  exact ⟨known, rfl, fun text hs => hk text (h.sound text hs)⟩

/-- Another fault may be kept in mind if it lies in the text. -/
theorem Leads.withBlame (h : s.Leads s')
    (hb : ∀ known ∈ blame, ∀ text, s.Sound text → known.error.span.LiesIn text) :
    s.Leads { s' with blame } where
  before := h.before
  keeps := h.keeps
  sound text hs :=
    ⟨(h.sound text hs).place, (h.sound text hs).errors, fun known hk => hb known hk text hs⟩

theorem Explains.leads (hb : s.Explains blame) : s.Leads { s with blame } := by
  obtain ⟨known, rfl, hk⟩ := hb
  refine (Leads.refl s).withBlame ?_
  rintro _ ⟨rfl⟩
  exact hk

/-- A report is a new one. -/
theorem Leads.report (h : s.Leads s') (hb : s.Explains blame) :
    s.Leads (s'.report blame) ∧ (s'.report blame).errors ≠ s.errors := by
  obtain ⟨known, rfl, hk⟩ := hb
  refine ⟨⟨h.before, h.keeps.trans (List.suffix_cons ..), fun text hs => ?_⟩, fun he => ?_⟩
  · obtain ⟨hp, he, hb⟩ := h.sound text hs
    refine ⟨hp, ?_, hb⟩
    rintro error hm
    rcases List.mem_cons.mp hm with rfl | hm
    · exact hk text hs
    · exact he error hm
  · have hl := h.keeps.length_le
    rw [← he, State.report, List.length_cons] at hl
    omega

end State

namespace Parser

variable {α β : Type} {p q : Parser α} {Q Q' : α → Prop} {R : β → Prop} {s s' : State}

/-- Whatever the parser reports, or blames where it is stuck, lies in the text; it takes no report
back; and if it reports nothing new, what it yields is as described. -/
structure Honest (p : Parser α) (Q : α → Prop) : Prop where
  done : ∀ s value s', p s = .done value s' → s.Leads s' ∧ (s'.errors = s.errors → Q value)
  stuck : ∀ s blame, p s = .stuck blame → s.Explains blame

theorem Honest.mono (h : Honest p Q) (hq : ∀ value, Q value → Q' value) : Honest p Q' where
  done s value s' hd := ⟨(h.done s value s' hd).1, fun he => hq value ((h.done s value s' hd).2 he)⟩
  stuck := h.stuck

theorem Honest.pure {value : α} (h : Q value) : Honest (pure value) Q where
  done s found s' hd := by
    obtain ⟨rfl, rfl⟩ := pure_eq_done.mp hd
    exact ⟨.refl s', fun _ => h⟩
  stuck s blame hs := absurd hs pure_ne_stuck

theorem Honest.bind {f : α → Parser β} (hp : Honest p Q)
    (hf : ∀ value, Honest (f value) fun result => Q value → R result) : Honest (p >>= f) R where
  done s result s' hd := by
    obtain ⟨value, middle, hv, hr⟩ := bind_eq_done.mp hd
    obtain ⟨hfirst, hq⟩ := hp.done s value middle hv
    obtain ⟨hsecond, hR⟩ := (hf value).done middle result s' hr
    refine ⟨hfirst.trans hsecond, fun he => ?_⟩
    obtain ⟨hm, hm'⟩ := hfirst.errors_eq hsecond he
    exact hR hm' (hq hm)
  stuck s blame hs := by
    rcases bind_eq_stuck.mp hs with hs | ⟨value, middle, hv, hs⟩
    · exact hp.stuck s blame hs
    · exact (hp.done s value middle hv).1.explains ((hf value).stuck middle blame hs)

/-- What is noted where a character does not fit lies in the text. -/
def Tells (miss : State → State) : Prop :=
  ∀ s, ∃ blame, miss s = { s with blame } ∧ s.Explains blame

theorem Tells.notes {miss : State → State} (h : Tells miss) : Notes miss := fun s =>
  (h s).imp fun _ hb => hb.1

theorem tells_mismatch {error : SyntaxError} (s : State) (place : Nat)
    (h : ∀ text, s.Sound text → error.span.LiesIn text) :
    ∃ blame, s.mismatch place error = { s with blame } ∧ s.Explains blame := by
  rw [State.mismatch]
  split
  · next known hk =>
    split
    · exact ⟨_, rfl, _, rfl, h⟩
    · exact ⟨s.blame, rfl, known, hk, fun text hs => hs.blame known hk⟩
  · exact ⟨_, rfl, _, rfl, h⟩

theorem tells_here : Tells unexpectedHere := fun s =>
  tells_mismatch s _ fun _ hs => State.nextSpan_liesIn hs.place

theorem tells_kind : Tells unexpectedKind := fun s =>
  tells_mismatch s _ fun _ hs => State.nextSpan_liesIn hs.place

theorem tells_lineEnd : Tells unexpectedLineEnd := by
  intro s
  rw [unexpectedLineEnd]
  split
  · next rest hr =>
    refine tells_mismatch s _ fun _ hs => ?_
    have hnext : s.Before { s with rest, offset := s.offset + 2 } := ⟨['\r', '\n'], hr, rfl⟩
    exact hnext.liesIn hs.place
  · exact tells_mismatch s _ fun _ hs => State.nextSpan_liesIn hs.place

theorem tells_nonBlank : Tells unexpectedNonBlank := by
  intro s
  rw [unexpectedNonBlank]
  split
  · exact tells_here s
  · exact ⟨_, rfl, _, rfl, fun _ hs => State.nextSpan_liesIn hs.place⟩

section Characters

variable {miss : State → State} {test : Char → Bool}

theorem honest_char (hm : Tells miss) : Honest (char miss test) fun _ => True where
  done s c s' hd := by
    obtain ⟨-, rest, hr, rfl⟩ := char_eq_done.mp hd
    refine ⟨⟨⟨[c], hr, by simp⟩, List.suffix_rfl, fun text hs => ?_⟩, fun _ => trivial⟩
    exact ⟨hs.place.trans ⟨[c], hr, by simp⟩, hs.errors, hs.blame⟩
  stuck s blame hs := by
    obtain ⟨-, rfl⟩ := char_eq_stuck.mp hs
    obtain ⟨blame, he, hb⟩ := hm s
    rwa [he]

/-- Reading a run leads on, and what is noted at its end explains why it ends there. -/
theorem leads_run (hm : Tells miss) {word : List Char} (h : run miss test s = .done word s') :
    s.Leads s' ∧ s.Explains s'.blame := by
  obtain ⟨-, rfl⟩ := run_eq_done.mp h
  have hread : s.Before { s with
      rest := s.rest.dropWhile test
      offset := s.offset + Utf8.size (s.rest.takeWhile test) } :=
    ⟨s.rest.takeWhile test, List.takeWhile_append_dropWhile.symm, rfl⟩
  have hleads : s.Leads { s with
      rest := s.rest.dropWhile test
      offset := s.offset + Utf8.size (s.rest.takeWhile test) } :=
    ⟨hread, List.suffix_rfl, fun text hs => ⟨hs.place.trans hread, hs.errors, hs.blame⟩⟩
  obtain ⟨blame, he, hb⟩ := hm { s with
    rest := s.rest.dropWhile test
    offset := s.offset + Utf8.size (s.rest.takeWhile test) }
  rw [he]
  exact ⟨hleads.trans hb.leads, hleads.explains hb⟩

theorem honest_run (hm : Tells miss) : Honest (run miss test) fun _ => True where
  done _ _ _ hd := ⟨(leads_run hm hd).1, fun _ => trivial⟩
  stuck _ _ hs := absurd hs run_ne_stuck

theorem honest_run1 (hm : Tells miss) : Honest (run1 miss test) fun _ => True where
  done _ _ _ hd := ⟨(leads_run hm (run1_eq_done.mp hd).2).1, fun _ => trivial⟩
  stuck _ _ hs := by
    obtain ⟨middle, hr, rfl⟩ := run1_eq_stuck.mp hs
    exact (leads_run hm hr).2

end Characters

theorem honest_symbol (word : List Char) : Honest (symbol word) fun _ => True := by
  induction word with
  | nil => exact .pure trivial
  | cons c rest ih => exact (honest_char tells_here).bind fun _ => ih.mono fun _ _ _ => trivial

theorem honest_endOfText : Honest endOfText fun _ => True where
  done s u s' hd := by
    obtain ⟨-, rfl⟩ := endOfText_eq_done.mp hd
    exact ⟨.refl s', fun _ => trivial⟩
  stuck s blame hs := by
    obtain ⟨-, rfl⟩ := endOfText_eq_stuck.mp hs
    obtain ⟨blame, he, hb⟩ := tells_here s
    rwa [he]

theorem Honest.orElse (hp : Honest p Q) (hq : Honest q Q) : Honest (orElse p q) Q where
  done s value s' hd := by
    rcases orElse_eq_done.mp hd with hd | ⟨blame, hs, hd⟩
    · exact hp.done s value s' hd
    · obtain ⟨hl, hQ⟩ := hq.done { s with blame } value s' hd
      exact ⟨(hp.stuck s blame hs).leads.trans hl, hQ⟩
  stuck s blame hs := by
    obtain ⟨first, hf, hs⟩ := orElse_eq_stuck.mp hs
    exact (hp.stuck s first hf).leads.explains (hq.stuck { s with blame := first } blame hs)

/-- What is read in the stead of something else is always reported. -/
theorem Honest.of_insteadRead (hp : Honest p Q) (hq : Honest q fun _ => True) {value : α}
    (hd : insteadRead p q s = .done value s') :
    p s = .done value s' ∨ s.Leads s' ∧ s'.errors ≠ s.errors := by
  rcases insteadRead_eq_done.mp hd with hd | ⟨blame, middle, hs, hm, rfl⟩
  · exact .inl hd
  · have hforget : s.Leads { s with blame := none } := (State.Leads.refl s).withBlame (by simp)
    have hl := (hq.done { s with blame := none } value middle hm).1
    exact .inr ((hforget.trans hl).report (hp.stuck s blame hs))

theorem Honest.insteadRead (hp : Honest p Q) (hq : Honest q fun _ => True) :
    Honest (insteadRead p q) Q where
  done s value s' hd := by
    rcases hp.of_insteadRead hq hd with hd | ⟨hl, hnew⟩
    · exact hp.done s value s' hd
    · exact ⟨hl, fun he => absurd he hnew⟩
  stuck s blame hs := hp.stuck s blame (insteadRead_eq_stuck.mp hs).1

theorem Honest.ahead (h : Honest p Q) : Honest (ahead p) fun _ => True where
  done s u s' hd := by
    obtain ⟨value, middle, hv, rfl⟩ := ahead_eq_done.mp hd
    have hl := (h.done s value middle hv).1
    refine ⟨(State.Leads.refl s).withBlame fun known hk text hs => ?_, fun _ => trivial⟩
    exact (hl.sound text hs).blame known hk
  stuck s blame hs := h.stuck s blame (ahead_eq_stuck.mp hs)

theorem Honest.judge {f : Span → α → Except SyntaxError β} (h : Honest p Q)
    (hok : ∀ span value result, f span value = .ok result → R result)
    (herror : ∀ span value error, f span value = .error error → error.span = span) :
    Honest (judge p f) R where
  done s result s' hd := by
    obtain ⟨value, hv, hr⟩ := judge_eq_done.mp hd
    exact ⟨(h.done s value s' hv).1, fun _ => hok _ value result hr⟩
  stuck s blame hs := by
    rcases judge_eq_stuck.mp hs with hs | ⟨value, middle, error, hv, hr, rfl⟩
    · exact h.stuck s blame hs
    · refine ⟨_, rfl, fun text hsound => ?_⟩
      rw [herror _ value error hr]
      exact (h.done s value middle hv).1.before.liesIn hsound.place

theorem Honest.filter {test : α → Bool} (h : Honest p fun _ => True) :
    Honest (filter p test) fun value => test value = true where
  done s value s' hd := by
    obtain ⟨hv, ht⟩ := filter_eq_done.mp hd
    exact ⟨(h.done s value s' hv).1, fun _ => ht⟩
  stuck s blame hs := by
    rcases filter_eq_stuck.mp hs with hs | ⟨value, middle, hv, -, rfl⟩
    · exact h.stuck s blame hs
    · have hl := (h.done s value middle hv).1
      rw [State.mismatch]
      split
      · next known hk =>
        split
        · exact ⟨_, rfl, fun text hs => hl.before.liesIn hs.place⟩
        · exact ⟨known, hk, fun text hs => (hl.sound text hs).blame known hk⟩
      · exact ⟨_, rfl, fun text hs => hl.before.liesIn hs.place⟩

theorem Honest.spanned (h : Honest p Q) : Honest (spanned p) fun found => Q found.1 where
  done s found s' hd := h.done s found.1 s' (spanned_eq_done.mp hd).1
  stuck s blame hs := h.stuck s blame (spanned_eq_stuck.mp hs)

/-- What one round of a repetition keeps, all rounds keep. -/
theorem Honest.rounds (h : Honest p Q) {values : List α} (hr : Rounds p s values s') :
    s.Leads s' ∧ (s'.errors = s.errors → ∀ value ∈ values, Q value) := by
  induction hr with
  | @stop s blame stuck => exact ⟨(h.stuck s blame stuck).leads, fun _ => by simp⟩
  | @last s s' value done =>
    obtain ⟨hl, hq⟩ := h.done s value s' done
    exact ⟨hl, fun he => by simpa using hq he⟩
  | @more s middle s' value values done others ih =>
    obtain ⟨hfirst, hq⟩ := h.done s value middle done
    obtain ⟨hothers, hall⟩ := ih
    refine ⟨hfirst.trans hothers, fun he => ?_⟩
    obtain ⟨hm, hm'⟩ := hfirst.errors_eq hothers he
    exact List.forall_mem_cons.mpr ⟨hq hm, hall hm'⟩

theorem Honest.many (h : Honest p Q) : Honest (many p) fun values => ∀ value ∈ values, Q value where
  done _ _ _ hd := h.rounds (rounds_of_many hd)
  stuck _ _ hs := absurd hs many_ne_stuck

/-- What is found behind skipped characters is always reported. -/
theorem Honest.of_skipUntil {barrier : Char → Bool} (h : Honest p Q) {value : α}
    (hd : skipUntil barrier p s = .done value s') :
    p s = .done value s' ∨ s.Leads s' ∧ s'.errors ≠ s.errors := by
  rcases skipUntil_eq_done.mp hd with hd | ⟨blame, hs, hd⟩
  · exact .inl hd
  · obtain ⟨skipped, rest, found, hr, hv, -, rfl⟩ := of_search_eq_done hd
    have hl := (h.done ⟨rest, s.offset + Utf8.size skipped, none, []⟩ value found hv).1
    have hskip : s.Before ⟨rest, s.offset + Utf8.size skipped, none, []⟩ := ⟨skipped, hr, rfl⟩
    have hfound : s.Leads { found with errors := s.errors } := by
      refine ⟨hskip.trans hl.before, List.suffix_rfl, fun text hsound => ?_⟩
      have hstart : (⟨rest, s.offset + Utf8.size skipped, none, []⟩ : State).Sound text :=
        ⟨hsound.place.trans hskip, by simp, by simp⟩
      have hend := hl.sound text hstart
      exact ⟨hend.place, hsound.errors, hend.blame⟩
    exact .inr (hfound.report (h.stuck s blame hs))

theorem Honest.skipUntil {barrier : Char → Bool} (h : Honest p Q) :
    Honest (skipUntil barrier p) Q where
  done s value s' hd := by
    rcases h.of_skipUntil hd with hd | ⟨hl, hnew⟩
    · exact h.done s value s' hd
    · exact ⟨hl, fun he => absurd he hnew⟩
  stuck s blame hs := h.stuck s blame (stuck_of_skipUntil hs)

end Parser

open Listing.Parser Text

theorem honest_blanks : Honest blanks fun _ => True :=
  (honest_run1 tells_nonBlank).bind fun _ => .pure fun _ => trivial

theorem honest_comment : Honest comment fun _ => True :=
  (honest_symbol _).bind fun _ =>
    (honest_run tells_lineEnd).bind fun _ => .pure fun _ _ => trivial

theorem honest_trivia : Honest trivia fun _ => True :=
  (honest_comment.orElse honest_blanks).many.bind fun _ => .pure fun _ => trivial

theorem span_of_numberValue (radix : Nat) {span : Span} {digits : List Char} {error : SyntaxError}
    (h : numberValue radix span digits = .error error) : error.span = span := by
  rw [numberValue] at h
  split at h
  · cases h
  · cases h
    rfl

/-- Only the place of a refusal depends on the place of the digits. -/
theorem toOption_numberValue (radix : Nat) (span other : Span) (digits : List Char) :
    (numberValue radix span digits).toOption = (numberValue radix other digits).toOption := by
  simp only [numberValue]
  split
  · rfl
  · rfl

theorem span_of_hexValue {span : Span} {digits : List Char} {error : SyntaxError}
    (h : hexValue span digits = .error error) : error.span = span := by
  rw [hexValue] at h
  split at h
  · cases h
  · cases h
    rfl

theorem toOption_hexValue (span other : Span) (digits : List Char) :
    (hexValue span digits).toOption = (hexValue other digits).toOption := by
  simp only [hexValue]
  split
  · rfl
  · rfl

theorem honest_unsignedNumber : Honest unsignedNumber fun _ => True := by
  have hmarked : ∀ mark radix, Honest (markedNumber mark radix) fun _ => True := fun mark radix =>
    Honest.judge
      ((honest_symbol mark).bind fun _ => (honest_run1 tells_kind).mono fun _ _ _ => trivial)
      (fun _ _ _ _ => trivial) fun _ _ _ => span_of_numberValue radix
  have hdecimal : Honest decimalNumber fun _ => True :=
    (honest_char tells_kind).ahead.bind fun _ =>
      (honest_run1 tells_kind).judge (fun _ _ _ _ _ => trivial)
        fun _ _ _ => span_of_numberValue 10
  exact (hmarked _ _).orElse ((hmarked _ _).orElse hdecimal)

theorem honest_number : Honest number fun _ => True := by
  have hnegative : Honest negativeNumber fun _ => True :=
    (honest_symbol _).bind fun _ =>
      honest_unsignedNumber.bind fun _ => .pure fun _ _ => trivial
  have hend : Honest numberEnd fun _ => True :=
    honest_endOfText.orElse (honest_blanks.orElse
      ((honest_char tells_here).bind fun _ => .pure fun _ => trivial))
  exact (hnegative.orElse honest_unsignedNumber).bind fun _ =>
    hend.ahead.bind fun _ => .pure fun _ _ => trivial

/-- A literal without its closing mark is reported. -/
theorem honest_closing (mark : Char) {rest : Parser Unit} (h : Honest rest fun _ => True) :
    Honest (closing mark rest) (· = true) :=
  Honest.insteadRead ((honest_symbol _).bind fun _ => .pure fun _ => rfl)
    (h.bind fun _ => .pure fun _ => trivial)

theorem honest_hexBytes :
    Honest (judge (run unexpectedKind isHexChar) hexValue) (· ≠ none) := by
  refine (honest_run tells_kind).judge ?_ fun _ _ _ => span_of_hexValue
  intro span digits result h
  rw [hexValue] at h
  split at h
  · cases h
    exact nofun
  · cases h

/-- What is read in the stead of the digits of a byte string. -/
theorem honest_otherDigits :
    Honest (do let _ ← run unexpectedKind isHexChar; pure (none : Option Bytes)) fun _ => True :=
  (honest_run tells_kind).bind fun _ => .pure fun _ => trivial

/-- What is read in the stead of the mark that closes a byte string. -/
theorem honest_otherBrace : Honest (do
    let _ ← run unexpectedHere fun c => c != '}' && c != '\n'
    orElse (symbol ['}']) (pure ())) fun _ => True :=
  (honest_run tells_here).bind fun _ =>
    ((honest_symbol _).orElse (.pure trivial)).mono fun _ _ _ => trivial

theorem honest_byteString : Honest byteString (· ≠ .unreadable) := by
  refine (honest_symbol _).bind fun _ =>
    (honest_hexBytes.insteadRead honest_otherDigits).bind fun bytes => ?_
  refine (honest_closing '}' honest_otherBrace).bind fun closed => .pure ?_
  rintro rfl hb -
  cases bytes with
  | none => exact absurd rfl hb
  | some bytes => exact nofun

/-- One character of a text in quotes. -/
theorem honest_textChar :
    Honest (orElse (char unexpectedHere isPlainChar) escapedChar) fun _ => True := by
  refine (honest_char tells_here).orElse ((honest_symbol _).bind fun _ =>
    (honest_char tells_here).judge (fun _ _ _ _ _ => trivial) ?_)
  intro span c error h
  split at h
  · cases h
  · cases h
    rfl

/-- What is read in the stead of the mark that closes a text. -/
theorem honest_otherQuote : Honest (do let _ ← run unexpectedHere (· != '\n')) fun _ => True :=
  (honest_run tells_here).bind fun _ => .pure fun _ => trivial

theorem honest_quotedText : Honest quotedText (· ≠ .unreadable) := by
  refine (honest_symbol _).bind fun _ => honest_textChar.many.bind fun text => ?_
  refine (honest_closing '"' honest_otherQuote).bind fun closed => .pure ?_
  rintro rfl - -
  exact nofun

theorem honest_serviceName : Honest serviceName (· ≠ .unreadable) := by
  refine Honest.mono (Honest.filter ?_) ?_
  · exact (honest_char tells_kind).ahead.bind fun _ =>
      (honest_run1 tells_kind).bind fun _ => .pure fun _ _ => trivial
  · rintro _ h rfl
    cases h

theorem honest_literal : Honest literal (· ≠ .unreadable) :=
  (honest_number.bind fun _ => .pure fun _ => nofun).orElse
    (honest_byteString.orElse (honest_quotedText.orElse honest_serviceName))

/-- What is read in the stead of a literal. -/
theorem honest_otherLiteral : Honest (do
    let _ ← run1 unexpectedKind fun c => !isBlank c && c != ',' && c != '/'
    pure Literal.unreadable) fun _ => True :=
  (honest_run1 tells_kind).bind fun _ => .pure fun _ => trivial

theorem honest_argument : Honest argument (·.value ≠ .unreadable) :=
  (honest_literal.insteadRead honest_otherLiteral).spanned.bind fun _ => .pure id

theorem honest_separator : Honest separator fun _ => True :=
  honest_trivia.bind fun _ => (honest_symbol _).bind fun _ =>
    honest_trivia.mono fun _ _ _ _ => trivial

theorem honest_comma : Honest comma fun _ => True := honest_separator.skipUntil

theorem honest_nextArgument : Honest (do comma; argument) (·.value ≠ .unreadable) :=
  honest_comma.bind fun _ => honest_argument.mono fun _ h _ => h

theorem honest_arguments : Honest arguments fun args => ∀ arg ∈ args, arg.value ≠ .unreadable := by
  refine Honest.orElse (honest_argument.bind fun first => honest_nextArgument.many.bind
    fun others => .pure ?_) (.pure (by simp))
  intro ho hf
  exact List.forall_mem_cons.mpr ⟨hf, ho⟩

/-- A misspelt mnemonic is reported. -/
theorem honest_mnemonic : Honest mnemonic (· ≠ unreadableMnemonic) where
  done s name s' hd := by
    rw [mnemonic] at hd
    split at hd
    · next word middle hw =>
      have hl := ((honest_run1 tells_kind).done s word middle hw).1
      split at hd
      · next hnone =>
        cases hd
        refine ⟨hl, fun _ he => ?_⟩
        have hword : word = unreadableMnemonic.toList := by rw [← he, String.toList_ofList]
        subst hword
        exact absurd hnone (by decide)
      · next c hc =>
        cases hd
        have hexplains : s.Explains
            (some ⟨s.offset, .unexpected ⟨s.offset, middle.offset⟩ (some c)⟩) :=
          ⟨_, rfl, fun text hs => hl.before.liesIn hs.place⟩
        obtain ⟨hr, hnew⟩ := hl.report hexplains
        exact ⟨hr, fun he => absurd he hnew⟩
    · cases hd
  stuck s blame hs := by
    rw [mnemonic] at hs
    split at hs
    · split at hs <;> cases hs
    · next hw =>
      cases hs
      exact (honest_run1 tells_kind).stuck s blame hw

/-- Every part of the statement could be read. -/
structure Statement.IsReadable (s : Statement) : Prop where
  mnemonic : s.mnemonic ≠ unreadableMnemonic
  args : ∀ arg ∈ s.args, arg.value ≠ .unreadable

theorem honest_statement : Honest statement Statement.IsReadable := by
  refine honest_mnemonic.spanned.bind fun found => (honest_run tells_nonBlank).bind fun _ =>
    honest_arguments.bind fun args => .pure ?_
  intro ha _ hm
  exact ⟨hm, ha⟩

/-- A statement with the trivia behind it. -/
def wholeStatement : Parser Statement := do
  let statement ← statement
  trivia
  pure statement

theorem honest_wholeStatement : Honest wholeStatement Statement.IsReadable :=
  honest_statement.bind fun _ => honest_trivia.bind fun _ => .pure fun _ hs => hs

/-- The next statement on the line. -/
def nextStatement : Parser Statement := skipUntil isLineEnd wholeStatement

theorem honest_nextStatement : Honest nextStatement Statement.IsReadable :=
  honest_wholeStatement.skipUntil

theorem honest_statements : Honest statements fun ss => ∀ s ∈ ss, s.IsReadable :=
  honest_trivia.bind fun _ => honest_nextStatement.many.mono fun _ h _ => h

theorem total_trivia : Total trivia := (Total.many _).bind fun _ => .pure ()

/-- The statements that could be read are always given, also if something was left behind them. -/
theorem exists_statements (s : State) : ∃ ss s', statements s = .done ss s' :=
  Total.exists_done (total_trivia.bind fun _ => Total.many _) s

end ScriptKit.Listing
