import ScriptKit.Proofs.Except
import ScriptKit.Proofs.Listing.Commented.Near
import ScriptKit.Proofs.Listing.Repetition

namespace ScriptKit.Listing

open Listing.Parser Text

namespace Parser

variable {α β : Type} {comment behind : List Char} {p q : Parser α} {test : Char → Bool}

/-- The parser makes the same of both texts, and reports nothing. -/
structure Exact (comment behind : List Char) (p : Parser α) : Prop where
  done : ∀ s t value s', Near comment behind s.rest t.rest → p s = .done value s' →
    s'.errors = s.errors ∧ ∃ t', p t = .done value t' ∧ t'.errors = t.errors ∧
      Near comment behind s'.rest t'.rest
  stuck : ∀ s t blame, Near comment behind s.rest t.rest → p s = .stuck blame →
    ∃ blame', p t = .stuck blame'

namespace Exact

theorem pure (value : α) : Exact comment behind (pure value : Parser α) where
  done s t found s' hn hd := by
    obtain ⟨rfl, rfl⟩ := pure_eq_done.mp hd
    exact ⟨rfl, t, rfl, rfl, hn⟩
  stuck s t blame hn hs := absurd hs pure_ne_stuck

theorem bind {f : α → Parser β} (hp : Exact comment behind p)
    (hf : ∀ value, Exact comment behind (f value)) : Exact comment behind (p >>= f) where
  done s t result s' hn hd := by
    obtain ⟨value, middle, hv, hr⟩ := bind_eq_done.mp hd
    obtain ⟨he, middle', hv', he', hm⟩ := hp.done s t value middle hn hv
    obtain ⟨hl, t', hr', hl', ht⟩ := (hf value).done middle middle' result s' hm hr
    exact ⟨hl.trans he, t', bind_eq_done.mpr ⟨value, middle', hv', hr'⟩, hl'.trans he', ht⟩
  stuck s t blame hn hs := by
    rcases bind_eq_stuck.mp hs with hs | ⟨value, middle, hv, hs⟩
    · obtain ⟨blame', hs'⟩ := hp.stuck s t blame hn hs
      exact ⟨blame', bind_eq_stuck.mpr (.inl hs')⟩
    · obtain ⟨-, middle', hv', -, hm⟩ := hp.done s t value middle hn hv
      obtain ⟨blame', hs'⟩ := (hf value).stuck middle middle' blame hm hs
      exact ⟨blame', bind_eq_stuck.mpr (.inr ⟨value, middle', hv', hs'⟩)⟩

theorem orElse (hp : Exact comment behind p) (hq : Exact comment behind q) :
    Exact comment behind (orElse p q) where
  done s t value s' hn hd := by
    rcases orElse_eq_done.mp hd with hd | ⟨blame, hs, hd⟩
    · obtain ⟨he, t', hd', he', hm⟩ := hp.done s t value s' hn hd
      exact ⟨he, t', orElse_eq_done.mpr (.inl hd'), he', hm⟩
    · obtain ⟨blame', hs'⟩ := hp.stuck s t blame hn hs
      obtain ⟨he, t', hd', he', hm⟩ :=
        hq.done { s with blame } { t with blame := blame' } value s' hn hd
      exact ⟨he, t', orElse_eq_done.mpr (.inr ⟨blame', hs', hd'⟩), he', hm⟩
  stuck s t blame hn hs := by
    obtain ⟨first, hf, hs⟩ := orElse_eq_stuck.mp hs
    obtain ⟨first', hf'⟩ := hp.stuck s t first hn hf
    obtain ⟨blame', hs'⟩ :=
      hq.stuck { s with blame := first } { t with blame := first' } blame hn hs
    exact ⟨blame', orElse_eq_stuck.mpr ⟨first', hf', hs'⟩⟩

theorem ahead (hp : Exact comment behind p) : Exact comment behind (ahead p) where
  done s t u s' hn hd := by
    obtain ⟨value, middle, hv, rfl⟩ := ahead_eq_done.mp hd
    obtain ⟨-, middle', hv', -, -⟩ := hp.done s t value middle hn hv
    exact ⟨rfl, _, ahead_eq_done.mpr ⟨value, middle', hv', rfl⟩, rfl, hn⟩
  stuck s t blame hn hs := by
    obtain ⟨blame', hs'⟩ := hp.stuck s t blame hn (ahead_eq_stuck.mp hs)
    exact ⟨blame', ahead_eq_stuck.mpr hs'⟩

/-- What is judged may not depend on the place. -/
theorem judge {f : Span → α → Except SyntaxError β} (hp : Exact comment behind p)
    (hf : ∀ span other value, (f span value).toOption = (f other value).toOption) :
    Exact comment behind (judge p f) where
  done s t result s' hn hd := by
    obtain ⟨value, hv, hr⟩ := judge_eq_done.mp hd
    obtain ⟨he, t', hv', he', hm⟩ := hp.done s t value s' hn hv
    have hr' : f ⟨t.offset, t'.offset⟩ value = .ok result := by
      rw [← toOption_eq_some, hf _ ⟨s.offset, s'.offset⟩, toOption_eq_some]
      exact hr
    exact ⟨he, t', judge_eq_done.mpr ⟨value, hv', hr'⟩, he', hm⟩
  stuck s t blame hn hs := by
    rcases judge_eq_stuck.mp hs with hs | ⟨value, middle, error, hv, hr, -⟩
    · obtain ⟨blame', hs'⟩ := hp.stuck s t blame hn hs
      exact ⟨blame', judge_eq_stuck.mpr (.inl hs')⟩
    · obtain ⟨-, middle', hv', -, -⟩ := hp.done s t value middle hn hv
      have hsame := hf ⟨s.offset, middle.offset⟩ ⟨t.offset, middle'.offset⟩ value
      rw [hr] at hsame
      cases hr' : f ⟨t.offset, middle'.offset⟩ value with
      | ok result =>
        rw [hr'] at hsame
        cases hsame
      | error error' =>
        exact ⟨_, judge_eq_stuck.mpr (.inr ⟨value, middle', error', hv', hr', rfl⟩)⟩

theorem filter {keep : α → Bool} (hp : Exact comment behind p) :
    Exact comment behind (filter p keep) where
  done s t value s' hn hd := by
    obtain ⟨hv, hk⟩ := filter_eq_done.mp hd
    obtain ⟨he, t', hv', he', hm⟩ := hp.done s t value s' hn hv
    exact ⟨he, t', filter_eq_done.mpr ⟨hv', hk⟩, he', hm⟩
  stuck s t blame hn hs := by
    rcases filter_eq_stuck.mp hs with hs | ⟨value, middle, hv, hk, -⟩
    · obtain ⟨blame', hs'⟩ := hp.stuck s t blame hn hs
      exact ⟨blame', filter_eq_stuck.mpr (.inl hs')⟩
    · obtain ⟨-, middle', hv', -, -⟩ := hp.done s t value middle hn hv
      exact ⟨_, filter_eq_stuck.mpr (.inr ⟨value, middle', hv', hk, rfl⟩)⟩

variable (ht : IsTrailing comment behind) {miss : State → State}

include ht

theorem char (hsolid : Solid test) : Exact comment behind (char miss test) where
  done s t c s' hn hd := by
    obtain ⟨hc, rest, hr, rfl⟩ := char_eq_done.mp hd
    have hblank : isBlank c = false := by
      rw [← Bool.not_eq_true]
      intro hb
      rw [hsolid c hb] at hc
      cases hc
    rw [hr] at hn
    obtain ⟨rest', hr', hm⟩ := hn.cons_inv ht hblank
    exact ⟨rfl, _, char_eq_done.mpr ⟨hc, rest', hr', rfl⟩, rfl, hm⟩
  stuck s t blame hn hs := by
    obtain ⟨hs, -⟩ := char_eq_stuck.mp hs
    exact ⟨_, char_eq_stuck.mpr ⟨hn.stops (hsolid ' ' (by decide)) hs, rfl⟩⟩

/-- A run of characters of the class ends where the line does, and in front of the comment. -/
theorem takeWhile_near (hsolid : Solid test) {a b : List Char} (hn : Near comment behind a b) :
    a.takeWhile test = b.takeWhile test ∧
      Near comment behind (a.dropWhile test) (b.dropWhile test) := by
  cases hn with
  | same => exact ⟨rfl, .same _⟩
  | before text =>
    have hline : Stops test behind := hsolid.stops_lineEnd ht.ends
    have hblank : Stops test (' ' :: '/' :: '/' :: (comment ++ behind)) :=
      stops_cons.mpr (hsolid ' ' (by decide))
    rw [takeWhile_append_of_stops text hline, takeWhile_append_of_stops text hblank,
      dropWhile_append_of_stops text hline, dropWhile_append_of_stops text hblank]
    exact ⟨rfl, .before _⟩

theorem run (hm : Notes miss) (hsolid : Solid test) : Exact comment behind (run miss test) where
  done s t word s' hn hd := by
    obtain ⟨rfl, rfl⟩ := run_eq_done.mp hd
    obtain ⟨hsame, hrest⟩ := takeWhile_near ht hsolid hn
    obtain ⟨blame, hs⟩ := hm { s with
      rest := s.rest.dropWhile test
      offset := s.offset + Utf8.size (s.rest.takeWhile test) }
    obtain ⟨blame', ht⟩ := hm { t with
      rest := t.rest.dropWhile test
      offset := t.offset + Utf8.size (t.rest.takeWhile test) }
    rw [hs]
    refine ⟨rfl, _, run_eq_done.mpr ⟨hsame, rfl⟩, ?_, ?_⟩
    · rw [ht]
    · rw [ht]
      exact hrest
  stuck s t blame hn hs := absurd hs run_ne_stuck

theorem run1 (hm : Notes miss) (hsolid : Solid test) :
    Exact comment behind (run1 miss test) where
  done s t word s' hn hd := by
    obtain ⟨hne, hr⟩ := run1_eq_done.mp hd
    obtain ⟨he, t', hr', he', hnear⟩ := (run ht hm hsolid).done s t word s' hn hr
    exact ⟨he, t', run1_eq_done.mpr ⟨hne, hr'⟩, he', hnear⟩
  stuck s t blame hn hs := by
    obtain ⟨middle, hr, -⟩ := run1_eq_stuck.mp hs
    obtain ⟨-, middle', hr', -, -⟩ := (run ht hm hsolid).done s t [] middle hn hr
    exact ⟨_, run1_eq_stuck.mpr ⟨middle', hr', rfl⟩⟩

theorem symbol {word : List Char} (hw : word.any isBlank = false) :
    Exact comment behind (symbol word) := by
  induction word with
  | nil => exact .pure ()
  | cons c rest ih =>
    obtain ⟨hc, hrest⟩ := Bool.or_eq_false_iff.mp hw
    refine bind (char ht ?_) fun _ => ih hrest
    intro d hd
    rw [beq_eq_false_iff_ne]
    rintro rfl
    rw [hc] at hd
    cases hd

end Exact

/-- What lies between the states does not reach over the place where the comment is put in. Only a
line end that may stand in a text needs a look. -/
def Clear (behind : List Char) (s s' : State) : Prop :=
  (∃ c ∈ behind.head?, c ≠ '\n') →
    ∀ text, s.rest = text ++ behind → ∃ later, s'.rest = later ++ behind

theorem Clear.split {s middle s' : State} (h : Clear behind s s') (hb : s.Before middle)
    (ha : middle.Before s') : Clear behind s middle ∧ Clear behind middle s' := by
  obtain ⟨first, hfirst, -⟩ := hb
  obtain ⟨second, hsecond, -⟩ := ha
  constructor
  · intro hend text hs
    obtain ⟨later, hl⟩ := h hend text hs
    exact ⟨second ++ later, by rw [hsecond, hl, List.append_assoc]⟩
  · intro hend text hm
    exact h hend (first ++ text) (by rw [hfirst, hm, List.append_assoc])

/-- A character that is clear of the comment stands in front of the line end. -/
theorem Clear.cons_inv {c : Char} {rest a' : List Char} {s s' : State} (hc : Clear behind s s')
    (hs : s.rest = c :: rest) (hs' : s'.rest = rest) (hline : c ≠ '\n')
    (hn : Near comment behind (c :: rest) a') :
    ∃ rest', a' = c :: rest' ∧ Near comment behind rest rest' := by
  generalize ha : c :: rest = a at hn
  cases hn with
  | same => exact ⟨rest, ha.symm, .same rest⟩
  | before text =>
    cases text with
    | nil =>
      rw [List.nil_append] at ha
      have hend : ∃ c ∈ behind.head?, c ≠ '\n' := ⟨c, by rw [← ha]; rfl, hline⟩
      obtain ⟨later, hl⟩ := hc hend [] (hs.trans ha)
      have hlength := congrArg List.length (hs'.symm.trans hl)
      rw [← ha, List.length_append, List.length_cons] at hlength
      omega
    | cons first text =>
      obtain ⟨rfl, rfl⟩ := List.cons.inj ha
      exact ⟨_, rfl, .before text⟩

/-- What the parser reads of the one text without a report, it reads of the other as well. -/
structure Keeps (comment behind : List Char) (p : Parser α) : Prop where
  leads : ∀ s value s', p s = .done value s' → s.Leads s'
  done : ∀ s t value s', Near comment behind s.rest t.rest → Clear behind s s' →
    p s = .done value s' → s'.errors = s.errors →
    ∃ t', p t = .done value t' ∧ t'.errors = t.errors ∧ Near comment behind s'.rest t'.rest

theorem Exact.keeps {Q : α → Prop} (h : Exact comment behind p) (hQ : Honest p Q) :
    Keeps comment behind p where
  leads s value s' hd := (hQ.done s value s' hd).1
  done s t value s' hn _ hd _ := (h.done s t value s' hn hd).2

namespace Keeps

variable {Q : α → Prop}

theorem pure (value : α) : Keeps comment behind (pure value : Parser α) :=
  (Exact.pure value).keeps (Honest.pure (Q := fun _ => True) trivial)

theorem bind {f : α → Parser β} (hp : Keeps comment behind p)
    (hf : ∀ value, Keeps comment behind (f value)) : Keeps comment behind (p >>= f) where
  leads s result s' hd := by
    obtain ⟨value, middle, hv, hr⟩ := bind_eq_done.mp hd
    exact (hp.leads s value middle hv).trans ((hf value).leads middle result s' hr)
  done s t result s' hn hc hd he := by
    obtain ⟨value, middle, hv, hr⟩ := bind_eq_done.mp hd
    have hfirst := hp.leads s value middle hv
    have hsecond := (hf value).leads middle result s' hr
    obtain ⟨hm, hm'⟩ := hfirst.errors_eq hsecond he
    obtain ⟨hcf, hcs⟩ := hc.split hfirst.before hsecond.before
    obtain ⟨middle', hv', he', hn'⟩ := hp.done s t value middle hn hcf hv hm
    obtain ⟨t', hr', hl', ht⟩ := (hf value).done middle middle' result s' hn' hcs hr hm'
    exact ⟨t', bind_eq_done.mpr ⟨value, middle', hv', hr'⟩, hl'.trans he', ht⟩

/-- What is read in the stead of something else is reported. -/
theorem insteadRead (h : Keeps comment behind p) (hp : Honest p Q)
    (hq : Honest q fun _ => True) : Keeps comment behind (insteadRead p q) where
  leads s value s' hd := ((hp.insteadRead hq).done s value s' hd).1
  done s t value s' hn hc hd he := by
    rcases hp.of_insteadRead hq hd with hd | ⟨-, hnew⟩
    · obtain ⟨t', hd', he', hn'⟩ := h.done s t value s' hn hc hd he
      exact ⟨t', insteadRead_eq_done.mpr (.inl hd'), he', hn'⟩
    · exact absurd he hnew

/-- Where the second alternative is read of the one text, the first must not fit the other. -/
theorem orElse (hp : Keeps comment behind p) (hP : Honest p Q) (hq : Keeps comment behind q)
    (hstuck : ∀ s t blame value s', Near comment behind s.rest t.rest → p s = .stuck blame →
      q { s with blame } = .done value s' → ∃ blame', p t = .stuck blame') :
    Keeps comment behind (orElse p q) where
  leads s value s' hd := by
    rcases orElse_eq_done.mp hd with hd | ⟨blame, hs, hd⟩
    · exact hp.leads s value s' hd
    · exact (hP.stuck s blame hs).leads.trans (hq.leads _ value s' hd)
  done s t value s' hn hc hd he := by
    rcases orElse_eq_done.mp hd with hd | ⟨blame, hs, hd⟩
    · obtain ⟨t', hd', he', hn'⟩ := hp.done s t value s' hn hc hd he
      exact ⟨t', orElse_eq_done.mpr (.inl hd'), he', hn'⟩
    · obtain ⟨blame', hs'⟩ := hstuck s t blame value s' hn hs hd
      obtain ⟨t', hd', he', hn'⟩ :=
        hq.done { s with blame } { t with blame := blame' } value s' hn hc hd he
      exact ⟨t', orElse_eq_done.mpr (.inr ⟨blame', hs', hd'⟩), he', hn'⟩

/-- Where a repetition ends in the one text, so that what follows is read, it ends in the other. -/
theorem many_bind {f : List α → Parser β} (hp : Keeps comment behind p) (hP : Honest p Q)
    (ha : Advances p) (hf : ∀ values, Keeps comment behind (f values))
    (hend : ∀ s t blame values result s', Near comment behind s.rest t.rest →
      p s = .stuck blame → f values { s with blame } = .done result s' → s'.errors = s.errors →
      ∃ blame', p t = .stuck blame') :
    Keeps comment behind (many p >>= f) where
  leads s result s' hd := by
    obtain ⟨values, middle, hv, hr⟩ := bind_eq_done.mp hd
    exact (hP.many.done s values middle hv).1.trans ((hf values).leads middle result s' hr)
  done s t result s' hn hc hd he := by
    obtain ⟨values, middle, hv, hr⟩ := bind_eq_done.mp hd
    have hfirst := (hP.many.done s values middle hv).1
    have hsecond := (hf values).leads middle result s' hr
    obtain ⟨hm, hm'⟩ := hfirst.errors_eq hsecond he
    obtain ⟨hcf, hcs⟩ := hc.split hfirst.before hsecond.before
    have hmore : ∀ s t value next,
        Near comment behind s.rest t.rest ∧ Clear behind s middle → p s = .done value next →
        next.errors = s.errors → next.Before middle → value ∈ values →
        ∃ other next', p t = .done other next' ∧ next'.errors = t.errors ∧ id other = id value ∧
          Near comment behind next.rest next'.rest ∧ Clear behind next middle := by
      rintro s t value next ⟨hn, hc⟩ hd he hb -
      obtain ⟨hone, hothers⟩ := hc.split (hp.leads s value next hd).before hb
      obtain ⟨next', hd', he', hn'⟩ := hp.done s t value next hn hone hd he
      exact ⟨value, next', hd', he', rfl, hn', hothers⟩
    obtain ⟨others, middle', hruns, he', hsame, hn', -⟩ :=
      ((many_eq_done ha hP).mp hv).follow id
        (fun s t => Near comment behind s.rest t.rest ∧ Clear behind s middle) hP hm ⟨hn, hcf⟩ hmore
        (by
          rintro s t blame ⟨hn, hc⟩ hs rfl
          obtain ⟨blame', hs'⟩ := hend s t blame values result s' hn hs hr hm'
          exact ⟨blame', hs', hn, hc⟩)
    rw [List.map_id, List.map_id] at hsame
    subst hsame
    obtain ⟨t', hr', hl', ht⟩ := (hf others).done middle middle' result s' hn' hcs hr hm'
    exact ⟨t', bind_eq_done.mpr ⟨others, middle', (many_eq_done ha hP).mpr hruns, hr'⟩,
      hl'.trans he', ht⟩

theorem char {miss : State → State} {test : Char → Bool} (hm : Tells miss)
    (hline : test '\n' = false) : Keeps comment behind (char miss test) where
  leads s c s' hd := ((honest_char hm).done s c s' hd).1
  done s t c s' hn hc hd _ := by
    obtain ⟨htest, rest, hr, rfl⟩ := char_eq_done.mp hd
    have hne : c ≠ '\n' := by
      rintro rfl
      rw [hline] at htest
      cases htest
    rw [hr] at hn
    obtain ⟨rest', hr', hn'⟩ := hc.cons_inv hr rfl hne hn
    exact ⟨_, char_eq_done.mpr ⟨htest, rest', hr', rfl⟩, rfl, hn'⟩

/-- A character that is judged may be any one but the end of a line. -/
theorem judge_char {miss : State → State} {test : Char → Bool}
    {f : Span → Char → Except SyntaxError α} (hm : Tells miss)
    (hf : ∀ span other c, (f span c).toOption = (f other c).toOption)
    (hline : ∀ span, (f span '\n').toOption = none) :
    Keeps comment behind (judge (Parser.char miss test) f) where
  leads s result s' hd := by
    obtain ⟨c, hv, -⟩ := judge_eq_done.mp hd
    exact ((honest_char hm).done s c s' hv).1
  done s t result s' hn hc hd _ := by
    obtain ⟨c, hv, hr⟩ := judge_eq_done.mp hd
    obtain ⟨htest, rest, hrest, rfl⟩ := char_eq_done.mp hv
    have hne : c ≠ '\n' := by
      rintro rfl
      have hnone := hline ⟨s.offset, s.offset + '\n'.utf8Size⟩
      rw [hr] at hnone
      cases hnone
    rw [hrest] at hn
    obtain ⟨rest', hr', hn'⟩ := hc.cons_inv hrest rfl hne hn
    have hok : f ⟨t.offset, t.offset + c.utf8Size⟩ c = .ok result := by
      rw [← toOption_eq_some, hf _ ⟨s.offset, s.offset + c.utf8Size⟩, toOption_eq_some]
      exact hr
    have hchar : Parser.char miss test t =
        .done c { t with rest := rest', offset := t.offset + c.utf8Size } :=
      char_eq_done.mpr ⟨htest, rest', hr', rfl⟩
    exact ⟨_, judge_eq_done.mpr ⟨c, hchar, hok⟩, rfl, hn'⟩

end Keeps

end Parser

end ScriptKit.Listing
