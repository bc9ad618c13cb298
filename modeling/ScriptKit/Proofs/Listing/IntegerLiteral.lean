import Mathlib.Data.List.TakeWhile
import ScriptKit.Proofs.Listing.Faultless

namespace ScriptKit.Listing

open Listing.Parser Text

variable {s s' : State} {mark word digits after : List Char} {radix : Nat} {value : Int}

def behindSign : List Char → List Char
  | '-' :: rest => rest
  | word => word

def behindMark : List Char → List Char
  | '0' :: 'x' :: digits => digits
  | '0' :: 'b' :: digits => digits
  | digits => digits

/-- No sign stands in front of the digits, apart from zeros, and no underscore behind them. -/
def IsPlain (word : List Char) : Prop :=
  (∀ c ∈ behindZeros (behindMark word), c ≠ '-' ∧ c ≠ '+') ∧ word.getLast? ≠ some '_'

instance (word : List Char) : Decidable (IsPlain word) :=
  have := Option.decidableForallMem (p := fun c => c ≠ '-' ∧ c ≠ '+')
    (behindZeros (behindMark word))
  inferInstanceAs (Decidable (_ ∧ _))

/-- Behind the sign, there is neither a further sign nor an underscore at the end. -/
def IsRegular (word : List Char) : Prop := IsPlain (behindSign word)

instance (word : List Char) : Decidable (IsRegular word) := inferInstanceAs (Decidable (IsPlain _))

theorem behindMark_suffix (word : List Char) : behindMark word <:+ word := by
  rw [behindMark.eq_def]
  split
  · exact ⟨['0', 'x'], rfl⟩
  · exact ⟨['0', 'b'], rfl⟩
  · exact List.suffix_rfl

theorem IsNatural.isPlain {n : Nat} (h : IsNatural word n) : IsPlain word := by
  obtain @⟨mark, digits, radix, ds, marked, spells⟩ := h
  obtain ⟨-, ⟨last, d, hlast, hd⟩, hall⟩ := spells.ends
  have hmark : ∀ c ∈ mark, c ≠ '-' ∧ c ≠ '+' := by
    rcases mem_marks_iff.mp marked with ⟨rfl, -⟩ | ⟨rfl, -⟩ | ⟨rfl, -⟩ <;> simp
  have hdigits : ∀ c ∈ digits, c ≠ '-' ∧ c ≠ '+' := by
    intro c hc
    rcases hall c hc with rfl | ⟨d, hd⟩
    · decide
    · exact ⟨hd.ne.1, hd.ne.2.1⟩
  refine ⟨fun c hc => ?_, ?_⟩
  · have hleft := (List.dropWhile_suffix _).subset (List.mem_of_head? hc)
    exact List.forall_mem_append.mpr ⟨hmark, hdigits⟩ c ((behindMark_suffix _).subset hleft)
  · rw [List.getLast?_append, hlast]
    exact fun he => hd.ne.2.2 (Option.some.inj he)

/-- Without a sign in front, a word is regular if it is plain. -/
theorem isRegular_iff_of_first {c : Char} {rest : List Char} (hc : c ≠ '-') :
    IsRegular (c :: rest) ↔ IsPlain (c :: rest) := by
  rw [IsRegular, behindSign]
  rintro rest he
  exact hc (List.cons.inj he).1

theorem IsInteger.isRegular (h : IsInteger word value) : IsRegular word := by
  cases h with
  | plain natural =>
    obtain ⟨c, rest, rfl, hc⟩ := natural.first
    refine (isRegular_iff_of_first ?_).mpr natural.isPlain
    rintro rfl
    exact absurd hc (by decide)
  | minus natural => exact natural.isPlain

/-- A sign in front of the digits is one behind the mark. -/
theorem IsPlain.noSign (h : IsPlain (mark ++ digits)) (marked : (mark, radix) ∈ marks) :
    ∀ c ∈ behindZeros digits, c ≠ '-' ∧ c ≠ '+' := by
  obtain ⟨hsign, -⟩ := h
  rcases mem_marks_iff.mp marked with ⟨rfl, -⟩ | ⟨rfl, -⟩ | ⟨rfl, -⟩
  · -- Without a mark, digits that look like one start with a letter behind the zero.
    rw [List.nil_append, behindMark.eq_def] at hsign
    split at hsign
    · rintro c ⟨rfl⟩
      decide
    · rintro c ⟨rfl⟩
      decide
    · exact hsign
  · exact hsign
  · exact hsign

/-- Behind its mark, a plain word is read as a number only if it spells one. -/
theorem natural_of_numberValue {span : Span} (marked : (mark, radix) ∈ marks) (hne : digits ≠ [])
    (hv : numberValue radix span digits = .ok value) (hp : IsPlain (mark ++ digits)) :
    ∃ n : Nat, IsNatural (mark ++ digits) n ∧ value = n := by
  obtain ⟨hl, hu⟩ := radix_bounds marked
  have hlast : digits.getLast? ≠ some '_' := by
    intro h
    refine hp.2 ?_
    rw [List.getLast?_append, h]
    rfl
  obtain ⟨-, ds, hs, rfl⟩ := (numberValue_eq_ok hl hu hne hlast (hp.noSign marked)).mp hv
  exact ⟨_, .spelt marked hs, rfl⟩

/-- No quote is read as part of a number. -/
theorem noQuote_of_numberValue {radix : Nat} {span : Span}
    (hv : numberValue radix span digits = .ok value) : ∀ c ∈ digits, c ≠ '"' := by
  have hquote : ¬ Numeral.MayOccur radix '"' := by
    have hcode : '"'.toNat = 34 := rfl
    simp [Numeral.MayOccur, Numeral.digit?, hcode]
  have hread : ∀ left, Numeral.integer radix left = .ok value → ∀ c ∈ left, c ≠ '"' := by
    rintro left hi c hc rfl
    exact hquote (Numeral.mayOccur_of_integer hi _ hc)
  rw [← List.takeWhile_append_dropWhile (p := (· == '0')) (l := digits), List.forall_mem_append]
  refine ⟨fun c hc => ?_, ?_⟩
  · have hzero : c = '0' := by simpa using List.all_eq_true.mp List.all_takeWhile c hc
    rw [hzero]
    decide
  · rw [numberValue] at hv
    split at hv
    · next hi =>
      cases hv
      split at hi
      · next hnone => rw [hnone]; simp
      · exact hread _ hi
    · cases hv

/-- The word was read between two texts as the value. If it is plain, it is a word for that natural
number. -/
structure NaturalFrom (a b : List Char) (value : Int) (word : List Char) : Prop where
  read : a = word ++ b
  unsigned : ∃ c rest, word = c :: rest ∧ c ≠ '-'
  chars : ∀ c ∈ word, isNumberChar c = true ∧ c ≠ '"'
  natural : IsPlain word → ∃ n : Nat, IsNatural word n ∧ value = n

theorem natural_of_markedNumber {letter : Char} (marked : (['0', letter], radix) ∈ marks)
    (hletter : isNumberChar letter = true ∧ letter ≠ '"')
    (hd : markedNumber ['0', letter] radix s = .done value s') :
    ∃ word, NaturalFrom s.rest s'.rest value word := by
  obtain ⟨digits, hp, hv⟩ := judge_eq_done.mp hd
  obtain ⟨_, middle, hsymbol, hrun⟩ := bind_eq_done.mp hp
  obtain ⟨hrest, hne, hall⟩ := word_of_run1 notes_kind hrun
  refine ⟨'0' :: letter :: digits, ?_, ⟨'0', _, rfl, by decide⟩, ?_,
    natural_of_numberValue marked hne hv⟩
  · rw [rest_of_symbol hsymbol, hrest]
    rfl
  · simp only [List.forall_mem_cons]
    exact ⟨by decide, hletter, fun c hc => ⟨hall c hc, noQuote_of_numberValue hv c hc⟩⟩

theorem natural_of_decimalNumber (hd : decimalNumber s = .done value s') :
    ∃ word, NaturalFrom s.rest s'.rest value word := by
  obtain ⟨_, middle, ha, hd⟩ := bind_eq_done.mp hd
  obtain ⟨c, _, hc, rfl⟩ := ahead_eq_done.mp ha
  obtain ⟨hdigit, rest, hr, -⟩ := char_eq_done.mp hc
  obtain ⟨digits, hrun, hv⟩ := judge_eq_done.mp hd
  obtain ⟨hrest, hne, hall⟩ := word_of_run1 notes_kind hrun
  have hmark : (([] : List Char), 10) ∈ marks := mem_marks_iff.mpr (.inl ⟨rfl, rfl⟩)
  refine ⟨digits, hrest, ?_, fun c hc => ⟨hall c hc, noQuote_of_numberValue hv c hc⟩,
    natural_of_numberValue hmark hne hv⟩
  obtain ⟨d, digits, rfl⟩ := List.exists_cons_of_ne_nil hne
  obtain rfl : c = d := (List.cons.inj (hr.symm.trans hrest)).1
  refine ⟨c, digits, rfl, ?_⟩
  rintro rfl
  exact absurd hdigit (by decide)

theorem natural_of_unsignedNumber (hd : unsignedNumber s = .done value s') :
    ∃ word, NaturalFrom s.rest s'.rest value word := by
  rcases orElse_eq_done.mp hd with hd | ⟨_, -, hd⟩
  · exact natural_of_markedNumber (by simp [marks]) (by decide) hd
  · rcases orElse_eq_done.mp hd with hd | ⟨_, -, hd⟩
    · have hword := natural_of_markedNumber (by simp [marks]) (by decide) hd
      exact hword
    · have hword := natural_of_decimalNumber hd
      exact hword

/-- What is read as a number stands in front of the end of a number, and is a word for it if it is
regular. -/
theorem integer_of_number (hd : number s = .done value s') :
    ∃ word, s.rest = word ++ s'.rest ∧ (∀ c ∈ word, isNumberChar c = true ∧ c ≠ '"') ∧
      EndsNumber s'.rest ∧ (IsRegular word → IsInteger word value) := by
  obtain ⟨found, middle, hn, hd⟩ := bind_eq_done.mp hd
  obtain ⟨_, behind, he, hd⟩ := bind_eq_done.mp hd
  obtain ⟨rfl, rfl⟩ := pure_eq_done.mp hd
  have hends : EndsNumber middle.rest := by
    by_contra hr
    obtain ⟨_, hs⟩ := (refuses_numberEnd hr).ahead middle.offset middle.blame middle.errors
    rw [hs] at he
    cases he
  obtain ⟨_, _, -, rfl⟩ := ahead_eq_done.mp he
  rcases orElse_eq_done.mp hn with hn | ⟨_, -, hn⟩
  · obtain ⟨_, signed, hsymbol, hn⟩ := bind_eq_done.mp hn
    obtain ⟨n, last, hn, hp⟩ := bind_eq_done.mp hn
    obtain ⟨rfl, rfl⟩ := pure_eq_done.mp hp
    obtain ⟨word, hrest, -, hall, hw⟩ := natural_of_unsignedNumber hn
    refine ⟨'-' :: word, ?_, List.forall_mem_cons.mpr ⟨by decide, hall⟩, hends, fun hr => ?_⟩
    · rw [rest_of_symbol hsymbol, hrest]
      rfl
    · obtain ⟨n, hnatural, rfl⟩ := hw hr
      exact .minus hnatural
  · obtain ⟨_, hrest, ⟨c, rest, rfl, hc⟩, hall, hw⟩ := natural_of_unsignedNumber hn
    refine ⟨c :: rest, hrest, hall, hends, fun hr => ?_⟩
    obtain ⟨n, hnatural, rfl⟩ := hw ((isRegular_iff_of_first hc).mp hr)
    exact .plain hnatural

/-- Only what is read as a number is a number. -/
theorem number_of_literal (hd : literal s = .done (.number value) s') :
    number s = .done value s' := by
  rcases orElse_eq_done.mp hd with hd | ⟨_, -, hd⟩
  · obtain ⟨found, middle, hn, hp⟩ := bind_eq_done.mp hd
    obtain ⟨he, rfl⟩ := pure_eq_done.mp hp
    rwa [Literal.number.inj he]
  · exfalso
    rcases orElse_eq_done.mp hd with hd | ⟨_, -, hd⟩
    · obtain ⟨_, _, -, hd⟩ := bind_eq_done.mp hd
      obtain ⟨bytes, _, -, hd⟩ := bind_eq_done.mp hd
      obtain ⟨closed, _, -, hp⟩ := bind_eq_done.mp hd
      have he := (pure_eq_done.mp hp).1
      split at he <;> cases he
    · rcases orElse_eq_done.mp hd with hd | ⟨_, -, hd⟩
      · obtain ⟨_, _, -, hd⟩ := bind_eq_done.mp hd
        obtain ⟨text, _, -, hd⟩ := bind_eq_done.mp hd
        obtain ⟨closed, _, -, hp⟩ := bind_eq_done.mp hd
        have he := (pure_eq_done.mp hp).1
        cases closed <;> cases he
      · obtain ⟨hd, -⟩ := filter_eq_done.mp hd
        obtain ⟨_, _, -, hd⟩ := bind_eq_done.mp hd
        obtain ⟨name, _, -, hp⟩ := bind_eq_done.mp hd
        cases (pure_eq_done.mp hp).1

/-- What is read as an integer argument is a word in front of the end of a number. -/
theorem integer_of_argument {arg : Argument} (hd : argument s = .done arg s')
    (hv : arg.value = .number value) :
    ∃ word, s.rest = word ++ s'.rest ∧ (∀ c ∈ word, isNumberChar c = true) ∧
      EndsNumber s'.rest ∧ arg.span = ⟨s.offset, s.offset + Utf8.size word⟩ ∧
      (IsRegular word → IsInteger word value) := by
  have hspan := span_of_argument hd
  have hl := literal_of_argument hd (by rw [hv]; exact nofun)
  rw [hv] at hl
  obtain ⟨word, hrest, hall, hends, hw⟩ := integer_of_number (number_of_literal hl)
  refine ⟨word, hrest, fun c hc => (hall c hc).1, hends, ?_, hw⟩
  rw [hspan, (honest_argument.done s arg s' hd).1.before.offset_eq hrest]

/-- A word for an integer is read as an argument, with its place. -/
theorem argument_of_integer (hs : s.rest = word ++ after) (hw : IsInteger word value)
    (hu : '_' ∉ word) (ha : EndsNumber after) :
    ∃ s', argument s = .done ⟨⟨s.offset, s.offset + Utf8.size word⟩, .number value⟩ s' ∧
      s'.rest = after ∧ s'.errors = s.errors := by
  have hl : Reads literal (word ++ after) after (· = .number value) := by
    refine .orElse_left ((reads_integer hw hu ha).bind fun v hv => ?_)
    subst hv
    exact .pure rfl
  have hr : Reads argument (word ++ after) after (·.value = .number value) :=
    hl.insteadRead.spanned.bind fun found hf => .pure hf
  obtain ⟨arg, s', hd, hrest, he, hv⟩ := hr.exists_done hs
  have hoffset := (honest_argument.done s arg s' hd).1.before.offset_eq (hrest ▸ hs)
  have harg : arg = ⟨⟨s.offset, s.offset + Utf8.size word⟩, .number value⟩ := by
    rw [← hoffset, ← span_of_argument hd, ← hv]
  exact ⟨s', harg ▸ hd, hrest, he⟩

/-- The characters of numbers that stand at a place, up to where a number may end. -/
structure WordAt (s : State) (word after : List Char) : Prop where
  rest : s.rest = word ++ after
  chars : ∀ c ∈ word, isNumberChar c = true
  ends : EndsNumber after

/-- What is read is the whole word. -/
theorem WordAt.integer_of_argument {arg : Argument} (hw : WordAt s word after)
    (hd : argument s = .done arg s') (hv : arg.value = .number value) :
    s'.rest = after ∧ (IsRegular word → IsInteger word value) := by
  obtain ⟨read, hrest, hall, hends, -, hread⟩ := Listing.integer_of_argument hd hv
  have hwhole : ∀ {w a : List Char}, s.rest = w ++ a → (∀ c ∈ w, isNumberChar c = true) →
      EndsNumber a → w = s.rest.takeWhile isNumberChar := by
    intro w a hr hc he
    rw [hr, takeWhile_append_of_stops w (he.stops fun _ => id),
      List.takeWhile_eq_self_iff.mpr hc]
  have he : read = word := (hwhole hrest hall hends).trans (hwhole hw.rest hw.chars hw.ends).symm
  subst he
  exact ⟨List.append_cancel_left (hrest.symm.trans hw.rest), hread⟩

/-- A regular word is read as an integer only if it is a word for it, at any place and so in any
text, and a word for an integer is read as that integer, whatever zeros its digits start with. No
word for an integer is irregular. -/
theorem integer_literals (value : Int) :
    (∀ (s : State) (word after : List Char), WordAt s word after → IsRegular word →
      ∀ arg s', argument s = .done arg s' → arg.value = .number value →
        IsInteger word value ∧ s'.rest = after) ∧
    (∀ (s : State) (word after : List Char), s.rest = word ++ after →
      IsInteger word value → '_' ∉ word → EndsNumber after →
        ∃ s', argument s = .done ⟨⟨s.offset, s.offset + Utf8.size word⟩, .number value⟩ s' ∧
          s'.rest = after ∧ s'.errors = s.errors) ∧
    (∀ (text : List Char) (statements : List Statement),
      (parse text).statements? = some statements → ∀ s ∈ statements, ∀ arg ∈ s.args,
        arg.value = .number value → ∃ before word after, text = before ++ word ++ after ∧
          arg.span = ⟨Utf8.size before, Utf8.size before + Utf8.size word⟩ ∧
          (∀ c ∈ word, isNumberChar c = true) ∧ EndsNumber after ∧
          (IsRegular word → IsInteger word value)) ∧
    ∀ word, IsInteger word value → IsRegular word := by
  refine ⟨?_, ?_, ?_, fun _ => IsInteger.isRegular⟩
  · intro s word after hw hr arg s' hd hv
    obtain ⟨hrest, hread⟩ := hw.integer_of_argument hd hv
    exact ⟨hread hr, hrest⟩
  · intro s word after hs hw hu ha
    exact argument_of_integer hs hw hu ha
  · intro text statements h s hs arg harg hv
    obtain ⟨t, t', ⟨before, hbefore, hoffset⟩, hd⟩ := argument_of_parse h s hs arg harg
    obtain ⟨word, hrest, hall, hends, hspan, hw⟩ := integer_of_argument hd hv
    have hstart : t.offset = Utf8.size before := by simpa [State.ofText] using hoffset
    rw [hstart] at hspan
    rw [hrest, ← List.append_assoc] at hbefore
    exact ⟨before, word, t'.rest, hbefore, hspan, hall, hends, hw⟩

/-- Zeros in front of the digits, and two radixes in one statement. -/
theorem integer_literals_zeros_and_radixes :
    (∃ s', argument ⟨"-007, 1".toList, 4, none, []⟩ = .done ⟨⟨4, 8⟩, .number (-7)⟩ s' ∧
      s'.rest = ", 1".toList ∧ IsInteger "-007".toList (-7)) ∧
    parse "TRY -0x80, 0b1_01".toList =
      ⟨some [⟨⟨0, 17⟩, ⟨0, 3⟩, "TRY", [⟨⟨4, 9⟩, .number (-128)⟩, ⟨⟨11, 17⟩, .number 5⟩]⟩], []⟩ ∧
    ∃ before word after, "TRY -0x80, 0b1_01".toList = before ++ word ++ after ∧
      (⟨4, 9⟩ : Span) = ⟨Utf8.size before, Utf8.size before + Utf8.size word⟩ ∧
      (IsRegular word → IsInteger word (-128)) := by
  have hspells : Numeral.Spells 10 "007".toList [0, 0, 7] :=
    .more (by decide) 0 (.more (by decide) 0 (.one (by decide)))
  have hmark : (([] : List Char), 10) ∈ marks := mem_marks_iff.mpr (.inl ⟨rfl, rfl⟩)
  have hword : IsInteger "-007".toList (-7) := .minus (.spelt hmark hspells)
  have hends : EndsNumber ", 1".toList := stops_cons.mpr (by decide)
  obtain ⟨s', hd, hrest, -⟩ := (integer_literals (-7)).2.1 ⟨"-007, 1".toList, 4, none, []⟩
    "-007".toList ", 1".toList rfl hword (by decide) hends
  have hread := (integer_literals (-7)).1 ⟨"-007, 1".toList, 4, none, []⟩ "-007".toList ", 1".toList
    ⟨rfl, List.all_eq_true.mp (by decide), hends⟩ (by decide) _ s' hd rfl
  have hparse : parse "TRY -0x80, 0b1_01".toList =
      ⟨some [⟨⟨0, 17⟩, ⟨0, 3⟩, "TRY", [⟨⟨4, 9⟩, .number (-128)⟩, ⟨⟨11, 17⟩, .number 5⟩]⟩], []⟩ := by
    decide +kernel
  obtain ⟨before, word, after, htext, hspan, -, -, hw⟩ := (integer_literals (-128)).2.2.1
    "TRY -0x80, 0b1_01".toList _ (congrArg Parsed.statements? hparse) _ (List.mem_singleton_self _)
    ⟨⟨4, 9⟩, .number (-128)⟩ (by simp) rfl
  exact ⟨⟨s', hd, hrest, hread.1⟩, hparse, before, word, after, htext, hspan, hw⟩

/-- A sign behind the mark of the radix is read, although the word is none for an integer. -/
theorem sign_behind_mark_is_read :
    parse "PUSHINT 0x-5".toList =
        ⟨some [⟨⟨0, 12⟩, ⟨0, 7⟩, "PUSHINT", [⟨⟨8, 12⟩, .number (-5)⟩]⟩], []⟩ ∧
      ∀ value, ¬ IsInteger "0x-5".toList value := by
  have hsign : ¬ IsRegular "0x-5".toList := by decide
  exact ⟨by decide +kernel, fun value h => hsign h.isRegular⟩

end ScriptKit.Listing
