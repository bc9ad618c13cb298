import ScriptKit.Proofs.Listing.Commented.Parser
import ScriptKit.Proofs.Listing.Faultless
import ScriptKit.Proofs.Listing.Line

namespace ScriptKit.Listing

open Listing.Parser Text

variable {comment behind : List Char}

section Literals

variable (ht : IsTrailing comment behind)

include ht

theorem exact_unsignedNumber : Exact comment behind unsignedNumber := by
  have hrun : Exact comment behind (run1 unexpectedKind isNumberChar) :=
    .run1 ht notes_kind (solid_of_codes (by decide))
  have hmarked : ∀ mark radix, mark.any isBlank = false →
      Exact comment behind (markedNumber mark radix) := fun mark radix hmark =>
    ((Exact.symbol ht hmark).bind fun _ => hrun).judge (toOption_numberValue radix)
  have hdecimal : Exact comment behind decimalNumber :=
    (Exact.char ht (solid_of_codes (by decide))).ahead.bind fun _ =>
      hrun.judge (toOption_numberValue 10)
  exact (hmarked _ _ (by decide)).orElse ((hmarked _ _ (by decide)).orElse hdecimal)

/-- A blank in front of the comment ends a number as the line end does. -/
theorem Near.endsNumber {a a' : List Char} (hn : Near comment behind a a') :
    EndsNumber a ↔ EndsNumber a' := by
  constructor
  · exact hn.stops (by decide)
  · intro h
    cases a with
    | nil => exact stops_nil _
    | cons c rest =>
      cases hb : isBlank c with
      | true => exact stops_cons.mpr (by simp [hb])
      | false =>
        obtain ⟨_, rfl, -⟩ := hn.cons_inv ht hb
        exact stops_cons.mpr (stops_cons.mp h)

theorem exact_numberEnd : Exact comment behind (ahead numberEnd) where
  done s t u s' hn hd := by
    have hends : EndsNumber s.rest := by
      by_contra hr
      obtain ⟨_, hs⟩ := refuses_numberEnd hr s.offset s.blame s.errors
      obtain ⟨_, _, hv, -⟩ := ahead_eq_done.mp hd
      rw [hs] at hv
      cases hv
    obtain ⟨b, hb⟩ := reads_numberEnd ((hn.endsNumber ht).mp hends)
    obtain ⟨_, offset, blame, hr, -⟩ := hb.ahead t.offset t.blame t.errors
    obtain ⟨_, middle, -, rfl⟩ := ahead_eq_done.mp hd
    obtain ⟨_, middle', -, ht'⟩ := ahead_eq_done.mp hr
    exact ⟨rfl, _, hr, rfl, hn⟩
  stuck s t blame hn hs := by
    have hends : ¬ EndsNumber t.rest := by
      rw [← hn.endsNumber ht]
      intro hends
      obtain ⟨b, hb⟩ := reads_numberEnd hends
      obtain ⟨_, _, _, hr, -⟩ := hb.ahead s.offset s.blame s.errors
      rw [hr] at hs
      cases hs
    exact (refuses_numberEnd hends).ahead t.offset t.blame t.errors

theorem exact_number : Exact comment behind number := by
  have hunsigned := exact_unsignedNumber ht
  have hnegative : Exact comment behind negativeNumber :=
    (Exact.symbol ht (by decide)).bind fun _ => hunsigned.bind fun _ => .pure _
  exact (hnegative.orElse hunsigned).bind fun _ => (exact_numberEnd ht).bind fun _ => .pure _

theorem exact_serviceName : Exact comment behind serviceName :=
  ((Exact.char ht (solid_of_codes (by decide))).ahead.bind fun _ =>
    (Exact.run1 ht notes_kind (solid_of_codes (by decide))).bind fun _ => .pure _).filter

/-- A literal that is closed ends with its mark. -/
theorem keeps_closing {mark : Char} {rest : Parser Unit} (hm : isBlank mark = false)
    (h : Honest rest fun _ => True) : Keeps comment behind (closing mark rest) := by
  have hmark : Exact comment behind (do symbol [mark]; pure true) :=
    (Exact.symbol ht (by simpa using hm)).bind fun _ => .pure _
  have hhonest : Honest (do symbol [mark]; pure true) fun _ => True :=
    (honest_symbol _).bind fun _ => .pure fun _ => trivial
  exact (hmark.keeps hhonest).insteadRead hhonest (h.bind fun _ => .pure fun _ => trivial)

theorem keeps_byteString : Keeps comment behind byteString := by
  have hdigits : Exact comment behind (judge (run unexpectedKind isHexChar) hexValue) :=
    (Exact.run ht notes_kind (solid_of_codes (by decide))).judge toOption_hexValue
  exact ((Exact.symbol ht (by decide)).keeps (honest_symbol _)).bind fun _ =>
    ((hdigits.keeps honest_hexBytes).insteadRead honest_hexBytes honest_otherDigits).bind fun _ =>
      (keeps_closing ht (by decide) honest_otherBrace).bind fun _ => .pure _

/-- One character of a text in quotes, which is never the end of a line. -/
theorem keeps_textChar :
    Keeps comment behind (orElse (char unexpectedHere isPlainChar) escapedChar) := by
  have hescaped : Keeps comment behind escapedChar :=
    ((Exact.symbol ht (by decide)).keeps (honest_symbol _)).bind fun _ =>
      .judge_char tells_here (fun span other c => by split <;> rfl) fun span => rfl
  refine (Keeps.char tells_here (by decide)).orElse (honest_char tells_here) hescaped ?_
  intro s t blame c s' hn _ hd
  obtain ⟨_, middle, hm, -⟩ := bind_eq_done.mp hd
  obtain ⟨_, _, hm, -⟩ := bind_eq_done.mp hm
  obtain ⟨hmark, rest, hr, -⟩ := char_eq_done.mp hm
  obtain rfl := eq_of_beq hmark
  rw [show s.rest = _ from hr] at hn
  obtain ⟨rest', hr', -⟩ := hn.cons_inv ht (by decide)
  exact ⟨_, char_eq_stuck.mpr ⟨by rw [hr']; exact stops_cons.mpr (by decide), rfl⟩⟩

theorem keeps_quotedText : Keeps comment behind quotedText := by
  refine ((Exact.symbol ht (by decide)).keeps (honest_symbol _)).bind fun _ =>
    (keeps_textChar ht).many_bind honest_textChar advances_textChar (fun chars =>
      (keeps_closing ht (by decide) honest_otherQuote).bind fun _ => .pure _) ?_
  intro s t blame chars value s' hn _ hd he
  obtain ⟨closed, last, hclose, hd⟩ := bind_eq_done.mp hd
  obtain ⟨-, rfl⟩ := pure_eq_done.mp hd
  have hmark := rest_of_closing honest_otherQuote hclose he
  dsimp only at hmark
  rw [hmark] at hn
  obtain ⟨rest', hr, -⟩ := hn.cons_inv ht (by decide)
  have hrefuses : Refuses (orElse (char unexpectedHere isPlainChar) escapedChar) t.rest := by
    rw [hr]
    exact (refuses_char (stops_cons.mpr (by decide))).orElse
      (refuses_symbol (stops_cons.mpr (by decide))).bind
  exact hrefuses t.offset t.blame t.errors

/-- A literal that starts with a mark is refused only for want of the mark. -/
theorem stuck_of_symbol {α : Type} {word : List Char} {rest : Unit → Parser α}
    (hw : word.any isBlank = false) (hr : ∀ u, Total (rest u)) {s t : State}
    {blame : Option Blame} (hn : Near comment behind s.rest t.rest)
    (hs : (symbol word >>= rest) s = .stuck blame) :
    ∃ blame', (symbol word >>= rest) t = .stuck blame' := by
  rcases bind_eq_stuck.mp hs with hs | ⟨u, middle, -, hs⟩
  · obtain ⟨blame', hs'⟩ := (Exact.symbol ht hw).stuck s t blame hn hs
    exact ⟨blame', bind_eq_stuck.mpr (.inl hs')⟩
  · exact absurd hs (hr u middle blame)

theorem keeps_literal : Keeps comment behind literal := by
  have hclosing : ∀ mark {rest : Parser Unit}, Total rest → Total (closing mark rest) :=
    fun mark rest hr => .insteadRead (hr.bind fun _ => .pure false)
  have hnumber : Exact comment behind (do let value ← number; pure (Literal.number value)) :=
    (exact_number ht).bind fun _ => .pure _
  have hhonest : Honest (do let value ← number; pure (Literal.number value)) fun _ => True :=
    honest_number.bind fun _ => .pure fun _ => trivial
  have hquoted : Keeps comment behind (orElse quotedText serviceName) := by
    refine (keeps_quotedText ht).orElse honest_quotedText
      ((exact_serviceName ht).keeps honest_serviceName) fun s t blame _ _ hn hs _ => ?_
    refine stuck_of_symbol ht (by decide) (fun _ => ?_) hn hs
    exact (Total.many _).bind fun _ => (hclosing _ ((Total.run _ _).bind fun _ => .pure _)).bind
      fun _ => .pure _
  refine (hnumber.keeps hhonest).orElse hhonest ?_ fun s t blame _ _ hn hs _ =>
    hnumber.stuck s t blame hn hs
  refine (keeps_byteString ht).orElse honest_byteString hquoted fun s t blame _ _ hn hs _ => ?_
  refine stuck_of_symbol ht (by decide) (fun _ => ?_) hn hs
  refine (Total.insteadRead ((Total.run _ _).bind fun _ => .pure _)).bind fun _ =>
    (hclosing _ ?_).bind fun _ => .pure _
  exact (Total.run _ _).bind fun _ => .orElse (.pure ())

end Literals

namespace Argument

/-- The argument covers characters on both sides of the place. -/
def ReachesOver (arg : Argument) (place : Nat) : Prop :=
  arg.span.start < place ∧ place < arg.span.stop

instance (arg : Argument) (place : Nat) : Decidable (arg.ReachesOver place) :=
  inferInstanceAs (Decidable (_ ∧ _))

/-- No line ends between the argument and the end of the text. -/
def EndsOnLastLine (arg : Argument) (text : List Char) : Prop :=
  ∃ early later, text = early ++ later ∧ Utf8.size early = arg.span.stop ∧
    ∀ c ∈ later, isLineEnd c = false

theorem endsOnLastLine_iff {arg : Argument} {text : List Char} :
    (∃ n < text.length + 1, Utf8.size (text.take n) = arg.span.stop ∧
      (text.drop n).any isLineEnd = false) ↔ arg.EndsOnLastLine text := by
  constructor
  · rintro ⟨n, -, hsize, hlater⟩
    refine ⟨_, _, (List.take_append_drop n text).symm, hsize, fun c hc => ?_⟩
    exact Bool.eq_false_iff.mpr (List.any_eq_false.mp hlater c hc)
  · rintro ⟨early, later, rfl, hsize, hlater⟩
    refine ⟨early.length, ?_, by rwa [List.take_left], ?_⟩
    · rw [List.length_append]
      omega
    · rw [List.drop_left, List.any_eq_false]
      exact fun c hc => Bool.eq_false_iff.mp (hlater c hc)

instance (arg : Argument) (text : List Char) : Decidable (arg.EndsOnLastLine text) :=
  decidable_of_iff _ endsOnLastLine_iff

end Argument

/-- A comment may be put in between the texts: it does not fall into an argument, and if there is a
comma in it, it does not fall on the line on which the last argument ends. No argument reaches over
the end of the text, or over a line end of the usual kind. -/
structure Allows (args : List Argument) (comment before behind : List Char) : Prop where
  whole : (∃ c ∈ behind.head?, c ≠ '\n') → ∀ arg ∈ args, ¬ arg.ReachesOver (Utf8.size before)
  apart : ',' ∈ comment → ∀ arg ∈ args.getLast?, ¬ arg.EndsOnLastLine before

section Arguments

variable {before : List Char} {s t s' : State} {arg : Argument}

/-- Where a text is read up to a place, the rest begins there. -/
theorem State.Before.size_add {text : List Char} (h : (State.ofText (before ++ behind)).Before s)
    (hs : s.rest = text ++ behind) : Utf8.size before = s.offset + Utf8.size text ∧
      ∃ read, before = read ++ text ∧ Utf8.size read = s.offset := by
  obtain ⟨read, hr, ho⟩ := h
  rw [hs] at hr
  have hbefore : before = read ++ text := by
    rw [← List.append_assoc] at hr
    exact List.append_cancel_right hr
  have hsize : Utf8.size read = s.offset := by simpa [ofText] using ho.symm
  exact ⟨by rw [hbefore, Utf8.size_append, hsize], read, hbefore, hsize⟩

/-- An argument that does not reach over the place of the comment is clear of it. -/
theorem clear_of_whole (hl : LineEnds behind) (hp : (State.ofText (before ++ behind)).Before s)
    (hd : argument s = .done arg s')
    (hw : (∃ c ∈ behind.head?, c ≠ '\n') → ¬ arg.ReachesOver (Utf8.size before)) :
    Clear behind s s' := by
  intro hend text hs
  have hover := hw hend
  obtain ⟨hsize, -⟩ := hp.size_add hs
  obtain ⟨read, hr, ho⟩ := (honest_argument.done s arg s' hd).1.before
  have htext : text ≠ [] := by
    rintro rfl
    have hnone : NoArgument s.rest := by
      rw [hs]
      exact (solid_of_codes (by decide)).stops_lineEnd hl
    obtain ⟨_, hstuck⟩ := refuses_argument hnone s.offset s.blame s.errors
    rw [hstuck] at hd
    cases hd
  have hstart := Utf8.size_pos htext
  rw [Argument.ReachesOver, span_of_argument hd] at hover
  dsimp only at hover
  obtain ⟨later, -, hlater⟩ :=
    Utf8.exists_append_of_size_le (hr.symm.trans hs) (by omega)
  exact ⟨later, hlater⟩

/-- A comment with a comma in it does not stand on the line on which the text goes on. -/
def Guarded (comment behind : List Char) (s : State) : Prop :=
  ',' ∈ comment → ∀ text, s.rest = text ++ behind → ∃ c ∈ text, isLineEnd c = true

theorem guarded_of_apart (hp : (State.ofText (before ++ behind)).Before s)
    (hs : arg.span.stop = s.offset) (ha : ',' ∈ comment → ¬ arg.EndsOnLastLine before) :
    Guarded comment behind s := by
  intro hc text hr
  obtain ⟨-, read, hread, hsize⟩ := hp.size_add hr
  by_contra hn
  refine ha hc ⟨read, text, hread, hsize.trans hs.symm, fun c hm => ?_⟩
  rw [← Bool.not_eq_true]
  exact fun hl => hn ⟨c, hm, hl⟩

variable (ht : IsTrailing comment behind)

include ht

theorem argument_follows (hp : (State.ofText (before ++ behind)).Before s)
    (hn : Near comment behind s.rest t.rest) (hd : argument s = .done arg s')
    (he : s'.errors = s.errors)
    (hw : (∃ c ∈ behind.head?, c ≠ '\n') → ¬ arg.ReachesOver (Utf8.size before)) :
    ∃ other t', argument t = .done other t' ∧ t'.errors = t.errors ∧ other.value = arg.value ∧
      Near comment behind s'.rest t'.rest := by
  have hclear := clear_of_whole ht.ends hp hd hw
  have hkeeps := (keeps_literal ht).insteadRead honest_literal honest_otherLiteral
  obtain ⟨⟨value, span⟩, middle, hv, hd⟩ := bind_eq_done.mp hd
  obtain ⟨rfl, rfl⟩ := pure_eq_done.mp hd
  obtain ⟨hv, -⟩ := spanned_eq_done.mp hv
  obtain ⟨t', hv', he', hn'⟩ := hkeeps.done s t value s' hn hclear hv he
  exact ⟨_, t', bind_eq_done.mpr ⟨(value, _), t', spanned_eq_done.mpr ⟨hv', rfl⟩, rfl⟩, he', rfl,
    hn'⟩

theorem exact_separator : Exact comment behind separator where
  done s t u s' hn hd := by
    rcases separates_or_unseparated s.rest with ⟨c, hc⟩ | hu
    · obtain ⟨_, _, _, hr, -⟩ := hc.reads s.offset s.blame s.errors
      obtain ⟨c', hc', hn'⟩ := hn.separates ht hc
      obtain ⟨_, _, _, hr', -⟩ := hc'.reads t.offset t.blame t.errors
      cases hd.symm.trans hr
      exact ⟨rfl, _, hr', rfl, hn'⟩
    · obtain ⟨_, hs⟩ := hu.refuses s.offset s.blame s.errors
      cases hd.symm.trans hs
  stuck s t blame hn hs := by
    rcases separates_or_unseparated s.rest with ⟨c, hc⟩ | hu
    · obtain ⟨_, _, _, hr, -⟩ := hc.reads s.offset s.blame s.errors
      cases hs.symm.trans hr
    · exact (hn.unseparated ht hu).refuses t.offset t.blame t.errors

theorem comma_follows {u : Unit} (hn : Near comment behind s.rest t.rest)
    (hd : comma s = .done u s') (he : s'.errors = s.errors) :
    ∃ t', comma t = .done u t' ∧ t'.errors = t.errors ∧ Near comment behind s'.rest t'.rest := by
  rcases honest_separator.of_skipUntil hd with hd | ⟨-, hnew⟩
  · obtain ⟨-, t', hd', he', hn'⟩ := (exact_separator ht).done s t u s' hn hd
    exact ⟨t', skipUntil_eq_done.mpr (.inl hd'), he', hn'⟩
  · exact absurd he hnew

/-- Where no argument follows in the one text, none follows in the other, unless there is a comma in
the comment and the line has not ended yet. -/
theorem nextArgument_stuck {blame : Option Blame} (hn : Near comment behind s.rest t.rest)
    (hg : Guarded comment behind s) (hs : (do comma; argument) s = .stuck blame) :
    ∃ blame', (do comma; argument) t = .stuck blame' := by
  -- What stands behind the comma in the other text is no argument either.
  have hbehind : ∀ {u middle middle'}, comma s = .done u middle → comma t = .done u middle' →
      Near comment behind middle.rest middle'.rest →
      ∃ blame', (do comma; argument) t = .stuck blame' := by
    intro u middle middle' hd hd' hn
    have hstuck : argument middle = .stuck blame := by
      rcases bind_eq_stuck.mp hs with hs | ⟨_, _, hv, hs⟩
      · cases hs.symm.trans hd
      · cases hv.symm.trans hd
        exact hs
    obtain ⟨blame', hstuck'⟩ := refuses_argument (hn.stops (by decide) (noArgument_of_stuck hstuck))
      middle'.offset middle'.blame middle'.errors
    exact ⟨blame', bind_eq_stuck.mpr (.inr ⟨u, middle', hd', hstuck'⟩)⟩
  rcases separates_or_unseparated s.rest with ⟨c, hc⟩ | hu
  · obtain ⟨c', hc', hn'⟩ := hn.separates ht hc
    obtain ⟨u, _, _, hr, -⟩ := hc.reads s.offset s.blame s.errors
    obtain ⟨u', _, _, hr', -⟩ := hc'.reads t.offset t.blame t.errors
    exact hbehind (skipUntil_eq_done.mpr (.inl hr)) (skipUntil_eq_done.mpr (.inl hr')) hn'
  · have hu' := hn.unseparated ht hu
    rcases finds_or_misses s.rest with ⟨b, hf⟩ | hm
    · obtain ⟨b', hf', hn'⟩ := hn.finds ht hf
      obtain ⟨middle, hd, rfl⟩ := comma_of_finds hu hf
      obtain ⟨middle', hd', rfl⟩ := comma_of_finds hu' hf'
      exact hbehind hd hd' hn'
    · obtain ⟨blame', hs'⟩ :=
        comma_of_misses hu' (hn.misses ht hg hu hm) t.offset t.blame t.errors
      exact ⟨blame', bind_eq_stuck.mpr (.inl hs')⟩

theorem nextArgument_follows (hp : (State.ofText (before ++ behind)).Before s)
    (hn : Near comment behind s.rest t.rest) (hd : (do comma; argument) s = .done arg s')
    (he : s'.errors = s.errors)
    (hw : (∃ c ∈ behind.head?, c ≠ '\n') → ¬ arg.ReachesOver (Utf8.size before)) :
    ∃ other t', (do comma; argument) t = .done other t' ∧ t'.errors = t.errors ∧
      other.value = arg.value ∧ Near comment behind s'.rest t'.rest := by
  obtain ⟨u, middle, hc, hd⟩ := bind_eq_done.mp hd
  have hcomma := (honest_comma.done s u middle hc).1
  obtain ⟨hm, hm'⟩ := hcomma.errors_eq (honest_argument.done middle arg s' hd).1 he
  obtain ⟨middle', hc', hem, hn⟩ := comma_follows ht hn hc hm
  obtain ⟨other, t', hd', het, hv, hn⟩ :=
    argument_follows ht (hp.trans hcomma.before) hn hd hm' hw
  exact ⟨other, t', bind_eq_done.mpr ⟨u, middle', hc', hd'⟩, het.trans hem, hv, hn⟩

/-- The arguments of a statement have the same values with the comment and without it. -/
theorem arguments_follow {args : List Argument}
    (hp : (State.ofText (before ++ behind)).Before s) (hn : Near comment behind s.rest t.rest)
    (hd : arguments s = .done args s') (he : s'.errors = s.errors)
    (ha : Allows args comment before behind) :
    ∃ others t', arguments t = .done others t' ∧ t'.errors = t.errors ∧
      others.map (·.value) = args.map (·.value) ∧ Near comment behind s'.rest t'.rest := by
  rcases orElse_eq_done.mp hd with hd | ⟨blame, hs, hd⟩
  · obtain ⟨first, middle, hf, hd⟩ := bind_eq_done.mp hd
    obtain ⟨rest, last, hm, hd⟩ := bind_eq_done.mp hd
    obtain ⟨rfl, rfl⟩ := pure_eq_done.mp hd
    have hruns := (many_eq_done advances_nextArgument honest_nextArgument).mp hm
    have hfirst := (honest_argument.done s first middle hf).1
    have hrest := (honest_nextArgument.many.done middle rest s' hm).1
    obtain ⟨hem, hes⟩ := hfirst.errors_eq hrest he
    have hplace := hp.trans hfirst.before
    have hstop := stop_of_runs hruns (by rw [span_of_argument hf])
    have hguard : Guarded comment behind s' := guarded_of_apart (hplace.trans hrest.before) hstop
      fun hc => ha.apart hc _ List.getLast?_cons
    obtain ⟨first', middle', hf', het, hv, hn⟩ := argument_follows ht hp hn hf hem
      fun hend => ha.whole hend first List.mem_cons_self
    obtain ⟨rest', t', hruns', het', hvs, hn', -⟩ := hruns.follow Argument.value
      (fun s t => Near comment behind s.rest t.rest ∧
        (State.ofText (before ++ behind)).Before s)
      honest_nextArgument hes ⟨hn, hplace⟩
      (by
        rintro s t arg next ⟨hn, hp⟩ hd he - hmem
        obtain ⟨other, t', hd', he', hv, hn'⟩ := nextArgument_follows ht hp hn hd he
          fun hend => ha.whole hend arg (List.mem_cons_of_mem _ hmem)
        have hleads := (honest_nextArgument.done s arg next hd).1
        exact ⟨other, t', hd', he', hv, hn', hp.trans hleads.before⟩)
      (by
        rintro s t blame ⟨hn, hp⟩ hs rfl
        obtain ⟨blame', hs'⟩ := nextArgument_stuck ht hn hguard hs
        exact ⟨blame', hs', hn, hp⟩)
    have hmany := (many_eq_done advances_nextArgument honest_nextArgument).mpr hruns'
    refine ⟨first' :: rest', t', orElse_eq_done.mpr (.inl ?_), het'.trans het, ?_, hn'⟩
    · exact bind_eq_done.mpr ⟨first', middle', hf', bind_eq_done.mpr ⟨rest', t', hmany, rfl⟩⟩
    · rw [List.map_cons, List.map_cons, hv, hvs]
  · obtain ⟨rfl, rfl⟩ := pure_eq_done.mp hd
    have hstuck : argument s = .stuck blame := by
      rcases bind_eq_stuck.mp hs with hs | ⟨first, middle, -, hs⟩
      · exact hs
      · exact absurd hs (((Total.many _).bind fun _ => .pure _) middle blame)
    have hnone : NoArgument t.rest := hn.stops (by decide) (noArgument_of_stuck hstuck)
    obtain ⟨_, offset, blame', hr, rfl⟩ := reads_no_arguments hnone t.offset t.blame t.errors
    exact ⟨[], _, hr, rfl, rfl, hn⟩

end Arguments

end ScriptKit.Listing
