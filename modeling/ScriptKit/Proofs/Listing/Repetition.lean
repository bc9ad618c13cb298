import ScriptKit.Proofs.Listing.Honesty

namespace ScriptKit.Listing.Parser

variable {α β : Type} {p q : Parser α} {Q : α → Prop} {R : β → Prop} {s t s' : State}
  {values : List α}

/-- The parser reads at least one character. -/
def Advances (p : Parser α) : Prop := ∀ s value s', p s = .done value s' → s.offset < s'.offset

namespace Advances

theorem bind_left {f : α → Parser β} (h : Advances p) (hf : ∀ value, Honest (f value) R) :
    Advances (p >>= f) := by
  intro s result s' hd
  obtain ⟨value, middle, hv, hr⟩ := bind_eq_done.mp hd
  exact Nat.lt_of_lt_of_le (h s value middle hv) ((hf value).done _ _ _ hr).1.before.offset_le

theorem bind_right {f : α → Parser β} (h : Honest p Q) (hf : ∀ value, Advances (f value)) :
    Advances (p >>= f) := by
  intro s result s' hd
  obtain ⟨value, middle, hv, hr⟩ := bind_eq_done.mp hd
  exact Nat.lt_of_le_of_lt (h.done _ _ _ hv).1.before.offset_le (hf value middle result s' hr)

theorem orElse (hp : Advances p) (hq : Advances q) : Advances (orElse p q) := by
  intro s value s' hd
  rcases orElse_eq_done.mp hd with hd | ⟨blame, -, hd⟩
  · exact hp s value s' hd
  · exact hq { s with blame } value s' hd

theorem judge {f : Span → α → Except SyntaxError β} (h : Advances p) : Advances (judge p f) := by
  intro s result s' hd
  obtain ⟨value, hv, -⟩ := judge_eq_done.mp hd
  exact h s value s' hv

theorem spanned (h : Advances p) : Advances (spanned p) :=
  fun s found s' hd => h s found.1 s' (spanned_eq_done.mp hd).1

theorem skipUntil {barrier : Char → Bool} (h : Advances p) : Advances (skipUntil barrier p) := by
  intro s value s' hd
  rcases skipUntil_eq_done.mp hd with hd | ⟨blame, -, hd⟩
  · exact h s value s' hd
  · obtain ⟨skipped, rest, found, -, hv, -, rfl⟩ := of_search_eq_done hd
    have := h _ value found hv
    rw [State.report_offset]
    dsimp only at this ⊢
    omega

end Advances

theorem advances_char {miss : State → State} {test : Char → Bool} : Advances (char miss test) := by
  intro s c s' hd
  obtain ⟨-, rest, -, rfl⟩ := char_eq_done.mp hd
  exact Nat.lt_add_of_pos_right c.utf8Size_pos

theorem advances_run1 {miss : State → State} {test : Char → Bool} (hm : Tells miss) :
    Advances (run1 miss test) := by
  intro s word s' hd
  obtain ⟨hn, hr⟩ := run1_eq_done.mp hd
  obtain ⟨rfl, rfl⟩ := run_eq_done.mp hr
  obtain ⟨blame, hb, -⟩ := hm { s with
    rest := s.rest.dropWhile test
    offset := s.offset + Utf8.size (s.rest.takeWhile test) }
  rw [hb]
  exact Nat.lt_add_of_pos_right (Utf8.size_pos hn)

theorem advances_symbol (c : Char) (rest : List Char) : Advances (symbol (c :: rest)) :=
  advances_char.bind_left fun _ => honest_symbol rest

/-- Fewer characters are left behind what was read. -/
theorem Advances.length_lt (h : Advances p) (hp : Honest p Q) {value : α}
    (hd : p s = .done value s') : s'.rest.length < s.rest.length := by
  obtain ⟨read, hr, ho⟩ := (hp.done s value s' hd).1.before
  have hlt := h s value s' hd
  have hn : read ≠ [] := by
    rintro rfl
    rw [Utf8.size_nil] at ho
    omega
  have := List.length_pos_iff.mpr hn
  rw [hr, List.length_append]
  omega

/-- The rounds of a repetition, up to the place where the parser does not fit. -/
inductive Runs (p : Parser α) : State → List α → State → Prop
  | stop {s : State} {blame : Option Blame} (stuck : p s = .stuck blame) :
    Runs p s [] { s with blame }
  | more {s middle s' : State} {value : α} {values : List α} (done : p s = .done value middle)
    (others : Runs p middle values s') : Runs p s (value :: values) s'

/-- The parser does not fit where its rounds end. -/
theorem Runs.stuck (h : Runs p s values s') : ∃ blame, p { s' with blame } = .stuck s'.blame := by
  induction h with
  | @stop s blame stuck => exact ⟨s.blame, stuck⟩
  | more done others ih => exact ih

/-- Rounds that start at one place end at one place. -/
theorem Runs.unique {others : List α} {last : State} (h : Runs p s values s')
    (ho : Runs p s others last) : values = others ∧ s' = last := by
  induction h generalizing others with
  | stop stuck =>
    cases ho with
    | stop other =>
      cases stuck.symm.trans other
      exact ⟨rfl, rfl⟩
    | more done _ => cases stuck.symm.trans done
  | more done _ ih =>
    cases ho with
    | stop stuck => cases done.symm.trans stuck
    | more other others =>
      cases done.symm.trans other
      obtain ⟨rfl, rfl⟩ := ih others
      exact ⟨rfl, rfl⟩

theorem Runs.rounds (h : Runs p s values s') : Rounds p s values s' := by
  induction h with
  | stop stuck => exact .stop stuck
  | more done others ih => exact .more done ih

section Repetition

variable (ha : Advances p) (hp : Honest p Q)

include ha hp

theorem exists_runs (s : State) : ∃ values s', Runs p s values s' := by
  induction hl : s.rest.length using Nat.strongRecOn generalizing s with
  | ind length ih =>
    cases hs : p s with
    | stuck blame => exact ⟨[], _, .stop hs⟩
    | done value middle =>
      obtain ⟨values, s', hr⟩ := ih _ (hl ▸ ha.length_lt hp hs) middle rfl
      exact ⟨value :: values, s', .more hs hr⟩

theorem rounds_of_runs (h : Runs p s values s') (read : List α) (bound : List Char)
    (hb : s.rest.length ≤ bound.length) :
    many.rounds p read bound s = .done (read.reverse ++ values) s' := by
  induction h generalizing read bound with
  | stop stuck => rw [many.rounds.eq_def, stuck, List.append_nil]
  | @more s middle s' value values done others ih =>
    have hlt := ha.length_lt hp done
    cases bound with
    | nil =>
      rw [List.length_nil] at hb
      omega
    | cons c bound =>
      rw [List.length_cons] at hb
      rw [many.rounds.eq_def, done]
      simp only [ih (value :: read) bound (by omega), List.reverse_cons, List.append_assoc,
        List.cons_append, List.nil_append]

/-- The text is a bound on the number of rounds that is never reached. -/
theorem many_eq_done : many p s = .done values s' ↔ Runs p s values s' := by
  have hmany : ∀ {values s'}, Runs p s values s' → many p s = .done values s' :=
    fun h => rounds_of_runs ha hp h [] s.rest (Nat.le_refl _)
  refine ⟨fun hd => ?_, hmany⟩
  obtain ⟨_, _, hr⟩ := exists_runs ha hp s
  rw [hmany hr] at hd
  cases hd
  exact hr

end Repetition

/-- What one round without a report has a counterpart to in another state, all rounds have. -/
theorem Runs.follow (h : Runs p s values s') (look : α → β) (Related : State → State → Prop)
    (hp : Honest p Q) (hquiet : s'.errors = s.errors) (hrelated : Related s t)
    (hmore : ∀ s t value middle, Related s t → p s = .done value middle →
      middle.errors = s.errors → middle.Before s' → value ∈ values →
      ∃ other middle', p t = .done other middle' ∧ middle'.errors = t.errors ∧
        look other = look value ∧ Related middle middle')
    (hstop : ∀ s t blame, Related s t → p s = .stuck blame → s' = { s with blame } →
      ∃ blame', p t = .stuck blame' ∧ Related { s with blame } { t with blame := blame' }) :
    ∃ others t', Runs p t others t' ∧ t'.errors = t.errors ∧
      others.map look = values.map look ∧ Related s' t' := by
  induction h generalizing t with
  | @stop s blame stuck =>
    obtain ⟨blame', hs, hr⟩ := hstop s t blame hrelated stuck rfl
    exact ⟨[], _, .stop hs, rfl, rfl, hr⟩
  | @more s middle s' value values done rest ih =>
    have hleads := (hp.rounds rest.rounds).1
    obtain ⟨hm, hm'⟩ := (hp.done s value middle done).1.errors_eq hleads hquiet
    obtain ⟨other, middle', hd, he, hlook, hr⟩ :=
      hmore s t value middle hrelated done hm hleads.before List.mem_cons_self
    obtain ⟨others, t', hruns, he', hlooks, hr'⟩ := ih hm' hr
      (fun s t value middle hr hd he hb hv => hmore s t value middle hr hd he hb (.tail _ hv)) hstop
    exact ⟨other :: others, t', .more hd hruns, he'.trans he, by rw [List.map_cons, hlook, hlooks,
      List.map_cons], hr'⟩

end ScriptKit.Listing.Parser

namespace ScriptKit.Listing

open Listing.Parser Text

theorem advances_triviaPiece : Advances triviaPiece :=
  ((advances_symbol _ _).bind_left (R := fun _ => True) fun _ =>
    (honest_run tells_lineEnd).bind fun _ => .pure fun _ => trivial).orElse
    ((advances_run1 tells_nonBlank).bind_left (R := fun _ => True) fun _ => .pure trivial)

theorem advances_textChar :
    Advances (orElse (char unexpectedHere isPlainChar) escapedChar) :=
  advances_char.orElse (.bind_right (honest_symbol _) fun _ => advances_char.judge)

theorem advances_nextArgument : Advances (do comma; argument) :=
  Advances.bind_left
    (Advances.bind_right honest_trivia fun _ =>
      (advances_symbol _ _).bind_left fun _ => honest_trivia).skipUntil
    fun _ => honest_argument

/-- A mnemonic has at least one character. -/
theorem offset_lt_of_mnemonic {s s' : State} {name : String} (h : mnemonic s = .done name s') :
    s.offset < s'.offset := by
  rw [mnemonic] at h
  split at h
  · next word middle hw =>
    have := advances_run1 tells_kind s word middle hw
    split at h
    · cases h
      exact this
    · cases h
      exact this
  · cases h

theorem advances_nextStatement : Advances nextStatement := by
  have hmnemonic : Advances mnemonic := fun _ _ _ => offset_lt_of_mnemonic
  have hstatement : Advances statement := hmnemonic.spanned.bind_left (R := fun _ => True)
    fun _ => (honest_run tells_nonBlank).bind fun _ => honest_arguments.bind fun _ =>
      .pure fun _ _ => trivial
  exact (hstatement.bind_left (R := fun _ => True)
    fun _ => honest_trivia.bind fun _ => .pure fun _ => trivial).skipUntil

theorem refuses_nextStatement_end : Refuses nextStatement [] := fun _ _ _ => ⟨_, rfl⟩

end ScriptKit.Listing
