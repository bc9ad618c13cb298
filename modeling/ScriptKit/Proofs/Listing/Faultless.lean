import ScriptKit.Proofs.Listing.Literal
import ScriptKit.Proofs.Listing.Placement

namespace ScriptKit.Listing

open Listing.Parser Text

variable {s s' : State}

section Runs

variable {miss : State → State} {test : Char → Bool} {word : List Char} (hm : Notes miss)

include hm

theorem rest_of_run (hd : run miss test s = .done word s') :
    s'.rest = s.rest.dropWhile test ∧ s'.errors = s.errors := by
  obtain ⟨-, rfl⟩ := run_eq_done.mp hd
  obtain ⟨blame, hb⟩ := hm { s with
    rest := s.rest.dropWhile test
    offset := s.offset + Utf8.size (s.rest.takeWhile test) }
  rw [hb]
  exact ⟨rfl, rfl⟩

theorem word_of_run (hd : run miss test s = .done word s') :
    s.rest = word ++ s'.rest ∧ ∀ c ∈ word, test c = true := by
  rw [(rest_of_run hm hd).1, (run_eq_done.mp hd).1]
  exact ⟨List.takeWhile_append_dropWhile.symm,
    fun c hc => List.all_eq_true.mp List.all_takeWhile c hc⟩

theorem word_of_run1 (hd : run1 miss test s = .done word s') :
    s.rest = word ++ s'.rest ∧ word ≠ [] ∧ ∀ c ∈ word, test c = true := by
  obtain ⟨hne, hr⟩ := run1_eq_done.mp hd
  obtain ⟨hrest, hall⟩ := word_of_run hm hr
  exact ⟨hrest, hne, hall⟩

end Runs

theorem skips_of_trivia {u : Unit} (h : trivia s = .done u s') :
    Skips s.rest s'.rest ∧ s'.errors = s.errors := by
  obtain ⟨b, hb⟩ := exists_skips s.rest
  obtain ⟨_, _, _, hr, -⟩ := hb.reads s.offset s.blame s.errors
  cases h.symm.trans hr
  exact ⟨hb, rfl⟩

/-- A text without a report is closed by its mark. -/
theorem rest_of_closing {mark : Char} {rest : Parser Unit} {s s' : State} {closed : Bool}
    (h : Honest rest fun _ => True) (hd : closing mark rest s = .done closed s')
    (he : s'.errors = s.errors) : s.rest = mark :: s'.rest := by
  have hmark : Honest (do symbol [mark]; pure true) fun _ => True :=
    (honest_symbol _).bind fun _ => .pure fun _ => trivial
  rcases hmark.of_insteadRead (h.bind fun _ => .pure fun _ => trivial) hd with hd | ⟨-, hnew⟩
  · obtain ⟨_, middle, hm, hd⟩ := bind_eq_done.mp hd
    obtain ⟨c, last, hc, hm⟩ := bind_eq_done.mp hm
    obtain ⟨hmark, others, hr, rfl⟩ := char_eq_done.mp hc
    obtain ⟨-, rfl⟩ := pure_eq_done.mp hm
    obtain ⟨-, rfl⟩ := pure_eq_done.mp hd
    rw [hr, eq_of_beq hmark]
  · exact absurd he hnew

theorem noArgument_of_stuck {blame : Option Blame} (h : argument s = .stuck blame) :
    NoArgument s.rest := by
  rcases bind_eq_stuck.mp h with h | ⟨found, middle, -, h⟩
  · obtain ⟨-, other, hs⟩ := insteadRead_eq_stuck.mp (spanned_eq_stuck.mp h)
    rcases bind_eq_stuck.mp hs with hs | ⟨word, middle, -, hs⟩
    · obtain ⟨middle, hr, -⟩ := run1_eq_stuck.mp hs
      obtain ⟨hword, -⟩ := run_eq_done.mp hr
      have hstops := stops_dropWhile (fun c => !isBlank c && c != ',' && c != '/') s.rest
      rw [← List.takeWhile_append_dropWhile (p := fun c => !isBlank c && c != ',' && c != '/')
        (l := s.rest), ← hword]
      exact hstops
    · exact absurd hs pure_ne_stuck
  · exact absurd h pure_ne_stuck

theorem span_of_argument {arg : Argument} (h : argument s = .done arg s') :
    arg.span = ⟨s.offset, s'.offset⟩ := by
  obtain ⟨⟨value, span⟩, middle, hv, hd⟩ := bind_eq_done.mp h
  obtain ⟨rfl, rfl⟩ := pure_eq_done.mp hd
  exact (spanned_eq_done.mp hv).2

/-- The last argument ends where another one is looked for in vain. -/
theorem stop_of_runs {first : Argument} {rest : List Argument}
    (h : Runs (do comma; argument) s rest s') (hf : first.span.stop = s.offset) :
    (rest.getLast?.getD first).span.stop = s'.offset := by
  induction h generalizing first with
  | stop stuck => exact hf
  | @more s middle s' value values done others ih =>
    obtain ⟨u, start, -, hd⟩ := bind_eq_done.mp done
    have hvalue : value.span.stop = middle.offset := by rw [span_of_argument hd]
    rw [List.getLast?_cons, Option.getD_some]
    exact ih hvalue

theorem noArgument_of_arguments (hd : arguments s = .done [] s') :
    NoArgument s.rest ∧ s'.rest = s.rest := by
  rcases orElse_eq_done.mp hd with hd | ⟨_, hs, hd⟩
  · obtain ⟨first, middle, -, hd⟩ := bind_eq_done.mp hd
    obtain ⟨others, last, -, hd⟩ := bind_eq_done.mp hd
    cases (pure_eq_done.mp hd).1
  · obtain ⟨-, rfl⟩ := pure_eq_done.mp hd
    rcases bind_eq_stuck.mp hs with hs | ⟨first, middle, -, hs⟩
    · exact ⟨noArgument_of_stuck hs, rfl⟩
    · rcases bind_eq_stuck.mp hs with hs | ⟨_, _, -, hs⟩
      · exact absurd hs many_ne_stuck
      · exact absurd hs pure_ne_stuck

/-- The last argument is the last that is read. -/
theorem stop_of_arguments {args : List Argument} (hd : arguments s = .done args s')
    (hn : args ≠ []) : ∃ arg ∈ args, arg.span.stop = s'.offset := by
  rcases orElse_eq_done.mp hd with hd | ⟨_, -, hd⟩
  · obtain ⟨first, middle, hf, hd⟩ := bind_eq_done.mp hd
    obtain ⟨others, last, ho, hd⟩ := bind_eq_done.mp hd
    obtain ⟨rfl, rfl⟩ := pure_eq_done.mp hd
    have hstop := stop_of_runs ((many_eq_done advances_nextArgument honest_nextArgument).mp ho)
      (by rw [span_of_argument hf])
    refine ⟨others.getLast?.getD first, ?_, hstop⟩
    cases hlast : others.getLast? with
    | none => exact List.mem_cons_self
    | some arg => exact .tail _ (List.mem_of_getLast? hlast)
  · exact absurd (pure_eq_done.mp hd).1 hn

/-- What could be read is a literal. -/
theorem literal_of_argument {arg : Argument} (hd : argument s = .done arg s')
    (hv : arg.value ≠ .unreadable) : literal s = .done arg.value s' := by
  obtain ⟨⟨found, span⟩, middle, hs, hp⟩ := bind_eq_done.mp hd
  obtain ⟨rfl, rfl⟩ := pure_eq_done.mp hp
  obtain ⟨hl, -⟩ := spanned_eq_done.mp hs
  rcases insteadRead_eq_done.mp hl with hl | ⟨_, middle, -, hl, -⟩
  · exact hl
  · obtain ⟨_, _, -, hp⟩ := bind_eq_done.mp hl
    exact absurd (pure_eq_done.mp hp).1 hv

/-- A mnemonic without a report is spelt as one. -/
theorem mnemonic_inv {name : String} (hd : mnemonic s = .done name s')
    (he : s'.errors = s.errors) : ∃ word, run1 unexpectedKind isMnemonicChar s = .done word s' ∧
      mnemonicFault? word = none ∧ name = String.ofList word := by
  rw [mnemonic] at hd
  split at hd
  · next word middle hw =>
    split at hd
    · next hnone =>
      cases hd
      exact ⟨word, hw, hnone, rfl⟩
    · cases hd
      have hl := ((honest_run1 tells_kind).done s word middle hw).1.keeps.length_le
      rw [← he, List.length_cons] at hl
      omega
  · cases hd

/-- A statement starts with the first character of its mnemonic. -/
theorem first_of_statement {found : Statement} (hd : statement s = .done found s') :
    ∃ c rest, s.rest = c :: rest ∧ isMnemonicChar c = true := by
  obtain ⟨⟨name, span⟩, middle, hm, -⟩ := bind_eq_done.mp hd
  obtain ⟨hname, -⟩ := spanned_eq_done.mp hm
  rw [mnemonic] at hname
  split at hname
  · next word middle hword =>
    obtain ⟨hrest, hne, hall⟩ := word_of_run1 notes_kind hword
    obtain ⟨c, word, rfl⟩ := List.exists_cons_of_ne_nil hne
    exact ⟨c, word ++ middle.rest, hrest, hall c List.mem_cons_self⟩
  · cases hname

/-- The place of a statement reaches from its mnemonic to its last argument. -/
theorem span_of_statement {found : Statement} (hd : statement s = .done found s') :
    found.span.start = s.offset ∧ (found.args ≠ [] → found.span.stop = s'.offset) := by
  obtain ⟨hspans, hparts⟩ := statement_places s found s' hd
  have hcovers := hspans found.span List.mem_cons_self
  obtain ⟨⟨name, span⟩, middle, hm, hd⟩ := bind_eq_done.mp hd
  obtain ⟨_, behind, hb, hd⟩ := bind_eq_done.mp hd
  obtain ⟨args, last, ha, hd⟩ := bind_eq_done.mp hd
  obtain ⟨rfl, rfl⟩ := pure_eq_done.mp hd
  obtain ⟨-, rfl⟩ := spanned_eq_done.mp hm
  refine ⟨Nat.le_antisymm hparts.mnemonic.start hcovers.start, fun hn => ?_⟩
  obtain ⟨arg, harg, hstop⟩ := stop_of_arguments ha hn
  exact Nat.le_antisymm hcovers.stop (hstop ▸ (hparts.args arg harg).stop)

/-- Nothing is skipped in front of a statement. -/
theorem statement_of_nextStatement {found : Statement} (hd : nextStatement s = .done found s')
    (he : s'.errors = s.errors) :
    ∃ middle, statement s = .done found middle ∧ Skips middle.rest s'.rest ∧
      s.Before middle ∧ middle.Before s' := by
  rcases honest_wholeStatement.of_skipUntil hd with hd | ⟨-, hnew⟩
  · obtain ⟨_, middle, hs, hd⟩ := bind_eq_done.mp hd
    obtain ⟨_, _, ht, hd⟩ := bind_eq_done.mp hd
    obtain ⟨rfl, rfl⟩ := pure_eq_done.mp hd
    exact ⟨middle, hs, (skips_of_trivia ht).1, (honest_statement.done s _ middle hs).1.before,
      (honest_trivia.done middle _ s' ht).1.before⟩
  · exact absurd he hnew

/-- What is read in some round without a report is read so at a place behind the start. -/
theorem Parser.Runs.exists_quiet {α : Type} {p : Parser α} {Q : α → Prop} (hp : Honest p Q)
    {values : List α} (h : Runs p s values s') (he : s'.errors = s.errors) :
    ∀ value ∈ values, ∃ t t', s.Before t ∧ p t = .done value t' ∧ t'.errors = t.errors := by
  induction h with
  | stop => simp
  | @more s middle s' value values done others ih =>
    have hfirst := (hp.done s value middle done).1
    obtain ⟨hm, hm'⟩ := hfirst.errors_eq (hp.rounds others.rounds).1 he
    refine List.forall_mem_cons.mpr ⟨⟨s, middle, .refl s, done, hm⟩, fun other ho => ?_⟩
    obtain ⟨t, t', ht, hd, hq⟩ := ih hm' other ho
    exact ⟨t, t', hfirst.before.trans ht, hd, hq⟩

/-- Statements that are read one after another to the end of a text are its listing. -/
theorem parse_of_readsAll {text a : List Char} {S : List Statement → Prop} (hs : Skips text a)
    (h : ReadsAll nextStatement a [] S) : ∃ found, parse text = ⟨some found, []⟩ ∧ S found := by
  have hreads : Reads statements text [] S := hs.reads.bind fun _ _ => .many h
  obtain ⟨found, offset, blame, hp, hS⟩ := hreads 0 none []
  exact ⟨found, by rw [parse, State.ofText, hp]; rfl, hS⟩

/-- A listing without a fault is read up to its end. -/
theorem parse_eq_iff {text : List Char} {statements : List Statement} :
    parse text = ⟨some statements, []⟩ ↔
      ∃ s, Listing.statements (.ofText text) = .done statements s ∧ s.rest = [] ∧
        s.errors = [] := by
  obtain ⟨found, s, hd⟩ := exists_statements (.ofText text)
  rw [parse, hd]
  dsimp only
  constructor
  · intro h
    split at h
    · next hr =>
      obtain ⟨hfound, herrors⟩ := Parsed.mk.inj h
      rw [Option.some.inj hfound]
      exact ⟨s, rfl, hr, List.reverse_eq_nil_iff.mp herrors⟩
    · cases (Parsed.mk.inj h).1
  · rintro ⟨s', hs, hr, he⟩
    cases hs
    rw [hr, he]
    rfl

end ScriptKit.Listing
