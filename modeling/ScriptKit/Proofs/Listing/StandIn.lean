import ScriptKit.Proofs.Listing.Honesty
import ScriptKit.Proofs.Listing.Line
import ScriptKit.Proofs.Listing.Meaning

namespace ScriptKit.Listing

variable {s : Statement} {op : Opcode} {i : Instruction}

/-- A text without faults is read to its end, and everything in it could be read. -/
theorem readable_of_errors_eq_nil {text : List Char} (h : (parse text).errors = []) :
    ∃ statements, (parse text).statements? = some statements ∧
      ∀ s ∈ statements, s.IsReadable := by
  obtain ⟨statements, s', hd⟩ := exists_statements (.ofText text)
  rw [parse, hd] at h ⊢
  dsimp only at h ⊢
  split at h
  · have he : s'.errors = (State.ofText text).errors := List.reverse_eq_nil_iff.mp h
    exact ⟨statements, rfl, (honest_statements.done _ _ _ hd).2 he⟩
  · -- What is left behind the statements would be a fault.
    obtain ⟨blame, hu, known, rfl, -⟩ := Parser.tells_here s'
    rw [hu] at h
    simp [State.report] at h

theorem mnemonic_ne_unreadable (op : Opcode) : op.mnemonic ≠ unreadableMnemonic := by
  intro h
  have hfault := (isMnemonic_mnemonic op).2
  rw [h] at hfault
  exact absurd hfault (by decide)

/-- An operand is denoted by literals that could be read. -/
theorem ne_unreadable_of_denotes {literals : List Literal} {operand : Option Bytes}
    (h : Denotes op literals operand) : ∀ literal ∈ literals, literal ≠ .unreadable := by
  cases h with
  | none rule => simp
  | number rule => simp
  | halves two rule even => simp
  | bytes rule => simp
  | text text rule => simp
  | service service call => simp

namespace Statement

/-- Only what could be read stands for an instruction. -/
theorem StandsFor.isReadable (h : s.StandsFor i) : s.IsReadable := by
  have hargs : ∀ {literals : List Literal}, s.literals = literals →
      (∀ literal ∈ literals, literal ≠ .unreadable) →
      ∀ arg ∈ s.args, arg.value ≠ .unreadable := by
    rintro _ rfl hl arg ha
    exact hl arg.value (List.mem_map_of_mem ha)
  cases h with
  | @native op operand named given =>
    exact ⟨named ▸ mnemonic_ne_unreadable op, hargs rfl (ne_unreadable_of_denotes given)⟩
  | int named given push => exact ⟨by rw [named]; decide, hargs given (by simp)⟩
  | data named given push =>
    refine ⟨by rw [named]; decide, ?_⟩
    rcases given with given | ⟨text, given, -⟩
    · exact hargs given (by simp)
    · exact hargs given (by simp)
  | bool value named given => exact ⟨by rw [named]; decide, hargs given (by simp)⟩

theorem isReadable_of_encode {wantsAll : Bool} {bytes : Bytes}
    (h : s.encode wantsAll = .ok bytes) : s.IsReadable := by
  obtain ⟨i, hs, -⟩ := decode_of_encode h
  exact hs.isReadable

end Statement

/-- A check finds a fault in a statement with a stand-in. -/
theorem check_of_not_isReadable (h : ¬ s.IsReadable) : ∃ diagnostic, check [s] = [diagnostic] := by
  cases he : s.encode true with
  | ok bytes => exact absurd (Statement.isReadable_of_encode he) h
  | error diagnostic => exact ⟨diagnostic, check_of_error he⟩

/-- Everything could be read in what is assembled. -/
theorem isReadable_of_assemble {statements : List Statement} {script : Bytes}
    (h : assemble statements = .ok script) : ∀ s ∈ statements, s.IsReadable := by
  intro s hs
  by_contra hn
  obtain ⟨diagnostic, hd⟩ := check_of_not_isReadable hn
  have hnone := (check_eq_nil_iff statements).mpr ⟨script, h⟩
  rw [check_eq_flatMap, List.flatMap_eq_nil_iff] at hnone
  rw [hnone s hs] at hd
  cases hd

/-- Where no fault is found in a text, all of it could be read. A statement with a stand-in for a
mnemonic or an argument, whatever stands beside it, adds a fault to the check of its listing, and no
listing that contains it is assembled. -/
theorem standIn_is_reported :
    (∀ text, (parse text).errors = [] →
      ∃ statements, (parse text).statements? = some statements ∧
        ∀ s ∈ statements, s.mnemonic ≠ unreadableMnemonic ∧
          ∀ arg ∈ s.args, arg.value ≠ .unreadable) ∧
    ∀ text statements, (parse text).statements? = some statements → ∀ s ∈ statements,
      (s.mnemonic = unreadableMnemonic ∨ ∃ arg ∈ s.args, arg.value = .unreadable) →
        (∃ diagnostic ∈ (parse text).check, check [s] = [diagnostic]) ∧
        ∀ listing, s ∈ listing → ∀ script, assemble listing ≠ .ok script := by
  constructor
  · intro text h
    obtain ⟨statements, hs, hr⟩ := readable_of_errors_eq_nil h
    exact ⟨statements, hs, fun s hm => ⟨(hr s hm).mnemonic, (hr s hm).args⟩⟩
  · intro text statements hread s hs hstandIn
    have hn : ¬ s.IsReadable := by
      rintro ⟨hm, ha⟩
      rcases hstandIn with h | ⟨arg, harg, h⟩
      · exact hm h
      · exact ha arg harg h
    constructor
    · obtain ⟨diagnostic, hd⟩ := check_of_not_isReadable hn
      refine ⟨diagnostic, ?_, hd⟩
      rw [Parsed.check, hread, Option.getD_some, check_eq_flatMap]
      exact List.mem_flatMap.mpr ⟨s, hs, hd ▸ List.mem_singleton_self diagnostic⟩
    · intro listing hm script h
      exact hn (isReadable_of_assemble h s hm)

/-- A byte string and a quoted text in one statement, neither of which can be read, stand between a
misspelt mnemonic and a good statement. -/
theorem standIn_is_reported_two_literals :
    ((parse "TRY 3, -2 // both".toList).errors = [] ∧
      ∃ statements, (parse "TRY 3, -2 // both".toList).statements? = some statements ∧
        ∀ s ∈ statements, s.mnemonic ≠ unreadableMnemonic ∧
          ∀ arg ∈ s.args, arg.value ≠ .unreadable) ∧
    (parse "foo 1\nTRY x\x7bzz\x7d, \"abc\nNOP".toList).statements? =
      some [⟨⟨0, 5⟩, ⟨0, 3⟩, unreadableMnemonic, [⟨⟨4, 5⟩, .number 1⟩]⟩,
        ⟨⟨6, 21⟩, ⟨6, 9⟩, "TRY", [⟨⟨10, 15⟩, .unreadable⟩, ⟨⟨17, 21⟩, .unreadable⟩]⟩,
        ⟨⟨22, 25⟩, ⟨22, 25⟩, "NOP", []⟩] ∧
    ∃ diagnostic ∈ (parse "foo 1\nTRY x\x7bzz\x7d, \"abc\nNOP".toList).check,
      check [⟨⟨6, 21⟩, ⟨6, 9⟩, "TRY", [⟨⟨10, 15⟩, .unreadable⟩, ⟨⟨17, 21⟩, .unreadable⟩]⟩] =
        [diagnostic] := by
  have hgood : (parse "TRY 3, -2 // both".toList).errors = [] := by decide +kernel
  have hbad : (parse "foo 1\nTRY x\x7bzz\x7d, \"abc\nNOP".toList).statements? =
      some [⟨⟨0, 5⟩, ⟨0, 3⟩, unreadableMnemonic, [⟨⟨4, 5⟩, .number 1⟩]⟩,
        ⟨⟨6, 21⟩, ⟨6, 9⟩, "TRY", [⟨⟨10, 15⟩, .unreadable⟩, ⟨⟨17, 21⟩, .unreadable⟩]⟩,
        ⟨⟨22, 25⟩, ⟨22, 25⟩, "NOP", []⟩] := by
    decide +kernel
  exact ⟨⟨hgood, standIn_is_reported.1 _ hgood⟩, hbad,
    (standIn_is_reported.2 _ _ hbad _ (by simp) (.inr ⟨_, List.mem_cons_self, rfl⟩)).1⟩

end ScriptKit.Listing
