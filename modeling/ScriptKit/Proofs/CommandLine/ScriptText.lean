import ScriptKit.Proofs.Bytes.Hex
import ScriptKit.Proofs.Call.Machine
import ScriptKit.Proofs.CommandLine.Build

namespace ScriptKit.CommandLine

/-- The text has the mark of the radix with a capital letter. -/
def HasCapitalMark (text : String) : Prop := ['0', 'X'] <+: Text.trim text.toList

instance (text : String) : Decidable (HasCapitalMark text) :=
  inferInstanceAs (Decidable (_ <+: _))

/-- The text for which an argument stands. -/
def FileStore.textOf (store : FileStore) (arg : String) : String :=
  if arg = "-" then store.input else arg

/-- The argument that gives a command its script, and what the command makes of the script. -/
def Command.onScript? : Command → Option (String × (Bytes → Outcome))
  | .build .. => none
  | .disasm arg => some (arg, disasmOutcome)
  | .decompile arg => some (arg, decompileOutcome)
  | .fee arg factor itemSize? json => some (arg, feeOutcome { factor, itemSize? } json)
  | .classify arg json => some (arg, classifyOutcome json)

variable {store : FileStore} {args : List String} {arg text : String} {script : Bytes}
  {command : Command} {use : Bytes → Outcome}

/-- A capital letter behind the zero is no digit. -/
theorem scriptOfText_of_hasCapitalMark (h : HasCapitalMark text) :
    ∃ problem, scriptOfText text = .error problem := by
  obtain ⟨digits, ht⟩ := h
  rw [List.cons_append, List.cons_append, List.nil_append] at ht
  cases hs : scriptOfText text with
  | error problem => exact ⟨problem, rfl⟩
  | ok script =>
    simp only [scriptOfText, ← ht] at hs
    have hmem : (0x58 : UInt8) ∈ Utf8.encodeChars ('0' :: 'X' :: digits) := by
      have hX : String.utf8EncodeChar 'X' = [0x58] := by decide
      simp [Utf8.encodeChars, hX]
    obtain ⟨value, hv⟩ := Hex.value_of_decode hs _ hmem
    have hnone : Hex.value? 0x58 = none := by decide
    rw [hnone] at hv
    cases hv

/-- Without that mark a text is read as anywhere else, or has the same problem. -/
theorem ofText_eq_mapError (h : ¬HasCapitalMark text) :
    Bytes.ofText text = (scriptOfText text).mapError .badHex := by
  have hdigits : scriptOfText text =
      Hex.decode (Utf8.encodeChars (Bytes.stripMark (Text.trim text.toList))) := by
    unfold scriptOfText
    dsimp only
    split
    · next rest he => rw [he, Bytes.stripMark]
    · next hx =>
      rw [Bytes.stripMark.eq_def]
      split
      · next rest he => exact absurd he (hx rest)
      · next rest he => exact absurd ⟨rest, he.symm⟩ h
      · rfl
  rw [hdigits, Bytes.ofText]
  split
  · next he => rw [he, mapError_ok]
  · next problem he => rw [he]; rfl

theorem ofText_eq_ok (h : ¬HasCapitalMark text) :
    Bytes.ofText text = .ok script ↔ scriptOfText text = .ok script := by
  rw [ofText_eq_mapError h, mapError_eq_ok]

/-- The first word names the command that reads the others. -/
theorem readArgs_cons {spec : Spec} (hspec : spec ∈ specs) (rest : List String) :
    readArgs (spec.name :: rest) = spec.read {} rest := by
  simp only [specs, List.mem_cons, List.not_mem_nil, or_false] at hspec
  rcases hspec with rfl | rfl | rfl | rfl | rfl
  all_goals rfl

/-- A word that is neither a flag nor a plea for help is the argument of the command. -/
theorem readArgs_argument {spec : Spec} (hspec : spec ∈ specs) (hflag : isFlag arg = false)
    (hhelp : asksForHelp arg = false) :
    readArgs [spec.name, arg] = .ok (spec.command arg { argument? := some arg }) := by
  rw [readArgs_cons hspec]
  simp only [Spec.read, hflag, hhelp, Bool.or_self, Bool.not_false, Bool.false_or, if_true]
  rfl

/-- Behind the mark for the end of flags every word is. -/
theorem readArgs_behind_flags {spec : Spec} (hspec : spec ∈ specs) :
    readArgs [spec.name, "--", arg] = .ok (spec.command arg { argument? := some arg }) := by
  rw [readArgs_cons hspec]
  simp only [Spec.read, Bool.true_or, if_true]
  rfl

theorem run_readInput : FileStore.host.readInput.run store = (.ok store.input, store) := rfl

/-- A command that takes a script reads it first, and leaves all files as they are. -/
theorem runOn_onScript (hread : readArgs args = .ok command)
    (huse : command.onScript? = some (arg, use)) :
    runOn store args =
      (match scriptOfText (store.textOf arg) with
        | .ok script => use script
        | .error problem => .failedBecause "Invalid hex script" problem.message, store) := by
  have hrun : runOn store args = (withScript FileStore.host arg use).run store := by
    simp only [runOn, run, hread]
    cases command with
    | build => cases huse
    | disasm | decompile | fee | classify =>
      obtain ⟨rfl, rfl⟩ := Prod.mk.inj (Option.some.inj huse)
      rfl
  rw [hrun]
  unfold withScript FileStore.textOf
  split
  · rw [run_bind, run_readInput]
    dsimp only
    cases scriptOfText store.input <;> rfl
  · rw [pure_bind]
    dsimp only
    cases scriptOfText arg <;> rfl

/-- Without a capital mark a command goes on with the script that the text is read as. -/
theorem runOn_of_ofText (hread : readArgs args = .ok command)
    (huse : command.onScript? = some (arg, use)) (hmark : ¬HasCapitalMark (store.textOf arg))
    (htext : Bytes.ofText (store.textOf arg) = .ok script) :
    runOn store args = (use script, store) := by
  rw [runOn_onScript hread huse, (ofText_eq_ok hmark).mp htext]

/-- It succeeds if the text is read as a script and what it makes of the script is a success. -/
theorem status_eq_zero_iff (hread : readArgs args = .ok command)
    (huse : command.onScript? = some (arg, use)) (hmark : ¬HasCapitalMark (store.textOf arg)) :
    (runOn store args).1.status = 0 ↔
      ∃ script, Bytes.ofText (store.textOf arg) = .ok script ∧ (use script).status = 0 := by
  simp only [ofText_eq_ok hmark, runOn_onScript hread huse]
  cases scriptOfText (store.textOf arg) with
  | error problem =>
    refine iff_of_false Nat.one_ne_zero ?_
    intro h
    obtain ⟨_, hs, -⟩ := h
    cases hs
  | ok script => simp

theorem decompileOutcome_status :
    (decompileOutcome script).status = 0 ↔ ∃ calls, Call.ofScript script = .ok calls := by
  unfold decompileOutcome
  cases Call.ofScript script with
  | error fault => exact iff_of_false Nat.one_ne_zero nofun
  | ok calls => exact iff_of_true rfl ⟨calls, rfl⟩

theorem disasmOutcome_status :
    (disasmOutcome script).status = 0 ↔ ∃ is, Instruction.decode script = .ok is := by
  unfold disasmOutcome Listing.printScript
  cases Instruction.decode script with
  | error fault => exact iff_of_false Nat.one_ne_zero nofun
  | ok is => exact iff_of_true rfl ⟨is, rfl⟩

theorem feeOutcome_status {schedule : FeeSchedule} {json : Bool} :
    (feeOutcome schedule json script).status = 0 ↔
      ∃ is base, Instruction.decode script = .ok is ∧ schedule.baseCost is = .ok base := by
  unfold feeOutcome
  cases Instruction.decode script with
  | error fault => exact iff_of_false Nat.one_ne_zero nofun
  | ok is =>
    dsimp only
    cases hb : schedule.baseCost is with
    | error fault =>
      refine iff_of_false Nat.one_ne_zero ?_
      intro h
      obtain ⟨_, _, hi, h⟩ := h
      rw [← Except.ok.inj hi, hb] at h
      cases h
    | ok base =>
      refine iff_of_true ?_ ⟨is, base, rfl, hb⟩
      dsimp only
      split <;> rfl

theorem decompile_text (hread : readArgs args = .ok (.decompile arg))
    (hmark : ¬HasCapitalMark (store.textOf arg)) :
    ((runOn store args).1.status = 0 ↔ ∃ calls, Call.ofText (store.textOf arg) = .ok calls) ∧
    ∀ calls, Call.ofText (store.textOf arg) = .ok calls →
      (runOn store args).1 = .printed ((Json.array (calls.map Call.toJson)).pretty ++ "\n") := by
  constructor
  · rw [status_eq_zero_iff hread rfl hmark]
    simp only [Call.ofText, bind_eq_ok, decompileOutcome_status]
    exact ⟨fun ⟨script, hs, calls, hc⟩ => ⟨calls, script, hs, hc⟩,
      fun ⟨calls, script, hs, hc⟩ => ⟨script, hs, calls, hc⟩⟩
  · intro calls h
    obtain ⟨script, hs, hc⟩ := bind_eq_ok.mp h
    rw [runOn_of_ofText hread rfl hmark hs]
    simp only [decompileOutcome, hc]

theorem disasm_text (hread : readArgs args = .ok (.disasm arg))
    (hmark : ¬HasCapitalMark (store.textOf arg)) :
    ((runOn store args).1.status = 0 ↔
      ∃ is, Instruction.decodeText (store.textOf arg) = .ok is) ∧
    ∀ is, Instruction.decodeText (store.textOf arg) = .ok is →
      (runOn store args).1 = .printed (Listing.print is) := by
  constructor
  · rw [status_eq_zero_iff hread rfl hmark]
    simp only [Instruction.decodeText, bind_eq_ok, disasmOutcome_status]
    exact ⟨fun ⟨script, hs, is, hd⟩ => ⟨is, script, hs, hd⟩,
      fun ⟨is, script, hs, hd⟩ => ⟨script, hs, is, hd⟩⟩
  · intro is h
    obtain ⟨script, hs, hd⟩ := bind_eq_ok.mp h
    rw [runOn_of_ofText hread rfl hmark hs]
    simp only [disasmOutcome, Listing.printScript, hd, Except.map]

/-- A text that is split into instructions is refused only for their price. -/
theorem fee_text {factor : Nat} {itemSize? : Option Nat} {json : Bool}
    (hread : readArgs args = .ok (.fee arg factor itemSize? json))
    (hmark : ¬HasCapitalMark (store.textOf arg)) :
    ((runOn store args).1.status = 0 ↔
      ∃ is base, Instruction.decodeText (store.textOf arg) = .ok is ∧
        FeeSchedule.baseCost { factor, itemSize? } is = .ok base) ∧
    ∀ is fault, Instruction.decodeText (store.textOf arg) = .ok is →
      FeeSchedule.baseCost { factor, itemSize? } is = .error fault →
      (runOn store args).1 = .failedBecause "Failed to estimate the fee" fault.message := by
  constructor
  · rw [status_eq_zero_iff hread rfl hmark]
    simp only [Instruction.decodeText, bind_eq_ok, feeOutcome_status]
    exact ⟨fun ⟨script, hs, is, base, hd, hb⟩ => ⟨is, base, ⟨script, hs, hd⟩, hb⟩,
      fun ⟨is, base, ⟨script, hs, hd⟩, hb⟩ => ⟨script, hs, is, base, hd, hb⟩⟩
  · intro is fault h hb
    obtain ⟨script, hs, hd⟩ := bind_eq_ok.mp h
    rw [runOn_of_ofText hread rfl hmark hs]
    simp only [feeOutcome, hd, hb]

/-- A script is read on the command line as anywhere else. Whatever text an argument stands for,
unless it has the mark of the radix with a capital letter: its calls are printed exactly if calls
are recovered from the text, and its instructions are listed, or priced if they have a price,
exactly if the text is split into instructions. With that mark every command refuses the text.
Every word that is neither a flag nor a plea for help is such an argument, and behind `--` every
word is. -/
theorem script_texts_read_alike (store : FileStore) (args : List String) (arg : String) :
    (∀ spec ∈ specs,
      (isFlag arg = false → asksForHelp arg = false →
        readArgs [spec.name, arg] = .ok (spec.command arg { argument? := some arg })) ∧
      readArgs [spec.name, "--", arg] = .ok (spec.command arg { argument? := some arg })) ∧
    (¬HasCapitalMark (store.textOf arg) →
      (readArgs args = .ok (.decompile arg) →
        ((runOn store args).1.status = 0 ↔
          ∃ calls, Call.ofText (store.textOf arg) = .ok calls) ∧
        ∀ calls, Call.ofText (store.textOf arg) = .ok calls →
          (runOn store args).1 =
            .printed ((Json.array (calls.map Call.toJson)).pretty ++ "\n")) ∧
      (readArgs args = .ok (.disasm arg) →
        ((runOn store args).1.status = 0 ↔
          ∃ is, Instruction.decodeText (store.textOf arg) = .ok is) ∧
        ∀ is, Instruction.decodeText (store.textOf arg) = .ok is →
          (runOn store args).1 = .printed (Listing.print is)) ∧
      ∀ factor itemSize? json, readArgs args = .ok (.fee arg factor itemSize? json) →
        ((runOn store args).1.status = 0 ↔
          ∃ is base, Instruction.decodeText (store.textOf arg) = .ok is ∧
            FeeSchedule.baseCost { factor, itemSize? } is = .ok base) ∧
        ∀ is fault, Instruction.decodeText (store.textOf arg) = .ok is →
          FeeSchedule.baseCost { factor, itemSize? } is = .error fault →
          (runOn store args).1 = .failedBecause "Failed to estimate the fee" fault.message) ∧
    (HasCapitalMark (store.textOf arg) →
      ∀ command use, readArgs args = .ok command → command.onScript? = some (arg, use) →
        ∃ problem : Hex.Problem, runOn store args =
          (.failedBecause "Invalid hex script" problem.message, store)) := by
  refine ⟨fun spec hspec => ⟨readArgs_argument hspec, readArgs_behind_flags hspec⟩,
    fun hmark => ⟨fun hread => decompile_text hread hmark, fun hread => disasm_text hread hmark,
      fun factor itemSize? json hread => fee_text hread hmark⟩, ?_⟩
  intro hmark command use hread huse
  obtain ⟨problem, hproblem⟩ := scriptOfText_of_hasCapitalMark hmark
  exact ⟨problem, by rw [runOn_onScript hread huse, hproblem]⟩

/-- A script on standard input, with blanks around it and digits in both cases; one that stores
something and so has no price unless a size is given; and a capital mark. -/
theorem script_texts_read_alike_three_commands :
    (runOn { files := [], input := " 0x10C00c0161150C14" ++
        "0707070707070707070707070707070707070707" ++ "41627D5b52\n" }
        ["decompile", "--", "-"]).1 =
      .printed ((Json.array [Call.toJson ⟨⟨.replicate 20 7, rfl⟩, "a", [], ⟨5⟩⟩]).pretty ++ "\n") ∧
    (runOn { files := [] } ["fee", "41E63f1884"]).1.status ≠ 0 ∧
    (runOn { files := [] } ["fee", "--storage-size", "1", "41E63f1884"]).1.status = 0 ∧
    ∃ problem : Hex.Problem, runOn { files := [] } ["disasm", "\t0X40"] =
      (.failedBecause "Invalid hex script" problem.message, { files := [] }) := by
  have hcall : Call.ofText (" 0x10C00c0161150C14" ++ "0707070707070707070707070707070707070707" ++
      "41627D5b52\n") = .ok [⟨⟨.replicate 20 7, rfl⟩, "a", [], ⟨5⟩⟩] :=
    bind_eq_ok.mpr ⟨[0x10, 0xc0, 0x0c, 1, 0x61, 0x15, 0x0c, 20] ++ .replicate 20 7 ++
        [0x41, 0x62, 0x7d, 0x5b, 0x52], by decide +kernel,
      Call.ofScript_eq_ok.mpr ⟨[⟨.push0, none⟩, ⟨.pack, none⟩, ⟨.pushData1, some [0x61]⟩,
        ⟨.push5, none⟩, ⟨.pushData1, some (.replicate 20 7)⟩,
        ⟨.syscall, some [0x62, 0x7d, 0x5b, 0x52]⟩], by decide +kernel, rfl⟩⟩
  have hput : Instruction.decodeText "41E63f1884" =
      .ok [⟨.syscall, some [0xe6, 0x3f, 0x18, 0x84]⟩] := by decide +kernel
  obtain ⟨-, hinput, -⟩ := script_texts_read_alike
    { files := [], input := " 0x10C00c0161150C14" ++
        "0707070707070707070707070707070707070707" ++ "41627D5b52\n" } ["decompile", "--", "-"] "-"
  obtain ⟨-, hunpriced, -⟩ :=
    script_texts_read_alike { files := [] } ["fee", "41E63f1884"] "41E63f1884"
  obtain ⟨-, hpriced, -⟩ := script_texts_read_alike { files := [] }
    ["fee", "--storage-size", "1", "41E63f1884"] "41E63f1884"
  obtain ⟨-, -, hrefused⟩ := script_texts_read_alike { files := [] } ["disasm", "\t0X40"] "\t0X40"
  refine ⟨((hinput (by decide +kernel)).1 (by decide +kernel)).2 _ hcall, ?_, ?_,
    hrefused (by decide +kernel) (.disasm "\t0X40") _ (by decide +kernel) rfl⟩
  · rw [Ne, ((hunpriced (by decide +kernel)).2.2 30 none false (by decide +kernel)).1]
    intro h
    obtain ⟨is, base, hd, hb⟩ := h
    obtain rfl := Except.ok.inj (hput.symm.trans hd)
    cases hb
  · exact ((hpriced (by decide +kernel)).2.2 30 (some 1) false (by decide +kernel)).1.mpr
      ⟨_, _, hput, rfl⟩

/-- The mark with a capital letter is read in the text of a script, but not by a command. -/
theorem capital_mark_is_refused :
    isFlag "0X40" = false ∧ asksForHelp "0X40" = false ∧
    (∃ calls, Call.ofText "0X40" = .ok calls) ∧
    (∃ is, Instruction.decodeText "0X40" = .ok is) ∧
    (runOn { files := [] } ["decompile", "0X40"]).1.status = 1 ∧
    (runOn { files := [] } ["disasm", "0X40"]).1.status = 1 ∧
    (runOn { files := [] } ["fee", "0X40"]).1.status = 1 := by
  refine ⟨by decide, by decide, ⟨[], ?_⟩, ⟨[⟨.ret, none⟩], ?_⟩, by decide +kernel,
    by decide +kernel, by decide +kernel⟩
  · exact bind_eq_ok.mpr ⟨[0x40], by decide +kernel,
      Call.ofScript_eq_ok.mpr ⟨[⟨.ret, none⟩], by decide +kernel, rfl⟩⟩
  · exact bind_eq_ok.mpr ⟨[0x40], by decide +kernel, by decide +kernel⟩

end ScriptKit.CommandLine
