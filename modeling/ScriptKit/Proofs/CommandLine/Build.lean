import ScriptKit.Proofs.CommandLine.FileStore
import ScriptKit.Proofs.CommandLine.Notice

namespace ScriptKit.CommandLine

open Listing (assemble check parse)

variable {store : FileStore} {args : List String} {input out code : String}
  {out? : Option String} {json : Bool} {script : Bytes}

/-- A listing in which no fault is found is assembled to a script. -/
def Assembles (code : String) (script : Bytes) : Prop :=
  (parse code.toList).errors = [] ∧
    ∃ statements, (parse code.toList).statements? = some statements ∧
      assemble statements = .ok script

theorem assembleListing_eq_ok :
    assembleListing input code = .ok script ↔ Assembles code script := by
  cases he : (parse code.toList).errors with
  | cons error rest => simp [assembleListing, Listing.Parsed.valid, Assembles, he]
  | nil =>
    cases hs : (parse code.toList).statements? with
    | none => simp [assembleListing, Listing.Parsed.valid, Assembles, he, hs]
    | some statements =>
      cases ha : assemble statements <;>
        simp [assembleListing, Listing.Parsed.valid, Assembles, he, hs, ha]

theorem assembleListing_eq_error {faults : String}
    (h : assembleListing input code = .error faults) :
    faults = showFaults input code.toList (parse code.toList) := by
  rw [assembleListing] at h
  split at h
  · exact (Except.error.inj h).symm
  · split at h
    · cases h
    · exact (Except.error.inj h).symm

/-- A listing that gives no script has a fault, in its text or else in what a check finds. -/
theorem notices_ne_nil_of_not_assembles (h : ¬∃ script, Assembles code script) :
    notices (parse code.toList) ≠ [] := by
  apply notices_ne_nil
  intro he hc
  obtain ⟨statements, hs, -⟩ := Listing.readable_of_errors_eq_nil he
  rw [Listing.Parsed.check, hs, Option.getD_some] at hc
  obtain ⟨script, ha⟩ := (Listing.check_eq_nil_iff statements).mp hc
  exact h ⟨script, he, statements, hs, ha⟩

/-- How a run ends that builds a listing, and the files that it leaves. -/
inductive Ends (store : FileStore) (input out : String) (json : Bool) :
    Outcome → FileStore → Prop
  | unread {fault : FileFault} (reads : store.read input = .error fault) :
    Ends store input out json
      (.failedBecause s!"Failed to read assembly code from `{input}`" fault.message) store
  | same {code : String} (reads : store.read input = .ok code)
      (guarded : Path.same input out = true) :
    Ends store input out json (.failed "Output file must not be an input file") store
  | rejected {code : String} (reads : store.read input = .ok code)
      (guarded : Path.same input out = false) (rejects : ¬∃ script, Assembles code script) :
    Ends store input out json
      { stderr := showFaults input code.toList (parse code.toList) ++ "Build failed\n",
        status := 1 }
      store
  | unwritten {code : String} {script : Bytes} {fault : FileFault}
      (reads : store.read input = .ok code) (guarded : Path.same input out = false)
      (assembles : Assembles code script)
      (writes : store.write out (Bytes.toText script) = .error fault) :
    Ends store input out json
      (.failedBecause s!"Failed to open output file `{out}`" fault.message) store
  | written {code : String} {script : Bytes} {after : FileStore}
      (reads : store.read input = .ok code) (guarded : Path.same input out = false)
      (assembles : Assembles code script)
      (writes : store.write out (Bytes.toText script) = .ok after) :
    Ends store input out json (buildOutcome (!json && store.isTerminal) out script) after

theorem run_bind {α β : Type} (x : StateM FileStore α) (f : α → StateM FileStore β) :
    (x >>= f).run store = (f (x.run store).1).run (x.run store).2 := rfl

theorem run_readFile (path : String) :
    (FileStore.host.readFile path).run store = (store.read path, store) := rfl

theorem run_writeFile (path content : String) :
    (FileStore.host.writeFile path content).run store =
      match store.write path content with
      | .ok after => (.ok (), after)
      | .error fault => (.error fault, store) := by
  have hrun : (FileStore.host.writeFile path content).run store =
      (match store.write path content with
      | .ok after => (do set after; pure (.ok ()) : StateM FileStore (Except FileFault Unit))
      | .error fault => pure (.error fault)).run store := rfl
  rw [hrun]
  cases store.write path content <;> rfl

/-- A run ends in one of these ways. -/
theorem ends_of_readArgs (h : readArgs args = .ok (.build input out? json)) :
    Ends store input (outputPath input out?) json (runOn store args).1 (runOn store args).2 := by
  have hrun : runOn store args = (runBuild FileStore.host input out? json).run store := by
    simp only [runOn, run, h, runCommand]
  rw [hrun, runBuild, run_bind, run_readFile]
  cases hr : store.read input with
  | error fault => exact .unread hr
  | ok code =>
    dsimp only
    cases hs : Path.same input (outputPath input out?) with
    | true => exact .same hr hs
    | false =>
      rw [if_neg (by simp)]
      cases ha : assembleListing input code with
      | error faults =>
        have hrejects : ¬∃ script, Assembles code script := by
          intro hassembles
          obtain ⟨script, hscript⟩ := hassembles
          rw [assembleListing_eq_ok.mpr hscript] at ha
          cases ha
        rw [assembleListing_eq_error ha]
        exact .rejected hr hs hrejects
      | ok script =>
        have hassembles := assembleListing_eq_ok.mp ha
        dsimp only
        rw [run_bind, run_writeFile]
        cases hw : store.write (outputPath input out?) (Bytes.toText script) with
        | error fault => exact .unwritten hr hs hassembles hw
        | ok after =>
          have hends : Ends store input (outputPath input out?) json
              (buildOutcome (!json && store.isTerminal) (outputPath input out?) script) after :=
            .written hr hs hassembles hw
          obtain ⟨name, -, rfl⟩ := FileStore.write_eq_ok.mp hw
          -- Where JSON is asked for, the terminal is not looked at.
          cases json with
          | true => exact hends
          | false => exact hends

variable {after : FileStore} {outcome : Outcome}

theorem status_buildOutcome (atTerminal : Bool) (out : String) (script : Bytes) :
    (buildOutcome atTerminal out script).status = 0 := by
  cases atTerminal <;> rfl

theorem Assembles.unique {other : Bytes} (h : Assembles code script) (ho : Assembles code other) :
    script = other := by
  obtain ⟨-, statements, hs, ha⟩ := h
  obtain ⟨-, statements', hs', ha'⟩ := ho
  obtain rfl := Option.some.inj (hs.symm.trans hs')
  exact Except.ok.inj (ha.symm.trans ha')

/-- Where the listing can be read and the output be written, a run writes the script of the listing
or reports its faults. -/
theorem Ends.written_or_reported (h : Ends store input out json outcome after)
    (hread : store.read input = .ok code) (hguard : Path.same input out = false)
    (hwrite : ∀ content, ∃ after, store.write out content = .ok after) :
    (∃ script, Assembles code script ∧
      outcome = buildOutcome (!json && store.isTerminal) out script ∧
      store.write out (Bytes.toText script) = .ok after) ∨
    (¬∃ script, Assembles code script) ∧ after = store ∧
      outcome = { stderr := showFaults input code.toList (parse code.toList) ++ "Build failed\n",
                  status := 1 } := by
  cases h with
  | unread reads =>
    rw [hread] at reads
    cases reads
  | same reads guarded =>
    rw [hguard] at guarded
    cases guarded
  | rejected reads guarded rejects =>
    obtain rfl := Except.ok.inj (hread.symm.trans reads)
    exact .inr ⟨rejects, rfl, rfl⟩
  | unwritten reads guarded assembles writes =>
    obtain ⟨_, hw⟩ := hwrite (Bytes.toText _)
    rw [hw] at writes
    cases writes
  | written reads guarded assembles writes =>
    obtain rfl := Except.ok.inj (hread.symm.trans reads)
    exact .inl ⟨_, assembles, rfl, writes⟩

/-- A build whose files can be read and written succeeds exactly where its listing has no faults and
is assembled; then the output holds the script in hexadecimal, and every other file is as before.
Otherwise no file has changed, and what is printed are reports, one for each notice about the
listing. There is at least one. -/
theorem build_writes_or_reports (store : FileStore) (args : List String) (input code : String)
    (out? : Option String) (json : Bool) (hargs : readArgs args = .ok (.build input out? json))
    (hread : store.read input = .ok code)
    (hguard : Path.same input (outputPath input out?) = false)
    (hwrite : ∀ content, ∃ after, store.write (outputPath input out?) content = .ok after) :
    ((runOn store args).1.status = 0 ↔ ∃ script, Assembles code script) ∧
    (∀ script, Assembles code script →
      (runOn store args).1 =
        buildOutcome (!json && store.isTerminal) (outputPath input out?) script ∧
      (runOn store args).2.read (outputPath input out?) = .ok (Bytes.toText script) ∧
      ∀ name, store.target? (outputPath input out?) ≠ some name →
        (runOn store args).2.files.lookup name = store.files.lookup name) ∧
    ((¬∃ script, Assembles code script) →
      (runOn store args).2 = store ∧
      notices (parse code.toList) ≠ [] ∧
      ∃ reports,
        List.Forall₂ (Reports input code.toList) (notices (parse code.toList)) reports ∧
        (runOn store args).1 =
          { stderr := String.join reports ++ "Build failed\n", status := 1 }) := by
  rcases (ends_of_readArgs hargs).written_or_reported hread hguard hwrite with
    ⟨script, hscript, houtcome, hafter⟩ | ⟨hnone, hafter, houtcome⟩
  · have hstatus : (runOn store args).1.status = 0 := by
      rw [houtcome]
      exact status_buildOutcome ..
    refine ⟨⟨fun _ => ⟨script, hscript⟩, fun _ => hstatus⟩, fun other hother => ?_,
      fun hnone => absurd ⟨script, hscript⟩ hnone⟩
    obtain rfl := hscript.unique hother
    refine ⟨houtcome, (FileStore.read_of_write hafter).1, fun name hname => ?_⟩
    obtain ⟨target, htarget, hput⟩ := FileStore.write_eq_ok.mp hafter
    rw [hput]
    apply FileStore.lookup_put_of_ne
    rintro rfl
    exact hname htarget
  · rw [houtcome, hafter, showFaults_eq]
    refine ⟨⟨fun h => absurd h Nat.one_ne_zero, fun h => absurd h hnone⟩,
      fun script h => absurd ⟨script, h⟩ hnone, fun _ => ⟨rfl, ?_, _, ?_, rfl⟩⟩
    · exact notices_ne_nil_of_not_assembles hnone
    · exact notices_reported input code.toList

/-- One listing is assembled at a terminal, into a folder beside the one in which the program runs.
The other has a quote that is left open and an opcode that is none, which makes two reports. -/
theorem build_writes_or_reports_two_listings :
    ((runOn { files := [(["p", "a.asm"], "PUSH1\nRET"), (["q", "c"], "")], folder := ["p"],
              isTerminal := true } ["build", "a.asm", "-o", "../q/b.hex"]).1 =
        { stderr := "Script path:\t../q/b.hex\nScript size:\t2\nExecution fee:\t30\n" } ∧
      (runOn { files := [(["p", "a.asm"], "PUSH1\nRET"), (["q", "c"], "")], folder := ["p"],
               isTerminal := true } ["build", "a.asm", "-o", "../q/b.hex"]).2.read "../q/b.hex" =
        .ok "1140" ∧
      (runOn { files := [(["p", "a.asm"], "PUSH1\nRET"), (["q", "c"], "")], folder := ["p"],
               isTerminal := true } ["build", "a.asm", "-o", "../q/b.hex"]).2.files.lookup
        ["p", "a.asm"] = some "PUSH1\nRET") ∧
    (runOn { files := [(["a.asm"], "FOO \"x\nNOP")] } ["build", "/a.asm"]).2 =
      { files := [(["a.asm"], "FOO \"x\nNOP")] } ∧
    ∃ reports,
      List.Forall₂ (Reports "/a.asm" "FOO \"x\nNOP".toList)
        [⟨"parser", "unexpected character found: Some('\\n')", ⟨6, 7⟩⟩,
          ⟨"asm", "unknown opcode: FOO", ⟨0, 3⟩⟩] reports ∧
      (runOn { files := [(["a.asm"], "FOO \"x\nNOP")] } ["build", "/a.asm"]).1 =
        { stderr := String.join reports ++ "Build failed\n", status := 1 } := by
  have hscript : Assembles "PUSH1\nRET" [0x11, 0x40] :=
    ⟨by decide +kernel, [⟨⟨0, 5⟩, ⟨0, 5⟩, "PUSH1", []⟩, ⟨⟨6, 9⟩, ⟨6, 9⟩, "RET", []⟩],
      by decide +kernel, by decide +kernel⟩
  have hnone : ¬∃ script, Assembles "FOO \"x\nNOP" script := by
    rintro ⟨script, he, -⟩
    exact absurd he (by decide +kernel)
  have hnotices : notices (parse "FOO \"x\nNOP".toList) =
      [⟨"parser", "unexpected character found: Some('\\n')", ⟨6, 7⟩⟩,
        ⟨"asm", "unknown opcode: FOO", ⟨0, 3⟩⟩] := by
    decide +kernel
  obtain ⟨-, hwritten, -⟩ := build_writes_or_reports
    { files := [(["p", "a.asm"], "PUSH1\nRET"), (["q", "c"], "")], folder := ["p"],
      isTerminal := true }
    ["build", "a.asm", "-o", "../q/b.hex"] "a.asm" "PUSH1\nRET" (some "../q/b.hex") false
    (by decide +kernel) (by decide +kernel) (by decide +kernel)
    fun content => ⟨_, FileStore.write_eq_ok.mpr ⟨["q", "b.hex"], by decide +kernel, rfl⟩⟩
  obtain ⟨-, -, hbad⟩ := build_writes_or_reports { files := [(["a.asm"], "FOO \"x\nNOP")] }
    ["build", "/a.asm"] "/a.asm" "FOO \"x\nNOP" none false (by decide +kernel)
    (by decide +kernel) (by decide +kernel)
    fun content => ⟨_, FileStore.write_eq_ok.mpr ⟨["a.hex"], by decide +kernel, rfl⟩⟩
  obtain ⟨houtcome, hread, hothers⟩ := hwritten _ hscript
  obtain ⟨hstore, -, reports⟩ := hbad hnone
  rw [hnotices] at reports
  exact ⟨⟨houtcome.trans (by decide +kernel), hread, hothers ["p", "a.asm"] (by decide +kernel)⟩,
    hstore, reports⟩

/-- Two paths lead to one file, though they are not of the same parts. -/
def Respelt (store : FileStore) (input out : String) : Prop :=
  Path.same input out = false ∧
    ∃ name, store.target? input = some name ∧ store.target? out = some name

theorem target?_ne_of_not_respelt (h : ¬Respelt store input out)
    (hread : store.read input = .ok code) (hguard : Path.same input out = false) :
    store.target? input ≠ store.target? out := by
  obtain ⟨name, hname, -⟩ := FileStore.read_eq_ok.mp hread
  exact fun hsame => h ⟨hguard, name, hname, hsame ▸ hname⟩

/-- A run leaves the listing as it is, unless the path of the output spells its path in another
way. -/
theorem Ends.read_eq (h : Ends store input out json outcome after)
    (hspelt : ¬Respelt store input out) : after.read input = store.read input := by
  cases h with
  | unread reads => rfl
  | same reads guarded => rfl
  | rejected reads guarded rejects => rfl
  | unwritten reads guarded assembles writes => rfl
  | written reads guarded assembles writes =>
    rw [reads]
    exact (FileStore.read_of_write writes).2 _ _ reads
      (target?_ne_of_not_respelt hspelt reads guarded)

theorem Ends.refused (h : Ends store input out json outcome after)
    (hspelt : ¬Respelt store input out) (hread : store.read input = .ok code)
    (hsame : store.target? out = store.target? input) :
    outcome = .failed "Output file must not be an input file" ∧ after = store := by
  have hguard : Path.same input out = true := by
    cases hg : Path.same input out with
    | true => rfl
    | false => exact absurd hsame.symm (target?_ne_of_not_respelt hspelt hread hg)
  cases h with
  | unread reads =>
    rw [hread] at reads
    cases reads
  | same reads guarded => exact ⟨rfl, rfl⟩
  | rejected reads guarded | unwritten reads guarded | written reads guarded =>
    rw [hguard] at guarded
    cases guarded

/-- A listing that gives no script is never overwritten, wherever the output is to go. -/
theorem Ends.unchanged (h : Ends store input out json outcome after)
    (hread : store.read input = .ok code) (hnone : ¬∃ script, Assembles code script) :
    outcome.status = 1 ∧ after = store := by
  cases h with
  | unread reads | same reads | rejected reads | unwritten reads => exact ⟨rfl, rfl⟩
  | written reads guarded assembles writes =>
    obtain rfl := Except.ok.inj (hread.symm.trans reads)
    exact absurd ⟨_, assembles⟩ hnone

/-- A guard that compares parts lets another spelling pass, and the script takes the place of the
listing. -/
theorem Ends.overwrites (h : Ends store input out json outcome after)
    (hspelt : Respelt store input out) (hread : store.read input = .ok code)
    (hscript : Assembles code script) :
    outcome.status = 0 ∧ after.read input = .ok (Bytes.toText script) := by
  obtain ⟨hguard, name, hname, hout⟩ := hspelt
  have hwrite (content : String) : ∃ after, store.write out content = .ok after :=
    ⟨_, FileStore.write_eq_ok.mpr ⟨name, hout, rfl⟩⟩
  rcases h.written_or_reported hread hguard hwrite with
    ⟨other, hother, rfl, hafter⟩ | ⟨hnone, -, -⟩
  · obtain rfl := hscript.unique hother
    refine ⟨status_buildOutcome .., ?_⟩
    obtain ⟨name', hname', rfl⟩ := FileStore.write_eq_ok.mp hafter
    obtain rfl := Option.some.inj (hout.symm.trans hname')
    exact FileStore.read_eq_ok.mpr
      ⟨name, FileStore.target?_put hout hname, FileStore.lookup_put_self⟩
  · exact absurd ⟨script, hscript⟩ hnone

/-- The path that is made up for the output spells no other path in another way. -/
theorem not_respelt_withExtension (store : FileStore) (input : String) :
    ¬Respelt store input (Path.withExtension "hex" input) := by
  intro h
  obtain ⟨hguard, name, hname, hout⟩ := h
  rw [FileStore.eq_of_target?_withExtension (by decide) hname hout] at hguard
  simp [Path.same] at hguard

theorem not_respelt_of_isPlain (hi : Path.IsPlain input) (ho : Path.IsPlain out)
    (hfrom : Path.isAbsolute input = Path.isAbsolute out) : ¬Respelt store input out := by
  intro h
  obtain ⟨hguard, name, hname, hout⟩ := h
  have hparts := FileStore.parts_eq_of_target? hi ho hfrom hname hout
  simp [Path.same, hparts] at hguard

/-- A build leaves its listing as it is, and fails where the output is to go to the listing, unless
the path of the output leads there and yet differs from the path of the listing in its parts. It
never does if it is made up, or if neither path turns back or starts with a dot, and both start at
the root or both where the program runs. Where it does, a listing that is assembled is lost, and no
other one. -/
theorem build_keeps_listing (store : FileStore) (args : List String) (input : String)
    (out? : Option String) (json : Bool) (hargs : readArgs args = .ok (.build input out? json)) :
    (¬Respelt store input (outputPath input out?) →
      (runOn store args).2.read input = store.read input ∧
      ∀ code, store.read input = .ok code →
        store.target? (outputPath input out?) = store.target? input →
          runOn store args = (.failed "Output file must not be an input file", store)) ∧
    (out? = none → ¬Respelt store input (outputPath input out?)) ∧
    (Path.IsPlain input → Path.IsPlain (outputPath input out?) →
      Path.isAbsolute input = Path.isAbsolute (outputPath input out?) →
      ¬Respelt store input (outputPath input out?)) ∧
    ∀ code, store.read input = .ok code →
      (∀ script, Respelt store input (outputPath input out?) → Assembles code script →
        (runOn store args).1.status = 0 ∧
        (runOn store args).2.read input = .ok (Bytes.toText script)) ∧
      ((¬∃ script, Assembles code script) →
        (runOn store args).1.status = 1 ∧ (runOn store args).2 = store) := by
  have hends : Ends store input (outputPath input out?) json (runOn store args).1
      (runOn store args).2 := ends_of_readArgs hargs
  refine ⟨fun hspelt => ⟨hends.read_eq hspelt, fun code hread hsame => ?_⟩, ?_,
    not_respelt_of_isPlain, fun code hread => ⟨fun script hspelt hscript =>
      hends.overwrites hspelt hread hscript, hends.unchanged hread⟩⟩
  · obtain ⟨houtcome, hafter⟩ := hends.refused hspelt hread hsame
    exact Prod.ext houtcome hafter
  · rintro rfl
    exact not_respelt_withExtension store input

/-- A script is written by a detour through a folder, and one to the listing itself is refused, as
the slash that is doubled makes no other part. By way of the folder above, or of the root, the
listing is lost. -/
theorem build_keeps_listing_four_spellings :
    (runOn { files := [(["p", "a.asm"], "RET"), (["p", "sub", "b"], "")], folder := ["p"] }
      ["build", "a.asm", "-o", "sub/../b.hex"]).2.read "a.asm" = .ok "RET" ∧
    runOn { files := [(["p", "a.asm"], "RET")] } ["build", "p/a.asm", "-o", "p//a.asm"] =
      (.failed "Output file must not be an input file", { files := [(["p", "a.asm"], "RET")] }) ∧
    (runOn { files := [(["p", "a.asm"], "RET")], folder := ["p"] }
      ["build", "a.asm", "-o", "../p/a.asm"]).2.read "a.asm" = .ok "40" ∧
    (runOn { files := [(["p", "a.asm"], "RET")], folder := ["p"] }
      ["build", "a.asm", "--json", "-o", "/p/a.asm"]).2.read "a.asm" = .ok "40" := by
  have hdetour : ¬Respelt
      { files := [(["p", "a.asm"], "RET"), (["p", "sub", "b"], "")], folder := ["p"] }
      "a.asm" "sub/../b.hex" := by
    rintro ⟨-, name, hname, hout⟩
    rw [← hname] at hout
    exact absurd hout (by decide +kernel)
  have hdoubled : ¬Respelt { files := [(["p", "a.asm"], "RET")] } "p/a.asm" "p//a.asm" :=
    not_respelt_of_isPlain ⟨by decide +kernel, by decide +kernel⟩
      ⟨by decide +kernel, by decide +kernel⟩ (by decide +kernel)
  have habove : Respelt { files := [(["p", "a.asm"], "RET")], folder := ["p"] }
      "a.asm" "../p/a.asm" :=
    ⟨by decide +kernel, ["p", "a.asm"], by decide +kernel, by decide +kernel⟩
  have hroot : Respelt { files := [(["p", "a.asm"], "RET")], folder := ["p"] }
      "a.asm" "/p/a.asm" :=
    ⟨by decide +kernel, ["p", "a.asm"], by decide +kernel, by decide +kernel⟩
  have hscript : Assembles "RET" [0x40] :=
    ⟨by decide +kernel, [⟨⟨0, 3⟩, ⟨0, 3⟩, "RET", []⟩], by decide +kernel, by decide +kernel⟩
  obtain ⟨hkeeps, -⟩ := build_keeps_listing
    { files := [(["p", "a.asm"], "RET"), (["p", "sub", "b"], "")], folder := ["p"] }
    ["build", "a.asm", "-o", "sub/../b.hex"] "a.asm" (some "sub/../b.hex") false (by decide +kernel)
  obtain ⟨hrefuses, -⟩ := build_keeps_listing { files := [(["p", "a.asm"], "RET")] }
    ["build", "p/a.asm", "-o", "p//a.asm"] "p/a.asm" (some "p//a.asm") false (by decide +kernel)
  obtain ⟨-, -, -, hloses⟩ := build_keeps_listing
    { files := [(["p", "a.asm"], "RET")], folder := ["p"] }
    ["build", "a.asm", "-o", "../p/a.asm"] "a.asm" (some "../p/a.asm") false (by decide +kernel)
  obtain ⟨-, -, -, hlosesToo⟩ := build_keeps_listing
    { files := [(["p", "a.asm"], "RET")], folder := ["p"] }
    ["build", "a.asm", "--json", "-o", "/p/a.asm"] "a.asm" (some "/p/a.asm") true
    (by decide +kernel)
  exact ⟨(hkeeps hdetour).1, (hrefuses hdoubled).2 "RET" (by decide +kernel) (by decide +kernel),
    ((hloses "RET" (by decide +kernel)).1 _ habove hscript).2,
    ((hlosesToo "RET" (by decide +kernel)).1 _ hroot hscript).2⟩

/-- A dot before a slash leads nowhere else, but it is a part at the start of a path. -/
theorem listing_is_overwritten :
    readArgs ["build", "a.asm", "-o", "./a.asm"] = .ok (.build "a.asm" (some "./a.asm") false) ∧
    FileStore.target? { files := [(["a.asm"], "RET")] } "./a.asm" =
      FileStore.target? { files := [(["a.asm"], "RET")] } "a.asm" ∧
    (runOn { files := [(["a.asm"], "RET")] } ["build", "a.asm", "-o", "./a.asm"]).1.status = 0 ∧
    FileStore.read { files := [(["a.asm"], "RET")] } "a.asm" = .ok "RET" ∧
    (runOn { files := [(["a.asm"], "RET")] } ["build", "a.asm", "-o", "./a.asm"]).2.read "a.asm" =
      .ok "40" := by
  decide +kernel

end ScriptKit.CommandLine
