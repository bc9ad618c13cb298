import ScriptKit.Proofs.CommandLine.Report
import ScriptKit.Proofs.Listing.StandIn

namespace ScriptKit

namespace Listing

variable {text : List Char}

namespace ArgFault

variable {fault : ArgFault}

/-- A fault was reported before exactly if it is that of a stand-in where another kind is asked
for. -/
theorem isKnown_iff : fault.isKnown = true ↔ .unreadable ∈ fault.kinds := by
  cases fault with
  | wrongKind span found expected => cases found <;> simp [isKnown, kinds]
  | outOfRange span => simp [isKnown, kinds]

end ArgFault

namespace Diagnostic

variable {d : Diagnostic}

/-- The faults one by one, where two arguments of a statement each have one. -/
def items : Diagnostic → List Diagnostic
  | .both first second => [.argument first, .argument second]
  | d => [d]

theorem items_ne_nil (d : Diagnostic) : d.items ≠ [] := by
  cases d <;> simp [items]

theorem span_of_mem_items {item : Diagnostic} (h : item ∈ d.items) : item.span ∈ d.spans := by
  cases d with
  | both first second =>
    simp only [items, List.mem_cons, List.not_mem_nil, or_false] at h
    rcases h with rfl | rfl
    · simp [spans, span]
    · simp [spans, span]
  | unknownOpcode | unknownService | argument | tooManyArgs | notEnoughArgs | encode =>
    obtain rfl := List.mem_singleton.mp h
    simp [spans]

/-- Where no stand-in is found, no fault was reported before. -/
theorem news_of_mem_items (hk : ∀ kind ∈ d.kinds, kind ≠ .unreadable) {item : Diagnostic}
    (h : item ∈ d.items) : item.canIgnore = false := by
  have hnews (fault : ArgFault) (hf : ∀ kind ∈ fault.kinds, kind ≠ .unreadable) :
      fault.isKnown = false :=
    Bool.eq_false_iff.mpr fun he => hf _ (ArgFault.isKnown_iff.mp he) rfl
  cases d with
  | both first second =>
    simp only [kinds, List.forall_mem_append] at hk
    simp only [items, List.mem_cons, List.not_mem_nil, or_false] at h
    rcases h with rfl | rfl
    · exact hnews _ hk.1
    · exact hnews _ hk.2
  | argument fault =>
    obtain rfl := List.mem_singleton.mp h
    exact hnews fault hk
  | unknownOpcode | unknownService | tooManyArgs | notEnoughArgs | encode =>
    obtain rfl := List.mem_singleton.mp h
    rfl

end Diagnostic

/-- A check finds stand-ins only in a text that has faults. -/
theorem check_kinds (h : (parse text).errors = []) :
    ∀ d ∈ (parse text).check, ∀ kind ∈ d.kinds, kind ≠ .unreadable := by
  intro d hd
  obtain ⟨statements, hs, hr⟩ := readable_of_errors_eq_nil h
  rw [Parsed.check, hs, Option.getD_some, check_eq_flatMap] at hd
  obtain ⟨s, hm, hd⟩ := List.mem_flatMap.mp hd
  have hkind : ∀ arg ∈ s.args, arg.value.kind ≠ .unreadable := by
    intro arg ha he
    have hread := (hr s hm).args arg ha
    cases hv : arg.value with
    | unreadable => exact hread hv
    | number | bytes | text | service => simp [hv, Literal.kind] at he
  exact (check_blames (· ≠ .unreadable) (fun _ _ _ _ => trivial) (fun _ _ => trivial) hkind d hd).2

end Listing

namespace CommandLine

open Listing (Diagnostic Parsed Span parse)

variable {text : List Char} {parsed : Parsed} {path : String}

/-- A report about a listing. -/
structure Notice where
  origin : String
  message : String
  span : Span
deriving DecidableEq

namespace Notice

def shown (path : String) (code : List Char) (n : Notice) : String :=
  showAt path code n.origin n.message n.span

def ofError (e : Listing.SyntaxError) : Notice := ⟨"parser", e.message, e.span⟩

def ofDiagnostic (d : Diagnostic) : Notice := ⟨"asm", d.message, d.span⟩

end Notice

/-- What is reported of a listing. -/
def notices (parsed : Parsed) : List Notice :=
  parsed.errors.map Notice.ofError ++
    ((parsed.check.flatMap Diagnostic.items).filter fun d => !d.canIgnore).map Notice.ofDiagnostic

theorem showDiagnostic_eq (path : String) (code : List Char) (d : Diagnostic) :
    showDiagnostic path code d =
      String.join (((d.items.filter fun item => !item.canIgnore).map Notice.ofDiagnostic).map
        (·.shown path code)) := by
  have hfaults (faults : List Listing.ArgFault) :
      ((faults.filter fun fault => !fault.isKnown).map fun fault =>
        showAt path code "asm" fault.message fault.span) =
      (((faults.map Diagnostic.argument).filter fun item => !item.canIgnore).map
        Notice.ofDiagnostic).map (·.shown path code) := by
    rw [List.filter_map, List.map_map, List.map_map]
    rfl
  have hone (report : String) : report = String.join [report] := by simp
  cases d with
  | both first second => exact congrArg String.join (hfaults [first, second])
  | argument fault => exact congrArg String.join (hfaults [fault])
  | unknownOpcode | unknownService | tooManyArgs | notEnoughArgs | encode =>
    exact hone _

/-- What is shown of the faults of a listing are the notices about it. -/
theorem showFaults_eq (path : String) (code : List Char) (parsed : Parsed) :
    showFaults path code parsed = String.join ((notices parsed).map (·.shown path code)) := by
  have hcheck (found : List Diagnostic) : String.join (found.map (showDiagnostic path code)) =
      String.join ((((found.flatMap Diagnostic.items).filter fun d => !d.canIgnore).map
        Notice.ofDiagnostic).map (·.shown path code)) := by
    induction found with
    | nil => rfl
    | cons d rest ih =>
      rw [List.map_cons, String.join_cons, ih, showDiagnostic_eq, List.flatMap_cons,
        List.filter_append, List.map_append, List.map_append, String.join_append]
  have herrors : parsed.errors.map (showSyntaxError path code) =
      (parsed.errors.map Notice.ofError).map (·.shown path code) := by
    rw [List.map_map]
    rfl
  rw [showFaults, hcheck, herrors, notices, List.map_append, String.join_append]

/-- A report gives the origin and the message of a notice, tells the file with the line and the
column where the fault starts, and shows that line with marks below what lies in the span of the
fault. At least one column is marked. -/
def Reports (path : String) (text : List Char) (n : Notice) (report : String) : Prop :=
  ∃ place before marked behind, Excerpt text n.span place before marked behind ∧
    ∃ number margin marks, number = toString (place.line + 1) ∧ margin = spaces number.length ∧
      marks = String.ofList (List.replicate (max (Text.columns marked) 1) '^') ∧
      report = String.join ([
        s!"error[{n.origin}]: {n.message}",
        s!"{margin}--> {path}:{number}:{place.column + 1}",
        s!"{margin} |",
        s!"{number} | {String.ofList (before ++ marked ++ behind)}",
        s!"{margin} | {spaces (Text.columns before)}{marks}",
        s!"{margin} |",
        ""].map (· ++ "\n"))

/-- A notice of a fault that lies in the text is shown by a report. -/
theorem reports_shown (path : String) {n : Notice} (h : n.span.LiesIn text) :
    Reports path text n (n.shown path text) := by
  obtain ⟨start, stop, hstart, hstop, hcuts⟩ := cuts_of_liesIn h
  obtain ⟨before, marked, behind, hexcerpt, hline, hmark⟩ := hcuts.excerpt h hstart hstop
  have hbefore : Utf8.splitAt (Utf8.size before) (before ++ marked ++ behind) =
      (before, marked ++ behind) := by
    rw [List.append_assoc, Utf8.splitAt_append]
  have hmarked : Utf8.splitAt (Utf8.size (before ++ marked) - Utf8.size before) (marked ++ behind) =
      (marked, behind) := by
    rw [Utf8.size_append, Nat.add_sub_cancel_left, Utf8.splitAt_append]
  refine ⟨start, before, marked, behind, hexcerpt, _, _, _, rfl, rfl, rfl, ?_⟩
  rw [hline] at hmark
  simp only [Notice.shown, showAt, hstart, hstop]
  unfold showFault
  simp only [hline, hmark, hbefore, hmarked]
  -- What differs is how the ends of the lines are written.
  have hbar : " |\n" = " |" ++ "\n" := rfl
  have hend : "\n\n" = "\n" ++ ("" ++ "\n") := rfl
  rw [hbar, hend]
  simp only [List.map_cons, List.map_nil, String.join_cons, String.join_nil, String.append_assoc,
    String.append_empty]
  rfl

example : Notice.shown "a.asm" "NOP\n  FOO 1\n".toList ⟨"asm", "unknown opcode: FOO", ⟨6, 9⟩⟩ =
    "error[asm]: unknown opcode: FOO\n --> a.asm:2:3\n  |\n2 |   FOO 1\n  |   ^^^\n  |\n\n" := by
  decide +kernel

theorem liesIn_of_mem_notices {n : Notice} (h : n ∈ notices (parse text)) :
    n.span.LiesIn text := by
  rcases List.mem_append.mp h with h | h
  · obtain ⟨e, he, rfl⟩ := List.mem_map.mp h
    exact Listing.errors_placed e he
  · obtain ⟨item, hi, rfl⟩ := List.mem_map.mp h
    obtain ⟨d, hd, hm⟩ := List.mem_flatMap.mp (List.mem_filter.mp hi).1
    exact check_liesIn d hd _ (Diagnostic.span_of_mem_items hm)

/-- Every notice is shown by a report of its own. -/
theorem notices_reported (path : String) (text : List Char) :
    List.Forall₂ (Reports path text) (notices (parse text))
      ((notices (parse text)).map (·.shown path text)) := by
  apply List.forall₂_map_right_iff.mpr
  apply List.forall₂_same.mpr
  intro n hn
  exact reports_shown path (liesIn_of_mem_notices hn)

/-- There is a notice about each text that is refused, in which no fault was found when it was read
or else one was. -/
theorem notices_ne_nil (h : (parse text).errors = [] → (parse text).check ≠ []) :
    notices (parse text) ≠ [] := by
  rw [notices]
  by_cases he : (parse text).errors = []
  · obtain ⟨d, hd⟩ := List.exists_mem_of_ne_nil _ (h he)
    obtain ⟨item, hi⟩ := List.exists_mem_of_ne_nil _ d.items_ne_nil
    have hnews := Diagnostic.news_of_mem_items (Listing.check_kinds he d hd) hi
    have hmem : item ∈ ((parse text).check.flatMap Diagnostic.items).filter fun d => !d.canIgnore :=
      List.mem_filter.mpr ⟨List.mem_flatMap.mpr ⟨d, hd, hi⟩, by rw [hnews]; rfl⟩
    exact List.append_ne_nil_of_right_ne_nil _ (List.ne_nil_of_mem (List.mem_map_of_mem hmem))
  · exact List.append_ne_nil_of_left_ne_nil (mt List.map_eq_nil_iff.mp he) _

end CommandLine
end ScriptKit
