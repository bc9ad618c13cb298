import ScriptKit.Proofs.Listing.Lines.Recovery

namespace ScriptKit.Listing

open Listing.Parser Text

open State (Aligned)

/-- A line, and the number of bytes in front of it. -/
structure PlacedLine where
  start : Nat
  text : List Char
deriving DecidableEq

namespace PlacedLine

/-- The statements of the line, read alone and then moved to their places in the text. There are
none if the reader gives up. -/
def statements? (line : PlacedLine) : Option (List Statement) :=
  (parse line.text).statements?.map (List.map (·.moved line.start))

/-- These may be the faults of the line in the text: there are some if there are some of it alone,
and only then, and each starts in the line, or where it ends. -/
def Owns (line : PlacedLine) (faults : List SyntaxError) : Prop :=
  (faults = [] ↔ (parse line.text).errors = []) ∧
    ∀ error ∈ faults, line.start ≤ error.span.start ∧
      error.span.start ≤ line.start + Utf8.size line.text

end PlacedLine

/-- Lines that follow each other, each with one byte for its end. -/
def placed (start : Nat) : List (List Char) → List PlacedLine
  | [] => []
  | line :: more => ⟨start, line⟩ :: placed (start + Utf8.size line + 1) more

/-- The lines of a text. -/
def linesOf (text : List Char) : List PlacedLine := placed 0 (text.splitOn '\n')

/-- The lines up to the first one in which the reader gives up. -/
def reached : List PlacedLine → List PlacedLine
  | [] => []
  | line :: more => line :: if line.statements?.isSome then reached more else []

/-- What comes of a text is what comes of its lines: the statements of all of them, if the reader
gives up in none; and the faults of each line that is reached. -/
structure Parsed.FollowsLines (parsed : Parsed) (lines : List PlacedLine) : Prop where
  statements : parsed.statements? = (lines.mapM PlacedLine.statements?).map List.flatten
  errors : ∃ faults, parsed.errors = faults.flatten ∧
    List.Forall₂ PlacedLine.Owns (reached lines) faults

namespace Parsed.FollowsLines

variable {line : PlacedLine} {lines : List PlacedLine} {faults : List SyntaxError}

theorem nil : Parsed.FollowsLines ⟨some [], []⟩ [] where
  statements := rfl
  errors := ⟨[], rfl, .nil⟩

/-- The reader gives up in the first line. -/
theorem stop (h : line.statements? = none) (ho : line.Owns faults) :
    Parsed.FollowsLines ⟨none, faults⟩ (line :: lines) where
  statements := by
    rw [List.mapM_cons, h]
    rfl
  errors := by
    refine ⟨[faults], by simp, ?_⟩
    rw [reached, h]
    exact .cons ho .nil

/-- The reader comes to the end of the first line, and reads on. -/
theorem cons {own : List Statement} {rest : Parsed} (h : line.statements? = some own)
    (ho : line.Owns faults) (hr : rest.FollowsLines lines) :
    Parsed.FollowsLines ⟨rest.statements?.map (own ++ ·), faults ++ rest.errors⟩
      (line :: lines) where
  statements := by
    rw [hr.statements, List.mapM_cons, h]
    cases lines.mapM PlacedLine.statements? with
    | none => rfl
    | some others => rfl
  errors := by
    obtain ⟨others, he, hall⟩ := hr.errors
    refine ⟨faults :: others, by rw [List.flatten_cons, ← he], ?_⟩
    rw [reached, h]
    exact .cons ho hall

end Parsed.FollowsLines

variable {first : List Char} {more : List (List Char)} {s t s' t' middle : State}
  {values : List Statement}

/-- The faults of a text that was read up to here, the one that stops reading included. -/
def State.faults (s : State) : List SyntaxError :=
  match s.rest with
  | [] => s.errors.reverse
  | _ =>
    let s := unexpectedHere s
    (s.report s.blame).errors.reverse

theorem State.faults_of_rest_eq_nil (hn : s.rest = []) : s.faults = s.errors.reverse := by
  rw [faults, hn]

theorem State.faults_of_rest_ne_nil (hn : s.rest ≠ []) {known : Blame}
    (h : unexpectedHere s = { s with blame := some known }) :
    s.faults = (known.error :: s.errors).reverse := by
  rw [faults]
  split
  · next hr => exact absurd hr hn
  · rw [h]
    rfl

theorem exists_parse (text : List Char) :
    ∃ s values s', Ready 0 text s ∧ s.errors = [] ∧ Runs nextStatement s values s' ∧
      parse text = ⟨if s'.rest = [] then some values else none, s'.faults⟩ := by
  obtain ⟨_, s, ht⟩ := total_trivia.exists_done (.ofText text)
  obtain ⟨values, s', hr⟩ := exists_runs advances_nextStatement honest_nextStatement s
  obtain ⟨hready, he⟩ := ready_of_trivia ht
  refine ⟨s, values, s', hready, he, hr, ?_⟩
  have hall : statements (.ofText text) = .done values s' := bind_eq_done.mpr ⟨_, s, ht,
    (many_eq_done advances_nextStatement honest_nextStatement).mpr hr⟩
  rw [parse, hall, State.faults]
  dsimp only
  cases s'.rest with
  | nil => rfl
  | cons c rest => rfl

/-- From the first state on, what was read follows the lines. -/
def ReadsLines (t : State) (values : List Statement) (t' : State) (lines : List PlacedLine) :
    Prop :=
  ∃ news, t'.faults = t.errors.reverse ++ news ∧
    Parsed.FollowsLines ⟨if t'.rest = [] then some values else none, news⟩ lines

/-- What stands behind a line that is followed by others. -/
def following (more : List (List Char)) : List Char := more.flatMap ('\n' :: ·)

theorem following_cons (line : List Char) (more : List (List Char)) :
    following (line :: more) = '\n' :: (line ++ following more) := rfl

theorem intercalate_cons (line : List Char) (more : List (List Char)) :
    ['\n'].intercalate (line :: more) = line ++ following more := by
  induction more generalizing line with
  | nil => rw [List.intercalate_singleton, following, List.flatMap_nil, List.append_nil]
  | cons next others ih =>
    rw [List.intercalate_cons_cons, ih, following_cons, List.append_assoc, List.singleton_append]

/-- A line that is followed by others. -/
def Setting.ofLine (start : Nat) (line : List Char) (more : List (List Char)) : Setting where
  start
  size := Utf8.size line
  behind := following more
  ends c hc := by
    cases more with
    | nil => cases hc
    | cons next others => exact (Option.some.inj hc).symm

/-- Where both readers are stuck in a line, the fault that stops them is one of the line. -/
theorem owns_of_stuck {start : Nat} (hn : s'.rest ≠ []) (hp : (parse first).errors = s'.faults)
    (ha : Aligned (.ofLine start first more) t.errors s' t') :
    ∃ own, t'.faults = t.errors.reverse ++ own ∧ PlacedLine.Owns ⟨start, first⟩ own := by
  have hrest := ha.toBeside.rest_ne_nil hn
  obtain ⟨_, known, hs, ht, hk⟩ := notesHere_here.aligned ha
  obtain ⟨news, he, -, hin⟩ := ha.errors
  refine ⟨(known.error :: news).reverse, ?_, ?_, fun error hm => ?_⟩
  · rw [State.faults_of_rest_ne_nil hrest ht, he, ← List.cons_append, List.reverse_append]
  · rw [hp, State.faults_of_rest_ne_nil hn hs, List.reverse_eq_nil_iff, List.reverse_eq_nil_iff]
    exact iff_of_false (List.cons_ne_nil _ _) (List.cons_ne_nil _ _)
  · rcases List.mem_cons.mp (List.mem_reverse.mp hm) with rfl | hm
    · exact hk
    · exact hin error hm

/-- A line that was read to its end has the faults that were reported on the way. -/
theorem owns_of_reports {start : Nat} (hn : s'.rest = []) (hp : (parse first).errors = s'.faults)
    (hr : (Setting.ofLine start first more).Reports t.errors s'.errors middle.errors) :
    ∃ own, middle.errors.reverse = t.errors.reverse ++ own ∧
      PlacedLine.Owns ⟨start, first⟩ own := by
  obtain ⟨news, he, hboth, hin⟩ := hr
  refine ⟨news.reverse, by rw [he, List.reverse_append], ?_, fun error hm => ?_⟩
  · rw [hp, State.faults_of_rest_eq_nil hn, List.reverse_eq_nil_iff, List.reverse_eq_nil_iff]
    exact hboth
  · exact hin error (List.mem_reverse.mp hm)

/-- The reader is done with the first line as if it stood alone, and then goes on to the others. -/
theorem readsLines_cons {start : Nat} (hc : ',' ∉ t.rest)
    (h : Ready start (first ++ following more) t) (hr : Runs nextStatement t values t')
    (hmore : ∀ middle later last, Ready (start + Utf8.size first) (following more) middle →
      ',' ∉ middle.rest → Runs nextStatement middle later last →
      ReadsLines middle later last (placed (start + Utf8.size first + 1) more)) :
    ReadsLines t values t' (placed start (first :: more)) := by
  obtain ⟨s, own, s', hs, he, hown, hparse⟩ := exists_parse first
  have hfaults : (parse first).errors = s'.faults := by rw [hparse]
  have hline : PlacedLine.statements? ⟨start, first⟩ =
      if s'.rest = [] then some (own.map (·.moved start)) else none := by
    rw [PlacedLine.statements?, hparse]
    split
    · rfl
    · rfl
  have hgoes : Goes (.ofLine start first more) t.errors s t := by
    refine goes_of_ready (Nat.zero_add _) hs h ?_
    rw [he]
    exact Setting.reports_nil _ _
  rcases runs_agree hgoes hc hown with ⟨hn, last, hruns, ha⟩ |
    ⟨hn, middle, hready, hrep, hcm, hruns⟩
  · obtain ⟨rfl, rfl⟩ := hr.unique hruns
    obtain ⟨news, hnews, howns⟩ := owns_of_stuck hn hfaults ha
    rw [if_neg hn] at hline
    refine ⟨news, hnews, ?_⟩
    rw [if_neg (ha.toBeside.rest_ne_nil hn)]
    exact .stop hline howns
  · obtain ⟨later, last, hlater⟩ := exists_runs advances_nextStatement honest_nextStatement middle
    obtain ⟨rfl, rfl⟩ := hr.unique (hruns later last hlater)
    obtain ⟨news, hnews, howns⟩ := owns_of_reports hn hfaults hrep
    obtain ⟨others, hothers, hfollows⟩ := hmore middle later t' hready hcm hlater
    rw [if_pos hn] at hline
    refine ⟨news ++ others, by rw [hothers, hnews, List.append_assoc], ?_⟩
    have hall := hfollows.cons hline howns
    rwa [Option.map_if] at hall

theorem readsLines_following {start : Nat} (hc : ',' ∉ t.rest)
    (h : Ready start (following more) t) (hr : Runs nextStatement t values t') :
    ReadsLines t values t' (placed (start + 1) more) := by
  induction more generalizing start t t' values with
  | nil =>
    have hend : t.rest = [] := List.suffix_nil.mp h.skips.suffix
    obtain ⟨_, hs⟩ := refuses_nextStatement_end t.offset t.blame t.errors
    rw [← hend] at hs
    cases hr with
    | @stop _ blame stuck =>
      have hfaults : State.faults { t with blame } = t.errors.reverse :=
        State.faults_of_rest_eq_nil hend
      refine ⟨[], by rw [hfaults, List.append_nil], ?_⟩
      rw [if_pos hend]
      exact .nil
    | more done others => cases done.symm.trans hs
  | cons line others ih =>
    have hready : Ready (start + 1) (line ++ following others) t := by
      obtain ⟨b, hb⟩ := exists_skips (line ++ following others)
      obtain rfl := h.skips.unique (.blank (by decide) hb)
      have hplace := h.place
      rw [following_cons, Utf8.size_cons, ← Nat.add_assoc] at hplace
      exact ⟨hb, hplace, h.blame⟩
    exact readsLines_cons hc hready hr fun _ _ _ hm hcm hlast => ih hcm hm hlast

/-- A text without commas is read line by line. It is read to its end if each of its lines is, and
then it has the statements of all its lines; and its faults are those of its lines, up to the first
one in which the reader gives up. -/
theorem parse_line_by_line (text : List Char) (h : ',' ∉ text) :
    (parse text).FollowsLines (linesOf text) := by
  obtain ⟨s, values, s', hs, he, hr, hparse⟩ := exists_parse text
  obtain ⟨first, more, hsplit⟩ := List.exists_cons_of_ne_nil (List.splitOn_ne_nil '\n' text)
  have htext : text = first ++ following more := by
    rw [← intercalate_cons, ← hsplit, List.intercalate_splitOn]
  have hc : ',' ∉ s.rest := fun hm => h (hs.skips.suffix.subset hm)
  have hreads : ReadsLines s values s' (linesOf text) := by
    rw [linesOf, hsplit]
    rw [htext] at hs
    exact readsLines_cons hc hs hr fun _ _ _ hm hcm hlast => readsLines_following hcm hm hlast
  obtain ⟨news, hnews, hfollows⟩ := hreads
  rw [he, List.reverse_nil, List.nil_append] at hnews
  rwa [hparse, hnews]

/-- An argument and a mnemonic that cannot be read, a line in which the reader gives up, and one
that is not reached. -/
theorem parse_line_by_line_four_lines :
    ',' ∉ "PUSHINT 5x\n@ RET\n\x7b\x7d\nNOP".toList ∧
    linesOf "PUSHINT 5x\n@ RET\n\x7b\x7d\nNOP".toList =
      [⟨0, "PUSHINT 5x".toList⟩, ⟨11, "@ RET".toList⟩, ⟨17, "\x7b\x7d".toList⟩,
        ⟨20, "NOP".toList⟩] ∧
    reached (linesOf "PUSHINT 5x\n@ RET\n\x7b\x7d\nNOP".toList) =
      [⟨0, "PUSHINT 5x".toList⟩, ⟨11, "@ RET".toList⟩, ⟨17, "\x7b\x7d".toList⟩] ∧
    (parse "PUSHINT 5x\n@ RET\n\x7b\x7d\nNOP".toList).FollowsLines
      (linesOf "PUSHINT 5x\n@ RET\n\x7b\x7d\nNOP".toList) := by
  have hc : ',' ∉ "PUSHINT 5x\n@ RET\n\x7b\x7d\nNOP".toList := by decide
  exact ⟨hc, by decide +kernel, by decide +kernel, parse_line_by_line _ hc⟩

/-- In a line of which no rest starts with a statement the reader gives up, and the next line, which
has no fault, is not read. -/
theorem parse_stops_in_braces :
    ',' ∉ "\x7b\x7d\nNOPE".toList ∧ (parse "\x7b\x7d\nNOPE".toList).statements? = none ∧
    (parse "NOPE".toList).errors = [] ∧
    (parse "NOPE".toList).statements?.map (·.map (·.mnemonic)) = some ["NOPE"] := by
  decide +kernel

end ScriptKit.Listing
