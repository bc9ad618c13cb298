import ScriptKit.Proofs.Listing.Commented.Argument
import ScriptKit.Proofs.Listing.Unplaced

namespace ScriptKit.Listing

open Listing.Parser Text

variable {comment before behind : List Char} {s t s' : State}

/-- As `Near`, but the blank in front of the comment may be passed over without the comment. -/
def Nearby (comment behind a a' : List Char) : Prop :=
  Near comment behind a a' ∨ a = behind ∧ a' = '/' :: '/' :: (comment ++ behind)

/-- The blanks of a line are passed over on both sides. -/
theorem Near.dropWhile_inline {a a' : List Char} (hl : LineEnds behind)
    (hn : Near comment behind a a') :
    Nearby comment behind (a.dropWhile fun c => c == ' ' || c == '\t')
      (a'.dropWhile fun c => c == ' ' || c == '\t') := by
  cases hn with
  | same => exact .inl (.same _)
  | before text =>
    have hstop : Stops (fun c => c == ' ' || c == '\t') behind := hl.of_imp fun c hc => by
      rw [Bool.or_eq_true, beq_iff_eq, beq_iff_eq] at hc
      rcases hc with rfl | rfl <;> decide
    rw [dropWhile_append_of_stops text hstop, List.dropWhile_append]
    split
    · next hempty =>
      rw [List.isEmpty_iff.mp hempty]
      exact .inr ⟨rfl, rfl⟩
    · exact .inl (.before _)

/-- Where no argument starts, the arguments of a statement are none. -/
theorem no_arguments (h : NoArgument s.rest) :
    ∃ s', arguments s = .done [] s' ∧ s'.rest = s.rest ∧ s'.errors = s.errors := by
  obtain ⟨_, _, _, hr, rfl⟩ := reads_no_arguments h s.offset s.blame s.errors
  exact ⟨_, hr, rfl, rfl⟩

section

variable (ht : IsTrailing comment behind)

include ht

theorem mnemonic_follows {name : String} (hn : Near comment behind s.rest t.rest)
    (hd : mnemonic s = .done name s') (he : s'.errors = s.errors) :
    ∃ t', mnemonic t = .done name t' ∧ t'.errors = t.errors ∧
      Near comment behind s'.rest t'.rest := by
  obtain ⟨word, hw, hnone, rfl⟩ := mnemonic_inv hd he
  have hrun : Exact comment behind (run1 unexpectedKind isMnemonicChar) :=
    .run1 ht notes_kind (solid_of_codes (by decide))
  obtain ⟨-, t', hw', he', hn'⟩ := hrun.done s t word s' hn hw
  refine ⟨t', ?_, he', hn'⟩
  simp only [mnemonic, hw', hnone]

/-- Behind the blanks there are the same arguments, or none. -/
theorem blanks_arguments_follow {blank : List Char} {middle : State} {args : List Argument}
    (hp : (State.ofText (before ++ behind)).Before s) (hn : Near comment behind s.rest t.rest)
    (hb : run unexpectedNonBlank (fun c => c == ' ' || c == '\t') s = .done blank middle)
    (hd : arguments middle = .done args s') (he : s'.errors = middle.errors)
    (ha : Allows args comment before behind) :
    ∃ other middle' others t',
      run unexpectedNonBlank (fun c => c == ' ' || c == '\t') t = .done other middle' ∧
      arguments middle' = .done others t' ∧ t'.errors = t.errors ∧
      others.map (·.value) = args.map (·.value) ∧ Nearby comment behind s'.rest t'.rest := by
  obtain ⟨other, middle', hb'⟩ := (Total.run _ _).exists_done t
  obtain ⟨hrest, -⟩ := rest_of_run notes_nonBlank hb
  obtain ⟨hrest', hem⟩ := rest_of_run notes_nonBlank hb'
  have hnearby := hn.dropWhile_inline ht.ends
  rw [← hrest, ← hrest'] at hnearby
  rcases hnearby with hn | ⟨hline, hcomment⟩
  · have hblanks := ((honest_run tells_nonBlank).done s blank middle hb).1
    obtain ⟨others, t', hd', het, hvalues, hn⟩ :=
      arguments_follow ht (hp.trans hblanks.before) hn hd he ha
    exact ⟨other, middle', others, t', hb', hd', het.trans hem, hvalues, .inl hn⟩
  · have hnone : NoArgument middle.rest := by
      rw [hline]
      exact (solid_of_codes (by decide)).stops_lineEnd ht.ends
    have hnone' : NoArgument middle'.rest := by
      rw [hcomment]
      exact stops_cons.mpr (by decide)
    obtain ⟨final, hfinal, hs, -⟩ := no_arguments hnone
    obtain ⟨t', hd', ht', het⟩ := no_arguments hnone'
    cases hd.symm.trans hfinal
    exact ⟨other, middle', [], t', hb', hd', het.trans hem, rfl,
      .inr ⟨hs.trans hline, ht'.trans hcomment⟩⟩

/-- A statement says the same with the comment and without it. -/
theorem statement_follows {found : Statement} (hp : (State.ofText (before ++ behind)).Before s)
    (hn : Near comment behind s.rest t.rest) (hd : statement s = .done found s')
    (he : s'.errors = s.errors) (ha : Allows found.args comment before behind) :
    ∃ other t', statement t = .done other t' ∧ t'.errors = t.errors ∧
      other.wording = found.wording ∧ Nearby comment behind s'.rest t'.rest := by
  obtain ⟨⟨name, span⟩, middle, hm, hd⟩ := bind_eq_done.mp hd
  obtain ⟨blank, last, hb, hd⟩ := bind_eq_done.mp hd
  obtain ⟨args, final, hargs, hd⟩ := bind_eq_done.mp hd
  obtain ⟨rfl, rfl⟩ := pure_eq_done.mp hd
  obtain ⟨hname, rfl⟩ := spanned_eq_done.mp hm
  have hmnemonic := (honest_mnemonic.done s name middle hname).1
  have hblanks := ((honest_run tells_nonBlank).done middle blank last hb).1
  have harguments := (honest_arguments.done last args s' hargs).1
  obtain ⟨hem, he⟩ := hmnemonic.errors_eq (hblanks.trans harguments) he
  obtain ⟨-, hea⟩ := hblanks.errors_eq harguments he
  obtain ⟨middle', hname', hem', hn⟩ := mnemonic_follows ht hn hname hem
  obtain ⟨other, last', others, t', hb', hargs', het, hvalues, hend⟩ :=
    blanks_arguments_follow ht (hp.trans hmnemonic.before) hn hb hargs hea ha
  refine ⟨_, t', bind_eq_done.mpr ⟨(name, _), middle', spanned_eq_done.mpr ⟨hname', rfl⟩,
    bind_eq_done.mpr ⟨other, last', hb', bind_eq_done.mpr ⟨others, t', hargs', rfl⟩⟩⟩,
    het.trans hem', ?_, hend⟩
  rw [Statement.wording, Statement.wording, hvalues]

/-- Blanks and comments are passed over on both sides, also if some were passed before. -/
theorem trivia_follows {u : Unit} (hn : Nearby comment behind s.rest t.rest)
    (hd : trivia s = .done u s') :
    ∃ t', trivia t = .done u t' ∧ t'.errors = t.errors ∧ Near comment behind s'.rest t'.rest ∧
      (s'.rest = [] → t'.rest = []) := by
  obtain ⟨b, hb⟩ := exists_skips s.rest
  obtain ⟨b', hb', hnear, hempty⟩ : ∃ b', Skips t.rest b' ∧ Near comment behind b b' ∧
      (b = [] → b' = []) := by
    rcases hn with hn | ⟨hline, hcomment⟩
    · exact hn.skips ht hb
    · rw [hline] at hb
      rw [hcomment]
      exact ⟨b, .comment ht.inLine ht.ends hb, .same b, id⟩
  obtain ⟨_, _, _, hr, -⟩ := hb.reads s.offset s.blame s.errors
  obtain ⟨_, _, _, hr', -⟩ := hb'.reads t.offset t.blame t.errors
  cases hd.symm.trans hr
  exact ⟨_, hr', rfl, hnear, hempty⟩

theorem nextStatement_follows {found : Statement}
    (hp : (State.ofText (before ++ behind)).Before s) (hn : Near comment behind s.rest t.rest)
    (hd : nextStatement s = .done found s') (he : s'.errors = s.errors)
    (ha : Allows found.args comment before behind) :
    ∃ other t', nextStatement t = .done other t' ∧ t'.errors = t.errors ∧
      other.wording = found.wording ∧ Near comment behind s'.rest t'.rest ∧
      (s'.rest = [] → t'.rest = []) := by
  rcases honest_wholeStatement.of_skipUntil hd with hd | ⟨-, hnew⟩
  · obtain ⟨value, middle, hs, hd⟩ := bind_eq_done.mp hd
    obtain ⟨u, last, htrivia, hd⟩ := bind_eq_done.mp hd
    obtain ⟨rfl, rfl⟩ := pure_eq_done.mp hd
    have hstatement := (honest_statement.done s found middle hs).1
    obtain ⟨hem, -⟩ := hstatement.errors_eq (honest_trivia.done middle u s' htrivia).1 he
    obtain ⟨other, middle', hs', hem', hwording, hend⟩ := statement_follows ht hp hn hs hem ha
    obtain ⟨t', htrivia', het, hn', hempty⟩ := trivia_follows ht hend htrivia
    refine ⟨other, t', skipUntil_eq_done.mpr (.inl ?_), het.trans hem', hwording, hn', hempty⟩
    exact bind_eq_done.mpr ⟨other, middle', hs', bind_eq_done.mpr ⟨u, t', htrivia', rfl⟩⟩
  · exact absurd he hnew

end

/-- A listing that is read without a fault is read so with the comment as well, and says the
same. -/
theorem parse_comment (ht : IsTrailing comment behind) {statements : List Statement}
    (h : parse (before ++ behind) = ⟨some statements, []⟩)
    (ha : ∀ s ∈ statements, Allows s.args comment before behind) :
    ∃ commented, parse (before ++ ' ' :: '/' :: '/' :: (comment ++ behind)) = ⟨some commented, []⟩ ∧
      commented.map Statement.wording = statements.map Statement.wording := by
  obtain ⟨s, hd, hr, he⟩ := parse_eq_iff.mp h
  obtain ⟨u, middle, htrivia, hd⟩ := bind_eq_done.mp hd
  have hhonest := (honest_trivia.done _ u middle htrivia).1
  have hleads := (honest_nextStatement.many.done middle statements s hd).1
  obtain ⟨hem, hes⟩ := hhonest.errors_eq hleads he
  obtain ⟨middle', htrivia', hem', hn, hempty⟩ := trivia_follows ht
    (t := .ofText (before ++ ' ' :: '/' :: '/' :: (comment ++ behind))) (.inl (.before before))
    htrivia
  obtain ⟨commented, t', hruns, het, hwording, -, hend, -⟩ :=
    ((many_eq_done advances_nextStatement honest_nextStatement).mp hd).follow
      Statement.wording
      (fun s t => Near comment behind s.rest t.rest ∧ (s.rest = [] → t.rest = []) ∧
        (State.ofText (before ++ behind)).Before s)
      honest_nextStatement hes ⟨hn, hempty, hhonest.before⟩
      (by
        rintro s t found next ⟨hn, -, hp⟩ hd he - hmem
        obtain ⟨other, t', hd', he', hw, hn', hempty⟩ :=
          nextStatement_follows ht hp hn hd he (ha found hmem)
        have hleads := (honest_nextStatement.done s found next hd).1
        exact ⟨other, t', hd', he', hw, hn', hempty, hp.trans hleads.before⟩)
      (by
        rintro s t blame ⟨hn, hempty, hp⟩ - rfl
        obtain ⟨blame', hs'⟩ := refuses_nextStatement_end t.offset t.blame t.errors
        rw [← hempty hr] at hs'
        exact ⟨blame', hs', hn, hempty, hp⟩)
  refine ⟨commented, parse_eq_iff.mpr ⟨t', ?_, hend hr, ?_⟩, hwording⟩
  · exact bind_eq_done.mpr ⟨u, middle', htrivia',
      (many_eq_done advances_nextStatement honest_nextStatement).mpr hruns⟩
  · rw [het, hem']
    rfl

/-- A comment put in behind what is read without a fault, where a line ends, changes nothing: the
listing is still read without a fault, its statements say the same, and it is assembled to the same
script or refused for the same fault, apart from places. There are two provisos. A line end other
than the usual one may also stand in a text in quotes, where no line ends. And a comma in the
comment may be taken for one behind the last argument of the line, if there is one. -/
theorem comment_changes_nothing {before behind comment : List Char} {statements : List Statement}
    (hread : parse (before ++ behind) = ⟨some statements, []⟩)
    (hends : ∀ c ∈ behind.head?, isLineEnd c = true)
    (hcomment : ∀ c ∈ comment, isLineEnd c = false)
    (hwhole : (∃ c ∈ behind.head?, c ≠ '\n') →
      ∀ s ∈ statements, ∀ arg ∈ s.args, ¬ arg.ReachesOver (Utf8.size before))
    (hcomma : ',' ∈ comment →
      ∀ s ∈ statements, ∀ arg ∈ s.args.getLast?, ¬ arg.EndsOnLastLine before) :
    (∃ commented, parse (before ++ " //".toList ++ comment ++ behind) = ⟨some commented, []⟩ ∧
      commented.map Statement.wording = statements.map Statement.wording) ∧
    (assembleText (String.ofList (before ++ " //".toList ++ comment ++ behind))).mapError
        Refusal.unplaced =
      (assembleText (String.ofList (before ++ behind))).mapError Refusal.unplaced ∧
    ∀ script, assembleText (String.ofList (before ++ " //".toList ++ comment ++ behind)) =
        .ok script ↔
      assembleText (String.ofList (before ++ behind)) = .ok script := by
  have ht : IsTrailing comment behind := ⟨hcomment, fun c hc => by simp [hends c hc]⟩
  obtain ⟨commented, hparse, hwording⟩ := parse_comment ht hread fun s hs =>
    ⟨fun hend => hwhole hend s hs, fun hc => hcomma hc s hs⟩
  have htext : before ++ " //".toList ++ comment ++ behind =
      before ++ ' ' :: '/' :: '/' :: (comment ++ behind) := by
    simp
  rw [htext]
  have hsame := assembleText_congr (by rwa [String.toList_ofList])
    (by rwa [String.toList_ofList]) hwording
  refine ⟨⟨commented, hparse, hwording⟩, hsame, fun script => ?_⟩
  rw [← mapError_eq_ok (g := Refusal.unplaced), hsame, mapError_eq_ok]

/-- A line end stands in the text in quotes, and another one behind the comment, which has a comma
in it but no argument in front. -/
theorem comment_changes_nothing_two_line_ends :
    parse ("PUSHDATA \"a\rb\"\nRET".toList ++ "\rTRY 3, -2".toList) =
      ⟨some [⟨⟨0, 14⟩, ⟨0, 8⟩, "PUSHDATA", [⟨⟨9, 14⟩, .text "a\rb"⟩]⟩,
        ⟨⟨15, 18⟩, ⟨15, 18⟩, "RET", []⟩,
        ⟨⟨19, 28⟩, ⟨19, 22⟩, "TRY", [⟨⟨23, 24⟩, .number 3⟩, ⟨⟨26, 28⟩, .number (-2)⟩]⟩], []⟩ ∧
    (∃ commented, parse ("PUSHDATA \"a\rb\"\nRET".toList ++ " //".toList ++ " one, two".toList ++
        "\rTRY 3, -2".toList) = ⟨some commented, []⟩ ∧
      commented.map Statement.wording =
        [("PUSHDATA", [.text "a\rb"]), ("RET", []), ("TRY", [.number 3, .number (-2)])]) ∧
    assembleText (String.ofList ("PUSHDATA \"a\rb\"\nRET".toList ++ " //".toList ++
        " one, two".toList ++ "\rTRY 3, -2".toList)) =
      .ok [0x0c, 3, 0x61, 0x0d, 0x62, 0x40, 0x3b, 3, 0xfe] := by
  have hread : parse ("PUSHDATA \"a\rb\"\nRET".toList ++ "\rTRY 3, -2".toList) =
      ⟨some [⟨⟨0, 14⟩, ⟨0, 8⟩, "PUSHDATA", [⟨⟨9, 14⟩, .text "a\rb"⟩]⟩,
        ⟨⟨15, 18⟩, ⟨15, 18⟩, "RET", []⟩,
        ⟨⟨19, 28⟩, ⟨19, 22⟩, "TRY", [⟨⟨23, 24⟩, .number 3⟩, ⟨⟨26, 28⟩, .number (-2)⟩]⟩], []⟩ := by
    decide +kernel
  have hscript : assembleText (String.ofList ("PUSHDATA \"a\rb\"\nRET".toList ++
      "\rTRY 3, -2".toList)) = .ok [0x0c, 3, 0x61, 0x0d, 0x62, 0x40, 0x3b, 3, 0xfe] := by
    decide +kernel
  have hends : ∀ c ∈ "\rTRY 3, -2".toList.head?, isLineEnd c = true := by
    have hhead : "\rTRY 3, -2".toList.head? = some '\r' := by decide
    rw [hhead]
    rintro c ⟨rfl⟩
    decide
  have hcomment : ∀ c ∈ " one, two".toList, isLineEnd c = false := by
    simpa using (by decide : " one, two".toList.any isLineEnd = false)
  obtain ⟨hcommented, -, hscripts⟩ := comment_changes_nothing hread hends hcomment
    (fun _ => by decide +kernel) (fun _ => by decide +kernel)
  exact ⟨hread, hcommented, (hscripts _).mpr hscript⟩

/-- Behind the last argument of a line, a comma in a comment is taken for one between arguments, and
the next word for an argument. -/
theorem comma_in_comment_is_read :
    (parse ("PUSHINT 5".toList ++ "\nRET".toList)).errors = [] ∧
    assembleText (String.ofList ("PUSHINT 5".toList ++ "\nRET".toList)) = .ok [0x15, 0x40] ∧
    " one, two".toList.any isLineEnd = false ∧
    parse ("PUSHINT 5".toList ++ " //".toList ++ " one, two".toList ++ "\nRET".toList) =
      ⟨some [⟨⟨0, 21⟩, ⟨0, 7⟩, "PUSHINT", [⟨⟨8, 9⟩, .number 5⟩, ⟨⟨18, 21⟩, .unreadable⟩]⟩,
        ⟨⟨22, 25⟩, ⟨22, 25⟩, "RET", []⟩],
        [.unexpected ⟨22, 23⟩ (some 'R'), .unexpected ⟨21, 22⟩ none]⟩ ∧
    assembleText (String.ofList ("PUSHINT 5".toList ++ " //".toList ++ " one, two".toList ++
      "\nRET".toList)) = .error (.notRead (some (.unexpected ⟨22, 23⟩ (some 'R')))) :=
  ⟨by decide +kernel, by decide +kernel, by decide, by decide +kernel, by decide +kernel⟩

end ScriptKit.Listing
