import Mathlib.Logic.Relation
import ScriptKit.Proofs.Listing.IntegerLiteral
import ScriptKit.Proofs.Listing.QuotedText

namespace ScriptKit.Listing

open Listing.Parser Relation Text

variable {α β : Type} {a b c word body text : List Char} {s s' : State}

/-- What is left behind a comment, behind a text in quotes, or behind a character that starts
neither. -/
inductive Piece : List Char → List Char → Prop where
  | comment {word rest : List Char} (inLine : ∀ c ∈ word, isLineEnd c = false)
      (ends : LineEnds rest) : Piece ('/' :: '/' :: (word ++ rest)) rest
  | quoted {body text rest : List Char} (writes : Writes body text) :
      Piece ('"' :: (body ++ '"' :: rest)) rest
  | other {c : Char} {rest : List Char} (noQuote : c ≠ '"')
      (noComment : ∀ others, c :: rest ≠ '/' :: '/' :: others) : Piece (c :: rest) rest

/-- A reader of one piece: the pieces of a text do not overlap. -/
def piece : Parser Unit :=
  orElse comment <| orElse (do let _ ← quotedText) do let _ ← char unexpectedHere (· != '"')

theorem Piece.reads (h : Piece a b) : Reads piece a b fun _ => True := by
  cases h with
  | comment inLine ends => exact .orElse_left (reads_comment inLine ends)
  | quoted writes =>
    refine .orElse_right (refuses_comment (by simp)) (.orElse_left ?_)
    exact (reads_quotedText writes).bind fun _ _ => .pure trivial
  | @other c rest noQuote noComment =>
    have hread : Reads (char unexpectedHere (· != '"')) (c :: b) b (· = c) :=
      reads_char (by simpa using noQuote)
    refine .orElse_right (refuses_comment noComment) (.orElse_right ?_ ?_)
    · exact (refuses_symbol (stops_cons.mpr (beq_eq_false_iff_ne.mpr noQuote))).bind.bind
    · exact hread.bind fun _ _ => .pure trivial

/-- A text starts with one piece at most. -/
theorem Piece.rightUnique : Relator.RightUnique Piece := fun _ _ _ h ho => h.reads.unique ho.reads

/-- Characters that start neither a comment nor a text are passed over one by one. -/
theorem pieces_of_forall (h : ∀ c ∈ word, c ≠ '"' ∧ c ≠ '/') :
    ReflTransGen Piece (word ++ a) a := by
  induction word with
  | nil => exact .refl
  | cons c rest ih =>
    obtain ⟨hc, hrest⟩ := List.forall_mem_cons.mp h
    refine .head (.other hc.1 fun others he => ?_) (ih hrest)
    exact hc.2 (List.cons.inj he).1

/-- Trivia are comments and other characters. -/
theorem Skips.pieces (h : Skips a b) : ReflTransGen Piece a b := by
  induction h with
  | stop => exact .refl
  | @blank c a b isBlank others ih =>
    have hc : c ≠ '"' ∧ c ≠ '/' := by
      constructor <;>
        rintro rfl <;> exact absurd isBlank (by decide)
    exact .head (.other hc.1 fun others he => hc.2 (List.cons.inj he).1) ih
  | comment inLine ends others ih => exact .head (.comment inLine ends) ih

/-- Behind an opening quote, the first backslash that starts no escape, if all before are used as
they should be, stands in front of a character that has none. -/
def Misescapes (rest : List Char) : Prop :=
  ∃ body text c after, rest = body ++ '\\' :: c :: after ∧ Writes body text ∧ c ∉ escapeLetters

/-- Such a text is not closed before the backslash. -/
theorem Misescapes.no_piece (h : Misescapes a) : ¬ Piece ('"' :: a) b := by
  obtain ⟨body, text, c, after, rfl, hw, hc⟩ := h
  intro hp
  generalize he : '"' :: (body ++ '\\' :: c :: after) = whole at hp
  cases hp with
  | comment => cases he
  | other noQuote => exact noQuote (List.cons.inj he).1.symm
  | quoted writes =>
    have hread := Reads.many (hw.readsAll (refuses_misescape hc (a := after)))
    rw [(List.cons.inj he).2] at hread
    cases hread.unique (Reads.many (writes.readsAll refuses_textChar))

/-- A text with one is not passed over to its end. -/
theorem Misescapes.stops (h : Misescapes a) (hp : ReflTransGen Piece text ('"' :: a)) :
    ¬ ReflTransGen Piece text [] := by
  intro hend
  rcases ReflTransGen.total_of_right_unique Piece.rightUnique hp hend with hend | hend
  · rcases hend.cases_head with he | ⟨_, hpiece, -⟩
    · cases he
    · exact h.no_piece hpiece
  · rcases hend.cases_head with he | ⟨_, hpiece, -⟩
    · cases he
    · cases hpiece

namespace Parser

variable {p q : Parser α}

/-- What the parser reads without a report are whole pieces. -/
structure ByPieces (p : Parser α) : Prop where
  honest : Honest p fun _ => True
  pieces : ∀ s value s', p s = .done value s' → s'.errors = s.errors →
    ReflTransGen Piece s.rest s'.rest

namespace ByPieces

theorem of_word (h : Honest p fun _ => True)
    (hw : ∀ s value s', p s = .done value s' → s'.errors = s.errors →
      ∃ word, s.rest = word ++ s'.rest ∧ ∀ c ∈ word, c ≠ '"' ∧ c ≠ '/') : ByPieces p where
  honest := h
  pieces s value s' hd he := by
    obtain ⟨word, hrest, hc⟩ := hw s value s' hd he
    rw [hrest]
    exact pieces_of_forall hc

theorem pure (value : α) : ByPieces (pure value : Parser α) where
  honest := .pure trivial
  pieces s found s' hd _ := by
    obtain ⟨-, rfl⟩ := pure_eq_done.mp hd
    exact .refl

theorem bind {f : α → Parser β} (hp : ByPieces p) (hf : ∀ value, ByPieces (f value)) :
    ByPieces (p >>= f) where
  honest := hp.honest.bind fun value => (hf value).honest.mono fun _ _ _ => trivial
  pieces s result s' hd he := by
    obtain ⟨value, middle, hv, hr⟩ := bind_eq_done.mp hd
    obtain ⟨hm, hm'⟩ := (hp.honest.done s value middle hv).1.errors_eq
      ((hf value).honest.done middle result s' hr).1 he
    exact (hp.pieces s value middle hv hm).trans ((hf value).pieces middle result s' hr hm')

theorem orElse (hp : ByPieces p) (hq : ByPieces q) : ByPieces (orElse p q) where
  honest := hp.honest.orElse hq.honest
  pieces s value s' hd he := by
    rcases orElse_eq_done.mp hd with hd | ⟨blame, -, hd⟩
    · exact hp.pieces s value s' hd he
    · exact hq.pieces { s with blame } value s' hd he

theorem insteadRead (hp : ByPieces p) (hq : Honest q fun _ => True) :
    ByPieces (insteadRead p q) where
  honest := hp.honest.insteadRead hq
  pieces s value s' hd he := by
    rcases hp.honest.of_insteadRead hq hd with hd | ⟨-, hnew⟩
    · exact hp.pieces s value s' hd he
    · exact absurd he hnew

theorem skipUntil {barrier : Char → Bool} (hp : ByPieces p) : ByPieces (skipUntil barrier p) where
  honest := hp.honest.skipUntil
  pieces s value s' hd he := by
    rcases hp.honest.of_skipUntil hd with hd | ⟨-, hnew⟩
    · exact hp.pieces s value s' hd he
    · exact absurd he hnew

theorem many (hp : ByPieces p) : ByPieces (many p) where
  honest := hp.honest.many.mono fun _ _ => trivial
  pieces s values s' hd he := by
    have hr := rounds_of_many hd
    clear hd
    induction hr with
    | stop => exact .refl
    | @last s s' value done => exact hp.pieces s value s' done he
    | @more s middle s' value values done others ih =>
      obtain ⟨hm, hm'⟩ :=
        (hp.honest.done s value middle done).1.errors_eq (hp.honest.rounds others).1 he
      exact (hp.pieces s value middle done hm).trans (ih hm')

theorem ahead (hp : Honest p fun _ => True) : ByPieces (ahead p) where
  honest := hp.ahead
  pieces s u s' hd _ := by
    obtain ⟨_, _, -, rfl⟩ := ahead_eq_done.mp hd
    exact .refl

theorem filter {test : α → Bool} (hp : ByPieces p) : ByPieces (filter p test) where
  honest := hp.honest.filter.mono fun _ _ => trivial
  pieces s value s' hd he := hp.pieces s value s' (filter_eq_done.mp hd).1 he

theorem spanned (hp : ByPieces p) : ByPieces (spanned p) where
  honest := hp.honest.spanned
  pieces s found s' hd he := hp.pieces s found.1 s' (spanned_eq_done.mp hd).1 he

end ByPieces

end Parser

section Characters

variable {miss : State → State} {test : Char → Bool} (hm : Tells miss)
  (hq : test '"' = false) (hs : test '/' = false)

include hm hq hs

theorem byPieces_run : ByPieces (run miss test) := by
  refine .of_word (honest_run hm) fun s word s' hd _ => ?_
  obtain ⟨hrest, hall⟩ := word_of_run hm.notes hd
  refine ⟨word, hrest, fun c hc => ⟨?_, ?_⟩⟩
  · rintro rfl
    exact absurd (hall _ hc) (by simp [hq])
  · rintro rfl
    exact absurd (hall _ hc) (by simp [hs])

theorem byPieces_run1 : ByPieces (run1 miss test) where
  honest := honest_run1 hm
  pieces s word s' hd he :=
    (byPieces_run hm hq hs).pieces s word s' (run1_eq_done.mp hd).2 he

end Characters

theorem byPieces_symbol (h : ∀ c ∈ word, c ≠ '"' ∧ c ≠ '/') : ByPieces (symbol word) :=
  .of_word (honest_symbol word) fun _ _ _ hd _ => ⟨word, rest_of_symbol hd, h⟩

theorem byPieces_trivia : ByPieces trivia where
  honest := honest_trivia
  pieces _ _ _ hd _ := (skips_of_trivia hd).1.pieces

theorem byPieces_number : ByPieces number := by
  refine .of_word honest_number fun s value s' hd _ => ?_
  obtain ⟨word, hrest, hall, -⟩ := integer_of_number hd
  refine ⟨word, hrest, fun c hc => ⟨(hall c hc).2, ?_⟩⟩
  rintro rfl
  exact absurd (hall _ hc).1 (by decide)

/-- The digits of a byte string are neither quotes nor slashes. -/
theorem byPieces_hexBytes : ByPieces (judge (run unexpectedKind isHexChar) hexValue) := by
  refine .of_word (honest_hexBytes.mono fun _ _ => trivial) fun s value s' hd _ => ?_
  obtain ⟨digits, hr, hv⟩ := judge_eq_done.mp hd
  obtain ⟨hrest, -⟩ := word_of_run notes_kind hr
  have hdigits : ∀ c ∈ digits, ∀ byte ∈ String.utf8EncodeChar c, ∃ v, Hex.value? byte = some v := by
    rw [hexValue] at hv
    split at hv
    · next bytes hdecode =>
      exact fun c hc byte hb => Hex.value_of_decode hdecode byte (List.mem_flatMap.mpr ⟨c, hc, hb⟩)
    · cases hv
  have hother : Hex.value? 0x22 = none ∧ Hex.value? 0x2f = none := by decide
  refine ⟨digits, hrest, fun c hc => ⟨?_, ?_⟩⟩
  · rintro rfl
    obtain ⟨v, hv⟩ := hdigits _ hc 0x22 (by decide)
    cases hother.1.symm.trans hv
  · rintro rfl
    obtain ⟨v, hv⟩ := hdigits _ hc 0x2f (by decide)
    cases hother.2.symm.trans hv

theorem byPieces_byteString : ByPieces byteString := by
  have hclosing : ByPieces (closing '}' do
      let _ ← run unexpectedHere fun c => c != '}' && c != '\n'
      orElse (symbol ['}']) (pure ())) := by
    refine .of_word ((honest_closing '}' honest_otherBrace).mono fun _ _ => trivial) ?_
    intro s closed s' hd he
    exact ⟨['}'], rest_of_closing honest_otherBrace hd he, by simp⟩
  exact (byPieces_symbol (by simp)).bind fun _ =>
    (byPieces_hexBytes.insteadRead honest_otherDigits).bind fun _ => hclosing.bind fun _ => .pure _

theorem byPieces_quotedText : ByPieces quotedText where
  honest := honest_quotedText.mono fun _ _ => trivial
  pieces s value s' hd he := by
    obtain ⟨body, text, hw, hrest, -⟩ := writes_of_quotedText hd he
    rw [hrest]
    exact .single (.quoted hw)

theorem byPieces_serviceName : ByPieces serviceName :=
  ((ByPieces.ahead (honest_char tells_kind)).bind fun _ =>
    (byPieces_run1 tells_kind (by decide) (by decide)).bind fun _ => .pure _).filter

theorem byPieces_argument : ByPieces argument := by
  have hliteral : ByPieces literal := (byPieces_number.bind fun _ => .pure _).orElse
    (byPieces_byteString.orElse (byPieces_quotedText.orElse byPieces_serviceName))
  exact (hliteral.insteadRead honest_otherLiteral).spanned.bind fun _ => .pure _

theorem byPieces_arguments : ByPieces arguments := by
  have hcomma : ByPieces comma := ByPieces.skipUntil <| byPieces_trivia.bind fun _ =>
    (byPieces_symbol (by simp)).bind fun _ => byPieces_trivia
  exact (byPieces_argument.bind fun _ => (hcomma.bind fun _ => byPieces_argument).many.bind
    fun _ => .pure _).orElse (.pure _)

theorem byPieces_mnemonic : ByPieces mnemonic where
  honest := honest_mnemonic.mono fun _ _ => trivial
  pieces s name s' hd he := by
    obtain ⟨word, hw, -⟩ := mnemonic_inv hd he
    exact (byPieces_run1 tells_kind (by decide) (by decide)).pieces s word s' hw he

theorem byPieces_statements : ByPieces statements := by
  have hstatement : ByPieces statement := byPieces_mnemonic.spanned.bind fun _ =>
    (byPieces_run tells_nonBlank (by decide) (by decide)).bind fun _ =>
      byPieces_arguments.bind fun _ => .pure _
  exact byPieces_trivia.bind fun _ =>
    (hstatement.bind fun _ => byPieces_trivia.bind fun _ => .pure _).skipUntil.many

/-- A listing that is read without a report falls into pieces. -/
theorem pieces_of_parse {statements : List Statement} (h : parse text = ⟨some statements, []⟩) :
    ReflTransGen Piece text [] := by
  obtain ⟨s', hd, hrest, he⟩ := parse_eq_iff.mp h
  have hpieces := byPieces_statements.pieces _ _ s' hd he
  rwa [hrest] at hpieces

end ScriptKit.Listing
