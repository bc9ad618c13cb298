import ScriptKit.Proofs.Listing.Faultless

namespace ScriptKit.Listing

open Listing.Parser Text

variable {a body text : List Char} {letter c : Char} {s s' : State}

/-- The characters that may follow a backslash. -/
def escapeLetters : List Char := ['\\', '"', 'n', 't', 'r', '0']

theorem unescape?_eq_none_iff : unescape? c = none ↔ c ∉ escapeLetters := by
  rw [unescape?.eq_def]
  split <;> simp_all [escapeLetters]

/-- Between quotes, the characters stand for the text. -/
inductive Writes : List Char → List Char → Prop where
  | nil : Writes [] []
  | plain {c : Char} {body text : List Char} (plain : isPlainChar c = true)
      (others : Writes body text) : Writes (c :: body) (c :: text)
  | escaped {letter c : Char} {body text : List Char} (known : unescape? letter = some c)
      (others : Writes body text) : Writes ('\\' :: letter :: body) (c :: text)

/-- What is written for a character between quotes. -/
def escapeChar : Char → List Char
  | '\\' => ['\\', '\\']
  | '"' => ['\\', '"']
  | '\n' => ['\\', 'n']
  | '\t' => ['\\', 't']
  | '\r' => ['\\', 'r']
  | '\x00' => ['\\', '0']
  | c => [c]

def escapeChars (text : List Char) : List Char := text.flatMap escapeChar

/-- How a text is written in a listing. -/
def quoteText (text : String) : String :=
  String.ofList ('"' :: (escapeChars text.toList ++ ['"']))

theorem writes_escapeChar (c : Char) (h : Writes body text) :
    Writes (escapeChar c ++ body) (c :: text) := by
  rw [escapeChar.eq_def]
  split
  case h_7 hslash hquote hline _ _ _ =>
    have hplain : isPlainChar c = true := by
      simp only [isPlainChar, Bool.and_eq_true, bne_iff_ne, ne_eq]
      exact ⟨⟨hslash, hquote⟩, hline⟩
    exact .plain hplain h
  all_goals exact .escaped rfl h

/-- What is written for a text stands for it. -/
theorem writes_escapeChars (text : List Char) : Writes (escapeChars text) text := by
  induction text with
  | nil => exact .nil
  | cons c rest ih => exact writes_escapeChar c ih

/-- A character between quotes. -/
abbrev textChar : Parser Char := orElse (char unexpectedHere isPlainChar) escapedChar

theorem refuses_textChar : Refuses textChar ('"' :: a) :=
  (refuses_char (stops_cons.mpr (by decide))).orElse
    (refuses_symbol (stops_cons.mpr (by decide))).bind

theorem reads_escaped (h : unescape? letter = some c) :
    Reads textChar ('\\' :: letter :: a) a (· = c) := by
  have hletter : Reads (char unexpectedHere fun _ => true) (letter :: a) a (· = letter) :=
    reads_char rfl
  refine .orElse_right (refuses_char (stops_cons.mpr (by decide)))
    ((reads_symbol ['\\']).bind fun _ _ => hletter.judge fun span found hf => ?_)
  subst hf
  exact ⟨c, by rw [h], rfl⟩

/-- Characters are read one after another, up to where none is. -/
theorem Writes.readsAll (h : Writes body text) (hr : Refuses textChar a) :
    ReadsAll textChar (body ++ a) a (· = text) := by
  induction h with
  | nil => exact .stop hr rfl
  | plain plain others ih =>
    refine .more (.orElse_left (reads_char plain)) (by simp) ih ?_
    rintro _ _ rfl rfl
    rfl
  | @escaped letter _ _ _ known others ih =>
    have hshort : ∀ rest : List Char, rest.length < ('\\' :: letter :: rest).length := fun _ =>
      Nat.lt_add_of_pos_right Nat.two_pos
    refine .more (reads_escaped known) (hshort _) ih ?_
    rintro _ _ rfl rfl
    rfl

theorem reads_quotedText (h : Writes body text) :
    Reads quotedText ('"' :: (body ++ '"' :: a)) a (· = .text (String.ofList text)) := by
  have hmark : Reads (do symbol ['"']; pure true) ('"' :: a) a (· = true) :=
    (reads_symbol ['"']).bind fun _ _ => .pure rfl
  refine (reads_symbol ['"']).bind fun _ _ => (Reads.many (h.readsAll refuses_textChar)).bind ?_
  rintro _ rfl
  refine Reads.bind hmark.insteadRead ?_
  rintro _ rfl
  exact .pure rfl

/-- A quote starts no literal but a text. -/
theorem refuses_before_quotedText : Refuses (do let value ← number; pure (Literal.number value))
    ('"' :: a) ∧ Refuses byteString ('"' :: a) :=
  ⟨(refuses_number (stops_cons.mpr (by decide))).bind,
    (refuses_symbol (stops_cons.mpr (by decide))).bind⟩

theorem reads_quotedArgument (h : Writes body text) :
    Reads argument ('"' :: (body ++ '"' :: a)) a (·.value = .text (String.ofList text)) := by
  obtain ⟨hnumber, hbytes⟩ := refuses_before_quotedText (a := body ++ '"' :: a)
  have hliteral := Reads.orElse_right hnumber (.orElse_right hbytes (.orElse_left
    (q := serviceName) (reads_quotedText (a := a) h)))
  exact hliteral.insteadRead.spanned.bind fun found hf => .pure hf

theorem textChar_inv (hd : textChar s = .done c s') :
    isPlainChar c = true ∧ s.rest = c :: s'.rest ∨
      ∃ letter, unescape? letter = some c ∧ s.rest = '\\' :: letter :: s'.rest := by
  rcases orElse_eq_done.mp hd with hd | ⟨blame, -, hd⟩
  · obtain ⟨hplain, rest, hr, rfl⟩ := char_eq_done.mp hd
    exact .inl ⟨hplain, hr⟩
  · obtain ⟨_, middle, hm, hd⟩ := bind_eq_done.mp hd
    obtain ⟨letter, hl, hv⟩ := judge_eq_done.mp hd
    obtain ⟨-, rest, hr, rfl⟩ := char_eq_done.mp hl
    have hrest := rest_of_symbol hm
    rw [hr] at hrest
    refine .inr ⟨letter, ?_, hrest⟩
    split at hv
    · next hknown =>
      cases hv
      exact hknown
    · cases hv

theorem writes_of_runs (h : Runs textChar s text s') :
    ∃ body, Writes body text ∧ s.rest = body ++ s'.rest := by
  induction h with
  | stop stuck => exact ⟨[], .nil, rfl⟩
  | @more s middle s' c text done others ih =>
    obtain ⟨body, hw, hrest⟩ := ih
    rcases textChar_inv done with ⟨hplain, hr⟩ | ⟨letter, hknown, hr⟩
    · exact ⟨c :: body, .plain hplain hw, by rw [hr, hrest]; rfl⟩
    · exact ⟨'\\' :: letter :: body, .escaped hknown hw, by rw [hr, hrest]; rfl⟩

/-- A text in quotes that is read without a report is closed, and it is the one written. -/
theorem writes_of_quotedText {value : Literal} (hd : quotedText s = .done value s')
    (he : s'.errors = s.errors) : ∃ body text, Writes body text ∧
      s.rest = '"' :: (body ++ '"' :: s'.rest) ∧ value = .text (String.ofList text) := by
  obtain ⟨_, opened, hopen, hd⟩ := bind_eq_done.mp hd
  obtain ⟨text, middle, hmany, hd⟩ := bind_eq_done.mp hd
  obtain ⟨closed, last, hclose, hd⟩ := bind_eq_done.mp hd
  obtain ⟨rfl, rfl⟩ := pure_eq_done.mp hd
  have hopened := ((honest_symbol _).done s _ opened hopen).1
  have hread := (honest_textChar.many.done opened text middle hmany).1
  obtain ⟨hleads, htrue⟩ := (honest_closing '"' honest_otherQuote).done middle closed s' hclose
  have hquiet := ((hopened.trans hread).errors_eq hleads he).2
  obtain ⟨body, hw, hbody⟩ :=
    writes_of_runs ((many_eq_done advances_textChar honest_textChar).mp hmany)
  refine ⟨body, text, hw, ?_, by rw [htrue hquiet, if_pos rfl]⟩
  rw [rest_of_symbol hopen, hbody, rest_of_closing honest_otherQuote hclose hquiet]
  rfl

/-- A backslash in front of a character that has no escape is refused for that character. -/
theorem textChar_of_misescape (hs : s.rest = '\\' :: c :: a) (hc : c ∉ escapeLetters) :
    textChar s = .stuck (some ⟨s.offset + 1,
      .badEscape ⟨s.offset + 1, s.offset + 1 + c.utf8Size⟩ c⟩) := by
  obtain ⟨rest, offset, blame, errors⟩ := s
  dsimp only at hs
  subst hs
  have hnone : unescape? c = none := unescape?_eq_none_iff.mpr hc
  refine orElse_eq_stuck.mpr ⟨_, char_eq_stuck.mpr ⟨by simp [isPlainChar], rfl⟩, ?_⟩
  refine bind_eq_stuck.mpr (.inr ⟨(), ⟨c :: a, offset + 1, _, errors⟩, rfl, ?_⟩)
  refine judge_eq_stuck.mpr (.inr ⟨c, ⟨a, offset + 1 + c.utf8Size, _, errors⟩, _, rfl, ?_, rfl⟩)
  rw [hnone]

theorem refuses_misescape (hc : c ∉ escapeLetters) : Refuses textChar ('\\' :: c :: a) :=
  fun _ _ _ => ⟨_, textChar_of_misescape rfl hc⟩

/-- Where the closing quote is missing, a fault known further on is reported in its stead. -/
theorem closing_of_blame {known : Blame} (hs : Stops (· == '"') s.rest) (hb : s.blame = some known)
    (hp : s.offset ≤ known.place) :
    ∃ s', closing '"' (do let _ ← run unexpectedHere (· != '\n')) s = .done false s' ∧
      s'.errors = known.error :: s.errors := by
  have hkept : (unexpectedHere s).blame = s.blame := by
    rw [unexpectedHere, State.mismatch, hb]
    dsimp only
    rw [if_neg (by omega), hb]
  have hstuck : (do symbol ['"']; pure true) s = .stuck s.blame :=
    bind_eq_stuck.mpr (.inl (bind_eq_stuck.mpr (.inl (char_eq_stuck.mpr ⟨hs, hkept⟩))))
  obtain ⟨word, last, hlast⟩ := (Total.run unexpectedHere (· != '\n')).exists_done
    { s with blame := none }
  refine ⟨last.report s.blame, insteadRead_eq_done.mpr (.inr ⟨s.blame, last, hstuck, ?_, rfl⟩), ?_⟩
  · exact bind_eq_done.mpr ⟨(), last, bind_eq_done.mpr ⟨word, last, hlast, rfl⟩, rfl⟩
  · rw [hb, State.report, (rest_of_run notes_here hlast).2]

/-- The text up to there is read; then the fault is reported, and no text comes of it. -/
theorem quotedText_of_misescape (hs : s.rest = '"' :: (body ++ '\\' :: c :: a))
    (hw : Writes body text) (hc : c ∉ escapeLetters) :
    ∃ s', quotedText s = .done .unreadable s' ∧ s'.errors =
      .badEscape ⟨s.offset + 1 + Utf8.size body + 1,
        s.offset + 1 + Utf8.size body + 1 + c.utf8Size⟩ c :: s.errors := by
  obtain ⟨_, opened, hopen, hrest, herrors, -⟩ :=
    (reads_symbol ['"'] (a := body ++ '\\' :: c :: a)).exists_done hs
  obtain ⟨text, middle, hmany, hmiddle, hkeeps, -⟩ :=
    (Reads.many (hw.readsAll (refuses_misescape hc))).exists_done hrest
  have hopened := ((honest_symbol _).done s _ opened hopen).1.before
  have hread := (honest_textChar.many.done opened text middle hmany).1.before
  have hoffset : middle.offset = s.offset + 1 + Utf8.size body := by
    rw [hread.offset_eq (hmiddle ▸ hrest),
      hopened.offset_eq (by rw [hs, hrest]; exact List.singleton_append.symm)]
    rfl
  -- The place to blame is behind the backslash, which stands where the quote is missing.
  have hblame : middle.blame = some ⟨middle.offset + 1,
      .badEscape ⟨middle.offset + 1, middle.offset + 1 + c.utf8Size⟩ c⟩ := by
    obtain ⟨blame, hlast⟩ := ((many_eq_done advances_textChar honest_textChar).mp hmany).stuck
    have hmisescape := textChar_of_misescape (s := { middle with blame }) hmiddle hc
    exact (Step.stuck.inj (hmisescape.symm.trans hlast)).symm
  have hquote : Stops (· == '"') middle.rest := by
    rw [hmiddle, stops_cons]
    decide
  obtain ⟨s', hclose, he⟩ := closing_of_blame hquote hblame (Nat.le_succ _)
  refine ⟨s', ?_, by rw [he, hoffset, hkeeps, herrors]⟩
  exact bind_eq_done.mpr ⟨(), opened, hopen, bind_eq_done.mpr ⟨text, middle, hmany,
    bind_eq_done.mpr ⟨false, s', hclose, rfl⟩⟩⟩

/-- A text in quotes with such a backslash is no argument, and the fault is reported where it is. -/
theorem argument_of_misescape (hs : s.rest = '"' :: (body ++ '\\' :: c :: a))
    (hw : Writes body text) (hc : c ∉ escapeLetters) :
    ∃ arg s', argument s = .done arg s' ∧ arg.value = .unreadable ∧ s'.errors =
      .badEscape ⟨s.offset + 1 + Utf8.size body + 1,
        s.offset + 1 + Utf8.size body + 1 + c.utf8Size⟩ c :: s.errors := by
  obtain ⟨hnumber, hbytes⟩ := refuses_before_quotedText (a := body ++ '\\' :: c :: a)
  rw [← hs] at hnumber hbytes
  obtain ⟨first, hnumber⟩ := hnumber s.offset s.blame s.errors
  obtain ⟨second, hbytes⟩ := hbytes s.offset first s.errors
  obtain ⟨s', hd, he⟩ := quotedText_of_misescape (s := { s with blame := second }) hs hw hc
  have hliteral : literal s = .done .unreadable s' :=
    orElse_eq_done.mpr (.inr ⟨first, hnumber, orElse_eq_done.mpr (.inr ⟨second, hbytes,
      orElse_eq_done.mpr (.inl hd)⟩)⟩)
  refine ⟨⟨⟨s.offset, s'.offset⟩, .unreadable⟩, s', ?_, rfl, he⟩
  exact bind_eq_done.mpr ⟨_, s', spanned_eq_done.mpr ⟨insteadRead_eq_done.mpr (.inl hliteral), rfl⟩,
    rfl⟩

end ScriptKit.Listing
