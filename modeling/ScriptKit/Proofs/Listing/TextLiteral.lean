import ScriptKit.Proofs.Listing.Pieces
import ScriptKit.Proofs.Listing.PushForms
import ScriptKit.Proofs.Listing.StandIn

namespace ScriptKit.Listing

open Listing.Parser Relation Text

/-- A text is read and pushed as it is, whatever stands in it. -/
theorem assembleText_quoteText (text : String) :
    ∃ s, parse ("PUSHDATA " ++ quoteText text).toList = ⟨some [s], []⟩ ∧ s.literals = [.text text] ∧
      assembleText ("PUSHDATA " ++ quoteText text) =
        (s.located (Emission.text text).result).mapError Refusal.notAssembled := by
  have hword : (quoteText text).toList = '"' :: (escapeChars text.toList ++ ['"']) := by
    rw [quoteText, String.toList_ofList]
  have hread := reads_quotedArgument (a := []) (writes_escapeChars text.toList)
  rw [String.ofList_toList, ← hword] at hread
  have hblank : Stops isBlank (quoteText text).toList := by
    rw [hword, stops_cons]
    decide
  exact assembleText_pushData hblank hread (.inr ⟨text, rfl, rfl⟩)

/-- A text that misuses an escape is a fault of the listing, wherever it stands. -/
theorem errors_of_misescape {text rest : List Char}
    (hp : ReflTransGen Piece text ('"' :: rest)) (h : Misescapes rest) :
    (parse text).errors ≠ [] := by
  intro he
  obtain ⟨statements, hs, -⟩ := readable_of_errors_eq_nil he
  have hparse : parse text = ⟨some statements, []⟩ := by rw [← hs, ← he]
  exact h.stops hp (pieces_of_parse hparse)

/-- A script is made only of a text without faults. -/
theorem errors_of_assembleText {text : String} {script : Bytes}
    (h : assembleText text = .ok script) : (parse text.toList).errors = [] := by
  rw [assembleText] at h
  split at h
  · cases h
  · next statements hvalid => rw [valid_eq_ok hvalid]

/-- Every text below 4 GiB can be written in a listing, which pushes it as a builder does. Where a
text in quotes has a backslash in front of a character without an escape, just this is reported, and
such a text anywhere in a listing keeps it from being assembled. -/
theorem texts_round_trip :
    (∀ text : String, (Utf8.encode text).length < 2 ^ 32 → ∃ script s,
      Emission.text text = .bytes script ∧
      parse ("PUSHDATA " ++ quoteText text).toList = ⟨some [s], []⟩ ∧ s.literals = [.text text] ∧
      assembleText ("PUSHDATA " ++ quoteText text) = .ok script) ∧
    (∀ (s : State) (body text after : List Char) (c : Char),
      s.rest = '"' :: (body ++ '\\' :: c :: after) → Writes body text → c ∉ escapeLetters →
        ∃ arg s', argument s = .done arg s' ∧ arg.value = .unreadable ∧ s'.errors =
          .badEscape ⟨s.offset + 1 + Utf8.size body + 1,
            s.offset + 1 + Utf8.size body + 1 + c.utf8Size⟩ c :: s.errors) ∧
    ∀ (text : String) (rest : List Char), ReflTransGen Piece text.toList ('"' :: rest) →
      Misescapes rest →
        (parse text.toList).errors ≠ [] ∧ ∀ script, assembleText text ≠ .ok script := by
  refine ⟨?_, ?_, ?_⟩
  · intro text hl
    obtain ⟨_, script, -, -, -, hdata⟩ := Emission.data_of_length hl
    obtain ⟨s, hparse, hs, htext⟩ := assembleText_quoteText text
    have hwritten : Emission.text text = .bytes script := hdata
    exact ⟨script, s, hwritten, hparse, hs, by rw [htext, hwritten]; rfl⟩
  · intro s body text after c hs hw hc
    exact argument_of_misescape hs hw hc
  · intro text rest hp h
    have he := errors_of_misescape hp h
    exact ⟨he, fun script hscript => he (errors_of_assembleText hscript)⟩

/-- A text that looks like a comment, a byte string and two arguments; a text with a wrong escape
behind a character of two bytes; and one behind a comment with a quote in it. -/
theorem texts_round_trip_look_alikes :
    assembleText ("PUSHDATA " ++ quoteText "//x\x7b,\x7d\"\n") =
        .ok [0x0c, 8, 0x2f, 0x2f, 0x78, 0x7b, 0x2c, 0x7d, 0x22, 0x0a] ∧
    (∃ arg s', argument ⟨"\"é\\q\"".toList, 9, none, []⟩ = .done arg s' ∧
      s'.errors = [.badEscape ⟨13, 14⟩ 'q']) ∧
    (parse "NOP // \"\nPUSHDATA \"a\\q\"".toList).errors ≠ [] := by
  have hdata : Emission.text "//x\x7b,\x7d\"\n" =
      .bytes [0x0c, 8, 0x2f, 0x2f, 0x78, 0x7b, 0x2c, 0x7d, 0x22, 0x0a] := by
    decide +kernel
  obtain ⟨script, s, hw, -, -, htext⟩ := texts_round_trip.1 "//x\x7b,\x7d\"\n" (by decide +kernel)
  obtain rfl := congrArg Emission.written (hw.symm.trans hdata)
  obtain ⟨arg, s', hd, -, he⟩ := texts_round_trip.2.1 ⟨"\"é\\q\"".toList, 9, none, []⟩ ['é'] ['é']
    ['"'] 'q' rfl (.plain (by decide) .nil) (by decide)
  have hends : LineEnds ('\n' :: ("PUSHDATA ".toList ++ '"' :: "a\\q\"".toList)) :=
    stops_cons.mpr (by decide)
  have hpieces : ReflTransGen Piece
      ("NOP ".toList ++ '/' :: '/' :: (" \"".toList ++ '\n' :: ("PUSHDATA ".toList ++
        '"' :: "a\\q\"".toList))) ('"' :: "a\\q\"".toList) :=
    (pieces_of_forall (by simp)).trans (.head (.comment (by simp [isLineEnd]) hends)
      (.head (.other (by decide) (by simp)) (pieces_of_forall (by simp))))
  have hmisescapes : Misescapes "a\\q\"".toList :=
    ⟨['a'], ['a'], 'q', ['"'], rfl, .plain (by decide) .nil, by decide⟩
  exact ⟨htext, ⟨arg, s', hd, he⟩, (texts_round_trip.2.2
    "NOP // \"\nPUSHDATA \"a\\q\"" "a\\q\"".toList hpieces hmisescapes).1⟩

end ScriptKit.Listing
