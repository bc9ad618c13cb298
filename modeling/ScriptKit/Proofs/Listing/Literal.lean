import ScriptKit.Listing.Print
import ScriptKit.Proofs.Bytes.Hex
import ScriptKit.Proofs.Listing.Integer

namespace ScriptKit.Listing

open Listing.Parser Text

variable {a : List Char}

/-- A number in decimal is read back. -/
theorem reads_number (value : Int) (h : EndsNumber a) :
    Reads number ((toString value).toList ++ a) a (· = value) :=
  reads_integer (isInteger_toString value).1 (isInteger_toString value).2 h

theorem isHexChar_of_mem_encode {bytes : Bytes} {c : Char} (h : c ∈ Hex.encode bytes) :
    isHexChar c = true := by
  have hall : ['0', '1', '2', '3', '4', '5', '6', '7', '8', '9', 'a', 'b', 'c', 'd', 'e',
      'f'].all isHexChar = true := by
    decide
  exact List.all_eq_true.mp hall c (Hex.mem_encode h)

theorem toList_bytesText (bytes : Bytes) :
    (bytesText bytes).toList = 'x' :: '{' :: (Hex.encode bytes ++ ['}']) := by
  simp [bytesText, Bytes.toText]

theorem reads_byteString {digits : List Char} {bytes : Bytes}
    (hd : ∀ c ∈ digits, isHexChar c = true)
    (hv : Hex.decode (Utf8.encodeChars digits) = .ok bytes) :
    Reads byteString ('x' :: '{' :: (digits ++ '}' :: a)) a (· = .bytes bytes) := by
  have hword : Reads (run unexpectedKind isHexChar) (digits ++ '}' :: a) ('}' :: a) (· = digits) :=
    reads_run notes_kind hd (stops_cons.mpr (by decide))
  have hvalue : Reads (judge (run unexpectedKind isHexChar) hexValue) (digits ++ '}' :: a)
      ('}' :: a) (· = some bytes) := by
    apply hword.judge
    intro span value hvalue
    subst hvalue
    exact ⟨some bytes, by rw [hexValue, hv], rfl⟩
  have hmark : Reads (do symbol ['}']; pure true) ('}' :: a) a (· = true) :=
    (reads_symbol ['}']).bind fun _ _ => .pure rfl
  refine (reads_symbol ['x', '{']).bind fun _ _ => hvalue.insteadRead.bind ?_
  intro value hvalue
  subst hvalue
  refine Reads.bind hmark.insteadRead ?_
  intro value hvalue
  subst hvalue
  exact .pure rfl

/-- A byte string in hexadecimal is read back. -/
theorem reads_bytesText (bytes : Bytes) :
    Reads byteString ((bytesText bytes).toList ++ a) a (· = .bytes bytes) := by
  have hr := reads_byteString (fun _ => isHexChar_of_mem_encode) (Hex.decode_encode bytes) (a := a)
  simpa [toList_bytesText] using hr

/-- How a number or a byte string is written. -/
inductive Literal.Written : Literal → List Char → Prop
  | number (value : Int) : Written (.number value) (toString value).toList
  | bytes (value : Bytes) : Written (.bytes value) (bytesText value).toList

theorem reads_argument {value : Literal} {word : List Char} (hw : value.Written word)
    (h : EndsNumber a) : Reads argument (word ++ a) a (·.value = value) := by
  have hl : Reads literal (word ++ a) a (· = value) := by
    cases hw with
    | number number =>
      apply Reads.orElse_left
      refine (reads_number number h).bind ?_
      intro value hv
      subst hv
      exact .pure rfl
    | bytes bytes =>
      have hx : Stops (fun c => c.isDigit || c == '-') ((bytesText bytes).toList ++ a) := by
        rw [toList_bytesText]
        exact stops_cons.mpr (by decide)
      exact .orElse_right (refuses_number hx).bind (.orElse_left (reads_bytesText bytes))
  exact hl.insteadRead.spanned.bind fun found hf => .pure hf

/-- No argument starts here: there is a blank, a slash or a comma, or nothing. -/
abbrev NoArgument (text : List Char) : Prop :=
  Stops (fun c => !isBlank c && c != ',' && c != '/') text

theorem refuses_argument (h : NoArgument a) : Refuses argument a := by
  have hs : ∀ {test : Char → Bool}, test '/' = false → test ',' = false →
      (∀ k ∈ blankCodes, (!test (Char.ofNat k)) = true) → Stops test a := by
    intro test hslash hcomma hb
    refine Stops.of_imp h fun c hc => ?_
    have hn : isBlank c = false := by
      rw [← Bool.not_eq_true]
      intro hblank
      have := forall_isBlank (P := fun c => !test c) hb hblank
      simp [hc] at this
    have hne : c ≠ ',' ∧ c ≠ '/' := by
      constructor
      · rintro rfl
        rw [hcomma] at hc
        cases hc
      · rintro rfl
        rw [hslash] at hc
        cases hc
    simp [hn, hne]
  have hname : Refuses serviceName a :=
    (refuses_char (hs (by decide) (by decide) (by decide))).ahead.bind.filter
  have hliteral : Refuses literal a :=
    (refuses_number (hs (by decide) (by decide) (by decide))).bind.orElse
      ((refuses_symbol (hs (by decide) (by decide) (by decide))).bind.orElse
        ((refuses_symbol (hs (by decide) (by decide) (by decide))).bind.orElse hname))
  exact (hliteral.insteadRead (refuses_run1 notes_kind h).bind).spanned.bind

end ScriptKit.Listing
