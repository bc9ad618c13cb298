import Mathlib.Data.List.Induction
import ScriptKit.Proofs.Text.Boundary
import ScriptKit.Text.Position

namespace ScriptKit

namespace Utf8

theorem encodeChars_append (a b : List Char) :
    encodeChars (a ++ b) = encodeChars a ++ encodeChars b :=
  List.flatMap_append

theorem encodeChars_cons (c : Char) (rest : List Char) :
    encodeChars (c :: rest) = String.utf8EncodeChar c ++ encodeChars rest :=
  List.flatMap_cons

theorem length_encodeChars (text : List Char) : (encodeChars text).length = size text := by
  induction text with
  | nil => rfl
  | cons c rest ih =>
    rw [encodeChars_cons, List.length_append, String.length_utf8EncodeChar, ih, size_cons]

end Utf8

namespace Text

/-- The byte that ends a line. -/
def newline : UInt8 := 10

/-- The offsets right behind the newlines of bytes that start at an offset. -/
def breaksFrom (offset : Nat) : Bytes → List Nat
  | [] => []
  | byte :: rest =>
    if byte = newline then (offset + 1) :: breaksFrom (offset + 1) rest
    else breaksFrom (offset + 1) rest

/-- The lines of a text, each with its newline. The last one has none, and may be empty. -/
def lines : Bytes → List Bytes
  | [] => [[]]
  | byte :: rest =>
    if byte = newline then [byte] :: lines rest else (lines rest).modifyHead (byte :: ·)

variable {offset place : Nat} {bytes before behind line : Bytes}

theorem breaksFrom_append (offset : Nat) (a b : Bytes) :
    breaksFrom offset (a ++ b) = breaksFrom offset a ++ breaksFrom (offset + a.length) b := by
  induction a generalizing offset with
  | nil => rfl
  | cons byte rest ih =>
    have hshift : offset + 1 + rest.length = offset + (byte :: rest).length := by
      rw [List.length_cons]
      omega
    simp only [List.cons_append, breaksFrom, ih, hshift]
    split <;> rfl

theorem length_breaksFrom (offset : Nat) (bytes : Bytes) :
    (breaksFrom offset bytes).length = bytes.count newline := by
  induction bytes generalizing offset with
  | nil => rfl
  | cons byte rest ih =>
    rw [breaksFrom, List.count_cons]
    split
    · next h => simp [ih, h]
    · next h => simp [ih, h]

theorem breaksFrom_eq_nil (h : newline ∉ bytes) : breaksFrom offset bytes = [] := by
  apply List.eq_nil_of_length_eq_zero
  rw [length_breaksFrom, List.count_eq_zero.mpr h]

theorem mem_breaksFrom (h : place ∈ breaksFrom offset bytes) :
    offset < place ∧ place ≤ offset + bytes.length := by
  induction bytes generalizing offset with
  | nil => cases h
  | cons byte rest ih =>
    have hrest (h : place ∈ breaksFrom (offset + 1) rest) :
        offset < place ∧ place ≤ offset + (byte :: rest).length := by
      have := ih h
      rw [List.length_cons]
      omega
    rw [breaksFrom] at h
    split at h
    · rcases List.mem_cons.mp h with he | h
      · subst he
        rw [List.length_cons]
        omega
      · exact hrest h
    · exact hrest h

/-- The newline is a character of one byte, which no other character has. -/
theorem newline_mem_iff {c : Char} : newline ∈ String.utf8EncodeChar c ↔ c = '\n' := by
  constructor
  · intro h
    have hten : newline.toNat = 10 := rfl
    unfold String.utf8EncodeChar at h
    simp only [Char.toNat_val] at h
    split at h
    · have hcode := congrArg UInt8.toNat (List.mem_singleton.mp h)
      rw [UInt8.toNat_ofNat', hten] at hcode
      apply Char.toNat_inj.mp
      change c.toNat = 10
      omega
    -- The bytes of a longer character are 128 and above.
    · exfalso
      split at h
      · simp only [List.mem_cons, List.not_mem_nil, or_false, ← UInt8.toNat_inj,
          UInt8.toNat_ofNat', hten] at h
        omega
      · split at h
        all_goals
          simp only [List.mem_cons, List.not_mem_nil, or_false, ← UInt8.toNat_inj,
            UInt8.toNat_ofNat', hten] at h
          omega
  · intro h
    subst h
    decide

/-- The newlines of a text are those of its bytes. -/
theorem newlinesFrom_eq (offset : Nat) (text : List Char) :
    newlinesFrom offset text = breaksFrom offset (Utf8.encodeChars text) := by
  induction text generalizing offset with
  | nil => rfl
  | cons c rest ih =>
    rw [Utf8.encodeChars_cons, breaksFrom_append, String.length_utf8EncodeChar, ← ih, newlinesFrom]
    split
    · next h =>
      subst h
      rfl
    · next h => rw [breaksFrom_eq_nil (mt newline_mem_iff.mp h), List.nil_append]

/-- What stands behind the last newline. -/
theorem exists_lastBreak (before : Bytes) :
    ∃ early left, before = early ++ left ∧ newline ∉ left ∧
      (early = [] ∨ early.getLast? = some newline) ∧
      (0 :: breaksFrom 0 before).getLast?.getD 0 = early.length := by
  induction before using List.reverseRec with
  | nil => exact ⟨[], [], rfl, List.not_mem_nil, .inl rfl, rfl⟩
  | append_singleton before byte ih =>
    rw [breaksFrom_append, Nat.zero_add, breaksFrom]
    split
    · next h =>
      refine ⟨before ++ [byte], [], (List.append_nil _).symm, List.not_mem_nil, .inr ?_, ?_⟩
      · rw [List.getLast?_concat, h]
      · rw [breaksFrom, ← List.cons_append, List.getLast?_concat, Option.getD_some,
          List.length_append, List.length_singleton]
    · next h =>
      obtain ⟨early, left, rfl, hleft, hearly, hlast⟩ := ih
      refine ⟨early, left ++ [byte], List.append_assoc .., ?_, hearly, ?_⟩
      · rw [List.mem_append, List.mem_singleton]
        rintro (hm | he)
        · exact hleft hm
        · exact h he.symm
      · rw [breaksFrom, List.append_nil, hlast]

/-- Either no newline is there and nothing follows, or just one, at the end. -/
def EndsLine (right late : Bytes) : Prop :=
  newline ∉ right ∧ late = [] ∨ ∃ front, right = front ++ [newline] ∧ newline ∉ front

/-- What stands up to the next newline, with it. -/
theorem exists_nextBreak (offset : Nat) (behind : Bytes) :
    ∃ right late, behind = right ++ late ∧ EndsLine right late ∧
      (breaksFrom offset behind).head?.getD (offset + behind.length) = offset + right.length := by
  induction behind generalizing offset with
  | nil => exact ⟨[], [], rfl, .inl ⟨List.not_mem_nil, rfl⟩, rfl⟩
  | cons byte rest ih =>
    rw [breaksFrom]
    split
    · next h => exact ⟨[byte], rest, rfl, .inr ⟨[], by rw [h]; rfl, List.not_mem_nil⟩, rfl⟩
    · next h =>
      have hcons (front : Bytes) (hfront : newline ∉ front) : newline ∉ byte :: front := by
        rw [List.mem_cons, not_or]
        exact ⟨Ne.symm h, hfront⟩
      have hshift (part : Bytes) : offset + (byte :: part).length = offset + 1 + part.length := by
        rw [List.length_cons]
        omega
      obtain ⟨right, late, rfl, hends, hhead⟩ := ih (offset + 1)
      refine ⟨byte :: right, late, rfl, ?_, by rw [hshift, hshift, hhead]⟩
      rcases hends with ⟨hright, hlate⟩ | ⟨front, rfl, hfront⟩
      · exact .inl ⟨hcons right hright, hlate⟩
      · exact .inr ⟨byte :: front, rfl, hcons front hfront⟩

theorem lines_eq_singleton (h : newline ∉ line) : lines line = [line] := by
  induction line with
  | nil => rfl
  | cons byte rest ih =>
    rw [List.mem_cons, not_or] at h
    rw [lines, if_neg (Ne.symm h.1), ih h.2]
    rfl

theorem lines_append_newline (h : newline ∉ line) (late : Bytes) :
    lines (line ++ newline :: late) = (line ++ [newline]) :: lines late := by
  induction line with
  | nil => rw [List.nil_append, lines, if_pos rfl]; rfl
  | cons byte rest ih =>
    rw [List.mem_cons, not_or] at h
    rw [List.cons_append, lines, if_neg (Ne.symm h.1), ih h.2]
    rfl

/-- The lines of a text behind a newline follow those of the text up to it. -/
theorem exists_lines_append (before : Bytes) (h : before = [] ∨ before.getLast? = some newline) :
    ∃ above, above.flatten = before ∧ above.length = before.count newline ∧
      ∀ late, lines (before ++ late) = above ++ lines late := by
  induction before with
  | nil => exact ⟨[], rfl, rfl, fun _ => rfl⟩
  | cons byte rest ih =>
    have hlast : rest = [] ∧ byte = newline ∨ rest ≠ [] ∧ rest.getLast? = some newline := by
      cases rest with
      | nil => exact .inl ⟨rfl, by simpa using h⟩
      | cons other rest => exact .inr ⟨List.cons_ne_nil _ _, by simpa using h⟩
    obtain ⟨above, hflat, hlength, hlines⟩ := ih (hlast.imp And.left And.right)
    by_cases hbyte : byte = newline
    · refine ⟨[byte] :: above, by rw [List.flatten_cons, hflat]; rfl, ?_, fun late => ?_⟩
      · rw [List.length_cons, hlength, List.count_cons, if_pos (by simpa using hbyte)]
      · rw [List.cons_append, lines, if_pos hbyte, hlines, List.cons_append]
    · obtain ⟨first, others, rfl⟩ : ∃ first others, above = first :: others := by
        apply List.exists_cons_of_ne_nil
        intro hnil
        subst hnil
        rcases hlast with ⟨-, he⟩ | ⟨hne, -⟩
        · exact hbyte he
        · exact hne hflat.symm
      refine ⟨(byte :: first) :: others, ?_, ?_, fun late => ?_⟩
      · rw [← hflat]
        rfl
      · rw [List.count_cons, if_neg (by simpa using hbyte), ← hlength]
        rfl
      · rw [List.cons_append, lines, if_neg hbyte, hlines]
        rfl

/-- What stands between the newline before a place and the next one, with this, is one of the lines;
those above it make up all that comes before. -/
theorem exists_lines_eq {early left right late : Bytes} (hleft : newline ∉ left)
    (hearly : early = [] ∨ early.getLast? = some newline) (hends : EndsLine right late) :
    ∃ above below, lines (early ++ (left ++ (right ++ late))) = above ++ (left ++ right) :: below ∧
      above.length = early.count newline ∧ above.flatten = early := by
  obtain ⟨above, hflat, hlength, hlines⟩ := exists_lines_append early hearly
  rcases hends with ⟨hright, rfl⟩ | ⟨front, rfl, hfront⟩
  · refine ⟨above, [], ?_, hlength, hflat⟩
    rw [hlines, List.append_nil, lines_eq_singleton]
    rw [List.mem_append, not_or]
    exact ⟨hleft, hright⟩
  · refine ⟨above, lines late, ?_, hlength, hflat⟩
    have hjoin : left ++ (front ++ [newline] ++ late) = (left ++ front) ++ newline :: late := by
      simp
    rw [hlines, hjoin, lines_append_newline, List.append_assoc]
    rw [List.mem_append, not_or]
    exact ⟨hleft, hfront⟩

end Text

end ScriptKit
