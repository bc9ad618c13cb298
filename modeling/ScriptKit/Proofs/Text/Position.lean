import ScriptKit.Proofs.Text.Newline
import ScriptKit.Text.Blank

namespace ScriptKit.Text

variable {before behind a b : List Char} {offset index place : Nat}

theorem newlinesFrom_append (offset : Nat) (a b : List Char) :
    newlinesFrom offset (a ++ b) =
      newlinesFrom offset a ++ newlinesFrom (offset + Utf8.size a) b := by
  induction a generalizing offset with
  | nil => simp [newlinesFrom]
  | cons c rest ih =>
    simp only [List.cons_append, newlinesFrom, ih, Utf8.size_cons, Nat.add_assoc]
    split
    · rfl
    · rfl

/-- The place behind a newline stands between two characters. -/
theorem isBoundary_of_mem_newlinesFrom (h : place ∈ newlinesFrom offset a) :
    ∃ inner, place = offset + inner ∧ 0 < inner ∧ Utf8.IsBoundary a inner := by
  induction a generalizing offset with
  | nil => cases h
  | cons c rest ih =>
    have hfirst : Utf8.IsBoundary (c :: rest) c.utf8Size := ⟨[c], rest, rfl, by simp⟩
    have hrest : place ∈ newlinesFrom (offset + c.utf8Size) rest →
        ∃ inner, place = offset + inner ∧ 0 < inner ∧ Utf8.IsBoundary (c :: rest) inner := by
      intro hr
      obtain ⟨inner, rfl, hp, hb⟩ := ih hr
      refine ⟨c.utf8Size + inner, Nat.add_assoc .., by omega, ?_⟩
      have hshifted : Utf8.IsBoundary ([c] ++ rest) (Utf8.size [c] + inner) :=
        Utf8.isBoundary_append_iff.mpr hb
      simpa using hshifted
    rw [newlinesFrom] at h
    split at h
    · rcases List.mem_cons.mp h with rfl | h
      · exact ⟨c.utf8Size, rfl, c.utf8Size_pos, hfirst⟩
      · exact hrest h
    · exact hrest h

/-- Up to a place, the lines of a text start where those of the bytes before the place do. -/
theorem takeWhile_lineStarts {text : List Char} {before behind : Bytes}
    (h : Utf8.encodeChars text = before ++ behind) :
    (lineStarts text).takeWhile (· ≤ before.length) = 0 :: breaksFrom 0 before := by
  have hpassed : ∀ start ∈ 0 :: breaksFrom 0 before, start ≤ before.length := by
    intro start hs
    rcases List.mem_cons.mp hs with rfl | hs
    · exact Nat.zero_le _
    · simpa using (mem_breaksFrom hs).2
  have hlater : (breaksFrom before.length behind).takeWhile (· ≤ before.length) = [] := by
    cases hn : breaksFrom before.length behind with
    | nil => rfl
    | cons start rest =>
      have hmem : start ∈ breaksFrom before.length behind := by simp [hn]
      have hlt := (mem_breaksFrom hmem).1
      apply List.takeWhile_cons_of_neg
      rw [decide_eq_true_eq]
      omega
  have hsplit :
      lineStarts text = (0 :: breaksFrom 0 before) ++ breaksFrom before.length behind := by
    rw [lineStarts, newlinesFrom_eq, h, breaksFrom_append, Nat.zero_add]
    rfl
  rw [hsplit, List.takeWhile_append_of_pos (by simpa using hpassed), hlater, List.append_nil]

namespace Position

/-- A place in a text by the bytes before and behind it. -/
theorem at?_eq {text : List Char} {before behind : Bytes}
    (h : Utf8.encodeChars text = before ++ behind) :
    at? text before.length = some {
      line := (breaksFrom 0 before).length
      column := before.length - ((0 :: breaksFrom 0 before).getLast?.getD 0)
      lineStart := (0 :: breaksFrom 0 before).getLast?.getD 0
      lineEnd := (breaksFrom before.length behind).head?.getD (Utf8.size text) } := by
  have hbound : before.length ≤ Utf8.size text := by
    rw [← Utf8.length_encodeChars, h, List.length_append]
    exact Nat.le_add_right ..
  have hend : (lineStarts text)[(0 :: breaksFrom 0 before).length]? =
      (breaksFrom before.length behind).head? := by
    rw [lineStarts, newlinesFrom_eq, h, breaksFrom_append, Nat.zero_add, List.length_cons,
      List.getElem?_cons_succ, List.getElem?_append_right (Nat.le_refl _), Nat.sub_self,
      List.head?_eq_getElem?]
  rw [at?, if_pos hbound]
  simp only [takeWhile_lineStarts h, hend]
  rfl

/-- A place between characters by what stands before and behind it. -/
theorem at?_append (before behind : List Char) :
    at? (before ++ behind) (Utf8.size before) = some {
      line := (newlinesFrom 0 before).length
      column := Utf8.size before - ((lineStarts before).getLast?.getD 0)
      lineStart := (lineStarts before).getLast?.getD 0
      lineEnd := (newlinesFrom (Utf8.size before) behind).head?.getD
        (Utf8.size (before ++ behind)) } := by
  have hplace := at?_eq (Utf8.encodeChars_append before behind)
  rw [Utf8.length_encodeChars, ← newlinesFrom_eq, ← newlinesFrom_eq] at hplace
  exact hplace

/-- The line of a place starts between characters, and at or before the place. -/
theorem exists_lineStart (before : List Char) :
    ∃ early left, before = early ++ left ∧
      (lineStarts before).getLast?.getD 0 = Utf8.size early := by
  have hmem : (lineStarts before).getLast (by simp [lineStarts]) ∈ lineStarts before :=
    List.getLast_mem _
  rw [List.getLast?_eq_some_getLast (by simp [lineStarts]), Option.getD_some]
  have hb : Utf8.IsBoundary before ((lineStarts before).getLast (by simp [lineStarts])) := by
    rcases List.mem_cons.mp hmem with hz | hn
    · rw [hz]
      exact Utf8.isBoundary_zero before
    · obtain ⟨inner, he, -, hb⟩ := isBoundary_of_mem_newlinesFrom hn
      rwa [he, Nat.zero_add]
  obtain ⟨early, left, he, hs⟩ := hb
  exact ⟨early, left, he, hs.symm⟩

/-- The line of a place ends between characters, and at or behind the place. -/
theorem exists_lineEnd (before behind : List Char) :
    ∃ right late, behind = right ++ late ∧
      (newlinesFrom (Utf8.size before) behind).head?.getD (Utf8.size (before ++ behind)) =
        Utf8.size (before ++ right) := by
  cases hn : newlinesFrom (Utf8.size before) behind with
  | nil => exact ⟨behind, [], by simp, rfl⟩
  | cons start rest =>
    have hmem : start ∈ newlinesFrom (Utf8.size before) behind := by simp [hn]
    obtain ⟨_, rfl, -, right, late, he, rfl⟩ := isBoundary_of_mem_newlinesFrom hmem
    exact ⟨right, late, he, by simp⟩

/-- The line of a place, and where in it the place is. -/
theorem exists_line (before behind : List Char) :
    ∃ early left right late position, before = early ++ left ∧ behind = right ++ late ∧
      at? (before ++ behind) (Utf8.size before) = some position ∧
      position.lineStart = Utf8.size early ∧ position.column = Utf8.size left ∧
      position.lineEnd = Utf8.size (before ++ right) := by
  obtain ⟨early, left, rfl, hstart⟩ := exists_lineStart before
  obtain ⟨right, late, rfl, hend⟩ := exists_lineEnd (early ++ left) behind
  refine ⟨early, left, right, late, _, rfl, rfl, at?_append _ _, hstart, ?_, hend⟩
  simp only [hstart, Utf8.size_append]
  omega

/-- Two places with the same number of lines before them have the same line. -/
theorem line_eq {between : List Char} {p q : Position}
    (hp : at? (before ++ between ++ behind) (Utf8.size before) = some p)
    (hq : at? (before ++ between ++ behind) (Utf8.size (before ++ between)) = some q)
    (hline : q.line = p.line) : q.lineStart = p.lineStart ∧ q.lineEnd = p.lineEnd := by
  rw [List.append_assoc, at?_append] at hp
  rw [at?_append] at hq
  obtain rfl := Option.some.inj hp
  obtain rfl := Option.some.inj hq
  have hnone : newlinesFrom (Utf8.size before) between = [] := by
    have hlength : ((newlinesFrom 0 before) ++ newlinesFrom (Utf8.size before) between).length =
        (newlinesFrom 0 before).length := by
      rwa [← Nat.zero_add (Utf8.size before), ← newlinesFrom_append]
    rw [List.length_append] at hlength
    exact List.eq_nil_of_length_eq_zero (by omega)
  constructor
  · simp only [lineStarts, newlinesFrom_append, Nat.zero_add, hnone, List.append_nil]
  · simp only [newlinesFrom_append, Utf8.size_append, hnone, List.nil_append, List.append_assoc]

/-- The line of a place ends at or before every place in a later line. -/
theorem lineEnd_le {between : List Char} {p q : Position}
    (hp : at? (before ++ between ++ behind) (Utf8.size before) = some p)
    (hq : at? (before ++ between ++ behind) (Utf8.size (before ++ between)) = some q)
    (hline : q.line ≠ p.line) : p.lineEnd ≤ Utf8.size (before ++ between) := by
  rw [List.append_assoc, at?_append] at hp
  rw [at?_append] at hq
  obtain rfl := Option.some.inj hp
  obtain rfl := Option.some.inj hq
  cases hn : newlinesFrom (Utf8.size before) between with
  | nil =>
    apply absurd _ hline
    simp only [newlinesFrom_append, Nat.zero_add, hn, List.append_nil]
  | cons start rest =>
    have hmem : start ∈ newlinesFrom (Utf8.size before) between := by simp [hn]
    obtain ⟨_, hstart, -, right, late, rfl, rfl⟩ := isBoundary_of_mem_newlinesFrom hmem
    simp only [newlinesFrom_append, hn, List.cons_append, List.head?_cons, Option.getD_some, hstart,
      Utf8.size_append]
    omega

/-- What is told of a place in a text, in terms of the bytes of the text. -/
structure IsPlaceOf (bytes : Bytes) (index : Nat) (p : Position) : Prop where
  /-- As many lines come before as there are newlines before the place. -/
  line : p.line = (bytes.take index).count newline
  /-- The line starts right behind the last newline before the place, or with the text. -/
  start : ∃ early left, bytes.take index = early ++ left ∧ newline ∉ left ∧
    (early = [] ∨ early.getLast? = some newline) ∧ p.lineStart = early.length
  column : p.column = index - p.lineStart
  /-- The line ends with the next newline, or with the text. -/
  stop : ∃ right late, bytes.drop index = right ++ late ∧ EndsLine right late ∧
    p.lineEnd = index + right.length
  /-- The place lies in the line. -/
  within : p.lineStart ≤ index ∧ index ≤ p.lineEnd
  /-- What stands between the two ends is one of the lines. Those above it end where it starts. -/
  slice : ∃ above below, lines bytes = above ++ (bytes.take p.lineEnd).drop p.lineStart :: below ∧
    above.length = p.line ∧ above.flatten = bytes.take p.lineStart

/-- What is told of a place follows from the bytes before and behind it. -/
theorem isPlaceOf_append {text : List Char} {before behind : Bytes} {p : Position}
    (h : Utf8.encodeChars text = before ++ behind) (hp : at? text before.length = some p) :
    IsPlaceOf (before ++ behind) before.length p := by
  have hsize : Utf8.size text = before.length + behind.length := by
    rw [← Utf8.length_encodeChars, h, List.length_append]
  obtain ⟨early, left, hbefore, hleft, hearly, hlast⟩ := exists_lastBreak before
  obtain ⟨right, late, hbehind, hends, hnext⟩ := exists_nextBreak before.length behind
  rw [at?_eq h, hlast, hsize, hnext, length_breaksFrom] at hp
  obtain rfl := Option.some.inj hp
  subst hbefore hbehind
  have hcount : (early ++ left).count newline = early.count newline := by
    rw [List.count_append, List.count_eq_zero.mpr hleft, Nat.add_zero]
  have hslice :
      ((early ++ left ++ (right ++ late)).take ((early ++ left).length + right.length)).drop
        early.length = left ++ right := by
    rw [← List.append_assoc, ← List.length_append, List.take_left, List.append_assoc,
      List.drop_left]
  refine ⟨?_, ?_, rfl, ?_, ?_, ?_⟩
  · rw [List.take_left]
  · exact ⟨early, left, by rw [List.take_left], hleft, hearly, rfl⟩
  · exact ⟨right, late, by rw [List.drop_left], hends, rfl⟩
  · rw [List.length_append]
    exact ⟨Nat.le_add_right .., Nat.le_add_right ..⟩
  · dsimp only
    rw [hslice, hcount, List.append_assoc, List.take_left]
    exact exists_lines_eq hleft hearly hends

theorem isPlaceOf_of_at? {text : List Char} {p : Position} (h : at? text index = some p) :
    IsPlaceOf (Utf8.encodeChars text) index p := by
  have hindex : index ≤ (Utf8.encodeChars text).length := by
    rw [Utf8.length_encodeChars]
    rw [at?, Option.ite_none_right_eq_some] at h
    exact h.1
  have hlength : ((Utf8.encodeChars text).take index).length = index := by
    rw [List.length_take, Nat.min_eq_left hindex]
  have hsplit := (List.take_append_drop index (Utf8.encodeChars text)).symm
  have hplace := isPlaceOf_append hsplit (hlength.symm ▸ h)
  rwa [hlength, List.take_append_drop] at hplace

/-- The line of a place starts and ends between characters of the text. -/
theorem isBoundary_of_at? {text : List Char} {p : Position} (h : at? text index = some p) :
    Utf8.IsBoundary text p.lineStart ∧ Utf8.IsBoundary text p.lineEnd := by
  have hstart : ∀ start ∈ lineStarts text, Utf8.IsBoundary text start := by
    intro start hmem
    rcases List.mem_cons.mp hmem with hz | hmem
    · rw [hz]
      exact Utf8.isBoundary_zero text
    · obtain ⟨inner, he, -, hb⟩ := isBoundary_of_mem_newlinesFrom hmem
      rwa [he, Nat.zero_add]
  rw [at?, Option.ite_none_right_eq_some, Option.some.injEq] at h
  obtain ⟨-, rfl⟩ := h
  constructor
  · dsimp only
    cases hl : ((lineStarts text).takeWhile (· ≤ index)).getLast? with
    | none => exact Utf8.isBoundary_zero text
    | some start =>
      apply hstart
      exact (List.takeWhile_sublist _).subset (List.mem_of_getLast? hl)
  · dsimp only
    cases hn : (lineStarts text)[((lineStarts text).takeWhile (· ≤ index)).length]? with
    | none => exact Utf8.isBoundary_size text
    | some start => exact hstart start (List.mem_of_getElem? hn)

/-- A place is found for every byte of a text and for its end, and for no other number. It tells the
line, the column and the two ends of the line, whatever the text: all of them are counted in bytes,
and the two ends stand between characters. -/
theorem place_found_and_told (text : List Char) (index : Nat) :
    ((∃ p, at? text index = some p) ↔ index ≤ (Utf8.encodeChars text).length) ∧
    ∀ p, at? text index = some p →
      IsPlaceOf (Utf8.encodeChars text) index p ∧
      Utf8.IsBoundary text p.lineStart ∧ Utf8.IsBoundary text p.lineEnd := by
  constructor
  · rw [Utf8.length_encodeChars, at?]
    simp
  · intro p hp
    exact ⟨isPlaceOf_of_at? hp, isBoundary_of_at? hp⟩

/-- A place between the two bytes of a character, and the empty line at the end. -/
theorem place_found_and_told_two_places :
    (at? "NOP\n  é\n".toList 7 = some ⟨1, 3, 4, 9⟩ ∧
      IsPlaceOf (Utf8.encodeChars "NOP\n  é\n".toList) 7 ⟨1, 3, 4, 9⟩) ∧
    at? "NOP\n  é\n".toList 9 = some ⟨2, 0, 9, 9⟩ ∧
      IsPlaceOf (Utf8.encodeChars "NOP\n  é\n".toList) 9 ⟨2, 0, 9, 9⟩ := by
  have hinside : at? "NOP\n  é\n".toList 7 = some ⟨1, 3, 4, 9⟩ := by decide
  have hend : at? "NOP\n  é\n".toList 9 = some ⟨2, 0, 9, 9⟩ := by decide
  exact ⟨⟨hinside, ((place_found_and_told _ 7).2 _ hinside).1⟩, hend,
    ((place_found_and_told _ 9).2 _ hend).1⟩

end Position

end ScriptKit.Text
