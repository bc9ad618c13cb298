import Mathlib.Data.List.Basic
import ScriptKit.Text.Utf8

namespace ScriptKit.Utf8

variable {text before behind a b c d : List Char} {place other : Nat}

@[simp] theorem size_nil : size [] = 0 := rfl

theorem foldl_size (text : List Char) (total : Nat) :
    text.foldl (fun total c => total + c.utf8Size) total = total + size text := by
  induction text generalizing total with
  | nil => rfl
  | cons c rest ih =>
    have hsize : size (c :: rest) = 0 + c.utf8Size + size rest := ih (0 + c.utf8Size)
    rw [List.foldl_cons, ih, hsize]
    omega

@[simp] theorem size_cons (c : Char) (rest : List Char) :
    size (c :: rest) = c.utf8Size + size rest := by
  rw [size, List.foldl_cons, foldl_size, Nat.zero_add]

@[simp] theorem size_append (a b : List Char) : size (a ++ b) = size a + size b := by
  rw [size, List.foldl_append, foldl_size]
  rfl

theorem size_pos (h : text ≠ []) : 0 < size text := by
  cases text with
  | nil => exact absurd rfl h
  | cons c rest =>
    have := c.utf8Size_pos
    rw [size_cons]
    omega

/-- Of two beginnings of a text, the one with fewer bytes is a beginning of the other. -/
theorem exists_append_of_size_le (h : a ++ b = c ++ d) (hl : size a ≤ size c) :
    ∃ between, c = a ++ between ∧ b = between ++ d := by
  rcases List.append_eq_append_iff.mp h with ⟨between, hc, hb⟩ | ⟨between, ha, hd⟩
  · exact ⟨between, hc, hb⟩
  · have hn : between = [] := by
      by_contra hne
      have := size_pos hne
      rw [ha, size_append] at hl
      omega
    subst hn
    exact ⟨[], by simpa using ha.symm, by simpa using hd.symm⟩

theorem append_inj_of_size_eq (h : a ++ b = c ++ d) (hs : size a = size c) : a = c ∧ b = d := by
  obtain ⟨between, rfl, rfl⟩ := exists_append_of_size_le h (Nat.le_of_eq hs)
  have hn : between = [] := by
    by_contra hne
    have := size_pos hne
    rw [size_append] at hs
    omega
  subst hn
  exact ⟨(List.append_nil a).symm, rfl⟩

/-- The place stands between two characters of the text, or at an end of it. -/
def IsBoundary (text : List Char) (place : Nat) : Prop :=
  ∃ before behind, text = before ++ behind ∧ size before = place

theorem isBoundary_append (before behind : List Char) :
    IsBoundary (before ++ behind) (size before) :=
  ⟨before, behind, rfl, rfl⟩

theorem isBoundary_zero (text : List Char) : IsBoundary text 0 := ⟨[], text, rfl, rfl⟩

theorem isBoundary_size (text : List Char) : IsBoundary text (size text) :=
  ⟨text, [], (List.append_nil text).symm, rfl⟩

theorem IsBoundary.min (h : IsBoundary text place) (ho : IsBoundary text other) :
    IsBoundary text (min place other) := by
  rcases Nat.le_total place other with hl | hl
  · rwa [Nat.min_eq_left hl]
  · rwa [Nat.min_eq_right hl]

theorem IsBoundary.max (h : IsBoundary text place) (ho : IsBoundary text other) :
    IsBoundary text (max place other) := by
  rcases Nat.le_total place other with hl | hl
  · rwa [Nat.max_eq_right hl]
  · rwa [Nat.max_eq_left hl]

/-- A place between two characters of a text behind another one is one in the text as a whole, and
the other way around. -/
theorem isBoundary_append_iff :
    IsBoundary (before ++ behind) (size before + place) ↔ IsBoundary behind place := by
  constructor
  · rintro ⟨first, last, h, hs⟩
    obtain ⟨between, rfl, hb⟩ := exists_append_of_size_le h (by omega)
    rw [size_append] at hs
    exact ⟨between, last, hb, by omega⟩
  · rintro ⟨first, last, rfl, rfl⟩
    exact ⟨before ++ first, last, by simp, size_append ..⟩

/-- A place in a text behind which more follows. -/
theorem IsBoundary.append (h : IsBoundary before place) (behind : List Char) :
    IsBoundary (before ++ behind) place := by
  obtain ⟨first, last, rfl, rfl⟩ := h
  exact ⟨first, last ++ behind, List.append_assoc .., rfl⟩

theorem IsBoundary.of_append (h : IsBoundary (before ++ behind) place)
    (hp : place ≤ size before) : IsBoundary before place := by
  obtain ⟨first, last, he, rfl⟩ := h
  obtain ⟨between, rfl, -⟩ := exists_append_of_size_le he.symm hp
  exact isBoundary_append ..

/-- A place in a text, or the end of a beginning of the text that it lies behind. -/
theorem IsBoundary.min_size (h : IsBoundary (before ++ behind) place) :
    IsBoundary before (Min.min place (size before)) := by
  rcases Nat.le_total place (size before) with hl | hl
  · rw [Nat.min_eq_left hl]
    exact h.of_append hl
  · rw [Nat.min_eq_right hl]
    exact isBoundary_size before

/-- Two places divide a text into three parts. -/
theorem IsBoundary.exists_between (h : IsBoundary text place) (ho : IsBoundary text other)
    (hl : place ≤ other) :
    ∃ before between behind, text = before ++ between ++ behind ∧ size before = place ∧
      size (before ++ between) = other := by
  obtain ⟨before, rest, rfl, rfl⟩ := h
  obtain ⟨first, last, he, rfl⟩ := ho
  obtain ⟨between, rfl, rfl⟩ := exists_append_of_size_le he hl
  exact ⟨before, between, last, by simp, rfl, rfl⟩

/-- A text is cut at a place between two characters. -/
@[simp] theorem splitAt_append (before behind : List Char) :
    splitAt (size before) (before ++ behind) = (before, behind) := by
  induction before with
  | nil =>
    cases behind with
    | nil => rfl
    | cons c rest =>
      have := c.utf8Size_pos
      rw [size_nil, List.nil_append, splitAt, if_neg (by omega)]
  | cons c rest ih =>
    rw [List.cons_append, size_cons, splitAt, if_pos (Nat.le_add_right ..),
      Nat.add_sub_cancel_left, ih]

end ScriptKit.Utf8
