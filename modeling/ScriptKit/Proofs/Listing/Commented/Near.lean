import ScriptKit.Proofs.Listing.Trivia

namespace ScriptKit.Listing

open Listing.Parser Text

/-- What is left of a text, and what is left of the same text with a comment put in before a line
end. The comment may be passed already. -/
inductive Near (comment behind : List Char) : List Char → List Char → Prop
  | same (text : List Char) : Near comment behind text text
  | before (text : List Char) :
    Near comment behind (text ++ behind) (text ++ ' ' :: '/' :: '/' :: (comment ++ behind))

/-- A comment of one line, put in where a line ends. -/
structure IsTrailing (comment behind : List Char) : Prop where
  inLine : ∀ c ∈ comment, isLineEnd c = false
  ends : LineEnds behind

variable {comment behind a a' b c text word : List Char}

/-- A class of characters without blanks. -/
def Solid (test : Char → Bool) : Prop := ∀ c, isBlank c = true → test c = false

theorem solid_of_codes {P : Char → Bool} (h : ∀ k ∈ blankCodes, (!P (Char.ofNat k)) = true) :
    Solid P := by
  intro c hc
  simpa using forall_isBlank (P := fun c => !P c) h hc

/-- Nothing of the class stands where a line ends. -/
theorem Solid.stops_lineEnd {test : Char → Bool} (ht : Solid test) (h : LineEnds a) :
    Stops test a := by
  refine h.of_imp fun c hc => ?_
  cases hl : isLineEnd c with
  | false => rfl
  | true =>
    rw [ht c (isBlank_of_isLineEnd hl)] at hc
    cases hc

namespace Near

theorem cons_inv {first : Char} {rest : List Char} (ht : IsTrailing comment behind)
    (h : Near comment behind (first :: rest) a') (hf : isBlank first = false) :
    ∃ rest', a' = first :: rest' ∧ Near comment behind rest rest' := by
  generalize he : first :: rest = a at h
  cases h with
  | same => exact ⟨rest, he.symm, .same rest⟩
  | before text =>
    cases text with
    | nil =>
      have hl := ht.ends
      rw [← List.nil_append behind, ← he, LineEnds, stops_cons, Bool.not_eq_false'] at hl
      rw [isBlank_of_isLineEnd hl] at hf
      cases hf
    | cons c text =>
      obtain ⟨rfl, rfl⟩ := List.cons.inj he
      exact ⟨_, rfl, .before text⟩

theorem stops {test : Char → Bool} (h : Near comment behind a a') (ht : test ' ' = false)
    (hs : Stops test a) : Stops test a' := by
  cases h with
  | same => exact hs
  | before text =>
    cases text with
    | nil => exact stops_cons.mpr ht
    | cons c text => exact stops_cons.mpr (stops_cons.mp hs)

end Near

namespace IsTrailing

/-- The comment is passed over together with the blank in front of it. -/
theorem skips (ht : IsTrailing comment behind) (h : Skips behind b) :
    Skips (' ' :: '/' :: '/' :: (comment ++ behind)) b :=
  .blank (by decide) (.comment ht.inLine ht.ends h)

/-- A comment to which the new one is added is passed over with it. -/
theorem skips_append (ht : IsTrailing comment behind) (hw : ∀ c ∈ word, isLineEnd c = false)
    (h : Skips behind b) :
    Skips ('/' :: '/' :: (word ++ ' ' :: '/' :: '/' :: (comment ++ behind))) b := by
  have hall : ∀ c ∈ word ++ ' ' :: '/' :: '/' :: comment, isLineEnd c = false := by
    have hmarks : isLineEnd ' ' = false ∧ isLineEnd '/' = false := by decide
    simp only [List.forall_mem_append, List.forall_mem_cons]
    exact ⟨hw, hmarks.1, hmarks.2, hmarks.2, ht.inLine⟩
  simpa using Skips.comment hall ht.ends h

/-- A slash is no line end. -/
theorem ne_slash (ht : IsTrailing comment behind) (rest : List Char) : behind ≠ '/' :: rest := by
  rintro rfl
  exact absurd (stops_cons.mp ht.ends) (by decide)

/-- A comment in the text stands before the place of the new one. -/
theorem exists_later (ht : IsTrailing comment behind) (hw : ∀ c ∈ word, isLineEnd c = false)
    (h : text ++ behind = word ++ a) : ∃ later, text = word ++ later ∧ a = later ++ behind := by
  rcases List.append_eq_append_iff.mp h with ⟨beyond, rfl, hbehind⟩ | ⟨later, rfl, ha⟩
  · cases beyond with
    | nil => exact ⟨[], by simp, by simpa using hbehind.symm⟩
    | cons first rest =>
      have hl := ht.ends
      rw [hbehind, LineEnds, List.cons_append, stops_cons, hw first (by simp)] at hl
      cases hl
  · exact ⟨later, rfl, ha⟩

end IsTrailing

/-- Blanks and comments are passed over on both sides, also a comment to which the new one is
added. -/
theorem Near.skips (ht : IsTrailing comment behind) (hn : Near comment behind a a')
    (h : Skips a b) :
    ∃ b', Skips a' b' ∧ Near comment behind b b' ∧ (b = [] → b' = []) := by
  cases hn with
  | same => exact ⟨b, h, .same b, id⟩
  | before text =>
    generalize ha : text ++ behind = a at h
    induction h generalizing text with
    | @stop a noBlank noComment =>
      subst ha
      cases text with
      | nil =>
        have hb : behind = [] := by
          cases behind with
          | nil => rfl
          | cons c rest =>
            have hl := isBlank_of_isLineEnd (by simpa using stops_cons.mp ht.ends)
            rw [stops_cons.mp noBlank] at hl
            cases hl
        subst hb
        exact ⟨[], ht.skips (.stop noBlank noComment), .same [], id⟩
      | cons c rest =>
        refine ⟨_, .stop (stops_cons.mpr (stops_cons.mp noBlank)) ?_, .before (c :: rest), nofun⟩
        intro others he
        cases rest with
        | nil => exact absurd (List.cons.inj (List.cons.inj he).2).1 (by decide)
        | cons d rest =>
          obtain ⟨hc, htail⟩ := List.cons.inj he
          obtain ⟨hd, -⟩ := List.cons.inj htail
          exact noComment (rest ++ behind) (by rw [hc, hd]; rfl)
    | @blank first a b isBlank others ih =>
      cases text with
      | nil =>
        rw [List.nil_append] at ha
        exact ⟨b, ht.skips (ha ▸ .blank isBlank others), .same b, id⟩
      | cons c rest =>
        obtain ⟨rfl, htail⟩ := List.cons.inj ha
        obtain ⟨b', hb, hnear, hempty⟩ := ih rest htail
        exact ⟨b', .blank isBlank hb, hnear, hempty⟩
    | @comment word a b inLine ends others ih =>
      obtain ⟨line, rfl, hline⟩ :
          ∃ line, text = '/' :: '/' :: line ∧ line ++ behind = word ++ a := by
        match text with
        | [] => exact absurd ha (ht.ne_slash _)
        | [c] => exact absurd (List.cons.inj ha).2 (ht.ne_slash _)
        | c :: d :: line =>
          obtain ⟨rfl, htail⟩ := List.cons.inj ha
          obtain ⟨rfl, hline⟩ := List.cons.inj htail
          exact ⟨line, rfl, hline⟩
      obtain ⟨later, rfl, rfl⟩ := ht.exists_later inLine hline
      cases later with
      | nil =>
        rw [List.append_nil]
        exact ⟨b, ht.skips_append inLine others, .same b, id⟩
      | cons first later =>
        obtain ⟨b', hb, hnear, hempty⟩ := ih (first :: later) rfl
        have hends : LineEnds (first :: later ++ ' ' :: '/' :: '/' :: (comment ++ behind)) :=
          stops_cons.mpr (stops_cons.mp ends)
        exact ⟨b', by simpa using Skips.comment inLine hends hb, hnear, hempty⟩

theorem Near.separates (ht : IsTrailing comment behind) (hn : Near comment behind a a')
    (h : Separates a c) : ∃ c', Separates a' c' ∧ Near comment behind c c' := by
  obtain ⟨b, hb, hc⟩ := h
  obtain ⟨_, hb', hcomma, -⟩ := hn.skips ht hb
  obtain ⟨b', rfl, hrest⟩ := hcomma.cons_inv ht (by decide)
  obtain ⟨c', hc', hnear, -⟩ := hrest.skips ht hc
  exact ⟨c', ⟨b', hb', hc'⟩, hnear⟩

theorem Near.unseparated (ht : IsTrailing comment behind) (hn : Near comment behind a a')
    (h : Unseparated a) : Unseparated a' := by
  obtain ⟨b, hb, hs⟩ := h
  obtain ⟨b', hb', hnear, -⟩ := hn.skips ht hb
  exact ⟨b', hb', hnear.stops (by decide) hs⟩

/-- Where a line ends, the search for a comma stops. -/
theorem isBarrier_of_ends (ht : IsTrailing comment behind) {first : Char} {rest : List Char}
    (h : behind = first :: rest) : isBarrier first = true := by
  have hl := ht.ends
  rw [h, LineEnds, stops_cons, Bool.not_eq_false'] at hl
  simp [isBarrier, hl]

theorem Near.finds (ht : IsTrailing comment behind) (hn : Near comment behind a a')
    (h : Finds a b) : ∃ b', Finds a' b' ∧ Near comment behind b b' := by
  cases hn with
  | same => exact ⟨b, h, .same b⟩
  | before text =>
    generalize ha : text ++ behind = a at h
    induction h generalizing text with
    | @here first rest b free found =>
      cases text with
      | nil => rw [isBarrier_of_ends ht ha] at free; cases free
      | cons c text =>
        obtain ⟨rfl, rfl⟩ := List.cons.inj ha
        obtain ⟨b', hb, hnear⟩ := (Near.before text).separates ht found
        exact ⟨b', .here free hb, hnear⟩
    | @later first rest b free missing others ih =>
      cases text with
      | nil => rw [isBarrier_of_ends ht ha] at free; cases free
      | cons c text =>
        obtain ⟨rfl, htail⟩ := List.cons.inj ha
        obtain ⟨b', hb, hnear⟩ := ih text htail
        subst htail
        exact ⟨b', .later free ((Near.before text).unseparated ht missing) hb, hnear⟩

/-- A comment without commas gives the search nothing to find. With one, it is out of reach if the
line in which the search started has ended. -/
theorem Near.misses (ht : IsTrailing comment behind) (hn : Near comment behind a a')
    (hguard : ',' ∈ comment → ∀ text, a = text ++ behind → ∃ c ∈ text, isLineEnd c = true)
    (hu : Unseparated a) (h : Misses a) : Misses a' := by
  cases hn with
  | same => exact h
  | before text =>
    have hline : ',' ∈ comment → ∃ c ∈ text, isLineEnd c = true := fun hc => hguard hc text rfl
    clear hguard
    generalize ha : text ++ behind = a at h hu
    induction h generalizing text with
    | @stop a barrier =>
      subst ha
      cases text with
      | cons c text => exact .stop (stops_cons.mpr (stops_cons.mp barrier))
      | nil =>
        refine (Misses.stop barrier).append ht.ends hu
          (?_ : ∀ c ∈ ' ' :: '/' :: '/' :: comment, isBarrier c = false)
        have hmarks : isBarrier ' ' = false ∧ isBarrier '/' = false := by decide
        simp only [List.forall_mem_cons]
        refine ⟨hmarks.1, hmarks.2, hmarks.2, fun c hc => ?_⟩
        have hcomma : c ≠ ',' := by
          rintro rfl
          obtain ⟨_, hmem, -⟩ := hline hc
          cases hmem
        simp [isBarrier, hcomma, ht.inLine c hc]
    | @later first rest free missing others ih =>
      cases text with
      | nil => rw [isBarrier_of_ends ht ha] at free; cases free
      | cons c text =>
        obtain ⟨rfl, htail⟩ := List.cons.inj ha
        subst htail
        refine .later free ((Near.before text).unseparated ht missing) (ih text ?_ rfl missing)
        intro hc
        obtain ⟨d, hd, hl⟩ := hline hc
        rcases List.mem_cons.mp hd with rfl | hd
        · simp [isBarrier, hl] at free
        · exact ⟨d, hd, hl⟩

end ScriptKit.Listing
