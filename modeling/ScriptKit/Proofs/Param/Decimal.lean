import Mathlib.Data.List.TakeWhile
import ScriptKit.Param.Basic
import ScriptKit.Proofs.Text.Radix

namespace ScriptKit

namespace Numeral

/-- A sign that may be missing, and what it does to the number behind it. -/
inductive IsSign : List Char → Int → Prop where
  | none : IsSign [] 1
  | plus : IsSign ['+'] 1
  | minus : IsSign ['-'] (-1)

variable {radix : Nat} {c : Char} {text word rest : List Char} {value : Int} {n : Nat}

theorem unsigned_cons_ne (h : unsigned radix (c :: rest) = .ok n) (hr : radix ≤ 16) :
    c ≠ '-' ∧ c ≠ '+' := by
  obtain ⟨-, hu, ds, hds, -⟩ := (unsigned_eq_ok hr).mp h
  have hc : c ≠ '_' := fun he => hu (congrArg some he)
  rw [List.filter_cons_of_pos (by simpa using hc)] at hds
  cases hds with
  | cons digit others => exact ⟨digit.ne.1, digit.ne.2.1⟩

theorem natural_eq_ok (hr : radix ≤ 16) :
    natural radix text = .ok n ↔
      ∃ word, (text = word ∨ text = '+' :: word) ∧ unsigned radix word = .ok n := by
  constructor
  · intro h
    rw [natural.eq_def] at h
    split at h
    · cases h
    · exact ⟨_, .inr rfl, h⟩
    · exact ⟨_, .inl rfl, h⟩
  · rintro ⟨word, hw, h⟩
    cases word with
    | nil => cases h
    | cons c rest =>
      have hc := unsigned_cons_ne h hr
      rcases hw with rfl | rfl
      · rw [natural]
        · exact h
        · exact fun _ he => hc.2 (List.cons.inj he).1
        · exact fun _ he => hc.2 (List.cons.inj he).1
      · rw [natural]
        · exact h
        · exact fun _ he => hc.2 (List.cons.inj he).1

/-- A numeral is one without a sign behind an optional single sign. -/
theorem integer_eq_ok_iff (hr : radix ≤ 16) :
    integer radix text = .ok value ↔
      ∃ sign factor word n, IsSign sign factor ∧ text = sign ++ word ∧
        unsigned radix word = .ok n ∧ value = factor * (n : Int) := by
  constructor
  · intro h
    rw [integer.eq_def] at h
    split at h
    · cases h
    · next rest hplus =>
      obtain ⟨_, hc, rfl⟩ := map_eq_ok.mp h
      obtain ⟨n, hn, he⟩ := bind_eq_ok.mp hc
      obtain rfl := pure_eq_ok.mp he
      obtain ⟨word, rfl | rfl, hw⟩ := (natural_eq_ok hr).mp hn
      · exact ⟨_, _, _, n, .minus, rfl, hw, by omega⟩
      · exact absurd rfl (hplus word)
    · obtain ⟨_, hc, rfl⟩ := map_eq_ok.mp h
      obtain ⟨n, hn, he⟩ := bind_eq_ok.mp hc
      obtain rfl := pure_eq_ok.mp he
      obtain ⟨word, rfl | rfl, hw⟩ := (natural_eq_ok hr).mp hn
      · exact ⟨_, _, _, n, .none, rfl, hw, by omega⟩
      · exact ⟨_, _, _, n, .plus, rfl, hw, by omega⟩
  · rintro ⟨sign, factor, word, n, hs, rfl, hw, rfl⟩
    cases word with
    | nil => cases hw
    | cons c rest =>
      have hc := unsigned_cons_ne hw hr
      cases hs with
      | none =>
        rw [List.nil_append, integer]
        · rw [(natural_eq_ok hr).mpr ⟨_, .inl rfl, hw⟩, Int.one_mul]
          rfl
        · exact fun _ he => hc.1 (List.cons.inj he).1
        · exact fun _ he => hc.1 (List.cons.inj he).1
      | plus =>
        rw [List.singleton_append, integer]
        · rw [(natural_eq_ok hr).mpr ⟨_, .inr rfl, hw⟩, Int.one_mul]
          rfl
        · exact fun _ he => absurd (List.cons.inj he).1 (by decide)
        · exact fun _ he => absurd (List.cons.inj he).1 (by decide)
      | minus =>
        rw [List.singleton_append, integer]
        · rw [(natural_eq_ok hr).mpr ⟨_, .inl rfl, hw⟩, Int.neg_one_mul]
          rfl
        · exact fun _ he => hc.2 (List.cons.inj he).1

end Numeral

namespace Text

variable {text word : List Char}

/-- The word is the text without the blanks at both of its ends. -/
structure Trims (text word : List Char) : Prop where
  around : ∃ before after, text = before ++ (word ++ after) ∧
    (∀ c ∈ before, isBlank c = true) ∧ ∀ c ∈ after, isBlank c = true
  first : ∀ c ∈ word.head?, isBlank c = false
  last : ∀ c ∈ word.getLast?, isBlank c = false

theorem dropWhile_of_first (h : ∀ c ∈ word.head?, isBlank c = false) :
    word.dropWhile isBlank = word := by
  cases word with
  | nil => rfl
  | cons c rest => exact List.dropWhile_cons_of_neg (by simpa using h c rfl)

theorem Trims.trim_eq (h : Trims text word) : trim text = word := by
  obtain ⟨before, after, rfl, hb, ha⟩ := h.around
  rw [trim, trimStart, List.dropWhile_append_of_pos hb, trimEnd]
  cases word with
  | nil =>
    rw [List.nil_append, List.dropWhile_eq_nil_iff.mpr ha]
    rfl
  | cons c rest =>
    have hfirst : ∀ d ∈ (c :: rest ++ after).head?, isBlank d = false := h.first
    have hlast : ∀ d ∈ (c :: rest).reverse.head?, isBlank d = false := by
      rw [List.head?_reverse]
      exact h.last
    rw [dropWhile_of_first hfirst, List.reverse_append,
      List.dropWhile_append_of_pos (by simpa using ha), dropWhile_of_first hlast,
      List.reverse_reverse]

/-- Every text can be trimmed. -/
theorem trims_trim (text : List Char) : Trims text (trim text) := by
  have hstart : text = text.takeWhile isBlank ++ trimStart text :=
    List.takeWhile_append_dropWhile.symm
  have hend : trimStart text = trim text ++ ((trimStart text).reverse.takeWhile isBlank).reverse := by
    rw [trim, trimEnd, ← List.reverse_append, List.takeWhile_append_dropWhile, List.reverse_reverse]
  have hkept : ∀ (list : List Char), ∀ c ∈ (list.dropWhile isBlank).head?, isBlank c = false := by
    intro list c hc
    have hnot := List.head?_dropWhile_not isBlank list
    rw [Option.mem_def.mp hc] at hnot
    simpa using hnot
  refine ⟨⟨_, _, hend ▸ hstart, ?_, ?_⟩, ?_, ?_⟩
  · exact fun c hc => List.all_eq_true.mp List.all_takeWhile c hc
  · exact fun c hc => List.all_eq_true.mp List.all_takeWhile c (List.mem_reverse.mp hc)
  · intro c hc
    apply hkept text c
    change c ∈ (trimStart text).head?
    rw [hend]
    cases hw : trim text with
    | nil =>
      rw [hw] at hc
      cases hc
    | cons d rest => rwa [hw] at hc
  · intro c hc
    apply hkept (trimStart text).reverse c
    rw [trim, trimEnd, List.getLast?_reverse] at hc
    exact hc

end Text

namespace Param

open Numeral (IsSign)

variable {text word whole : List Char} {value : Int}

/-- A point and digits, or nothing. -/
inductive IsFraction : List Char → Prop where
  | none : IsFraction []
  | point {digits : List Char} (all : ∀ c ∈ digits, c.isDigit = true) : IsFraction ('.' :: digits)

/-- A decimal number and its whole part: an optional sign, digits and an optional fraction. -/
inductive IsDecimal : List Char → Int → Prop where
  | mk {sign digits fraction : List Char} {factor : Int} (signed : IsSign sign factor)
      (ne : digits ≠ []) (all : ∀ c ∈ digits, c.isDigit = true) (rest : IsFraction fraction) :
      IsDecimal (sign ++ digits ++ fraction) (factor * (Nat.ofDigitChars 10 digits 0 : Nat))

/-- What is read as an integer: a plus sign may stand in front of the sign, and underscores may
stand behind the first digit. -/
inductive IsRead : List Char → Int → Prop where
  | mk {front sign digits fraction : List Char} {factor : Int} {n : Nat}
      (plus : front = [] ∨ front = ['+']) (signed : IsSign sign factor) (ne : digits ≠ [])
      (first : digits.head? ≠ some '_') (amount : Numeral.Amounts 10 digits n)
      (rest : IsFraction fraction) : IsRead (front ++ (sign ++ digits) ++ fraction) (factor * (n : Int))

/-- No underscore stands in front of the point, and no second sign behind a plus sign. -/
structure IsRegular (text : List Char) : Prop where
  noUnderscore : '_' ∉ text.takeWhile (· != '.')
  oneSign : ∀ rest, text = '+' :: rest → ∀ c ∈ rest.head?, c ≠ '+' ∧ c ≠ '-'

theorem wholeDigits?_eq_some :
    wholeDigits? text = some whole ↔
      ∃ fraction, text = whole ++ fraction ∧ '.' ∉ whole ∧ IsFraction fraction := by
  have hsplit : text.takeWhile (· != '.') ++ text.dropWhile (· != '.') = text :=
    List.takeWhile_append_dropWhile
  have hpoint : '.' ∉ text.takeWhile (· != '.') := by
    intro hm
    simpa using List.all_eq_true.mp List.all_takeWhile _ hm
  unfold wholeDigits?
  constructor
  · intro h
    cases hd : text.dropWhile (· != '.') with
    | nil =>
      rw [hd, List.append_nil] at hsplit
      simp only [hd, Option.some.injEq] at h
      subst h
      exact ⟨[], (List.append_nil _).symm, hsplit ▸ hpoint, .none⟩
    | cons c fraction =>
      have hc : c = '.' := by
        have hnot := List.head?_dropWhile_not (· != '.') text
        simpa [hd] using hnot
      subst hc
      simp only [hd, Option.ite_none_right_eq_some, Option.some.injEq] at h
      obtain ⟨hall, rfl⟩ := h
      exact ⟨_, (hd ▸ hsplit).symm, hpoint, .point (List.all_eq_true.mp hall)⟩
  · rintro ⟨fraction, rfl, hw, hf⟩
    have hne : ∀ c ∈ whole, (c != '.') = true := fun c hc =>
      bne_iff_ne.mpr (ne_of_mem_of_not_mem hc hw)
    rw [List.dropWhile_append_of_pos hne, List.takeWhile_append_of_pos hne]
    cases hf with
    | none => simp
    | point all => simpa using all

/-- The reader of numerals gets the whole part, after one plus sign is taken off. -/
theorem parseInt_eq_ok {text : String} :
    parseInt text = .ok value ↔
      ∃ whole numeral, wholeDigits? (Text.trim text.toList) = some whole ∧
        (whole = '+' :: numeral ∨ whole = numeral ∧ ∀ rest, whole ≠ '+' :: rest) ∧
        Numeral.integer 10 numeral = .ok value := by
  -- The whole parts that are refused at once are no numerals either.
  have hnone : ∀ {numeral : List Char}, numeral = [] ∨ numeral = ['-'] →
      Numeral.integer 10 numeral ≠ .ok value := by
    rintro numeral (rfl | rfl) h <;> cases h
  have hsame : ∀ {whole numeral : List Char}, whole = [] ∨ whole = ['-'] →
      (whole = '+' :: numeral ∨ whole = numeral ∧ ∀ rest, whole ≠ '+' :: rest) →
        numeral = [] ∨ numeral = ['-'] := by
    rintro whole numeral (rfl | rfl) (h | ⟨rfl, -⟩)
    · cases h
    · exact .inl rfl
    · cases h
    · exact .inr rfl
  unfold parseInt
  simp only
  split
  · next hw => simp [hw]
  · next hw =>
    simp only [hw, Option.some.injEq, reduceCtorEq, false_iff]
    rintro ⟨_, numeral, rfl, hn, hv⟩
    exact hnone (hsame (.inl rfl) hn) hv
  · next hw =>
    simp only [hw, Option.some.injEq, reduceCtorEq, false_iff]
    rintro ⟨_, numeral, rfl, hn, hv⟩
    exact hnone (hsame (.inr rfl) hn) hv
  · next whole _ _ hw =>
    simp only [hw, Option.some.injEq]
    constructor
    · intro h
      split at h
      · next hn =>
        obtain rfl := Except.ok.inj h
        split at hn
        · exact ⟨_, _, rfl, .inl rfl, hn⟩
        · next hplus => exact ⟨_, _, rfl, .inr ⟨rfl, hplus⟩, hn⟩
      · cases h
    · rintro ⟨_, numeral, rfl, hn, hv⟩
      rcases hn with rfl | ⟨rfl, hplus⟩
      · simp only [hv]
      · generalize hread : Numeral.integer 10 _ = read
        split at hread
        · exact absurd rfl (hplus _)
        · rw [hv] at hread
          rw [← hread]

/-- Digits among which underscores may stand. -/
theorem isDigit_of_amounts {digits : List Char} {n : Nat} (h : Numeral.Amounts 10 digits n) :
    ∀ c ∈ digits, c = '_' ∨ c.isDigit = true := by
  obtain ⟨ds, hds, -⟩ := h
  have hall : ∀ c ∈ digits.filter (· != '_'), c.isDigit = true :=
    ((List.forall₂_and_left _ _).mp (hds.imp fun _ _ hd => ⟨hd.isDigit, hd⟩)).1
  intro c hc
  by_cases hu : c = '_'
  · exact .inl hu
  · exact .inr (hall c (List.mem_filter.mpr ⟨hc, bne_iff_ne.mpr hu⟩))

theorem point_not_mem {front sign digits : List Char} {factor : Int}
    (hp : front = [] ∨ front = ['+']) (hs : IsSign sign factor)
    (hd : ∀ c ∈ digits, c = '_' ∨ c.isDigit = true) : '.' ∉ front ++ (sign ++ digits) := by
  simp only [List.mem_append, not_or]
  refine ⟨?_, ?_, ?_⟩
  · rcases hp with rfl | rfl <;> simp
  · cases hs <;> simp
  · intro hm
    rcases hd '.' hm with he | he <;> simp at he

/-- A text is read exactly if it is a decimal number up to a plus sign in front of its sign and
underscores behind its first digit. -/
theorem parseInt_eq_ok_iff {text : String} :
    parseInt text = .ok value ↔ IsRead (Text.trim text.toList) value := by
  rw [parseInt_eq_ok]
  constructor
  · rintro ⟨whole, numeral, hw, hn, hv⟩
    obtain ⟨fraction, ht, -, hf⟩ := wholeDigits?_eq_some.mp hw
    obtain ⟨sign, factor, digits, n, hs, rfl, hu, rfl⟩ :=
      (Numeral.integer_eq_ok_iff (by omega)).mp hv
    obtain ⟨hne, hfirst, ha⟩ := (Numeral.unsigned_eq_ok (by omega)).mp hu
    rw [ht]
    rcases hn with rfl | ⟨rfl, -⟩
    · exact .mk (.inr rfl) hs hne hfirst ha hf
    · exact .mk (.inl rfl) hs hne hfirst ha hf
  · intro h
    generalize Text.trim text.toList = word at h ⊢
    obtain @⟨front, sign, digits, fraction, factor, n, hp, hs, hne, hfirst, ha, hf⟩ := h
    have hd := isDigit_of_amounts ha
    have hu : Numeral.unsigned 10 digits = .ok n :=
      (Numeral.unsigned_eq_ok (by omega)).mpr ⟨hne, hfirst, ha⟩
    have hwhole : wholeDigits? (front ++ (sign ++ digits) ++ fraction) =
        some (front ++ (sign ++ digits)) :=
      wholeDigits?_eq_some.mpr ⟨fraction, rfl, point_not_mem hp hs hd, hf⟩
    have hv : Numeral.integer 10 (sign ++ digits) = .ok (factor * (n : Int)) :=
      (Numeral.integer_eq_ok_iff (by omega)).mpr ⟨sign, factor, digits, n, hs, rfl, hu, rfl⟩
    rcases hp with rfl | rfl
    · cases hs with
      | none =>
        refine ⟨_, digits, hwhole, .inr ⟨rfl, ?_⟩, hv⟩
        intro rest he
        have hm : '+' ∈ digits := (show digits = '+' :: rest from he) ▸ List.mem_cons_self
        have hplus := hd '+' hm
        simp at hplus
      | plus =>
        -- The one sign is the plus sign that is taken off.
        refine ⟨_, digits, hwhole, .inl rfl, ?_⟩
        exact (Numeral.integer_eq_ok_iff (by omega)).mpr ⟨[], 1, digits, n, .none, rfl, hu, rfl⟩
      | minus => exact ⟨_, '-' :: digits, hwhole, .inr ⟨rfl, by simp⟩, hv⟩
    · exact ⟨_, sign ++ digits, hwhole, .inl rfl, hv⟩

/-- All other texts are refused, with the text that the blanks are taken off. -/
theorem parseInt_eq_error {text : String} {fault : Fault} (h : parseInt text = .error fault) :
    fault = .badInteger (String.ofList (Text.trim text.toList)) := by
  unfold parseInt at h
  simp only at h
  split at h
  iterate 3 exact (Except.error.inj h).symm
  split at h
  · cases h
  · exact (Except.error.inj h).symm

theorem takeWhile_point {fraction : List Char} (hw : '.' ∉ whole) (hf : IsFraction fraction) :
    (whole ++ fraction).takeWhile (· != '.') = whole := by
  rw [List.takeWhile_append_of_pos fun c hc => bne_iff_ne.mpr (ne_of_mem_of_not_mem hc hw)]
  cases hf with
  | none => simp
  | point all => simp

/-- The decimal numbers are the regular texts among those that are read. -/
theorem isDecimal_iff : IsDecimal word value ↔ IsRead word value ∧ IsRegular word := by
  constructor
  · rintro @⟨sign, digits, fraction, factor, hs, hne, hall, hf⟩
    have hd : ∀ c ∈ digits, c = '_' ∨ c.isDigit = true := fun c hc => .inr (hall c hc)
    have hfirst : ∀ c ∈ digits.head?, c ≠ '_' ∧ c ≠ '+' ∧ c ≠ '-' := by
      intro c hc
      have hdigit := hall c (List.mem_of_head? hc)
      refine ⟨?_, ?_, ?_⟩ <;>
      · rintro rfl
        simp at hdigit
    have hread : IsRead ([] ++ (sign ++ digits) ++ fraction)
        (factor * (Nat.ofDigitChars 10 digits 0 : Nat)) :=
      .mk (.inl rfl) hs hne (fun he => (hfirst _ he).1 rfl)
        ((Numeral.amounts_iff (by omega)).mpr (Numeral.digits_of_isDigit hall 0)) hf
    refine ⟨hread, ?_, ?_⟩
    · have hpoint := point_not_mem (.inl rfl) hs hd
      rw [List.nil_append] at hpoint
      rw [takeWhile_point hpoint hf, List.mem_append, not_or]
      constructor
      · cases hs <;> simp
      · intro hm
        simpa using hall '_' hm
    · intro rest he c hc
      obtain ⟨d, others, rfl⟩ := List.exists_cons_of_ne_nil hne
      cases hs with
      | none =>
        obtain ⟨rfl, -⟩ := List.cons.inj he
        exact absurd rfl (hfirst '+' rfl).2.1
      | plus =>
        obtain ⟨-, rfl⟩ := List.cons.inj he
        exact (hfirst c hc).2
      | minus => cases (List.cons.inj he).1
  · rintro ⟨@⟨front, sign, digits, fraction, factor, n, hp, hs, hne, hfirst, ha, hf⟩, hr⟩
    have hd := isDigit_of_amounts ha
    have hu := hr.noUnderscore
    rw [takeWhile_point (point_not_mem hp hs hd) hf] at hu
    simp only [List.mem_append, not_or] at hu
    have hall : ∀ c ∈ digits, c.isDigit = true := fun c hc =>
      (hd c hc).resolve_left (ne_of_mem_of_not_mem hc hu.2.2)
    have hn : n = Nat.ofDigitChars 10 digits 0 :=
      Except.ok.inj (((Numeral.amounts_iff (by omega)).mp ha).symm.trans
        (Numeral.digits_of_isDigit hall 0))
    subst hn
    rcases hp with rfl | rfl
    · exact .mk hs hne hall hf
    · cases hs with
      | none => exact .mk .plus hne hall hf
      | plus => exact absurd rfl (hr.oneSign _ rfl '+' rfl).1
      | minus => exact absurd rfl (hr.oneSign _ rfl '-' rfl).2

/-- A regular text is read exactly if it is a decimal number between blanks, with the number's whole
part as its value; no decimal number is irregular. An irregular text is read exactly if a plus sign
in front of its sign, or underscores behind its first digit, are all that is wrong with it. What is
not read is refused as no integer. -/
theorem decimal_integers (text : String) :
    ∃ word, Text.Trims text.toList word ∧
      (IsRegular word → (∀ value, parseInt text = .ok value ↔ IsDecimal word value) ∧
        ((∀ value, ¬ IsDecimal word value) →
          parseInt text = .error (.badInteger (String.ofList word)))) ∧
      (∀ value, IsDecimal word value → parseInt text = .ok value) ∧
      (∀ value, IsDecimal word value ↔ IsRead word value ∧ IsRegular word) ∧
      (∀ value, parseInt text = .ok value ↔ IsRead word value) ∧
      ∀ fault, parseInt text = .error fault → fault = .badInteger (String.ofList word) := by
  refine ⟨Text.trim text.toList, Text.trims_trim _, fun hr => ⟨?_, ?_⟩, ?_, fun _ => isDecimal_iff,
    fun _ => parseInt_eq_ok_iff, fun _ => parseInt_eq_error⟩
  · intro value
    rw [parseInt_eq_ok_iff, isDecimal_iff, and_iff_left hr]
  · intro hnone
    cases hp : parseInt text with
    | error fault => rw [parseInt_eq_error hp]
    | ok value => exact absurd (isDecimal_iff.mpr ⟨parseInt_eq_ok_iff.mp hp, hr⟩) (hnone value)
  · intro value hd
    exact parseInt_eq_ok_iff.mpr (isDecimal_iff.mp hd).1

/-- Zeros in front and a fraction behind are dropped, and blanks around; a second point is refused. -/
theorem decimal_integers_blanks_and_points :
    (IsRegular "-007.50".toList ∧ parseInt "\t-007.50 " = .ok (-7) ∧
      IsDecimal "-007.50".toList (-7)) ∧
    (IsRegular "1.2.3".toList ∧ (∀ value, ¬ IsDecimal "1.2.3".toList value) ∧
      parseInt " 1.2.3" = .error (.badInteger "1.2.3")) := by
  have hfirst : IsRegular "-007.50".toList := ⟨by decide, fun rest he => by cases he⟩
  have hsecond : IsRegular "1.2.3".toList := ⟨by decide, fun rest he => by cases he⟩
  constructor
  · obtain ⟨word, ht, hr, -⟩ := decimal_integers "\t-007.50 "
    obtain rfl : "-007.50".toList = word := ht.trim_eq
    have hp : parseInt "\t-007.50 " = .ok (-7) := by decide +kernel
    exact ⟨hfirst, hp, ((hr hfirst).1 (-7)).mp hp⟩
  · obtain ⟨word, ht, hr, hd, -⟩ := decimal_integers " 1.2.3"
    obtain rfl : "1.2.3".toList = word := ht.trim_eq
    have hnone : ∀ value, ¬ IsDecimal "1.2.3".toList value := by
      intro value h
      have hp : (parseInt " 1.2.3").toOption = none := by decide +kernel
      rw [hd value h] at hp
      cases hp
    exact ⟨hsecond, hnone, (hr hsecond).2 hnone⟩

/-- A second sign and underscores are let through, although neither text is a decimal number. -/
theorem second_sign_is_read :
    parseInt "+-5" = .ok (-5) ∧ parseInt "1_000" = .ok 1000 ∧
      ∀ value, ¬ IsDecimal (Text.trim "+-5".toList) value ∧
        ¬ IsDecimal (Text.trim "1_000".toList) value := by
  refine ⟨by decide +kernel, by decide +kernel, fun value => ⟨fun h => ?_, fun h => ?_⟩⟩
  · have hr := (isDecimal_iff.mp h).2.oneSign _ rfl '-' rfl
    exact hr.2 rfl
  · exact (isDecimal_iff.mp h).2.noUnderscore (by decide)

end Param

end ScriptKit
