import Mathlib.Data.List.Forall2
import Mathlib.Data.Nat.Digits.Defs
import ScriptKit.Proofs.Text.Numeral

namespace ScriptKit.Numeral

variable {radix d : Nat} {c : Char} {word : List Char} {ds : List Nat}

/-- The value of a digit, in either case. -/
def digitValue? (c : Char) : Option Nat := "0123456789abcdef".toList.idxOf? c.toLower

/-- Whether the character is a digit of the radix, and which one. -/
def IsDigit (radix : Nat) (c : Char) (d : Nat) : Prop := digitValue? c = some d ∧ d < radix

instance (radix : Nat) (c : Char) (d : Nat) : Decidable (IsDigit radix c d) :=
  inferInstanceAs (Decidable (digitValue? c = some d ∧ d < radix))

/-- Digits of a radix, the most significant first, with underscores only between two of them. -/
inductive Spells (radix : Nat) : List Char → List Nat → Prop where
  | one {c : Char} {d : Nat} (digit : IsDigit radix c d) : Spells radix [c] [d]
  | more {c : Char} {d : Nat} {rest : List Char} {ds : List Nat} (digit : IsDigit radix c d)
      (between : Nat) (others : Spells radix rest ds) :
      Spells radix (c :: (List.replicate between '_' ++ rest)) (d :: ds)

/-- The digits have their codes in three ranges. -/
theorem digitValue?_of_not_code
    (h : ¬(48 ≤ c.toNat ∧ c.toNat ≤ 57 ∨ 65 ≤ c.toNat ∧ c.toNat ≤ 90 ∨
      97 ≤ c.toNat ∧ c.toNat ≤ 122)) : digitValue? c = none := by
  have hlower : c.toLower = c := by
    refine dif_neg ?_
    rintro ⟨hl, hu⟩
    refine h (.inr (.inl ⟨?_, ?_⟩))
    · exact UInt32.le_iff_toNat_le.mp hl
    · exact UInt32.le_iff_toNat_le.mp hu
  rw [digitValue?, hlower, List.idxOf?_eq_none_iff]
  intro hm
  have hcodes : ∀ c ∈ "0123456789abcdef".toList,
      48 ≤ c.toNat ∧ c.toNat ≤ 57 ∨ 97 ≤ c.toNat ∧ c.toNat ≤ 122 := by simp
  rcases hcodes c hm with hc | hc
  · exact h (.inl hc)
  · exact h (.inr (.inr hc))

theorem digit?_eq (hr : radix ≤ 16) : digit? radix c = (digitValue? c).filter (· < radix) := by
  have hsix : ∀ c, digit? 16 c = digitValue? c := by
    intro c
    by_cases hcode : 48 ≤ c.toNat ∧ c.toNat ≤ 57 ∨ 65 ≤ c.toNat ∧ c.toNat ≤ 90 ∨
      97 ≤ c.toNat ∧ c.toNat ≤ 122
    · let same (c : Char) : Bool := digit? 16 c == digitValue? c
      have hsame : same c = true := by
        rcases hcode with h | h | h <;>
          exact Text.forall_between (P := same) (by decide) h.1 h.2
      exact beq_iff_eq.mp hsame
    · rw [digitValue?_of_not_code hcode]
      simp only [digit?]
      grind
  rw [← hsix]
  simp only [digit?]
  grind

theorem digit?_eq_some (hr : radix ≤ 16) : digit? radix c = some d ↔ IsDigit radix c d := by
  rw [digit?_eq hr, Option.filter_eq_some_iff, IsDigit, decide_eq_true_eq]

/-- Neither a sign nor an underscore is a digit. -/
theorem IsDigit.ne (h : IsDigit radix c d) : c ≠ '-' ∧ c ≠ '+' ∧ c ≠ '_' := by
  have hm : digitValue? '-' = none := by decide
  have hp : digitValue? '+' = none := by decide
  have hu : digitValue? '_' = none := by decide
  refine ⟨?_, ?_, ?_⟩ <;>
  · rintro rfl
    simp_all [IsDigit]

theorem isDigit_zero_iff (hr : 0 < radix) : IsDigit radix '0' d ↔ d = 0 := by
  have hz : digitValue? '0' = some 0 := by decide
  rw [IsDigit, hz, Option.some.injEq]
  omega

/-- A digit has its code in one of the ranges of digits and letters. -/
theorem IsDigit.code (h : IsDigit radix c d) :
    48 ≤ c.toNat ∧ c.toNat ≤ 57 ∨ 65 ≤ c.toNat ∧ c.toNat ≤ 90 ∨ 97 ≤ c.toNat ∧ c.toNat ≤ 122 := by
  by_contra hcode
  have hnone := h.1
  rw [digitValue?_of_not_code hcode] at hnone
  cases hnone

/-- The digits of the radix ten are the decimal digits. -/
theorem IsDigit.isDigit (h : IsDigit 10 c d) : c.isDigit = true := by
  have hd := (digit?_eq_some (by decide)).mpr h
  rw [Text.isDigit_iff]
  simp only [digit?] at hd
  grind

/-- The digits in the word, with the underscores left out, amount to the number. -/
def Amounts (radix : Nat) (word : List Char) (n : Nat) : Prop :=
  ∃ ds, List.Forall₂ (IsDigit radix) (word.filter (· != '_')) ds ∧ n = Nat.ofDigits radix ds.reverse

/-- Digits are read from the left, each next one counting for less. -/
theorem digits_eq_ok (hr : radix ≤ 16) {value n : Nat} :
    digits radix value word = .ok n ↔
      ∃ ds, List.Forall₂ (IsDigit radix) (word.filter (· != '_')) ds ∧
        n = radix ^ ds.length * value + Nat.ofDigits radix ds.reverse := by
  induction word generalizing value with
  | nil => simp [digits, eq_comm]
  | cons c rest ih =>
    rw [digits]
    split
    · next hu => rw [ih, List.filter_cons_of_neg (by simpa using hu)]
    · next hu =>
      rw [List.filter_cons_of_pos (by simpa using hu)]
      simp only [List.forall₂_cons_left_iff]
      have hstep : ∀ (d : Nat) (ds : List Nat),
          radix ^ (d :: ds).length * value + Nat.ofDigits radix (d :: ds).reverse =
            radix ^ ds.length * (radix * value + d) + Nat.ofDigits radix ds.reverse := by
        intro d ds
        rw [Nat.ofDigits_reverse_cons, List.length_cons, Nat.pow_succ]
        ring
      split
      · next d hd =>
        have hdigit := (digit?_eq_some hr).mp hd
        rw [ih]
        constructor
        · rintro ⟨ds, hds, rfl⟩
          exact ⟨d :: ds, ⟨d, ds, hdigit, hds, rfl⟩, (hstep d ds).symm⟩
        · rintro ⟨_, ⟨d', ds, hd', hds, rfl⟩, rfl⟩
          obtain rfl : d' = d := Option.some.inj (hd'.1.symm.trans hdigit.1)
          exact ⟨ds, hds, hstep d' ds⟩
      · next hd =>
        constructor
        · intro h
          cases h
        · rintro ⟨_, ⟨d, ds, hdigit, -, -⟩, -⟩
          rw [(digit?_eq_some hr).mpr hdigit] at hd
          cases hd

theorem amounts_iff (hr : radix ≤ 16) {n : Nat} :
    Amounts radix word n ↔ digits radix 0 word = .ok n := by
  rw [digits_eq_ok hr, Amounts]
  simp only [Nat.mul_zero, Nat.zero_add]

/-- Zeros in front do not count. -/
theorem amounts_dropWhile (hr : 0 < radix) {n : Nat} :
    Amounts radix (word.dropWhile (· == '0')) n ↔ Amounts radix word n := by
  induction word with
  | nil => rfl
  | cons c rest ih =>
    by_cases hc : c = '0'
    · subst hc
      rw [List.dropWhile_cons_of_pos (by decide), ih, Amounts, Amounts,
        List.filter_cons_of_pos (by decide)]
      simp only [List.forall₂_cons_left_iff, isDigit_zero_iff hr]
      constructor
      · rintro ⟨ds, hds, rfl⟩
        exact ⟨0 :: ds, ⟨0, ds, rfl, hds, rfl⟩, (Nat.ofDigits_reverse_zero_cons ds).symm⟩
      · rintro ⟨_, ⟨_, ds, rfl, hds, rfl⟩, rfl⟩
        exact ⟨ds, hds, Nat.ofDigits_reverse_zero_cons ds⟩
    · rw [List.dropWhile_cons_of_neg (by simpa using hc)]

theorem Spells.forall₂ (h : Spells radix word ds) :
    List.Forall₂ (IsDigit radix) (word.filter (· != '_')) ds := by
  induction h with
  | one digit =>
    rw [List.filter_cons_of_pos (by simpa using digit.ne.2.2)]
    exact .cons digit .nil
  | more digit between others ih =>
    rw [List.filter_cons_of_pos (by simpa using digit.ne.2.2), List.filter_append,
      List.filter_eq_nil_iff.mpr (by simp), List.nil_append]
    exact .cons digit ih

/-- A spelling starts and ends with a digit, and has nothing in it but digits and underscores. -/
theorem Spells.ends (h : Spells radix word ds) :
    (∃ c d, word.head? = some c ∧ IsDigit radix c d) ∧
      (∃ c d, word.getLast? = some c ∧ IsDigit radix c d) ∧
        ∀ c ∈ word, c = '_' ∨ ∃ d, IsDigit radix c d := by
  induction h with
  | @one c d digit =>
    exact ⟨⟨c, d, rfl, digit⟩, ⟨c, d, rfl, digit⟩, by simpa using .inr ⟨d, digit⟩⟩
  | @more c d rest ds digit between others ih =>
    obtain ⟨-, ⟨last, e, hl, he⟩, hall⟩ := ih
    refine ⟨⟨c, d, rfl, digit⟩, ⟨last, e, ?_, he⟩, ?_⟩
    · rw [← List.cons_append, List.getLast?_append, hl]
      rfl
    · rw [List.forall_mem_cons]
      refine ⟨.inr ⟨d, digit⟩, fun x hx => ?_⟩
      rcases List.mem_append.mp hx with hx | hx
      · exact .inl (List.eq_of_mem_replicate hx)
      · exact hall x hx

/-- What amounts to a number and neither starts nor ends with an underscore spells it. -/
theorem spells_of_forall₂ (h : List.Forall₂ (IsDigit radix) (word.filter (· != '_')) ds)
    (hne : word ≠ []) (hhead : word.head? ≠ some '_') (hlast : word.getLast? ≠ some '_') :
    Spells radix word ds := by
  induction hn : word.length using Nat.strongRecOn generalizing word ds with
  | ind n ih =>
    obtain ⟨c, rest, rfl⟩ := List.exists_cons_of_ne_nil hne
    have hc : c ≠ '_' := fun he => hhead (congrArg some he)
    rw [List.filter_cons_of_pos (by simpa using hc), List.forall₂_cons_left_iff] at h
    obtain ⟨d, ds, hd, hds, rfl⟩ := h
    -- The underscores behind the first digit, and what follows them.
    have hsplit : rest.takeWhile (· == '_') ++ rest.dropWhile (· == '_') = rest :=
      List.takeWhile_append_dropWhile
    have hunder : rest.takeWhile (· == '_') =
        List.replicate (rest.takeWhile (· == '_')).length '_' :=
      List.eq_replicate_of_mem fun x hx => by
        simpa using List.all_eq_true.mp List.all_takeWhile x hx
    cases hrest : rest.dropWhile (· == '_') with
    | nil =>
      rw [hrest, List.append_nil] at hsplit
      cases rest with
      | nil =>
        cases hds
        exact .one hd
      | cons e others =>
        rw [List.getLast?_cons_cons, ← hsplit, hunder, List.getLast?_replicate,
          if_neg (by rw [hsplit]; simp)] at hlast
        exact absurd rfl hlast
    | cons e others =>
      rw [hrest] at hsplit
      have he : (e == '_') = false := by
        have := List.head?_dropWhile_not (· == '_') rest
        simpa [hrest] using this
      rw [← hsplit, hunder, List.filter_append, List.filter_eq_nil_iff.mpr (by simp),
        List.nil_append] at hds
      rw [← hsplit, hunder]
      refine .more hd _ (ih (e :: others).length ?_ hds (List.cons_ne_nil _ _) ?_ ?_ rfl)
      · have hlength := congrArg List.length hsplit
        rw [List.length_append] at hlength
        rw [← hn, List.length_cons (a := c)]
        omega
      · simpa using he
      · rwa [← hsplit, ← List.cons_append,
          List.getLast?_append_of_ne_nil _ (List.cons_ne_nil e others)] at hlast

theorem exists_amounts_iff (hne : word ≠ []) (hhead : word.head? ≠ some '_')
    (hlast : word.getLast? ≠ some '_') {P : Nat → Prop} :
    (∃ n, Amounts radix word n ∧ P n) ↔
      ∃ ds, Spells radix word ds ∧ P (Nat.ofDigits radix ds.reverse) := by
  constructor
  · rintro ⟨_, ⟨ds, hds, rfl⟩, hp⟩
    exact ⟨ds, spells_of_forall₂ hds hne hhead hlast, hp⟩
  · rintro ⟨ds, hs, hp⟩
    exact ⟨_, ⟨ds, hs.forall₂, rfl⟩, hp⟩

/-- A numeral without a sign is what amounts to a number and does not start with an underscore. -/
theorem unsigned_eq_ok (hr : radix ≤ 16) {n : Nat} :
    unsigned radix word = .ok n ↔ word ≠ [] ∧ word.head? ≠ some '_' ∧ Amounts radix word n := by
  rw [amounts_iff hr]
  cases word with
  | nil => simp [unsigned]
  | cons c rest =>
    rw [unsigned]
    split
    · next hu => simp [hu]
    · next hu => simp [hu]

/-- Without a sign in front, a numeral is one without a sign. -/
theorem integer_eq_ok (hr : radix ≤ 16) (hm : word.head? ≠ some '-') (hp : word.head? ≠ some '+')
    {value : Int} :
    integer radix word = .ok value ↔
      word ≠ [] ∧ word.head? ≠ some '_' ∧ ∃ n : Nat, Amounts radix word n ∧ value = n := by
  have hnatural : natural radix word = unsigned radix word := by
    rw [natural]
    · rintro rest rfl
      exact hp rfl
    · rintro rest rfl
      exact hp rfl
  have hinteger : integer radix word = (natural radix word).map fun n : Nat => (n : Int) := by
    rw [integer]
    · cases natural radix word with
      | error problem => rfl
      | ok n => rfl
    · rintro rest rfl
      exact hm rfl
    · rintro rest rfl
      exact hm rfl
  rw [hinteger, hnatural, map_eq_ok]
  constructor
  · rintro ⟨n, hn, rfl⟩
    obtain ⟨hne, hu, ha⟩ := (unsigned_eq_ok hr).mp hn
    exact ⟨hne, hu, n, ha, rfl⟩
  · rintro ⟨hne, hu, n, ha, rfl⟩
    exact ⟨n, (unsigned_eq_ok hr).mpr ⟨hne, hu, ha⟩, rfl⟩

theorem isDigit_digitChar (hr : radix ≤ 16) (hd : d < radix) :
    IsDigit radix (Nat.digitChar d) d := by
  have hall : ∀ d < 16, digitValue? (Nat.digitChar d) = some d := by decide
  exact ⟨hall d (Nat.lt_of_lt_of_le hd hr), hd⟩

theorem digits_append {value n : Nat} {more : List Char} (h : digits radix value word = .ok n) :
    digits radix value (word ++ more) = digits radix n more := by
  induction word generalizing value with
  | nil =>
    obtain rfl := Except.ok.inj h
    rfl
  | cons c rest ih =>
    rw [digits] at h
    rw [List.cons_append, digits]
    split
    · next hu =>
      rw [if_pos hu] at h
      exact ih h
    · next hu =>
      rw [if_neg hu] at h
      split at h
      · exact ih h
      · cases h

theorem digits_digitChar (hr : radix ≤ 16) (hd : d < radix) (value : Nat) :
    digits radix value [Nat.digitChar d] = .ok (radix * value + d) := by
  have hdigit := isDigit_digitChar hr hd
  rw [digits, if_neg hdigit.ne.2.2, (digit?_eq_some hr).mpr hdigit]
  rfl

/-- A number is read back from its digits, whatever zeros stand in front of them. -/
theorem digits_toDigits (hb : 1 < radix) (hr : radix ≤ 16) (zeros n : Nat) :
    digits radix 0 (List.replicate zeros '0' ++ Nat.toDigits radix n) = .ok n := by
  have hzeros : digits radix 0 (List.replicate zeros '0') = .ok 0 := by
    induction zeros with
    | zero => rfl
    | succ zeros ih =>
      have hz : digits radix 0 ['0'] = .ok 0 := digits_digitChar hr (d := 0) (by omega) 0
      rw [List.replicate_succ']
      rw [digits_append ih, hz]
  rw [digits_append hzeros]
  induction n using Nat.strongRecOn with
  | ind n ih =>
    by_cases hn : n < radix
    · rw [Nat.toDigits_of_lt_base hn, digits_digitChar hr hn, Nat.mul_zero, Nat.zero_add]
    · have hdiv := ih (n / radix) (Nat.div_lt_self (by omega) hb)
      rw [Nat.toDigits_of_base_le hb (by omega), digits_append hdiv,
        digits_digitChar hr (Nat.mod_lt n (by omega)), Nat.div_add_mod]

/-- Where all characters are digits, a numeral is what they amount to. -/
theorem natural_of_digits {n : Nat} (hne : word ≠ []) (hd : ∀ c ∈ word, ∃ d, IsDigit radix c d)
    (h : digits radix 0 word = .ok n) : natural radix word = .ok n := by
  cases word with
  | nil => exact absurd rfl hne
  | cons c rest =>
    obtain ⟨d, hdigit⟩ := hd c List.mem_cons_self
    obtain ⟨-, hp, hu⟩ := hdigit.ne
    rw [natural, unsigned, if_neg hu, h]
    · exact fun _ he => hp (List.cons.inj he).1
    · exact fun _ he => hp (List.cons.inj he).1

/-- The character is a digit of the radix, an underscore or a sign. -/
def MayOccur (radix : Nat) (c : Char) : Prop :=
  c = '-' ∨ c = '+' ∨ c = '_' ∨ ∃ d, digit? radix c = some d

theorem mayOccur_of_digits {value n : Nat} (h : digits radix value word = .ok n) :
    ∀ c ∈ word, MayOccur radix c := by
  induction word generalizing value with
  | nil => simp
  | cons c rest ih =>
    rw [digits] at h
    split at h
    · next hu => exact List.forall_mem_cons.mpr ⟨.inr (.inr (.inl hu)), ih h⟩
    · split at h
      · next d hd => exact List.forall_mem_cons.mpr ⟨.inr (.inr (.inr ⟨d, hd⟩)), ih h⟩
      · cases h

theorem mayOccur_of_unsigned {n : Nat} (h : unsigned radix word = .ok n) :
    ∀ c ∈ word, MayOccur radix c := by
  cases word with
  | nil => cases h
  | cons c rest =>
    rw [unsigned] at h
    split at h
    · cases h
    · exact mayOccur_of_digits h

theorem mayOccur_of_natural {n : Nat} (h : natural radix word = .ok n) :
    ∀ c ∈ word, MayOccur radix c := by
  rw [natural.eq_def] at h
  split at h
  · cases h
  · exact List.forall_mem_cons.mpr ⟨.inr (.inl rfl), mayOccur_of_unsigned h⟩
  · exact mayOccur_of_unsigned h

/-- A numeral has no other characters. -/
theorem mayOccur_of_integer {value : Int} (h : integer radix word = .ok value) :
    ∀ c ∈ word, MayOccur radix c := by
  have hnatural : ∀ {rest : List Char}, (∃ n, natural radix rest = .ok n) →
      ∀ c ∈ rest, MayOccur radix c := fun ⟨_, hn⟩ => mayOccur_of_natural hn
  rw [integer.eq_def] at h
  split at h
  · cases h
  · next rest _ =>
    refine List.forall_mem_cons.mpr ⟨.inl rfl, hnatural ?_⟩
    cases hn : natural radix rest with
    | error problem =>
      rw [hn] at h
      cases h
    | ok n => exact ⟨n, rfl⟩
  · refine hnatural ?_
    cases hn : natural radix word with
    | error problem =>
      rw [hn] at h
      cases h
    | ok n => exact ⟨n, rfl⟩

end ScriptKit.Numeral
