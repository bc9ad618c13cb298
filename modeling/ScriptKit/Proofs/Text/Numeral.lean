import ScriptKit.Proofs.Except
import ScriptKit.Proofs.Text.Char
import ScriptKit.Text.Numeral

namespace ScriptKit.Numeral

theorem digit?_of_isDigit {c : Char} (h : c.isDigit = true) :
    digit? 10 c = some (c.toNat - 48) := by
  have hc := Text.isDigit_iff.mp h
  have hl : c.toNat - 48 < 10 := by omega
  simp only [digit?, hc, and_self, ↓reduceIte, hl]

/-- Digits are read from the left, each next one counting for a tenth of the one before. -/
theorem digits_of_isDigit {text : List Char} (h : ∀ c ∈ text, c.isDigit = true) (value : Nat) :
    digits 10 value text = .ok (Nat.ofDigitChars 10 text value) := by
  induction text generalizing value with
  | nil => simp [digits]
  | cons c rest ih =>
    obtain ⟨hc, hr⟩ := List.forall_mem_cons.mp h
    have hu : c ≠ '_' := by
      intro he
      subst he
      exact absurd hc (by decide)
    rw [digits, if_neg hu, digit?_of_isDigit hc]
    simp only [ih hr, Nat.ofDigitChars_cons]
    rfl

/-- A text of digits is a numeral without a sign, with its digits' value. -/
theorem natural_of_isDigit {text : List Char} (hn : text ≠ []) (h : ∀ c ∈ text, c.isDigit = true) :
    natural 10 text = .ok (Nat.ofDigitChars 10 text 0) := by
  cases text with
  | nil => exact absurd rfl hn
  | cons c rest =>
    have hc : c.isDigit = true := h c List.mem_cons_self
    have hsign : c ≠ '+' ∧ c ≠ '_' := by
      constructor <;>
        rintro rfl <;> exact absurd hc (by decide)
    have hnat : natural 10 (c :: rest) = unsigned 10 (c :: rest) := by
      rw [natural] <;> simp [hsign.1]
    rw [hnat, unsigned, if_neg hsign.2, digits_of_isDigit h]

/-- A text of digits is a numeral, with its digits' value. -/
theorem integer_of_isDigit {text : List Char} (hn : text ≠ []) (h : ∀ c ∈ text, c.isDigit = true) :
    integer 10 text = .ok (Nat.ofDigitChars 10 text 0 : Nat) := by
  have hsign : ∀ rest, text ≠ '-' :: rest := by
    rintro rest rfl
    exact absurd (h '-' List.mem_cons_self) (by decide)
  rw [integer]
  · rw [natural_of_isDigit hn h]
    rfl
  · exact fun rest => hsign ('+' :: rest)
  · exact hsign

/-- Digits behind a minus sign are a numeral, with their negated value. -/
theorem integer_of_minus {text : List Char} (hn : text ≠ []) (h : ∀ c ∈ text, c.isDigit = true) :
    integer 10 ('-' :: text) = .ok (-(Nat.ofDigitChars 10 text 0 : Nat)) := by
  have hsign : ∀ rest, text ≠ '+' :: rest := by
    rintro rest rfl
    exact absurd (h '+' List.mem_cons_self) (by decide)
  rw [integer]
  · rw [natural_of_isDigit hn h]
    rfl
  · exact hsign

/-- A number is written with a sign only if it is negative. -/
theorem toList_toString (value : Int) :
    (toString value).toList =
      if 0 ≤ value then Nat.toDigits 10 value.toNat else '-' :: Nat.toDigits 10 (-value).toNat := by
  cases value with
  | ofNat n =>
    have ht : (toString (Int.ofNat n)).toList = Nat.toDigits 10 n := Nat.toList_repr
    have hn : 0 ≤ Int.ofNat n := Int.natCast_nonneg n
    rw [ht, if_pos hn]
    rfl
  | negSucc n =>
    have ht : (toString (Int.negSucc n)).toList = '-' :: Nat.toDigits 10 (n + 1) := by
      change ("-" ++ (n + 1).repr).toList = _
      rw [String.toList_append, Nat.toList_repr]
      rfl
    rw [ht, if_neg (Int.not_le.mpr (Int.negSucc_lt_zero n))]
    rfl

/-- What is written for a number is a numeral, with that number as its value. -/
theorem integer_toString (value : Int) : integer 10 (toString value).toList = .ok value := by
  have hd : ∀ n, ∀ c ∈ Nat.toDigits 10 n, c.isDigit = true :=
    fun _ _ hc => Text.isDigit_of_mem_toDigits hc
  rw [toList_toString]
  split
  · next hv =>
    rw [integer_of_isDigit Nat.toDigits_ne_nil (hd _), Nat.ofDigitChars_ten_toDigits,
      Int.toNat_of_nonneg hv]
  · next hv =>
    rw [integer_of_minus Nat.toDigits_ne_nil (hd _), Nat.ofDigitChars_ten_toDigits]
    exact congrArg Except.ok (by omega)

end ScriptKit.Numeral
