import ScriptKit.Text.Blank

namespace ScriptKit.Text

/-- What holds of the characters in a range of codes holds of each of them. -/
theorem forall_between {P : Char → Bool} {low high : Nat}
    (h : ∀ k ≤ high, low ≤ k → P (Char.ofNat k) = true) {c : Char} (hl : low ≤ c.toNat)
    (hh : c.toNat ≤ high) : P c = true := by
  have hp := h c.toNat hh hl
  rwa [Char.ofNat_toNat] at hp

theorem isDigit_iff {c : Char} : c.isDigit = true ↔ 48 ≤ c.toNat ∧ c.toNat ≤ 57 := by
  simp only [Char.isDigit, Bool.and_eq_true, decide_eq_true_eq, ge_iff_le, UInt32.le_iff_toNat_le]
  rfl

theorem forall_isDigit {P : Char → Bool} (h : ∀ k ≤ 57, 48 ≤ k → P (Char.ofNat k) = true)
    {c : Char} (hc : c.isDigit = true) : P c = true := by
  have hr := isDigit_iff.mp hc
  exact forall_between h hr.1 hr.2

theorem forall_isUpper {P : Char → Bool} (h : ∀ k ≤ 90, 65 ≤ k → P (Char.ofNat k) = true)
    {c : Char} (hc : c.isUpper = true) : P c = true := by
  have hr : (65 : UInt32) ≤ c.val ∧ c.val ≤ 90 := of_decide_eq_true hc
  exact forall_between h (UInt32.le_iff_toNat_le.mp hr.1) (UInt32.le_iff_toNat_le.mp hr.2)

/-- The codes of the blanks, one by one. -/
def blankCodes : List Nat := blankRanges.flatMap fun (low, high) => List.range' low (high + 1 - low)

theorem forall_isBlank {P : Char → Bool} (h : ∀ k ∈ blankCodes, P (Char.ofNat k) = true) {c : Char}
    (hc : isBlank c = true) : P c = true := by
  obtain ⟨⟨low, high⟩, hr, hc⟩ := List.any_eq_true.mp hc
  simp only [Bool.and_eq_true, decide_eq_true_eq] at hc
  have hmem : c.toNat ∈ blankCodes :=
    List.mem_flatMap.mpr ⟨(low, high), hr, List.mem_range'_1.mpr (by omega)⟩
  have hp := h c.toNat hmem
  rwa [Char.ofNat_toNat] at hp

theorem isBlank_of_isLineEnd {c : Char} (h : isLineEnd c = true) : isBlank c = true := by
  simp only [isLineEnd, Bool.or_eq_true, beq_iff_eq] at h
  rcases h with (((((rfl | rfl) | rfl) | rfl) | rfl) | rfl) | rfl <;> decide

/-- The blanks of a line. -/
theorem isBlank_of_isInline {c : Char} (h : (c == ' ' || c == '\t') = true) : isBlank c = true := by
  simp only [Bool.or_eq_true, beq_iff_eq] at h
  rcases h with rfl | rfl <;> decide

/-- Nothing is trimmed off a text without blanks. -/
theorem trim_eq_self {text : List Char} (h : ∀ c ∈ text, isBlank c = false) : trim text = text := by
  have hkept : ∀ word : List Char, (∀ c ∈ word, isBlank c = false) →
      word.dropWhile isBlank = word := by
    intro word hw
    cases word with
    | nil => rfl
    | cons c rest => exact List.dropWhile_cons_of_neg (by simp [hw c List.mem_cons_self])
  rw [trim, trimStart, hkept text h, trimEnd, hkept text.reverse (by simpa using h),
    List.reverse_reverse]

theorem isDigit_of_mem_toDigits {value : Nat} {c : Char} (h : c ∈ Nat.toDigits 10 value) :
    c.isDigit = true :=
  Nat.isDigit_of_mem_toDigits (by decide) (by decide) h

/-- The digits of a number belong to its base. -/
theorem mem_toDigits {base : Nat} (hb : 1 < base) {value : Nat} {c : Char}
    (h : c ∈ Nat.toDigits base value) : ∃ digit < base, c = Nat.digitChar digit := by
  induction value using Nat.strongRecOn with
  | ind value ih =>
    rw [Nat.toDigits_eq_if hb] at h
    split at h
    · next hv => exact ⟨value, hv, List.mem_singleton.mp h⟩
    · next hv =>
      rcases List.mem_append.mp h with h | h
      · exact ih (value / base) (Nat.div_lt_self (by omega) hb) h
      · exact ⟨value % base, Nat.mod_lt _ (by omega), List.mem_singleton.mp h⟩

end ScriptKit.Text
