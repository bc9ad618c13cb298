import Mathlib.Algebra.Group.Nat.Defs
import ScriptKit.Bytes.BitSize

namespace ScriptKit.BitSize

theorem ofNat_le_iff {n bits : Nat} : ofNat n ≤ bits ↔ n < 2 ^ bits := by
  rw [ofNat]
  split
  · next h =>
    subst h
    exact iff_of_true (Nat.zero_le bits) (Nat.two_pow_pos bits)
  · next h => exact Nat.log2_lt h

theorem ofNat_two_mul {n : Nat} (h : n ≠ 0) : ofNat (2 * n) = ofNat n + 1 := by
  rw [ofNat, if_neg (by omega), ofNat, if_neg h, Nat.log2_two_mul h]

theorem ofNat_two_pow (k : Nat) : ofNat (2 ^ k) = k + 1 := by
  rw [ofNat, if_neg (Nat.ne_of_gt (Nat.two_pow_pos k)), Nat.log2_two_pow]

/-- All digits below one vanish exactly if the number is a multiple of the power there. -/
theorem forall_digit_eq_zero_iff {n base count : Nat} (hb : 0 < base) :
    (∀ i < count, n / base ^ i % base = 0) ↔ n % base ^ count = 0 := by
  induction count with
  | zero => simp [Nat.mod_one]
  | succ count ih =>
    have hpow : 0 < base ^ count := Nat.pow_pos hb
    rw [Nat.mod_pow_succ, Nat.add_eq_zero_iff, ← ih, Nat.mul_eq_zero]
    constructor
    · intro h
      exact ⟨fun i hi => h i (by omega), .inr (h count (by omega))⟩
    · rintro ⟨hlow, hzero | hhigh⟩ i hi
      · omega
      · rcases Nat.lt_succ_iff_lt_or_eq.mp hi with hlt | rfl
        · exact hlow i hlt
        · exact hhigh

/-- The highest word of a number, and those below it. -/
theorem words_eq {n : Nat} (h : n ≠ 0) :
    ∃ count, words n = n / (2 ^ 64) ^ count ::
        ((List.range count).reverse.map fun i => n / (2 ^ 64) ^ i % 2 ^ 64) ∧
      count = (ofNat n - 1) / 64 := by
  have hpos : 0 < ofNat n := by
    rw [ofNat, if_neg h]
    omega
  refine ⟨(ofNat n - 1) / 64, ?_, rfl⟩
  have hcount : (ofNat n + 63) / 64 = (ofNat n - 1) / 64 + 1 := by omega
  have hlt : n < (2 ^ 64) ^ ((ofNat n - 1) / 64 + 1) := by
    rw [← Nat.pow_mul]
    exact ofNat_le_iff.mp (by omega)
  have hword : n / (2 ^ 64) ^ ((ofNat n - 1) / 64) < 2 ^ 64 := by
    rw [Nat.pow_succ] at hlt
    exact Nat.div_lt_of_lt_mul hlt
  have hshift (i : Nat) : n >>> (64 * i) % UInt64.size = n / (2 ^ 64) ^ i % 2 ^ 64 := by
    rw [Nat.shiftRight_eq_div_pow, Nat.pow_mul]
    rfl
  simp only [words, hshift]
  rw [hcount, List.range_succ, List.reverse_append, List.reverse_singleton,
    List.singleton_append, List.map_cons, Nat.mod_eq_of_lt hword]

theorem isPowerOfTwo_iff {n : Nat} : isPowerOfTwo n = true ↔ ∃ k, n = 2 ^ k := by
  by_cases h : n = 0
  · subst h
    have hno : ∀ k, 0 ≠ 2 ^ k := fun k => Nat.ne_of_lt (Nat.two_pow_pos k)
    simp [isPowerOfTwo, words, ofNat, hno]
  obtain ⟨count, hwords, hcount⟩ := words_eq h
  have hlow : ((List.range count).reverse.map fun i => n / (2 ^ 64) ^ i % 2 ^ 64).all (· == 0) =
      true ↔ n % (2 ^ 64) ^ count = 0 := by
    rw [← forall_digit_eq_zero_iff (Nat.two_pow_pos 64)]
    simp
  rw [isPowerOfTwo, hwords]
  simp only [Bool.and_eq_true, beq_iff_eq, hlow, Nat.one_shiftLeft]
  constructor
  · rintro ⟨hhigh, hzero⟩
    refine ⟨64 * count + (n / (2 ^ 64) ^ count).log2, ?_⟩
    rw [Nat.pow_add, ← hhigh, Nat.pow_mul, Nat.mul_div_cancel' (Nat.dvd_of_mod_eq_zero hzero)]
  · rintro ⟨k, rfl⟩
    rw [ofNat_two_pow, Nat.add_sub_cancel] at hcount
    have hsplit : 2 ^ k = (2 ^ 64) ^ count * 2 ^ (k - 64 * count) := by
      rw [← Nat.pow_mul, ← Nat.pow_add]
      congr 1
      omega
    have hdiv : 2 ^ k / (2 ^ 64) ^ count = 2 ^ (k - 64 * count) := by
      rw [hsplit]
      exact Nat.mul_div_cancel_left _ (Nat.pow_pos (Nat.two_pow_pos 64))
    rw [hdiv, Nat.log2_two_pow]
    exact ⟨rfl, by rw [hsplit]; exact Nat.mul_mod_right ..⟩

/-- The bits of a number in two's complement are the least that have room for it. -/
theorem ofInt_le_iff {value : Int} {bits : Nat} :
    ofInt value ≤ bits ↔ -(2 ^ bits : Nat) ≤ 2 * value ∧ 2 * value < (2 ^ bits : Nat) := by
  have hpos := Nat.two_pow_pos bits
  rw [ofInt]
  by_cases hzero : value = 0
  · subst hzero
    simp only [ofNat, Int.natAbs_zero, ↓reduceIte]
    omega
  have hn : value.natAbs ≠ 0 := Int.natAbs_ne_zero.mpr hzero
  have hdouble : ofNat value.natAbs + 1 ≤ bits ↔ 2 * value.natAbs < 2 ^ bits := by
    rw [← ofNat_two_mul hn, ofNat_le_iff]
  simp only [hzero, ↓reduceIte]
  by_cases hsign : 0 < value
  · rw [if_pos hsign, hdouble]
    omega
  rw [if_neg hsign]
  split
  · next hpower =>
    obtain ⟨k, hk⟩ := isPowerOfTwo_iff.mp hpower
    have hfits : k + 1 ≤ bits ↔ 2 * value.natAbs ≤ 2 ^ bits := by
      rw [hk, ← Nat.pow_le_pow_iff_right Nat.one_lt_two, Nat.pow_succ, Nat.mul_comm]
    rw [hk, ofNat_two_pow, hfits]
    omega
  · next hpower =>
    -- What is no power of two does not lie on the edge of the range.
    have hedge : 2 * value.natAbs ≠ 2 ^ bits := by
      intro he
      cases bits with
      | zero => omega
      | succ bits =>
        rw [Nat.pow_succ] at he
        exact hpower (isPowerOfTwo_iff.mpr ⟨bits, by omega⟩)
    rw [hdouble]
    omega

end ScriptKit.BitSize
