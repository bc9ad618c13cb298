import ScriptKit.Bytes.LittleEndian
import ScriptKit.Proofs.Bytes.BitSize

namespace ScriptKit.LittleEndian

theorem count_pos (width : Nat) : 0 < count width := by
  induction width with
  | zero => decide
  | succ width ih =>
    rw [count]
    omega

@[simp] theorem length_ofNat (width value : Nat) : (ofNat width value).length = width := by
  induction width generalizing value with
  | zero => rfl
  | succ width ih => simp [ofNat, ih]

/-- The lowest bytes of the lowest bytes of a number. -/
theorem take_ofNat (value : Nat) {width wider : Nat} (h : width ≤ wider) :
    (ofNat wider value).take width = ofNat width value := by
  induction width generalizing wider value with
  | zero => rfl
  | succ width ih =>
    cases wider with
    | zero => omega
    | succ wider => rw [ofNat, ofNat, List.take_succ_cons, ih _ (Nat.le_of_succ_le_succ h)]

/-- What the bytes spell is below the number of values of their width. -/
theorem toNat_lt (bytes : Bytes) : toNat bytes < count bytes.length := by
  induction bytes with
  | nil => decide
  | cons byte rest ih =>
    have hb := byte.toNat_lt
    simp only [toNat, List.length_cons, count]
    omega

theorem toNat_ofNat {width value : Nat} (h : value < count width) :
    toNat (ofNat width value) = value := by
  induction width generalizing value with
  | zero =>
    simp only [count] at h
    simp only [ofNat, toNat]
    omega
  | succ width ih =>
    simp only [count] at h
    have hd : value / 256 < count width := Nat.div_lt_of_lt_mul h
    simp only [ofNat, toNat, ih hd, UInt8.toNat_ofNat']
    omega

theorem ofNat_toNat (bytes : Bytes) : ofNat bytes.length (toNat bytes) = bytes := by
  induction bytes with
  | nil => rfl
  | cons byte rest ih =>
    have hb := byte.toNat_lt
    have hd : (byte.toNat + 256 * toNat rest) / 256 = toNat rest := by omega
    have hm : UInt8.ofNat (byte.toNat + 256 * toNat rest) = byte := by
      apply UInt8.toNat_inj.mp
      simp only [UInt8.toNat_ofNat']
      omega
    simp only [toNat, List.length_cons, ofNat, hd, hm, ih]

/-- The range of `width` bytes: both halves around zero if signed, else from zero up. -/
def Fits (signed : Bool) (width : Nat) (value : Int) : Prop :=
  if signed then -(count width : Int) ≤ 2 * value ∧ 2 * value < count width
  else 0 ≤ value ∧ value < count width

instance (signed : Bool) (width : Nat) (value : Int) : Decidable (Fits signed width value) := by
  unfold Fits; infer_instance

/-- A number read from bytes lies in the range of their width. -/
theorem fits_toInt (signed : Bool) (bytes : Bytes) :
    Fits signed bytes.length (toInt signed bytes) := by
  have hl := toNat_lt bytes
  cases signed with
  | false =>
    simp only [Fits, toInt, Bool.false_eq_true, false_and, ↓reduceIte]
    omega
  | true =>
    simp only [Fits, toInt, true_and, ↓reduceIte]
    split <;> omega

/-- The remainder that is written for a number read from bytes is what they spell unsigned. -/
theorem toInt_emod (signed : Bool) (bytes : Bytes) :
    (toInt signed bytes % count bytes.length).toNat = toNat bytes := by
  have hl := toNat_lt bytes
  have hn : ((toNat bytes : Int) % count bytes.length).toNat = toNat bytes := by
    rw [Int.emod_eq_of_lt (by omega) (by omega)]
    omega
  simp only [toInt]
  split
  · rw [Int.sub_emod_right]
    exact hn
  · exact hn

/-- The bytes written for a number in range have the width asked for and spell it. -/
theorem toInt_ofNat {signed : Bool} {width : Nat} {value : Int} (h : Fits signed width value) :
    toInt signed (ofNat width (value % count width).toNat) = value := by
  have hc := count_pos width
  have hp : 0 ≤ value % count width := Int.emod_nonneg _ (by omega)
  have hl : value % count width < count width := Int.emod_lt_of_pos _ (by omega)
  simp only [toInt, length_ofNat]
  rw [toNat_ofNat (by omega), Int.toNat_of_nonneg hp]
  cases signed with
  | false =>
    simp only [Fits, Bool.false_eq_true, ↓reduceIte, false_and] at h ⊢
    exact Int.emod_eq_of_lt h.1 h.2
  | true =>
    simp only [Fits, ↓reduceIte, true_and] at h ⊢
    by_cases hv : 0 ≤ value
    · rw [Int.emod_eq_of_lt hv (by omega)]
      split <;> omega
    · have he : value % count width = value + count width := by
        rw [← Int.add_emod_right, Int.emod_eq_of_lt (by omega) (by omega)]
      rw [he]
      split <;> omega

/-- Bytes are told by their number and what it spells. -/
theorem eq_ofNat_of_toInt {signed : Bool} {bytes : Bytes} {value : Int}
    (h : toInt signed bytes = value) :
    bytes = ofNat bytes.length (value % count bytes.length).toNat := by
  rw [← h, toInt_emod, ofNat_toNat]

theorem count_eq (width : Nat) : count width = 2 ^ (8 * width) := by
  induction width with
  | zero => rfl
  | succ width ih => rw [count, ih, Nat.mul_succ, Nat.pow_add, Nat.mul_comm]

theorem count_add (a b : Nat) : count (a + b) = count a * count b := by
  rw [count_eq, count_eq, count_eq, Nat.mul_add, Nat.pow_add]

theorem toNat_append (a b : Bytes) : toNat (a ++ b) = toNat a + count a.length * toNat b := by
  induction a with
  | nil => simp [toNat, count]
  | cons byte rest ih =>
    rw [List.cons_append, toNat, ih, toNat, List.length_cons, count, Nat.mul_add, Nat.mul_assoc,
      Nat.add_assoc]

theorem toNat_zeros (width : Nat) : toNat (List.replicate width 0) = 0 := by
  induction width with
  | zero => rfl
  | succ width ih => rw [List.replicate_succ, toNat, ih]; rfl

theorem toNat_ones (width : Nat) : toNat (List.replicate width 255) + 1 = count width := by
  induction width with
  | zero => rfl
  | succ width ih =>
    have hbyte : (255 : UInt8).toNat = 255 := rfl
    rw [List.replicate_succ, toNat, count, ← ih, hbyte]
    omega

theorem resize_of_le {width : Nat} {bytes : Bytes} (filler : UInt8) (h : bytes.length ≤ width) :
    resize width filler bytes = bytes ++ List.replicate (width - bytes.length) filler := by
  rw [resize, List.take_of_length_le h]

theorem length_resize (width : Nat) (filler : UInt8) (bytes : Bytes) :
    (resize width filler bytes).length = width := by
  simp only [resize, List.length_append, List.length_take, List.length_replicate]
  omega

/-- Behind a byte with its highest bit set stand ones, else zeros. -/
theorem signFiller_eq {bytes : Bytes} (h : bytes ≠ []) :
    signFiller bytes = if count bytes.length ≤ 2 * toNat bytes then 255 else 0 := by
  obtain ⟨front, last, rfl⟩ : ∃ front last, bytes = front ++ [last] :=
    ⟨_, _, (List.dropLast_concat_getLast h).symm⟩
  have hfront := toNat_lt front
  have hlast := last.toNat_lt
  have hhigh : count (front ++ [last]).length ≤ 2 * toNat (front ++ [last]) ↔
      128 ≤ last.toNat := by
    rw [List.length_append, count_add, toNat_append]
    simp only [List.length_singleton, count, toNat, Nat.mul_one, Nat.mul_zero, Nat.add_zero]
    constructor
    · intro hle
      refine Nat.le_of_not_lt fun hlow => ?_
      have : count front.length * last.toNat ≤ count front.length * 127 :=
        Nat.mul_le_mul_left _ (by omega)
      omega
    · intro hle
      have : count front.length * 128 ≤ count front.length * last.toNat :=
        Nat.mul_le_mul_left _ hle
      omega
  have hbit : (last >>> 7).toNat = last.toNat / 128 := by
    rw [UInt8.toNat_shiftRight, Nat.shiftRight_eq_div_pow]
    rfl
  have hfiller : signFiller (front ++ [last]) = (last >>> 7) * 255 := by
    simp [signFiller]
  rw [hfiller, ← UInt8.toNat_inj, UInt8.toNat_mul, hbit]
  split
  · next hset =>
    have hone : last.toNat / 128 = 1 := by
      have := hhigh.mp hset
      omega
    rw [hone]
    rfl
  · next hset =>
    have hzero : last.toNat / 128 = 0 := by
      have := mt hhigh.mpr hset
      omega
    rw [hzero]
    rfl

/-- Bytes in two's complement spell the same number when they are filled up. -/
theorem toInt_resize {width : Nat} {bytes : Bytes} (h : bytes ≠ []) (hw : bytes.length ≤ width) :
    toInt true (resize width (signFiller bytes) bytes) = toInt true bytes := by
  have hlt := toNat_lt bytes
  have hcount := count_add bytes.length (width - bytes.length)
  rw [Nat.add_sub_cancel' hw] at hcount
  have hnat : toNat (resize width (signFiller bytes) bytes) = toNat bytes +
      count bytes.length * toNat (List.replicate (width - bytes.length) (signFiller bytes)) := by
    rw [resize_of_le _ hw, toNat_append]
  simp only [toInt, length_resize, true_and, hnat]
  rw [signFiller_eq h]
  split
  · next hhigh =>
    have hones := toNat_ones (width - bytes.length)
    rw [← hones, Nat.mul_succ] at hcount
    rw [if_pos (by omega)]
    push_cast [hcount]
    omega
  · next hlow =>
    have hpos := count_pos (width - bytes.length)
    have hle : count bytes.length ≤ count width := by
      rw [hcount]
      exact Nat.le_mul_of_pos_right _ hpos
    rw [toNat_zeros, Nat.mul_zero, Nat.add_zero, if_neg (by omega)]

theorem fits_signed_iff {width : Nat} {value : Int} :
    Fits true width value ↔ (BitSize.ofInt value + 7) / 8 ≤ width := by
  have hbits : (BitSize.ofInt value + 7) / 8 ≤ width ↔ BitSize.ofInt value ≤ 8 * width := by
    omega
  rw [hbits, BitSize.ofInt_le_iff, ← count_eq]
  exact Iff.rfl

theorem fits_unsigned_iff {width : Nat} {value : Int} :
    Fits false width value ↔ ¬(value < 0 ∨ 8 * width < BitSize.ofNat value.natAbs) := by
  rw [not_or, Nat.not_lt, Int.not_lt, BitSize.ofNat_le_iff, ← count_eq, Fits]
  simp only [Bool.false_eq_true, ↓reduceIte]
  omega

/-- The fewest bytes in two's complement spell the number, and every width that has room for it has
room for them. -/
theorem signedDigits_spec (value : Int) :
    signedDigits value ≠ [] ∧ toInt true (signedDigits value) = value ∧
      ∀ width, 0 < width → Fits true width value → (signedDigits value).length ≤ width := by
  obtain ⟨magnitude, hm, hbounds⟩ : ∃ magnitude,
      magnitude = (if value < 0 then value.natAbs - 1 else value.natAbs) ∧
        ∀ half : Nat, -(half : Int) ≤ value ∧ value < half ↔ magnitude < half := by
    refine ⟨_, rfl, fun half => ?_⟩
    split <;> omega
  have hfits : ∀ width, 0 < width →
      (Fits true width value ↔ BitSize.ofNat magnitude ≤ 8 * width - 1) := by
    intro width hw
    have hhalf : count width = 2 * 2 ^ (8 * width - 1) := by
      rw [count_eq, ← Nat.pow_succ']
      congr 1
      omega
    rw [BitSize.ofNat_le_iff, ← hbounds, Fits, hhalf]
    simp only [↓reduceIte]
    omega
  have hown := (hfits (BitSize.ofNat magnitude / 8 + 1) (by omega)).mpr (by omega)
  simp only [signedDigits, ← hm]
  refine ⟨?_, toInt_ofNat hown, fun width hw h => ?_⟩
  · exact List.ne_nil_of_length_pos (by rw [length_ofNat]; omega)
  · have := (hfits width hw).mp h
    rw [length_ofNat]
    omega

theorem ofSigned?_of_fits {width : Nat} {value : Int} (h : Fits true width value) :
    ofSigned? width value = some (ofNat width (value % count width).toNat) := by
  rw [ofSigned?, if_pos (fits_signed_iff.mp h), Option.some.injEq]
  obtain ⟨hne, hspell, hlength⟩ := signedDigits_spec value
  cases width with
  | zero =>
    exact List.eq_nil_of_length_eq_zero (length_resize ..)
  | succ width =>
    have hresize := toInt_resize hne (hlength _ (Nat.succ_pos width) h)
    have heq := eq_ofNat_of_toInt (hresize.trans hspell)
    rwa [length_resize] at heq

theorem ofUnsigned?_of_fits {width : Nat} {value : Int} (h : Fits false width value) :
    ofUnsigned? width value = some (ofNat width (value % count width).toNat) := by
  rw [ofUnsigned?, if_neg (fits_unsigned_iff.mp h), Option.some.injEq]
  obtain ⟨n, rfl⟩ := Int.eq_ofNat_of_zero_le h.1
  have hlt : n < count width := by
    have := h.2
    simpa using this
  rw [Int.natAbs_natCast, Int.emod_eq_of_lt h.1 h.2, Int.toNat_natCast, digits]
  cases width with
  | zero =>
    exact List.eq_nil_of_length_eq_zero (length_resize ..)
  | succ width =>
    have hbits := BitSize.ofNat_le_iff.mpr (count_eq (width + 1) ▸ hlt)
    have hown : n < count (max 1 ((BitSize.ofNat n + 7) / 8)) := by
      rw [count_eq]
      exact BitSize.ofNat_le_iff.mp (by omega)
    have hnat : toNat (resize (width + 1) 0 (ofNat (max 1 ((BitSize.ofNat n + 7) / 8)) n)) = n := by
      rw [resize_of_le _ (by rw [length_ofNat]; omega), toNat_append, toNat_zeros, Nat.mul_zero,
        Nat.add_zero, toNat_ofNat hown]
    have heq := ofNat_toNat (resize (width + 1) 0 (ofNat (max 1 ((BitSize.ofNat n + 7) / 8)) n))
    rw [hnat, length_resize] at heq
    exact heq.symm

/-- A width has room for a number exactly if it is in range. -/
theorem ofInt?_eq (signed : Bool) (width : Nat) (value : Int) :
    ofInt? signed width value =
      if Fits signed width value then some (ofNat width (value % count width).toNat) else none := by
  cases signed with
  | true =>
    rw [ofInt?, if_pos rfl]
    split
    · next h => exact ofSigned?_of_fits h
    · next h => rw [ofSigned?, if_neg (mt fits_signed_iff.mpr h)]
  | false =>
    rw [ofInt?, if_neg Bool.false_ne_true]
    split
    · next h => exact ofUnsigned?_of_fits h
    · next h => rw [ofUnsigned?, if_pos (Decidable.of_not_not (mt fits_unsigned_iff.mpr h))]

/-- A number read from bytes is written back as the same bytes. -/
theorem ofInt?_toInt (signed : Bool) (bytes : Bytes) :
    ofInt? signed bytes.length (toInt signed bytes) = some bytes := by
  rw [ofInt?_eq, if_pos (fits_toInt signed bytes), toInt_emod, ofNat_toNat]

theorem ofInt?_eq_some {signed : Bool} {width : Nat} {value : Int} {bytes : Bytes}
    (h : ofInt? signed width value = some bytes) :
    bytes.length = width ∧ toInt signed bytes = value := by
  rw [ofInt?_eq, Option.ite_none_right_eq_some, Option.some.injEq] at h
  obtain ⟨hf, rfl⟩ := h
  exact ⟨length_ofNat _ _, toInt_ofNat hf⟩

end ScriptKit.LittleEndian
