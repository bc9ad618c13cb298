import Mathlib.Algebra.Ring.Int.Defs
import ScriptKit.Proofs.Bytes.LittleEndian

namespace ScriptKit.LittleEndian

variable {signed : Bool} {width : Nat} {value : Int} {bytes : Bytes}

/-- The numbers of a width: as many below zero as from zero up if they are signed, else all from
zero up. -/
def InRange (signed : Bool) (width : Nat) (value : Int) : Prop :=
  if signed then -2 ^ (8 * width - 1) ≤ value ∧ value < 2 ^ (8 * width - 1)
  else 0 ≤ value ∧ value < 2 ^ (8 * width)

instance (signed : Bool) (width : Nat) (value : Int) : Decidable (InRange signed width value) := by
  unfold InRange; infer_instance

theorem fits_iff_inRange (hwidth : 0 < width) :
    Fits signed width value ↔ InRange signed width value := by
  cases signed with
  | false =>
    simp only [Fits, InRange, Bool.false_eq_true, ↓reduceIte, count_eq]
    push_cast
    exact Iff.rfl
  | true =>
    have hhalf : (count width : Int) = 2 * 2 ^ (8 * width - 1) := by
      rw [count_eq, ← Int.pow_succ']
      push_cast
      congr 1
      omega
    simp only [Fits, InRange, ↓reduceIte, hhalf]
    omega

theorem ofInt?_eq_some_iff :
    ofInt? signed width value = some bytes ↔ bytes.length = width ∧ toInt signed bytes = value := by
  constructor
  · exact ofInt?_eq_some
  · intro h
    obtain ⟨rfl, rfl⟩ := h
    exact ofInt?_toInt signed bytes

/-- The highest bit of the bytes tells the sign of the number. -/
theorem signFiller_eq_of_toInt (hne : bytes ≠ []) :
    signFiller bytes = if toInt true bytes < 0 then 255 else 0 := by
  have hlt := toNat_lt bytes
  rw [signFiller_eq hne]
  simp only [toInt, true_and]
  by_cases h : count bytes.length ≤ 2 * toNat bytes
  · rw [if_pos h, if_pos h, if_pos (by omega)]
  · rw [if_neg h, if_neg h, if_neg (by omega)]

theorem length_signedDigits_le (hne : bytes ≠ []) (h : toInt true bytes = value) :
    (signedDigits value).length ≤ bytes.length := by
  obtain ⟨-, -, hleast⟩ := signedDigits_spec value
  apply hleast bytes.length (List.length_pos_iff.mpr hne)
  subst h
  exact fits_toInt true bytes

/-- A number is written by its shortest bytes and bytes of its sign behind them. -/
theorem ofSigned?_eq_some (hwidth : 0 < width) (h : ofSigned? width value = some bytes) :
    (signedDigits value).length ≤ width ∧
      bytes = signedDigits value ++
        List.replicate (width - (signedDigits value).length) (if value < 0 then 255 else 0) := by
  obtain ⟨hne, hspell, hleast⟩ := signedDigits_spec value
  rw [ofSigned?, Option.ite_none_right_eq_some, ← fits_signed_iff, Option.some.injEq] at h
  obtain ⟨hfits, rfl⟩ := h
  have hlength := hleast width hwidth hfits
  refine ⟨hlength, ?_⟩
  rw [resize_of_le _ hlength, signFiller_eq_of_toInt hne, hspell]

/-- The numbers in the range of a width are just those that are written in it, and writing and
reading are inverse to each other: a number is written as the one byte string of the width that is
read as the number. In two's complement these bytes are the shortest that are read as the number,
followed by bytes of its sign. -/
theorem fixed_width_bijective (signed : Bool) (width : Nat) (hwidth : 0 < width) (value : Int) :
    ((∃ bytes, ofInt? signed width value = some bytes) ↔ InRange signed width value) ∧
    (∀ bytes, ofInt? signed width value = some bytes ↔
      bytes.length = width ∧ toInt signed bytes = value) ∧
    (∀ bytes, bytes.length = width → ofInt? signed width (toInt signed bytes) = some bytes) ∧
    (∀ bytes, ofSigned? width value = some bytes →
      (signedDigits value).length ≤ width ∧
      bytes = signedDigits value ++
        List.replicate (width - (signedDigits value).length) (if value < 0 then 255 else 0)) ∧
    toInt true (signedDigits value) = value ∧
    ∀ bytes, bytes ≠ [] → toInt true bytes = value →
      (signedDigits value).length ≤ bytes.length := by
  refine ⟨?_, fun bytes => ofInt?_eq_some_iff, ?_, fun bytes => ofSigned?_eq_some hwidth,
    (signedDigits_spec value).2.1, fun bytes => length_signedDigits_le⟩
  · rw [← fits_iff_inRange hwidth, ofInt?_eq]
    split
    · next h => exact iff_of_true ⟨_, rfl⟩ h
    · next h => exact iff_of_false nofun h
  · intro bytes h
    subst h
    exact ofInt?_toInt signed bytes

/-- The least number of two bytes, and one that is extended by the byte of its sign. -/
theorem fixed_width_bijective_two_bytes :
    (∃ bytes, ofInt? true 2 (-32768) = some bytes) ∧
    ofInt? true 3 (-32768) = some ([0x00, 0x80] ++ [0xff]) ∧
    ¬(∃ bytes, ofInt? false 2 65536 = some bytes) := by
  obtain ⟨hleast, -⟩ := fixed_width_bijective true 2 (by decide) (-32768)
  obtain ⟨-, hextended, -⟩ := fixed_width_bijective true 3 (by decide) (-32768)
  obtain ⟨hbeyond, -⟩ := fixed_width_bijective false 2 (by decide) 65536
  exact ⟨hleast.mpr (by decide), (hextended _).mpr (by decide), mt hbeyond.mp (by decide)⟩

end ScriptKit.LittleEndian
