import ScriptKit.Proofs.Except
import ScriptKit.Text.Utf8

namespace ScriptKit.Hex

/-- Digits take one byte in UTF-8, and that byte has their value. -/
theorem value_digit : ∀ value < 16,
    String.utf8EncodeChar (digit value) = [UInt8.ofNat (digit value).toNat] ∧
      value? (UInt8.ofNat (digit value).toNat) = some value := by
  decide

/-- The digits of a byte string are figures and small letters. -/
theorem mem_encode {bytes : Bytes} {c : Char} (h : c ∈ encode bytes) :
    c ∈ ['0', '1', '2', '3', '4', '5', '6', '7', '8', '9', 'a', 'b', 'c', 'd', 'e', 'f'] := by
  have hd : ∀ value < 16, digit value ∈
      ['0', '1', '2', '3', '4', '5', '6', '7', '8', '9', 'a', 'b', 'c', 'd', 'e', 'f'] := by
    decide
  obtain ⟨byte, -, hc⟩ := List.mem_flatMap.mp h
  have hb := byte.toNat_lt
  simp only [digits, List.mem_cons, List.not_mem_nil, or_false] at hc
  rcases hc with rfl | rfl
  · exact hd _ (by omega)
  · exact hd _ (by omega)

/-- The two digits of a byte as they stand in a text. -/
theorem encodeChars_cons (byte : UInt8) (rest : Bytes) :
    Utf8.encodeChars (encode (byte :: rest)) =
      UInt8.ofNat (digit (byte.toNat / 16)).toNat :: UInt8.ofNat (digit (byte.toNat % 16)).toNat ::
        Utf8.encodeChars (encode rest) := by
  have hb := byte.toNat_lt
  have hhigh := (value_digit (byte.toNat / 16) (by omega)).1
  have hlow := (value_digit (byte.toNat % 16) (by omega)).1
  simp only [Utf8.encodeChars, encode, List.flatMap_cons, digits, List.cons_append,
    List.nil_append, hhigh, hlow]

theorem length_encodeChars (bytes : Bytes) :
    (Utf8.encodeChars (encode bytes)).length = 2 * bytes.length := by
  induction bytes with
  | nil => rfl
  | cons byte rest ih =>
    rw [encodeChars_cons]
    simp only [List.length_cons, ih]
    omega

theorem pairs_encode (bytes done : Bytes) (position : Nat) :
    decode.pairs done position (Utf8.encodeChars (encode bytes)) = .ok (done.reverse ++ bytes) := by
  induction bytes generalizing done position with
  | nil => simp [encode, Utf8.encodeChars, decode.pairs]
  | cons byte rest ih =>
    have hb := byte.toNat_lt
    have hhigh := (value_digit (byte.toNat / 16) (by omega)).2
    have hlow := (value_digit (byte.toNat % 16) (by omega)).2
    have hjoin : UInt8.ofNat (16 * (byte.toNat / 16) + byte.toNat % 16) = byte := by
      rw [Nat.div_add_mod, UInt8.ofNat_toNat]
    rw [encodeChars_cons, decode.pairs]
    refine bind_eq_ok.mpr ⟨byte.toNat / 16, by rw [value, hhigh], ?_⟩
    refine bind_eq_ok.mpr ⟨byte.toNat % 16, by rw [value, hlow], ?_⟩
    rw [hjoin, ih, List.reverse_cons, List.append_assoc]
    rfl

/-- What is written in hexadecimal is read back. -/
theorem decode_encode (bytes : Bytes) : decode (Utf8.encodeChars (encode bytes)) = .ok bytes := by
  have hl : ¬ (Utf8.encodeChars (encode bytes)).length % 2 = 1 := by
    rw [length_encodeChars]
    omega
  rw [decode, if_neg hl, pairs_encode]
  rfl

/-- Nothing but digits is read. -/
theorem value_of_pairs {done bytes text : Bytes} {position : Nat} (heven : text.length % 2 = 0)
    (h : decode.pairs done position text = .ok bytes) :
    ∀ byte ∈ text, ∃ v, value? byte = some v := by
  have hvalue : ∀ {position byte v}, value position byte = .ok v → ∃ v, value? byte = some v := by
    intro position byte v hv
    cases hd : value? byte with
    | some v => exact ⟨v, rfl⟩
    | none =>
      rw [value, hd] at hv
      cases hv
  induction done, position, text using decode.pairs.induct with
  | case1 done position high low rest ih =>
    rw [decode.pairs] at h
    obtain ⟨high', hhigh, h⟩ := bind_eq_ok.mp h
    obtain ⟨low', hlow, h⟩ := bind_eq_ok.mp h
    rw [List.length_cons, List.length_cons] at heven
    simp only [List.forall_mem_cons]
    exact ⟨hvalue hhigh, hvalue hlow, ih high' low' (by omega) h⟩
  | case2 text _ _ hpair =>
    cases text with
    | nil => simp
    | cons high rest =>
      cases rest with
      | nil => simp at heven
      | cons low rest => exact absurd rfl (hpair high low rest)

theorem value_of_decode {text bytes : Bytes} (h : decode text = .ok bytes) :
    ∀ byte ∈ text, ∃ v, value? byte = some v := by
  rw [decode] at h
  split at h
  · cases h
  · next heven => exact value_of_pairs (by omega) h

end ScriptKit.Hex
