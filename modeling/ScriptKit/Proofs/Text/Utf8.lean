import ScriptKit.Text.Utf8

namespace ScriptKit.Utf8

theorem decode?_encode (text : String) : decode? (encode text) = some text := by
  have hb : (⟨(encode text).toArray⟩ : ByteArray) = text.toByteArray := rfl
  rw [decode?, hb, String.fromUTF8?, dif_pos text.isValidUTF8]
  rfl

theorem encode_of_decode? {bytes : Bytes} {text : String} (h : decode? bytes = some text) :
    encode text = bytes := by
  simp only [decode?, String.fromUTF8?, Option.dite_none_right_eq_some, Option.some.injEq] at h
  obtain ⟨hv, rfl⟩ := h
  rfl

/-- The bytes of a text are those of its characters. -/
theorem encodeChars_toList (text : String) : encodeChars text.toList = encode text := by
  have h : text.toList.utf8Encode = text.toByteArray := String.utf8Encode_toList
  change _ = text.toByteArray.data.toList
  rw [← h, List.utf8Encode, List.toList_data_toByteArray]
  rfl

/-- Only a character below 128 has no byte from 128 on, and it is its byte. -/
theorem encodeChar_of_lt {c : Char} (h : ∀ byte ∈ String.utf8EncodeChar c, byte.toNat < 128) :
    String.utf8EncodeChar c = [UInt8.ofNat c.toNat] ∧ c.toNat < 128 := by
  unfold String.utf8EncodeChar at h ⊢
  simp only [Char.toNat_val] at h ⊢
  by_cases h₁ : c.toNat ≤ 127
  · rw [if_pos h₁]
    exact ⟨rfl, by omega⟩
  · rw [if_neg h₁] at h
    exfalso
    split at h
    · have := h _ List.mem_cons_self
      simp only [UInt8.toNat_ofNat'] at this
      omega
    · split at h
      · have := h _ List.mem_cons_self
        simp only [UInt8.toNat_ofNat'] at this
        omega
      · have := h _ List.mem_cons_self
        simp only [UInt8.toNat_ofNat'] at this
        omega

/-- A text all of whose bytes are below 128 is made up of the characters with these codes. -/
theorem toList_of_lt {text : String} (h : ∀ byte ∈ encode text, byte.toNat < 128) :
    text.toList = (encode text).map fun byte => Char.ofNat byte.toNat := by
  rw [← encodeChars_toList] at h ⊢
  generalize text.toList = chars at h ⊢
  induction chars with
  | nil => rfl
  | cons c rest ih =>
    simp only [encodeChars, List.flatMap_cons, List.forall_mem_append] at h
    obtain ⟨hc, hl⟩ := encodeChar_of_lt h.1
    have hm : (UInt8.ofNat c.toNat).toNat = c.toNat := by
      simp only [UInt8.toNat_ofNat']
      omega
    have hrest : rest = (encodeChars rest).map fun byte => Char.ofNat byte.toNat := ih h.2
    rw [encodeChars, List.flatMap_cons, hc, List.cons_append, List.map_cons, hm, Char.ofNat_toNat]
    exact congrArg (c :: ·) hrest

end ScriptKit.Utf8
