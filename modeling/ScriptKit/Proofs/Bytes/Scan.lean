import ScriptKit.Bytes.Scan
import ScriptKit.Proofs.Except

namespace ScriptKit.Scan

variable {α β : Type}

theorem ensure_eq_ok {condition : Prop} [Decidable condition] {u : Unit} :
    ensure condition = .ok u ↔ condition := by
  simp [ensure]

theorem expect_eq_ok {value? : Option α} {value : α} :
    expect value? = .ok value ↔ value? = some value := by
  cases value? <;> simp [expect]

theorem byteAt_eq_ok {bytes : Bytes} {index : Nat} {byte : UInt8} :
    byteAt bytes index = .ok byte ↔ bytes[index]? = some byte := by
  cases h : bytes[index]? <;> simp [byteAt, h]

theorem bytesAt_eq_ok {bytes part : Bytes} {start count : Nat} :
    bytesAt bytes start count = .ok part ↔ slice? bytes start count = some part := by
  cases h : slice? bytes start count <;> simp [bytesAt, h]

/-- A slice has the length asked for and stands behind as many bytes as were passed over. -/
theorem slice?_eq_some {bytes part : Bytes} {start count : Nat} :
    slice? bytes start count = some part ↔
      ∃ before after, bytes = before ++ (part ++ after) ∧ before.length = start ∧
        part.length = count := by
  rw [slice?, Option.ite_none_right_eq_some, Option.some.injEq]
  constructor
  · intro h
    obtain ⟨hl, rfl⟩ := h
    refine ⟨bytes.take start, (bytes.drop start).drop count, ?_, ?_, ?_⟩
    · rw [List.take_append_drop, List.take_append_drop]
    · rw [List.length_take]
      omega
    · rw [List.length_take, List.length_drop]
      omega
  · intro h
    obtain ⟨before, after, rfl, rfl, rfl⟩ := h
    refine ⟨by simp, ?_⟩
    rw [List.drop_left, List.take_left]

/-- Behind the bytes passed over, places count from there. -/
theorem getElem?_behind (before rest : Bytes) (index : Nat) :
    (before ++ rest)[before.length + index]? = rest[index]? := by
  rw [List.getElem?_append_right (Nat.le_add_right ..), Nat.add_sub_cancel_left]

theorem slice?_behind (before rest : Bytes) (start count : Nat) :
    slice? (before ++ rest) (before.length + start) count = slice? rest start count := by
  have hdrop : (before ++ rest).drop (before.length + start) = rest.drop start :=
    List.drop_length_add_append start
  have hlength : before.length + start + count ≤ (before ++ rest).length ↔
      start + count ≤ rest.length := by
    rw [List.length_append]
    omega
  simp only [slice?, hdrop, hlength]

/-- Whether every byte taken for granted is there. -/
def InBounds (scan : Scan α) : Prop := ∀ index, scan ≠ .error (.outOfBounds index)

theorem inBounds_ok (value : α) : InBounds (.ok value : Scan α) := by
  intro index h
  cases h

theorem inBounds_ensure (condition : Prop) [Decidable condition] :
    InBounds (ensure condition) := by
  intro index h
  rw [ensure] at h
  split at h <;> cases h

theorem inBounds_expect (value? : Option α) : InBounds (expect value?) := by
  intro index h
  cases value? <;> cases h

theorem inBounds_byteAt {bytes : Bytes} {index : Nat} (h : index < bytes.length) :
    InBounds (byteAt bytes index) := by
  rw [byteAt, List.getElem?_eq_getElem h]
  exact inBounds_ok _

theorem inBounds_bytesAt {bytes : Bytes} {start count : Nat} (h : start + count ≤ bytes.length) :
    InBounds (bytesAt bytes start count) := by
  rw [bytesAt, slice?, if_pos h]
  exact inBounds_ok _

/-- What is done next only has to stay within bounds after a first look that found something. -/
theorem InBounds.bind {scan : Scan α} {next : α → Scan β} (hs : InBounds scan)
    (hn : ∀ value, scan = .ok value → InBounds (next value)) : InBounds (scan >>= next) := by
  cases scan with
  | error miss =>
    intro index h
    exact hs index (by rw [show miss = .outOfBounds index from Except.error.inj h])
  | ok value => exact hn value rfl

end ScriptKit.Scan
