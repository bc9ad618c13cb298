import ScriptKit.Bytes.Fixed
import ScriptKit.Proofs.Except

namespace ScriptKit.FixedBytes

variable {kind : Kind}

theorem turn_turn (value : FixedBytes kind) : value.turn.turn = value := by
  simp only [turn]
  split <;> simp

@[simp] theorem length_toWire (value : FixedBytes kind) : value.toWire.length = kind.length :=
  value.turn.length_eq

theorem ofBytes_eq_ok {bytes : Bytes} {value : FixedBytes kind} :
    ofBytes bytes = .ok value ↔ value.bytes = bytes := by
  rw [ofBytes]
  constructor
  · intro h
    split at h
    · cases h
      rfl
    · cases h
  · rintro rfl
    rw [dif_pos value.length_eq]

theorem ofWire_eq_ok {bytes : Bytes} {value : FixedBytes kind} :
    ofWire bytes = .ok value ↔ value.toWire = bytes := by
  simp only [ofWire, ofBytes, map_eq_ok, toWire]
  constructor
  · intro h
    obtain ⟨shown, h, rfl⟩ := h
    split at h
    · cases h
      rw [turn_turn]
    · cases h
  · intro he
    subst he
    exact ⟨value.turn, by rw [dif_pos value.turn.length_eq], turn_turn value⟩

end ScriptKit.FixedBytes
