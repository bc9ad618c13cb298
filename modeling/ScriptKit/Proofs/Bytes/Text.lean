import ScriptKit.Proofs.Bytes.Fixed
import ScriptKit.Proofs.Bytes.Hex
import ScriptKit.Proofs.Text.Char

namespace ScriptKit

namespace Bytes

/-- No digit is a blank. -/
theorem not_isBlank_of_mem_encode {bytes : Bytes} {c : Char} (h : c ∈ Hex.encode bytes) :
    Text.isBlank c = false := by
  have hall : ['0', '1', '2', '3', '4', '5', '6', '7', '8', '9', 'a', 'b', 'c', 'd', 'e',
      'f'].all (fun c => !Text.isBlank c) = true := by
    decide
  simpa using List.all_eq_true.mp hall c (Hex.mem_encode h)

/-- The mark of the radix is not made up of digits. -/
theorem stripMark_encode (bytes : Bytes) : stripMark (Hex.encode bytes) = Hex.encode bytes := by
  have hx : 'x' ∉ Hex.encode bytes := fun h => absurd (Hex.mem_encode h) (by decide)
  have hX : 'X' ∉ Hex.encode bytes := fun h => absurd (Hex.mem_encode h) (by decide)
  rw [stripMark.eq_def]
  split
  · next rest he => simp [he] at hx
  · next rest he => simp [he] at hX
  · rfl

/-- A byte string is read back from its text. -/
theorem ofText_toText (bytes : Bytes) : ofText (toText bytes) = .ok bytes := by
  rw [ofText, toText, String.toList_ofList,
    Text.trim_eq_self fun _ => not_isBlank_of_mem_encode, stripMark_encode, Hex.decode_encode]

end Bytes

/-- A byte string of known length is read back from its text. -/
theorem FixedBytes.ofText_toText {kind : Kind} (value : FixedBytes kind) :
    ofText value.toText = .ok value :=
  bind_eq_ok.mpr ⟨value.bytes, Bytes.ofText_toText value.bytes, ofBytes_eq_ok.mpr rfl⟩

end ScriptKit
