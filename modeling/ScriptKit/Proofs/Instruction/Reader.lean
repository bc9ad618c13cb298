import ScriptKit.Instruction.Reader
import ScriptKit.Proofs.Instruction.Codec

namespace ScriptKit.ScriptReader

variable {r : ScriptReader} {byte : UInt8} {bytes rest : Bytes} {i : Instruction} {fault : Fault}

theorem next_of_rest_nil (h : r.rest = []) : r.next = (.ok none, r) := by
  rw [next]
  split
  · rfl
  · next hr => rw [h] at hr; cases hr

theorem next_of_read_error (h : r.rest = byte :: bytes)
    (hr : Instruction.read r.offset byte bytes = .error fault) : r.next.1 = .error fault := by
  simp only [next, h, hr]
  cases fault <;> rfl

theorem next_of_read_ok (h : r.rest = byte :: bytes)
    (hr : Instruction.read r.offset byte bytes = .ok (i, rest)) :
    r.next = (.ok (some i), r.skip i.size) := by
  simp only [next, h, hr]

/-- Behind an instruction stands what its reading left. -/
theorem rest_skip_size (h : r.rest = byte :: bytes)
    (hr : Instruction.read r.offset byte bytes = .ok (i, rest)) : (r.skip i.size).rest = rest := by
  obtain ⟨tail, ht, rfl, -⟩ := Instruction.encode_of_read hr
  simp [skip, h, ← Instruction.length_of_encode ht]

/-- A cursor yields the instruction whose bytes it comes to, and then what stands behind them. -/
theorem next_of_encode (he : i.encode = .ok bytes) (hn : i.normal = i)
    (h : r.rest = bytes ++ rest) :
    r.next = (.ok (some i), r.skip i.size) ∧ (r.skip i.size).rest = rest := by
  obtain ⟨tail, rfl, hread⟩ := Instruction.read_of_encode he
  have hr := hread r.offset rest
  rw [hn] at hr
  exact ⟨next_of_read_ok h hr, rest_skip_size h hr⟩

end ScriptKit.ScriptReader
