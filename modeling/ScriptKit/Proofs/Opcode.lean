import Mathlib.Data.List.Nodup
import ScriptKit.Lookup

namespace ScriptKit

/-- The first element with a key is the only one with it if the keys differ. -/
theorem find?_key {α κ : Type} [BEq κ] [LawfulBEq κ] {key : α → κ} {list : List α}
    (distinct : (list.map key).Nodup) {a : α} (ha : a ∈ list) :
    list.find? (key · == key a) = some a := by
  induction list with
  | nil => cases ha
  | cons b rest ih =>
    simp only [List.map_cons, List.nodup_cons] at distinct
    rcases List.mem_cons.mp ha with rfl | hr
    · simp
    · have hne : key b ≠ key a := by
        intro he
        exact distinct.1 (he ▸ List.mem_map_of_mem hr)
      rw [List.find?_cons_of_neg (by simpa using hne)]
      exact ih distinct.2 hr

namespace Opcode

/-- The opcodes are listed in the order in which they are declared. -/
theorem getElem?_all : ∀ op : Opcode, all[op.ctorIdx]? = some op := by
  intro op
  cases op <;> rfl

theorem mem_all (op : Opcode) : op ∈ all := List.mem_of_getElem? (getElem?_all op)

theorem codes_ascend : (all.map code).IsChain (· < ·) := by decide +kernel

theorem ofCode?_code (op : Opcode) : ofCode? op.code = some op :=
  find?_key (codes_ascend.pairwise.imp UInt8.ne_of_lt) (mem_all op)

theorem code_of_ofCode? {byte : UInt8} {op : Opcode} (h : ofCode? byte = some op) :
    op.code = byte := by
  simpa using List.find?_some h

theorem code_inj {op other : Opcode} (h : op.code = other.code) : op = other := by
  have ho := ofCode?_code op
  rw [h, ofCode?_code] at ho
  exact (Option.some.inj ho).symm

theorem mnemonic_of_ofMnemonic? {name : String} {op : Opcode} (h : ofMnemonic? name = some op) :
    op.mnemonic = name := by
  simpa using List.find?_some h

/-- The mnemonics differ even as numbers, which are compared faster than texts. -/
theorem mnemonic_numbers_nodup :
    ((all.map mnemonic).map fun name => LittleEndian.toNat (Utf8.encode name)).Nodup := by
  decide +kernel

theorem ofMnemonic?_mnemonic (op : Opcode) : ofMnemonic? op.mnemonic = some op :=
  find?_key (List.Nodup.of_map _ mnemonic_numbers_nodup) (mem_all op)

/-- An operand of a fixed width is never empty. -/
theorem operand_ne_fixed_zero (op : Opcode) : op.operand ≠ .fixed 0 := by
  cases op <;> decide

end Opcode

end ScriptKit
