import Mathlib.Data.Nat.Find
import ScriptKit.Proofs.Instruction.Cursor

namespace ScriptKit.ScriptReader

variable {script : Bytes} {r : ScriptReader} {k m : Nat} {byte : UInt8}

/-- The reader after so many items of an iteration. -/
def iterated (script : Bytes) (k : Nat) : ScriptReader :=
  (ofScript script).after (List.replicate k .nextItem)

/-- The item that comes after so many others; there is none once the iteration is at its end. -/
def item (script : Bytes) (k : Nat) : Option (Except Fault Instruction) :=
  (iterated script k).nextItem.1

theorem iterated_succ (script : Bytes) (k : Nat) :
    iterated script (k + 1) = (iterated script k).nextItem.2 :=
  after_replicate_succ (ofScript script) k .nextItem

theorem within_iterated (script : Bytes) (k : Nat) : Within script (iterated script k) :=
  (within_ofScript script).after _

/-- What nothing follows but itself: the end, and the fault of a byte that is no opcode. -/
def Halts (item : Option (Except Fault Instruction)) : Prop :=
  item = none ∨ ∃ byte, item = some (.error (.unsupportedOpcode byte))

/-- A reader does not move at such an item, and moves on at any other. -/
theorem halts_or_advances (h : Within script r) :
    Halts r.nextItem.1 ∧ r.nextItem.2 = r ∨
      ¬ Halts r.nextItem.1 ∧ r.offset < r.nextItem.2.offset := by
  obtain ⟨rfl, ho⟩ := h
  have hm := moves_next ho
  have hstays : r.next.2.offset = r.offset → r.next.2 = r := ext_offset r.script_next
  change Halts (toItem r.next.1) ∧ r.next.2 = r ∨
    ¬ Halts (toItem r.next.1) ∧ r.offset < r.next.2.offset
  generalize r.next.1 = answer at hm ⊢
  generalize r.next.2.offset = offset at hm hstays ⊢
  cases hm with
  | @instruction i inside written =>
    have hsize := i.one_le_size
    exact .inr ⟨by simp [Halts, toItem], by omega⟩
  | ended all => exact .inl ⟨.inl rfl, hstays rfl⟩
  | truncated behind inside short => exact .inr ⟨by simp [Halts, toItem], behind⟩
  | unsupported stands unknown => exact .inl ⟨.inr ⟨_, rfl⟩, hstays rfl⟩

/-- A reader that has come to such an item stays where it is for ever. -/
theorem iterated_of_halts (h : Halts (item script k)) (hm : k ≤ m) :
    iterated script m = iterated script k := by
  induction hm with
  | refl => rfl
  | step hm ih =>
    have hstays : (iterated script k).nextItem.2 = iterated script k := by
      rcases halts_or_advances (within_iterated script k) with ⟨-, hs⟩ | ⟨hn, -⟩
      · exact hs
      · exact absurd h hn
    rw [iterated_succ, ih, hstays]

theorem item_of_halts (h : Halts (item script k)) (hm : k ≤ m) : item script m = item script k := by
  unfold item
  rw [iterated_of_halts h hm]

/-- Up to such an item, the cursor moves by at least a byte for each item. -/
theorem le_offset (h : ∀ m < k, ¬ Halts (item script m)) : k ≤ (iterated script k).offset := by
  induction k with
  | zero => exact Nat.zero_le _
  | succ k ih =>
    have hle := ih fun m hm => h m (Nat.lt_succ_of_lt hm)
    rw [iterated_succ]
    rcases halts_or_advances (within_iterated script k) with ⟨hh, -⟩ | ⟨-, hlt⟩
    · exact absurd hh (h k (Nat.lt_succ_self k))
    · omega

/-- An iteration comes to such an item before it has taken as many as there are bytes, or else it is
at its end then. -/
theorem exists_halt (script : Bytes) :
    item script script.length = none ∨ ∃ k < script.length, Halts (item script k) := by
  by_cases h : ∃ k < script.length, Halts (item script k)
  · exact .inr h
  · have hle : script.length ≤ (iterated script script.length).offset :=
      le_offset fun m hm hh => h ⟨m, hm, hh⟩
    obtain ⟨hscript, ho⟩ := within_iterated script script.length
    -- The cursor is behind the last byte.
    have hrest : (iterated script script.length).rest = [] := by
      apply List.eq_nil_of_length_eq_zero
      rw [length_rest, hscript]
      omega
    left
    unfold item nextItem
    rw [next_of_rest_nil hrest]
    rfl

theorem not_ended_of_unsupported (h : item script k = some (.error (.unsupportedOpcode byte)))
    (m : Nat) : item script m ≠ none := by
  intro hi
  rcases Nat.le_total k m with hm | hm
  · rw [item_of_halts (.inr ⟨byte, h⟩) hm, h] at hi
    cases hi
  · rw [item_of_halts (.inl hi) hm, hi] at h
    cases h

/-- The iteration takes the same calls as reading instruction by instruction. -/
theorem iterated_eq_after_next (script : Bytes) (k : Nat) :
    iterated script k = (ofScript script).after (List.replicate k .next) := by
  induction k with
  | zero => rfl
  | succ k ih =>
    rw [iterated_succ, ih, after_replicate_succ]
    rfl

/-- The items of a script that splits into instructions are these, and then there is no more. -/
theorem item_of_decode {is : List Instruction} (h : Instruction.decode script = .ok is) (k : Nat) :
    item script k = is[k]?.map .ok := by
  have hend : item script is.length = none := by
    have hd := (after_of_decodeFrom (r := ofScript script) h (Nat.le_refl is.length)).2
    rw [← iterated_eq_after_next, List.drop_length] at hd
    unfold item nextItem
    rw [next_of_rest_nil (rest_of_decodeFrom_nil hd)]
    rfl
  rcases Nat.lt_or_ge k is.length with hk | hk
  · have hd := (after_of_decodeFrom (r := ofScript script) h (Nat.le_of_lt hk)).2
    rw [← iterated_eq_after_next, List.drop_eq_getElem_cons hk] at hd
    unfold item nextItem
    rw [(next_of_decodeFrom hd).1, List.getElem?_eq_getElem hk]
    rfl
  · rw [item_of_halts (.inl hend) hk, hend, List.getElem?_eq_none hk]
    rfl

/-- An iteration that goes on after faults comes to its end after at most as many items as there are
bytes, so that the call after as many calls as there are bytes finds it at the latest, and no item
follows it, just if none of these items is the fault of a byte that is no opcode. That fault is every
further item, the cursor does not move any more, and the end is never reached. A script that splits
into instructions has just these as its items. -/
theorem iteration_ends (script : Bytes) :
    ((∀ k < script.length, ∀ byte, item script k ≠ some (.error (.unsupportedOpcode byte))) ↔
      ∃ count ≤ script.length, ∀ k, item script k = none ↔ count ≤ k) ∧
    (∀ k byte, item script k = some (.error (.unsupportedOpcode byte)) →
      (∀ m, k ≤ m → item script m = some (.error (.unsupportedOpcode byte)) ∧
        (iterated script m).offset = (iterated script k).offset) ∧
      ∀ m, item script m ≠ none) ∧
    ∀ is, Instruction.decode script = .ok is → ∀ k, item script k = is[k]?.map .ok := by
  refine ⟨⟨fun hu => ?_, fun hend k hk byte hi => ?_⟩, fun k byte hi => ?_, fun is h =>
    item_of_decode h⟩
  · classical
    obtain ⟨last, hl, hlast⟩ : ∃ last ≤ script.length, item script last = none := by
      rcases exists_halt script with hend | ⟨k, hk, hend | ⟨byte, hi⟩⟩
      · exact ⟨_, Nat.le_refl _, hend⟩
      · exact ⟨k, Nat.le_of_lt hk, hend⟩
      · exact absurd hi (hu k hk byte)
    have hend : ∃ k, item script k = none := ⟨last, hlast⟩
    have hfirst : item script (Nat.find hend) = none := Nat.find_spec hend
    refine ⟨Nat.find hend, Nat.le_trans (Nat.find_min' hend hlast) hl, fun k => ?_⟩
    exact ⟨Nat.find_min' hend, fun hk => (item_of_halts (.inl hfirst) hk).trans hfirst⟩
  · obtain ⟨count, -, hcount⟩ := hend
    exact not_ended_of_unsupported hi count ((hcount count).mpr (Nat.le_refl count))
  · have hh : Halts (item script k) := .inr ⟨byte, hi⟩
    refine ⟨fun m hm => ⟨(item_of_halts hh hm).trans hi, ?_⟩, not_ended_of_unsupported hi⟩
    rw [iterated_of_halts hh hm]

theorem iteration_ends_within_three :
    (∀ k < 3, ∀ byte, item [0x0c, 5, 0x40] k ≠ some (.error (.unsupportedOpcode byte))) ∧
      (∃ count ≤ 3, ∀ k, item [0x0c, 5, 0x40] k = none ↔ count ≤ k) ∧
      item [0x40, 0x06] 1 = some (.error (.unsupportedOpcode 0x06)) ∧
      item [0x40, 0x06] 9 = some (.error (.unsupportedOpcode 0x06)) ∧
      Instruction.decode [0x40] = .ok [⟨.ret, none⟩] ∧ item [0x40] 1 = none := by
  have h₀ : item [0x0c, 5, 0x40] 0 = some (.error (.endOfScript 2 4)) := by decide +kernel
  have h₁ : item [0x0c, 5, 0x40] 1 = some (.ok ⟨.ret, none⟩) := by decide +kernel
  have h₂ : item [0x0c, 5, 0x40] 2 = none := by decide +kernel
  have hu : ∀ k < 3, ∀ byte, item [0x0c, 5, 0x40] k ≠ some (.error (.unsupportedOpcode byte)) := by
    intro k hk byte
    match k, hk with
    | 0, _ => simp [h₀]
    | 1, _ => simp [h₁]
    | 2, _ => simp [h₂]
  have hs : item [0x40, 0x06] 1 = some (.error (.unsupportedOpcode 0x06)) := by decide +kernel
  have hd : Instruction.decode [0x40] = .ok [⟨.ret, none⟩] := by decide +kernel
  refine ⟨hu, (iteration_ends [0x0c, 5, 0x40]).1.mp hu, hs, ?_, hd, ?_⟩
  · exact (((iteration_ends [0x40, 0x06]).2.1 1 0x06 hs).1 9 (by decide)).1
  · exact (iteration_ends [0x40]).2.2 _ hd 1

/-- The byte `06` is no opcode. Its fault is every item of an iteration over it, and there is no end,
neither after one call nor after two. -/
theorem unknown_byte_comes_again :
    (∀ k, item [0x06] k = some (.error (.unsupportedOpcode 0x06))) ∧
      ¬ ∃ k ≤ ([0x06] : Bytes).length, item [0x06] k = none := by
  have h₀ : item [0x06] 0 = some (.error (.unsupportedOpcode 0x06)) := by decide +kernel
  refine ⟨fun k => ?_, fun ⟨k, _, hi⟩ => not_ended_of_unsupported h₀ k hi⟩
  rw [item_of_halts (.inr ⟨0x06, h₀⟩) (Nat.zero_le k), h₀]

end ScriptKit.ScriptReader
