import ScriptKit.Proofs.Instruction.Canonical
import ScriptKit.Proofs.Witness.Pricing

namespace ScriptKit.Witness

variable {threshold n : Nat} {keys : List PublicKey} {script other push shortest : Bytes}

/-- Every integer that the script pushes is pushed by its canonical push. -/
def PushesShortest (script : Bytes) : Prop :=
  ∀ is, Instruction.decode script = .ok is → ∀ i ∈ is, ∀ value, i.int? = .ok value →
    Instruction.pushInt value = .ok i

/-- No push of a number is shorter than its canonical push, and no other one as short. -/
theorem CountPush.shortest_le (h : CountPush n push)
    (hs : (Emission.int n).result = .ok shortest) :
    shortest.length ≤ push.length ∧ (shortest.length = push.length → shortest = push) := by
  obtain ⟨i, hd, hv, -⟩ := h.decode
  obtain ⟨hi, hn⟩ := Instruction.encode_of_decode hd
  obtain ⟨j, hp, hj⟩ := Emission.result_int.mp hs
  rw [Instruction.length_of_encode hi, Instruction.length_of_encode hj]
  refine ⟨Instruction.size_pushInt_le hp hv, ?_⟩
  intro hsize
  obtain rfl := Instruction.eq_of_size_eq (Instruction.canonical_of_pushInt hp) hv hn hsize
  exact Except.ok.inj (hj.symm.trans hi)

theorem decode_shortest (h : (Emission.int n).result = .ok shortest) :
    ∃ i, Instruction.decode shortest = .ok [i] ∧
      ∀ value, i.int? = .ok value → Instruction.pushInt value = .ok i := by
  obtain ⟨i, hp, he⟩ := Emission.result_int.mp h
  obtain ⟨hv, -, hn⟩ := Instruction.pushInt_eq_ok hp
  refine ⟨i, Instruction.decode_of_encode he hn, ?_⟩
  intro value hvalue
  obtain rfl := Except.ok.inj (hv.symm.trans hvalue)
  exact hp

/-- A number that a byte does not hold as signed is pushed with two. -/
theorem CountPush.length_of_large (h : CountPush n push) (hn : 128 ≤ n) : push.length = 3 := by
  cases h with
  | small low high => omega
  | @byte a spells =>
    have hfits := LittleEndian.fits_toInt true [a]
    have hcount : LittleEndian.count [a].length = 256 := rfl
    simp only [LittleEndian.Fits, ↓reduceIte, hcount] at hfits
    omega
  | word spells => rfl

/-- A number that a byte holds as signed can be pushed with one byte and with two. -/
theorem countPush_of_le (hn : n ≤ 127) :
    CountPush n [0x00, UInt8.ofNat n] ∧ CountPush n [0x01, UInt8.ofNat n, 0] := by
  have hbyte : (UInt8.ofNat n).toNat = n := by
    rw [UInt8.toNat_ofNat']
    omega
  constructor
  · apply CountPush.byte
    simp [LittleEndian.toInt, LittleEndian.toNat, LittleEndian.count, hbyte]
    omega
  · apply CountPush.word
    simp [LittleEndian.toInt, LittleEndian.toNat, LittleEndian.count, hbyte]
    omega

theorem ofScript_eq_multisig :
    ofScript script = .multisig threshold keys ↔ IsCheck threshold keys script := by
  constructor
  · intro h
    rw [ofScript] at h
    split at h
    · cases h
    · split at h
      · next hm =>
        obtain ⟨rfl, rfl⟩ := Witness.multisig.inj h
        exact multisig?_eq_some.mp hm
      · cases h
  · intro h
    exact h.answers.2.2

/-- What is built pushes both numbers canonically, and nothing else in it pushes an integer. -/
theorem pushesShortest_of_multisigScript (h : multisigScript threshold keys = .ok script) :
    PushesShortest script := by
  obtain ⟨-, first, last, hfirst, hlast, rfl⟩ := multisigScript_eq_ok.mp h
  obtain ⟨i, hi, hic⟩ := decode_shortest hfirst
  obtain ⟨j, hj, hjc⟩ := decode_shortest hlast
  intro is his k hk value hv
  obtain rfl := Except.ok.inj ((decode_check hi hj keys).symm.trans his)
  simp only [List.mem_append, List.mem_cons, List.not_mem_nil, or_false, List.mem_map] at hk
  rcases hk with rfl | ⟨key, -, rfl⟩ | rfl | rfl
  · exact hic value hv
  · cases hv
  · exact hjc value hv
  · cases hv

/-- Where the two numbers are pushed canonically, nothing is left to choose. -/
theorem IsCheck.multisigScript_eq (h : IsCheck threshold keys script)
    (hs : PushesShortest script) : multisigScript threshold keys = .ok script := by
  obtain ⟨hpos, hreach, hbound, first, last, hfirst, hlast, rfl⟩ := h
  obtain ⟨i, hi, hiv, -⟩ := hfirst.decode
  obtain ⟨j, hj, hjv, -⟩ := hlast.decode
  have hd := decode_check hi hj keys
  have hfirst' := hs _ hd i (by simp) threshold hiv
  have hlast' := hs _ hd j (by simp) keys.length hjv
  refine multisigScript_eq_ok.mpr ⟨⟨hpos, hreach, hbound⟩, first, last, ?_, ?_, rfl⟩
  · exact Emission.result_int.mpr ⟨i, hfirst', (Instruction.encode_of_decode hi).1⟩
  · exact Emission.result_int.mpr ⟨j, hlast', (Instruction.encode_of_decode hj).1⟩

/-- The script that is built is the shortest of its account, and no other is as short. -/
theorem IsCheck.shortest_le (h : IsCheck threshold keys script)
    (hs : multisigScript threshold keys = .ok shortest) :
    shortest.length ≤ script.length ∧ (shortest.length = script.length → shortest = script) := by
  obtain ⟨-, -, -, first, last, hfirst, hlast, rfl⟩ := h
  obtain ⟨-, first', last', hfirst', hlast', rfl⟩ := multisigScript_eq_ok.mp hs
  obtain ⟨hle, heq⟩ := hfirst.shortest_le hfirst'
  obtain ⟨hle', heq'⟩ := hlast.shortest_le hlast'
  simp only [List.length_append]
  refine ⟨by omega, ?_⟩
  intro hlength
  rw [heq (by omega), heq' (by omega)]

/-- With a threshold that takes two bytes, so does the number of keys. -/
theorem IsCheck.length_of_large (h : IsCheck threshold keys script) (hn : 128 ≤ threshold) :
    script.length = 3 + ((keys.flatMap keyPush).length + (3 + checkCall.length)) := by
  obtain ⟨-, hreach, -, first, last, hfirst, hlast, rfl⟩ := h
  simp only [List.length_append, hfirst.length_of_large hn, hlast.length_of_large (hn.trans hreach)]

/-- All scripts of an account with such a threshold are as short as the shortest. -/
theorem IsCheck.eq_of_large (h : IsCheck threshold keys script) (ho : IsCheck threshold keys other)
    (hn : 128 ≤ threshold) : other = script := by
  obtain ⟨built, hb⟩ := multisigScript_ok_iff.mpr ⟨h.positive, h.reachable, h.bounded⟩
  have hlength := (isCheck_of_multisigScript hb).length_of_large hn
  have hs := (h.shortest_le hb).2 (hlength.trans (h.length_of_large hn).symm)
  have hso := (ho.shortest_le hb).2 (hlength.trans (ho.length_of_large hn).symm)
  exact hso.symm.trans hs

/-- With a smaller threshold there is a script that pushes it with one byte of operand, and one
that does with two. -/
theorem IsCheck.exists_ne (h : IsCheck threshold keys script) (hn : threshold ≤ 127) :
    ∃ other, IsCheck threshold keys other ∧ other ≠ script := by
  obtain ⟨hpos, hreach, hbound, first, last, hfirst, hlast, rfl⟩ := h
  obtain ⟨hbyte, hword⟩ := countPush_of_le hn
  obtain ⟨byte, tail, rfl, -⟩ := hfirst.head_ne
  by_cases hb : byte = 0x00
  · refine ⟨_, ⟨hpos, hreach, hbound, _, last, hword, hlast, rfl⟩, ?_⟩
    intro he
    subst hb
    cases (List.cons.inj he).1
  · refine ⟨_, ⟨hpos, hreach, hbound, _, last, hbyte, hlast, rfl⟩, ?_⟩
    intro he
    exact hb (List.cons.inj he).1.symm

/-- Of the scripts that are recognised as an account, the one in which every integer is pushed
canonically is the one that is built for the account, so that no two such scripts are recognised
as the same one. It exists, and all others are longer. An account has no other script exactly if
its threshold is at least 128. -/
theorem one_shortest_script (h : ofScript script = .multisig threshold keys) :
    (PushesShortest script ↔ multisigScript threshold keys = .ok script) ∧
    (PushesShortest script → ∀ other, ofScript other = .multisig threshold keys →
      PushesShortest other → other = script) ∧
    (∃ shortest, multisigScript threshold keys = .ok shortest ∧
      ofScript shortest = .multisig threshold keys ∧ shortest.length ≤ script.length ∧
      (shortest.length = script.length → shortest = script)) ∧
    ((∀ other, ofScript other = .multisig threshold keys → other = script) ↔ 128 ≤ threshold) := by
  rw [ofScript_eq_multisig] at h
  have hbuilt {other : Bytes} (ho : ofScript other = .multisig threshold keys)
      (hs : PushesShortest other) : multisigScript threshold keys = .ok other :=
    (ofScript_eq_multisig.mp ho).multisigScript_eq hs
  refine ⟨⟨h.multisigScript_eq, pushesShortest_of_multisigScript⟩, ?_, ?_, ?_⟩
  · intro hs other ho hso
    exact Except.ok.inj ((hbuilt ho hso).symm.trans (h.multisigScript_eq hs))
  · obtain ⟨shortest, hs⟩ := multisigScript_ok_iff.mpr ⟨h.positive, h.reachable, h.bounded⟩
    obtain ⟨hle, heq⟩ := h.shortest_le hs
    exact ⟨shortest, hs, (isCheck_of_multisigScript hs).answers.2.2, hle, heq⟩
  · simp only [ofScript_eq_multisig]
    constructor
    · intro hone
      by_contra hn
      obtain ⟨other, ho, hne⟩ := h.exists_ne (by omega)
      exact hne (hone other ho)
    · intro hn other ho
      exact h.eq_of_large ho hn

/-- The threshold of this script is pushed with two bytes of operand. -/
theorem one_shortest_script_one_key :
    ofScript ([0x01, 1, 0] ++ (keyPush ⟨.replicate 33 2, rfl⟩ ++ ([0x11] ++ checkCall))) =
        .multisig 1 [⟨.replicate 33 2, rfl⟩] ∧
      (∃ shortest, multisigScript 1 [⟨.replicate 33 2, rfl⟩] = .ok shortest ∧
        ofScript shortest = .multisig 1 [⟨.replicate 33 2, rfl⟩] ∧ shortest.length ≤ 44) ∧
      ¬∀ other, ofScript other = .multisig 1 [⟨.replicate 33 2, rfl⟩] →
        other = [0x01, 1, 0] ++ (keyPush ⟨.replicate 33 2, rfl⟩ ++ ([0x11] ++ checkCall)) := by
  have h : ofScript ([0x01, 1, 0] ++ (keyPush ⟨.replicate 33 2, rfl⟩ ++ ([0x11] ++ checkCall))) =
      .multisig 1 [⟨.replicate 33 2, rfl⟩] := by
    refine ofScript_eq_multisig.mpr ?_
    exact ⟨by decide, by decide, by decide, [0x01, 1, 0], [0x11], .word (by decide),
      .small (by decide) (by decide), rfl⟩
  obtain ⟨-, -, ⟨shortest, hs, hsame, hle, -⟩, hone⟩ := one_shortest_script h
  refine ⟨h, ⟨shortest, hs, hsame, hle⟩, ?_⟩
  intro hall
  exact absurd (hone.mp hall) (by decide)

/-- The threshold is pushed with a byte of operand where none is needed. -/
theorem threshold_pushed_longer :
    ofScript ([0x00, 1] ++ (keyPush ⟨.replicate 33 2, rfl⟩ ++ ([0x11] ++ checkCall))) =
        .multisig 1 [⟨.replicate 33 2, rfl⟩] ∧
      multisigScript 1 [⟨.replicate 33 2, rfl⟩] ≠
        .ok ([0x00, 1] ++ (keyPush ⟨.replicate 33 2, rfl⟩ ++ ([0x11] ++ checkCall))) := by
  refine ⟨ofScript_eq_multisig.mpr ?_, by decide +kernel⟩
  exact ⟨by decide, by decide, by decide, [0x00, 1], [0x11], .byte (by decide),
    .small (by decide) (by decide), rfl⟩

end ScriptKit.Witness
