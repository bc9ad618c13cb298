import ScriptKit.Proofs.Emission
import ScriptKit.Proofs.Witness.Language

namespace ScriptKit.Witness

variable {threshold n : Nat} {keys : List PublicKey} {script written : Bytes}

/-- The canonical push of a number up to 1024 has at most two bytes of operand. -/
theorem countPush_of_int (hl : 1 ≤ n) (hu : n ≤ 1024)
    (h : (Emission.int n).result = .ok written) : CountPush n written := by
  obtain ⟨i, hp, he⟩ := Emission.result_int.mp h
  obtain ⟨-, rfl⟩ := Instruction.encode_eq_ok_iff.mp he
  by_cases hs : n ≤ 16
  · have hlow : -1 ≤ (n : Int) := by omega
    have hhigh : (n : Int) ≤ 16 := by omega
    obtain ⟨op, ho, hv, hr⟩ := Instruction.ofSmallInt?_of_small hlow hhigh
    simp only [Instruction.pushInt, ho] at hp
    obtain rfl := Except.ok.inj hp
    simp only [hr, OperandRule.lengthField, Instruction.payload, Option.getD_none,
      List.append_nil, Instruction.code_of_smallInt? hv]
    exact .small hl hs
  · obtain ⟨hv, -, -⟩ := Instruction.pushInt_eq_ok hp
    -- Two bytes of operand would do, so the shortest push has no more.
    have hfits : LittleEndian.Fits true 2 n := by
      have hc : LittleEndian.count 2 = 65536 := rfl
      simp only [LittleEndian.Fits, ↓reduceIte, hc]
      omega
    have hword : (2, Opcode.pushInt16) ∈ Opcode.intPushes := by simp [Opcode.intPushes]
    have hsize := Instruction.size_pushInt_of_fits hword hfits hp
    rcases Instruction.int?_eq_ok.mp hv with hsmall | ⟨operand, hi, hmem, hval⟩
    · obtain ⟨-, hhigh, -⟩ := Instruction.smallInt?_eq_some hsmall
      omega
    · rw [hi, Instruction.size_of_intPush hmem] at hsize
      rw [hi]
      simp only [Opcode.intPushes, List.mem_cons, Prod.mk.injEq, List.not_mem_nil,
        or_false] at hmem
      rcases hmem with ⟨hone, hop⟩ | ⟨htwo, hop⟩ | hwide
      · obtain ⟨a, rfl⟩ := List.length_eq_one_iff.mp hone
        rw [hop]
        exact .byte hval
      · obtain ⟨a, b, rfl⟩ := List.length_eq_two.mp htwo
        rw [hop]
        exact .word hval
      · omega

/-- The instruction that pushes a key. -/
def pushKey (key : PublicKey) : Instruction := ⟨.pushData1, some key.bytes⟩

theorem encode_pushKey (key : PublicKey) : (pushKey key).encode = .ok (keyPush key) := by
  have hl : key.bytes.length = 33 := key.length_eq
  refine Instruction.encode_eq_ok_iff.mpr ⟨?_, ?_⟩
  · change key.bytes.length < 256
    omega
  · change keyPush key = 0x0c :: (LittleEndian.ofNat 1 key.bytes.length ++ key.bytes)
    rw [hl]
    rfl

theorem decode_keyPush (key : PublicKey) : Instruction.decode (keyPush key) = .ok [pushKey key] :=
  Instruction.decode_of_encode (encode_pushKey key) rfl

theorem result_fixed (key : PublicKey) : (Emission.fixed key).result = .ok (keyPush key) := by
  have hp : Instruction.pushBytes key.bytes = .ok (pushKey key) := by
    have hl : key.bytes.length = 33 := key.length_eq
    rw [Instruction.pushBytes, hl]
    rfl
  exact Emission.result_data.mpr ⟨_, hp, encode_pushKey key⟩

theorem result_pushKeys (keys : List PublicKey) :
    (pushKeys keys).result = .ok (keys.flatMap keyPush) := by
  induction keys with
  | nil => rfl
  | cons key rest ih =>
    rw [pushKeys, List.flatMap_cons]
    exact Emission.result_andThen.mpr ⟨_, _, result_fixed key, ih, rfl⟩

/-- What is built: the canonical pushes of the two numbers around the keys, and the call. -/
theorem multisigScript_eq_ok :
    multisigScript threshold keys = .ok script ↔
      (1 ≤ threshold ∧ threshold ≤ keys.length ∧ keys.length ≤ 1024) ∧
        ∃ first last, (Emission.int threshold).result = .ok first ∧
          (Emission.int keys.length).result = .ok last ∧
          script = first ++ (keys.flatMap keyPush ++ (last ++ checkCall)) := by
  have hcall : (Emission.raw .syscall Service.checkMultisig.code.bytes).result =
      .ok checkCall := rfl
  rw [multisigScript]
  by_cases hc : 1 ≤ threshold ∧ threshold ≤ keys.length ∧ keys.length ≤ maxKeys
  · simp only [if_pos hc, Emission.result_andThen, result_pushKeys, hcall]
    constructor
    · intro h
      obtain ⟨first, _, hfirst, ⟨_, _, hp, ⟨last, _, hlast, hl, rfl⟩, rfl⟩, rfl⟩ := h
      obtain rfl := Except.ok.inj hp
      obtain rfl := Except.ok.inj hl
      exact ⟨hc, first, last, hfirst, hlast, rfl⟩
    · intro h
      obtain ⟨-, first, last, hfirst, hlast, rfl⟩ := h
      exact ⟨first, _, hfirst, ⟨_, _, rfl, ⟨last, _, hlast, rfl, rfl⟩, rfl⟩, rfl⟩
  · rw [if_neg hc]
    constructor
    · intro h
      cases h
    · intro h
      exact absurd h.1 hc

/-- What is built is a check by the keys and the threshold asked for. -/
theorem isCheck_of_multisigScript (h : multisigScript threshold keys = .ok script) :
    IsCheck threshold keys script := by
  obtain ⟨⟨hpos, hreach, hbound⟩, first, last, hfirst, hlast, rfl⟩ := multisigScript_eq_ok.mp h
  exact ⟨hpos, hreach, hbound, first, last, countPush_of_int hpos (by omega) hfirst,
    countPush_of_int (by omega) hbound hlast, rfl⟩

theorem multisigScript_ok_iff :
    (∃ script, multisigScript threshold keys = .ok script) ↔
      1 ≤ threshold ∧ threshold ≤ keys.length ∧ keys.length ≤ 1024 := by
  constructor
  · intro h
    obtain ⟨script, h⟩ := h
    exact (multisigScript_eq_ok.mp h).1
  · intro h
    have hint : ∀ n : Nat, n ≤ 1024 → ∃ written, (Emission.int n).result = .ok written := by
      intro n hn
      exact Emission.int_ok_iff.mpr (by omega)
    obtain ⟨first, hfirst⟩ := hint threshold (h.2.1.trans h.2.2)
    obtain ⟨last, hlast⟩ := hint keys.length h.2.2
    exact ⟨_, multisigScript_eq_ok.mpr ⟨h, first, last, hfirst, hlast, rfl⟩⟩

theorem multisig?_eq_some : multisig? script = some (threshold, keys) ↔
    IsCheck threshold keys script := by
  rw [multisig?, toOption_eq_some, scanMultisig_eq_ok]

theorem isMultisig_iff :
    isMultisig script = true ↔ ∃ threshold keys, IsCheck threshold keys script := by
  rw [isMultisig, Option.isSome_iff_exists, Prod.exists]
  simp only [multisig?_eq_some]

/-- A check by several keys starts otherwise than a check by one. -/
theorem IsCheck.not_signature (h : IsCheck threshold keys script) :
    isSignature script = false := by
  obtain ⟨first, last, hf, -, rfl⟩ := h.form
  obtain ⟨byte, tail, rfl, hne⟩ := hf.head_ne
  rw [isSignature]
  cases hs : scanSignature (byte :: tail ++ (keys.flatMap keyPush ++ (last ++ checkCall))) with
  | error miss => rfl
  | ok u =>
    obtain ⟨-, hhead⟩ := scanSignature_eq_ok hs
    exact absurd (Option.some.inj hhead) hne

/-- What the functions on scripts say of a check. -/
theorem IsCheck.answers (h : IsCheck threshold keys script) :
    Witness.threshold script = .ok threshold ∧ Witness.keys script = .ok keys ∧
      ofScript script = .multisig threshold keys := by
  have hm := multisig?_eq_some.mpr h
  have hs : signatureKey? script = none := by
    have hn := h.not_signature
    rw [isSignature] at hn
    rw [signatureKey?, scanSignatureKey]
    cases hscan : scanSignature script with
    | error miss => rfl
    | ok u =>
      rw [hscan] at hn
      cases hn
  exact ⟨by rw [Witness.threshold, hm], by rw [Witness.keys, hm], by rw [ofScript, hs, hm]⟩

/-- A check is built exactly for a threshold that the keys can reach, if there are at most 1024 of
them, and is then recognised as what it was built for. A script is recognised exactly if it is a
check, and then for what it says; of any other script no key and no threshold is given. No byte
behind the end of a script is ever taken. -/
theorem multisig_built_and_recognised :
    (∀ threshold keys,
      ((∃ script, multisigScript threshold keys = .ok script) ↔
        1 ≤ threshold ∧ threshold ≤ keys.length ∧ keys.length ≤ 1024) ∧
      ∀ script, multisigScript threshold keys = .ok script →
        isMultisig script = true ∧ isSignature script = false ∧
        ofScript script = .multisig threshold keys ∧
        Witness.threshold script = .ok threshold ∧ Witness.keys script = .ok keys) ∧
    ∀ script,
      (isMultisig script = true ↔ ∃ threshold keys, IsCheck threshold keys script) ∧
      (∀ threshold keys, IsCheck threshold keys script →
        Witness.threshold script = .ok threshold ∧ Witness.keys script = .ok keys ∧
        ofScript script = .multisig threshold keys) ∧
      (isMultisig script = false →
        Witness.threshold script = .error .notMultisig ∧
        Witness.keys script = .error .notMultisig) ∧
      ∀ index, scanMultisig script ≠ .error (.outOfBounds index) ∧
        scanSignatureKey script ≠ .error (.outOfBounds index) := by
  constructor
  · intro threshold keys
    refine ⟨multisigScript_ok_iff, fun script h => ?_⟩
    have hc := isCheck_of_multisigScript h
    obtain ⟨ht, hk, hw⟩ := hc.answers
    exact ⟨isMultisig_iff.mpr ⟨threshold, keys, hc⟩, hc.not_signature, hw, ht, hk⟩
  · intro script
    refine ⟨isMultisig_iff, fun _ _ h => h.answers, fun h => ?_, fun index => ?_⟩
    · have hm : multisig? script = none := by
        rw [isMultisig, Option.isSome_eq_false_iff, Option.isNone_iff_eq_none] at h
        exact h
      exact ⟨by rw [Witness.threshold, hm], by rw [Witness.keys, hm]⟩
    · exact ⟨inBounds_scanMultisig script index, inBounds_scanSignatureKey script index⟩

/-- A check that was built for keys whose bytes look like pushes and calls, one that pushes its
threshold in two bytes where none would do, and a script whose threshold is -128. -/
theorem multisig_built_and_recognised_odd_bytes :
    (∃ script,
      multisigScript 2 [⟨.replicate 33 0x0c, rfl⟩, ⟨.replicate 33 0x41, rfl⟩] = .ok script ∧
      ofScript script = .multisig 2 [⟨.replicate 33 0x0c, rfl⟩, ⟨.replicate 33 0x41, rfl⟩]) ∧
    ofScript ([0x01, 1, 0] ++ (keyPush ⟨.replicate 33 0x21, rfl⟩ ++ ([0x11] ++ checkCall))) =
      .multisig 1 [⟨.replicate 33 0x21, rfl⟩] ∧
    Witness.threshold [0x00, 0x80] = .error .notMultisig := by
  have hform : IsCheck 1 [⟨.replicate 33 0x21, rfl⟩]
      ([0x01, 1, 0] ++ (keyPush ⟨.replicate 33 0x21, rfl⟩ ++ ([0x11] ++ checkCall))) :=
    ⟨by decide, by decide, by decide, [0x01, 1, 0], [0x11], .word (by decide),
      .small (by decide) (by decide), rfl⟩
  exact ⟨⟨_, rfl, ((multisig_built_and_recognised.1 2
      [⟨.replicate 33 0x0c, rfl⟩, ⟨.replicate 33 0x41, rfl⟩]).2 _ rfl).2.2.1⟩,
    ((multisig_built_and_recognised.2 _).2.1 1 _ hform).2.2,
    ((multisig_built_and_recognised.2 [0x00, 0x80]).2.2.1 rfl).1⟩

end ScriptKit.Witness
