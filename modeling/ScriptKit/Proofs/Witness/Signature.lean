import ScriptKit.Proofs.Fee.Pieces
import ScriptKit.Proofs.Witness.Multisig

namespace ScriptKit.Witness

variable {key : PublicKey} {script : Bytes}

/-- The call of the check of one signature. -/
def signatureCall : Bytes := [0x41, 0x56, 0xe7, 0xb3, 0x27]

theorem signatureScript_eq (key : PublicKey) :
    signatureScript key = .ok (keyPush key ++ signatureCall) :=
  Emission.result_andThen.mpr ⟨keyPush key, signatureCall, result_fixed key, rfl, rfl⟩

/-- Behind the mark of a key, 38 bytes are a key and five bytes more. -/
theorem exists_keyPush {rest : Bytes} (h : rest.length = 38) :
    ∃ key tail, 0x0c :: 0x21 :: rest = keyPush key ++ tail ∧ tail.length = 5 := by
  have hkey : (rest.take 33).length = FixedBytes.Kind.publicKey.length := by
    rw [List.length_take, h]
    rfl
  refine ⟨⟨rest.take 33, hkey⟩, rest.drop 33, ?_, ?_⟩
  · rw [keyPush, List.cons_append, List.cons_append, List.take_append_drop]
  · rw [List.length_drop, h]

/-- The looks of the scanner find the push of some key and the call. -/
theorem scanSignature_eq_ok_iff {u : Unit} :
    scanSignature script = .ok u ↔ ∃ key, script = keyPush key ++ signatureCall := by
  simp only [scanSignature, bind_eq_ok, Scan.ensure_eq_ok]
  constructor
  · intro h
    obtain ⟨-, hlength, first, hfirst, -, rfl, second, hsecond, -, hkey, code, hcode, -, rfl,
      service, hservice, rfl⟩ := h
    obtain ⟨a, after, rfl⟩ := List.exists_cons_of_length_eq_add_one hlength
    obtain ⟨b, rest, rfl⟩ := List.exists_cons_of_length_eq_add_one (Nat.succ.inj hlength)
    obtain rfl := Option.some.inj (Scan.byteAt_eq_ok.mp hfirst)
    obtain rfl := Option.some.inj (Scan.byteAt_eq_ok.mp hsecond)
    obtain rfl : b = 0x21 := UInt8.toNat_inj.mp hkey
    obtain ⟨key, tail, hsplit, hfive⟩ := exists_keyPush (Nat.add_right_cancel (m := 2) hlength)
    have hcall := (call_eq_ok .checkSig (keyPush key) hfive).mp
    rw [length_keyPush, ← hsplit] at hcall
    obtain rfl := hcall ⟨hcode, hservice⟩
    exact ⟨key, hsplit⟩
  · intro h
    obtain ⟨key, rfl⟩ := h
    have hlength : (keyPush key ++ signatureCall).length = signatureLength := by
      rw [List.length_append, length_keyPush]
      rfl
    have hfive : signatureCall.length = 5 := rfl
    have hcall := (call_eq_ok .checkSig (keyPush key) hfive).mpr rfl
    rw [length_keyPush] at hcall
    exact ⟨(), hlength, Opcode.pushData1.code, rfl, (), rfl, 0x21, rfl, (), rfl,
      Opcode.syscall.code, hcall.1, (), rfl, Service.checkSig.code.bytes, hcall.2, rfl⟩

theorem isSignature_iff :
    isSignature script = true ↔ ∃ key, script = keyPush key ++ signatureCall := by
  rw [isSignature, isOk_iff]
  simp only [scanSignature_eq_ok_iff, exists_const]

theorem signatureKey?_eq_some :
    signatureKey? script = some key ↔ script = keyPush key ++ signatureCall := by
  simp only [signatureKey?, toOption_eq_some, scanSignatureKey, bind_eq_ok,
    scanSignature_eq_ok_iff, Scan.bytesAt_eq_ok, Scan.expect_eq_ok, FixedBytes.ofBytes_eq_ok]
  constructor
  · intro h
    obtain ⟨-, ⟨found, rfl⟩, bytes, hs, rfl⟩ := h
    obtain ⟨after, he, hl⟩ := slice?_keyPush.mp hs
    have hk := (List.append_inj he (found.length_eq.trans hl.symm)).1
    rw [keyPush, keyPush, hk]
  · rintro rfl
    exact ⟨(), ⟨key, rfl⟩, key.bytes, slice?_keyPush.mpr ⟨signatureCall, rfl, key.length_eq⟩, rfl⟩

theorem ofScript_eq_signature :
    ofScript script = .signature key ↔ signatureScript key = .ok script := by
  rw [signatureScript_eq, Except.ok.injEq, eq_comm (b := script), ← signatureKey?_eq_some, ofScript]
  cases signatureKey? script with
  | some found => simp
  | none => cases multisig? script <;> simp

theorem not_isSignature_of_isMultisig (h : isMultisig script = true) :
    isSignature script = false := by
  obtain ⟨threshold, keys, hcheck⟩ := isMultisig_iff.mp h
  exact hcheck.not_signature

theorem decode_signatureCall : Instruction.decode signatureCall = .ok [Service.checkSig.call] :=
  Instruction.decode_of_encode rfl rfl

theorem costs_of_signature (key : PublicKey) : Costs (keyPush key ++ signatureCall) 32776 := by
  have hprice : Service.checkSig.price = .fixed 32768 := rfl
  have hkey : Costs (keyPush key) 8 := .of_price (decode_keyPush key) nofun
  exact hkey.append (.of_call hprice decode_signatureCall)

/-- A script is recognised as the check of a signature by a key exactly if it was built for that
key, and for every key one is built; the scanner accepts no other script, and none that checks
several keys. It never takes a byte behind the end of a script. Each script that it accepts splits
into the push of its key and the call, and its fee does not depend on the key. -/
theorem signature_recognised_exactly :
    (∀ key, ∃ script, signatureScript key = .ok script) ∧
    (∀ script key, ofScript script = .signature key ↔ signatureScript key = .ok script) ∧
    (∀ script, isSignature script = true ↔ ∃ key, signatureScript key = .ok script) ∧
    (∀ script, ¬(isSignature script = true ∧ isMultisig script = true)) ∧
    (∀ script index, scanSignature script ≠ .error (.outOfBounds index) ∧
      scanSignatureKey script ≠ .error (.outOfBounds index)) ∧
    ∀ script, isSignature script = true →
      ∃ key, ofScript script = .signature key ∧
        Instruction.decode script = .ok [pushKey key, Service.checkSig.call] ∧
        ∀ schedule : FeeSchedule, schedule.feeOfScript script = .ok (schedule.factor * 32776) := by
  refine ⟨fun key => ⟨_, signatureScript_eq key⟩, fun _ _ => ofScript_eq_signature, ?_, ?_, ?_, ?_⟩
  · intro script
    simp only [isSignature_iff, signatureScript_eq, Except.ok.injEq, eq_comm (b := script)]
  · rintro script ⟨hs, hm⟩
    rw [not_isSignature_of_isMultisig hm] at hs
    cases hs
  · exact fun script index =>
      ⟨inBounds_scanSignature script index, inBounds_scanSignatureKey script index⟩
  · intro script h
    obtain ⟨key, rfl⟩ := isSignature_iff.mp h
    refine ⟨key, ofScript_eq_signature.mpr (signatureScript_eq key), ?_, ?_⟩
    · exact Instruction.decode_append (decode_keyPush key) decode_signatureCall
    · exact (costs_of_signature key).feeOfScript

/-- A key whose bytes look like calls. -/
theorem signature_recognised_exactly_odd_key :
    isSignature (0x0c :: 0x21 :: (.replicate 33 0x41 ++ signatureCall)) = true ∧
      ∃ key, ofScript (0x0c :: 0x21 :: (.replicate 33 0x41 ++ signatureCall)) = .signature key ∧
        Instruction.decode (0x0c :: 0x21 :: (.replicate 33 0x41 ++ signatureCall)) =
          .ok [pushKey key, Service.checkSig.call] := by
  have hs : isSignature (0x0c :: 0x21 :: (.replicate 33 0x41 ++ signatureCall)) = true := rfl
  obtain ⟨-, -, -, -, -, hsplit⟩ := signature_recognised_exactly
  obtain ⟨key, hk, hd, -⟩ := hsplit _ hs
  exact ⟨hs, key, hk, hd⟩

end ScriptKit.Witness
