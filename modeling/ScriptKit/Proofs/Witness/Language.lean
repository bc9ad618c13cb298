import ScriptKit.Proofs.Bytes.Fixed
import ScriptKit.Proofs.Bytes.Scan
import ScriptKit.Proofs.Instruction.Shortest
import ScriptKit.Witness

namespace ScriptKit.Witness

/-- The ways to push a number before a check: one byte alone up to 16, or one or two bytes of
operand, which are read as signed. -/
inductive CountPush (n : Nat) : Bytes → Prop where
  | small (low : 1 ≤ n) (high : n ≤ 16) : CountPush n [UInt8.ofNat (0x10 + n)]
  | byte {a : UInt8} (spells : LittleEndian.toInt true [a] = n) : CountPush n [0x00, a]
  | word {a b : UInt8} (spells : LittleEndian.toInt true [a, b] = n) : CountPush n [0x01, a, b]

/-- The push of a key: its length in one byte, then its bytes. -/
def keyPush (key : PublicKey) : Bytes := 0x0c :: 0x21 :: key.bytes

/-- The call of the check. -/
def checkCall : Bytes := [0x41, 0x9e, 0xd0, 0xdc, 0x3a]

/-- The script is a check of signatures by these keys, so many of which must have signed. -/
structure IsCheck (threshold : Nat) (keys : List PublicKey) (script : Bytes) : Prop where
  positive : 1 ≤ threshold
  reachable : threshold ≤ keys.length
  bounded : keys.length ≤ 1024
  form : ∃ first last, CountPush threshold first ∧ CountPush keys.length last ∧
    script = first ++ (keys.flatMap keyPush ++ (last ++ checkCall))

variable {n offset next : Nat} {before rest script : Bytes} {keys : List PublicKey}

theorem length_keyPush (key : PublicKey) : (keyPush key).length = 35 := by
  rw [keyPush, List.length_cons, List.length_cons, key.length_eq]
  rfl

/-- A number is not pushed by what pushes a key. -/
theorem CountPush.head_ne {push : Bytes} (h : CountPush n push) :
    ∃ byte tail, push = byte :: tail ∧ byte ≠ Opcode.pushData1.code := by
  cases h with
  | small low high =>
    refine ⟨_, [], rfl, ?_⟩
    intro he
    have hb := congrArg UInt8.toNat he
    have hc : Opcode.pushData1.code.toNat = 12 := rfl
    rw [UInt8.toNat_ofNat', hc] at hb
    omega
  | byte spells => exact ⟨_, _, rfl, by decide⟩
  | word spells => exact ⟨_, _, rfl, by decide⟩

theorem countOf_of_smallInt? {op : Opcode} {value : Int} (h : op.smallInt? = some value) :
    countOf script offset op = .ok (value, offset + 1) := by
  rw [countOf]
  · rw [h]
    rfl
  · rintro rfl
    cases h
  · rintro rfl
    cases h

/-- What an opcode pushes with the bytes behind it, if that is a positive number. -/
theorem countPush_of_countOf {op : Opcode} {value : Int} (hv : 1 ≤ value)
    (h : countOf (before ++ op.code :: rest) before.length op = .ok (value, next)) :
    ∃ push after, CountPush value.toNat push ∧ op.code :: rest = push ++ after ∧
      next = before.length + push.length := by
  have hn : (value.toNat : Int) = value := Int.toNat_of_nonneg (by omega)
  unfold countOf at h
  split at h
  · simp only [bind_eq_ok, pure_eq_ok, Scan.expect_eq_ok, Scan.getElem?_behind] at h
    obtain ⟨a, ha, he⟩ := h
    obtain ⟨rfl, rfl⟩ := Prod.mk.inj he
    cases rest with
    | nil => cases ha
    | cons b after =>
      obtain rfl := Option.some.inj ha
      exact ⟨[0x00, b], after, .byte hn.symm, rfl, rfl⟩
  · simp only [bind_eq_ok, pure_eq_ok, Scan.expect_eq_ok, Scan.slice?_behind,
      Scan.byteAt_eq_ok] at h
    obtain ⟨bytes, hs, a, ha, b, hb, he⟩ := h
    obtain ⟨rfl, rfl⟩ := Prod.mk.inj he
    obtain ⟨code, after, hc, hone, htwo⟩ := Scan.slice?_eq_some.mp hs
    obtain ⟨c, rfl⟩ := List.length_eq_one_iff.mp hone
    obtain ⟨x, y, rfl⟩ := List.length_eq_two.mp htwo
    obtain rfl := Option.some.inj ha
    obtain rfl := Option.some.inj hb
    obtain ⟨rfl, rfl⟩ := List.cons.inj hc
    exact ⟨[0x01, x, y], after, .word hn.symm, rfl, rfl⟩
  · simp only [bind_eq_ok, pure_eq_ok, Scan.expect_eq_ok] at h
    obtain ⟨small, hs, he⟩ := h
    obtain ⟨rfl, rfl⟩ := Prod.mk.inj he
    obtain ⟨-, hu, -⟩ := Instruction.smallInt?_eq_some hs
    have hcode : op.code = UInt8.ofNat (0x10 + small.toNat) :=
      Instruction.code_of_smallInt? (hn.symm ▸ hs)
    exact ⟨[op.code], rest, hcode ▸ .small (by omega) (by omega), rfl, rfl⟩

/-- Every push of a number is read, whatever follows it. -/
theorem countOf_of_countPush (before rest : Bytes) {push : Bytes} (h : CountPush n push) :
    ∃ op tail, push = op.code :: tail ∧
      countOf (before ++ (push ++ rest)) before.length op =
        .ok (n, before.length + push.length) := by
  cases h with
  | small low high =>
    have hlow : -1 ≤ (n : Int) := by omega
    have hhigh : (n : Int) ≤ 16 := by omega
    obtain ⟨op, ho, hs, -⟩ := Instruction.ofSmallInt?_of_small hlow hhigh
    exact ⟨op, [], by rw [Instruction.code_of_smallInt? hs], countOf_of_smallInt? hs⟩
  | @byte a spells =>
    refine ⟨.pushInt8, [a], rfl, ?_⟩
    refine bind_eq_ok.mpr ⟨a, ?_, ?_⟩
    · rw [Scan.expect_eq_ok, Scan.getElem?_behind]
      rfl
    · rw [spells]
      rfl
  | @word a b spells =>
    refine ⟨.pushInt16, [a, b], rfl, ?_⟩
    refine bind_eq_ok.mpr ⟨[a, b], ?_, ?_⟩
    · rw [Scan.expect_eq_ok, Scan.slice?_behind]
      exact Scan.slice?_eq_some.mpr ⟨[0x01], rest, rfl, rfl, rfl⟩
    · change (pure (LittleEndian.toInt true [a, b], before.length + 3) : Scan _) = _
      rw [spells]
      rfl

theorem readCount_eq_ok (before : Bytes) :
    readCount (before ++ rest) before.length = .ok (n, next) ↔
      1 ≤ n ∧ n ≤ maxKeys ∧ ∃ push after, CountPush n push ∧ rest = push ++ after ∧
        next = before.length + push.length := by
  simp only [readCount, bind_eq_ok, pure_eq_ok, Scan.expect_eq_ok, Scan.ensure_eq_ok]
  have hfirst := Scan.getElem?_behind before rest 0
  rw [Nat.add_zero] at hfirst
  rw [hfirst]
  constructor
  · intro h
    obtain ⟨byte, hb, op, ho, ⟨value, next'⟩, hc, _, ⟨hl, hu⟩, he⟩ := h
    obtain ⟨rfl, rfl⟩ := Prod.mk.inj he
    cases rest with
    | nil => cases hb
    | cons b tail =>
      obtain rfl := Option.some.inj hb
      rw [← Opcode.code_of_ofCode? ho] at hc ⊢
      exact ⟨by omega, by omega, countPush_of_countOf hl hc⟩
  · intro h
    obtain ⟨hl, hu, push, after, hp, rfl, rfl⟩ := h
    obtain ⟨op, tail, rfl, hc⟩ := countOf_of_countPush before after hp
    exact ⟨op.code, rfl, op, Opcode.ofCode?_code op, _, hc, (), ⟨by omega, by omega⟩, by simp⟩

/-- The key behind a mark is as long as it says. -/
theorem slice?_keyPush {bytes : Bytes} :
    Scan.slice? (0x0c :: 0x21 :: rest) 2 FixedBytes.Kind.publicKey.length = some bytes ↔
      ∃ after, rest = bytes ++ after ∧ bytes.length = FixedBytes.Kind.publicKey.length := by
  rw [Scan.slice?_eq_some]
  constructor
  · intro h
    obtain ⟨skipped, after, hs, htwo, hl⟩ := h
    obtain ⟨a, b, rfl⟩ := List.length_eq_two.mp htwo
    obtain ⟨-, -, rfl⟩ : 0x0c = a ∧ 0x21 = b ∧ rest = bytes ++ after := by simpa using hs
    exact ⟨after, rfl, hl⟩
  · intro h
    obtain ⟨after, rfl, hl⟩ := h
    exact ⟨[0x0c, 0x21], after, rfl, rfl, hl⟩

/-- Either no key is pushed here, or one, and reading goes on behind it. -/
theorem readKeys_step :
    readKeys (before ++ rest) before.length = .ok (keys, next) ↔
      (rest.head? ≠ some Opcode.pushData1.code ∧ keys = [] ∧ next = before.length) ∨
      ∃ key others after, rest = keyPush key ++ after ∧ keys = key :: others ∧
        readKeys ((before ++ keyPush key) ++ after) (before ++ keyPush key).length =
          .ok (others, next) := by
  have hfirst := Scan.getElem?_behind before rest 0
  rw [Nat.add_zero, ← List.head?_eq_getElem?] at hfirst
  have hplace (key : PublicKey) : before.length + 2 + FixedBytes.Kind.publicKey.length =
      (before ++ keyPush key).length := by
    rw [List.length_append, length_keyPush]
    rfl
  rw [readKeys, hfirst]
  by_cases hs : rest.head? = some Opcode.pushData1.code
  · rw [dif_pos hs]
    simp only [bind_eq_ok, pure_eq_ok, Scan.ensure_eq_ok, Scan.expect_eq_ok, toOption_eq_some,
      FixedBytes.ofBytes_eq_ok, Scan.getElem?_behind, Scan.slice?_behind]
    obtain ⟨tail, rfl⟩ := List.head?_eq_some_iff.mp hs
    constructor
    · intro h
      obtain ⟨-, hlength, bytes, hb, key, rfl, ⟨others, next'⟩, hrest, he⟩ := h
      obtain ⟨rfl, rfl⟩ := Prod.mk.inj he
      cases tail with
      | nil => cases hlength
      | cons l tail =>
        obtain rfl := Option.some.inj hlength
        obtain ⟨after, rfl, -⟩ := slice?_keyPush.mp hb
        rw [hplace key] at hrest
        refine .inr ⟨key, others, after, rfl, rfl, ?_⟩
        rw [List.append_assoc]
        exact hrest
    · intro h
      rcases h with ⟨hn, -⟩ | ⟨key, others, after, ht, rfl, hrest⟩
      · exact absurd hs hn
      · obtain ⟨-, rfl⟩ := List.cons.inj ht
        refine ⟨(), rfl, key.bytes, slice?_keyPush.mpr ⟨after, rfl, key.length_eq⟩, key, rfl,
          (others, next), ?_, rfl⟩
        rw [hplace key]
        rw [List.append_assoc] at hrest
        exact hrest
  · rw [dif_neg hs]
    constructor
    · intro h
      obtain ⟨rfl, rfl⟩ := Prod.mk.inj (Except.ok.inj h)
      exact .inl ⟨hs, rfl, rfl⟩
    · intro h
      rcases h with ⟨-, rfl, rfl⟩ | ⟨key, _, after, rfl, -⟩
      · rfl
      · exact absurd rfl hs

/-- Keys are read as long as keys are pushed. -/
theorem readKeys_eq_ok :
    readKeys (before ++ rest) before.length = .ok (keys, next) ↔
      ∃ after, rest = keys.flatMap keyPush ++ after ∧
        after.head? ≠ some Opcode.pushData1.code ∧
        next = before.length + (keys.flatMap keyPush).length := by
  induction keys generalizing before rest with
  | nil =>
    rw [readKeys_step]
    constructor
    · intro h
      rcases h with ⟨hn, -, rfl⟩ | ⟨_, _, _, _, hk, _⟩
      · exact ⟨rest, rfl, hn, rfl⟩
      · cases hk
    · intro h
      obtain ⟨after, rfl, hn, rfl⟩ := h
      exact .inl ⟨hn, rfl, rfl⟩
  | cons key others ih =>
    rw [readKeys_step]
    constructor
    · intro h
      rcases h with ⟨-, hk, -⟩ | ⟨_, _, tail, rfl, hk, hrest⟩
      · cases hk
      · obtain ⟨rfl, rfl⟩ := List.cons.inj hk
        obtain ⟨after, rfl, hn, rfl⟩ := ih.mp hrest
        refine ⟨after, by simp, hn, ?_⟩
        simp only [List.flatMap_cons, List.length_append]
        omega
    · intro h
      obtain ⟨after, rfl, hn, rfl⟩ := h
      refine .inr ⟨key, others, others.flatMap keyPush ++ after, by simp, rfl, ?_⟩
      refine ih.mpr ⟨after, rfl, hn, ?_⟩
      simp only [List.flatMap_cons, List.length_append]
      omega

/-- The last five bytes call a service. -/
theorem call_eq_ok (service : Service) (before : Bytes) (hl : rest.length = 5) :
    (Scan.byteAt (before ++ rest) before.length = .ok Opcode.syscall.code ∧
      Scan.bytesAt (before ++ rest) (before.length + 1) 4 = .ok service.code.bytes) ↔
        rest = Opcode.syscall.code :: service.code.bytes := by
  have hfirst := Scan.getElem?_behind before rest 0
  rw [Nat.add_zero, ← List.head?_eq_getElem?] at hfirst
  rw [Scan.byteAt_eq_ok, Scan.bytesAt_eq_ok, Scan.slice?_behind, hfirst, Scan.slice?_eq_some]
  constructor
  · intro h
    obtain ⟨hh, code, after, rfl, hone, hfour⟩ := h
    obtain ⟨c, rfl⟩ := List.length_eq_one_iff.mp hone
    obtain rfl := Option.some.inj hh
    have ha : after = [] := by
      apply List.eq_nil_of_length_eq_zero
      simp only [List.length_append, List.length_cons, List.length_nil, hfour] at hl
      omega
    subst ha
    simp
  · rintro rfl
    exact ⟨rfl, [Opcode.syscall.code], [], by simp, rfl, service.code.length_eq⟩

theorem CountPush.one_le_length {push : Bytes} (h : CountPush n push) : 1 ≤ push.length := by
  obtain ⟨byte, tail, rfl, -⟩ := h.head_ne
  exact Nat.succ_le_succ (Nat.zero_le _)

theorem length_keyPushes (keys : List PublicKey) :
    (keys.flatMap keyPush).length = 35 * keys.length := by
  induction keys with
  | nil => rfl
  | cons key others ih =>
    rw [List.flatMap_cons, List.length_append, length_keyPush, ih, List.length_cons]
    omega

/-- A check has at least one key. -/
theorem IsCheck.min_length {threshold : Nat} (h : IsCheck threshold keys script) :
    minMultisigLength ≤ script.length := by
  obtain ⟨first, last, hf, hl, rfl⟩ := h.form
  have hfl := hf.one_le_length
  have hll := hl.one_le_length
  have hpositive := h.positive
  have hreachable := h.reachable
  have hcall : checkCall.length = 5 := rfl
  simp only [List.length_append, length_keyPushes, hcall, minMultisigLength]
  omega

variable {threshold : Nat}

/-- Only checks are accepted, and for what they say. -/
theorem isCheck_of_scanMultisig (h : scanMultisig script = .ok (threshold, keys)) :
    IsCheck threshold keys script := by
  simp only [scanMultisig, bind_eq_ok, pure_eq_ok, Scan.ensure_eq_ok] at h
  obtain ⟨_, -, ⟨t, _⟩, ht, ⟨ks, _⟩, hk, _, ⟨hreach, hbound⟩, ⟨count, _⟩, hc, _, ⟨rfl, hlength⟩,
    _, hcode, _, rfl, _, hservice, _, rfl, he⟩ := h
  obtain ⟨rfl, rfl⟩ := Prod.mk.inj he
  -- Each look starts where the pieces found so far end.
  obtain ⟨hpos, -, first, tail, hfirst, rfl, rfl⟩ := (readCount_eq_ok []).mp ht
  simp only [List.length_nil, Nat.zero_add] at hk
  obtain ⟨tail, rfl, -, rfl⟩ := readKeys_eq_ok.mp hk
  simp only [← List.append_assoc, ← List.length_append] at hc hlength hcode hservice
  obtain ⟨-, -, last, tail, hlast, rfl, rfl⟩ := (readCount_eq_ok _).mp hc
  simp only [← List.append_assoc, ← List.length_append] at hlength hcode hservice
  have hfive : tail.length = 5 := by
    rw [List.length_append] at hlength
    omega
  obtain rfl := (call_eq_ok .checkMultisig _ hfive).mp ⟨hcode, hservice⟩
  exact ⟨hpos, hreach, hbound, first, last, hfirst, hlast, rfl⟩

theorem IsCheck.scanMultisig_eq (h : IsCheck threshold keys script) :
    scanMultisig script = .ok (threshold, keys) := by
  obtain ⟨first, last, hfirst, hlast, hscript⟩ := h.form
  have hpos := h.positive
  have hreach := h.reachable
  have hbound : keys.length ≤ maxKeys := h.bounded
  have hkeys : (last ++ checkCall).head? ≠ some Opcode.pushData1.code := by
    obtain ⟨byte, tail, rfl, hne⟩ := hlast.head_ne
    simpa using hne
  have ht : readCount script 0 = .ok (threshold, first.length) := by
    have hr := (readCount_eq_ok []).mpr
      ⟨hpos, hreach.trans hbound, first, _, hfirst, hscript, rfl⟩
    simpa using hr
  have hk : readKeys script first.length = .ok (keys, (first ++ keys.flatMap keyPush).length) := by
    rw [hscript, readKeys_eq_ok]
    exact ⟨_, rfl, hkeys, List.length_append⟩
  have hc : readCount script (first ++ keys.flatMap keyPush).length =
      .ok (keys.length, (first ++ keys.flatMap keyPush ++ last).length) := by
    rw [hscript, ← List.append_assoc, readCount_eq_ok]
    exact ⟨hpos.trans hreach, hbound, last, _, hlast, rfl, List.length_append⟩
  have hend : first ++ keys.flatMap keyPush ++ last ++ checkCall = script := by
    rw [hscript]
    simp only [List.append_assoc]
  have hfive : checkCall.length = 5 := rfl
  have hcall := (call_eq_ok .checkMultisig (first ++ keys.flatMap keyPush ++ last) hfive).mpr rfl
  rw [hend] at hcall
  have hlength : script.length = (first ++ keys.flatMap keyPush ++ last).length + 5 := by
    rw [← hend, List.length_append]
    rfl
  simp only [scanMultisig, bind_eq_ok, pure_eq_ok, Scan.ensure_eq_ok]
  exact ⟨(), h.min_length, _, ht, _, hk, (), ⟨hreach, hbound⟩, _, hc, (), ⟨rfl, hlength⟩, _,
    hcall.1, (), rfl, _, hcall.2, (), rfl, rfl⟩

/-- The scanner accepts the checks and reads off what they say. -/
theorem scanMultisig_eq_ok :
    scanMultisig script = .ok (threshold, keys) ↔ IsCheck threshold keys script := by
  constructor
  · intro h
    exact isCheck_of_scanMultisig h
  · intro h
    exact h.scanMultisig_eq

theorem inBounds_countOf (op : Opcode) : Scan.InBounds (countOf script offset op) := by
  unfold countOf
  split
  · exact (Scan.inBounds_expect _).bind fun _ _ => Scan.inBounds_ok _
  · refine (Scan.inBounds_expect _).bind fun bytes hs => ?_
    have htwo : bytes.length = 2 := by
      obtain ⟨-, -, -, -, hl⟩ := Scan.slice?_eq_some.mp (Scan.expect_eq_ok.mp hs)
      exact hl
    refine (Scan.inBounds_byteAt (by omega)).bind fun _ _ => ?_
    exact (Scan.inBounds_byteAt (by omega)).bind fun _ _ => Scan.inBounds_ok _
  · exact (Scan.inBounds_expect _).bind fun _ _ => Scan.inBounds_ok _

theorem inBounds_readCount : Scan.InBounds (readCount script offset) := by
  refine (Scan.inBounds_expect _).bind fun _ _ => ?_
  refine (Scan.inBounds_expect _).bind fun op _ => ?_
  refine (inBounds_countOf op).bind fun _ _ => ?_
  exact (Scan.inBounds_ensure _).bind fun _ _ => Scan.inBounds_ok _

theorem inBounds_readKeys : Scan.InBounds (readKeys script offset) := by
  fun_induction readKeys script offset with
  | case1 offset _ ih =>
    refine (Scan.inBounds_ensure _).bind fun _ _ => ?_
    refine (Scan.inBounds_expect _).bind fun _ _ => ?_
    refine (Scan.inBounds_expect _).bind fun _ _ => ?_
    exact ih.bind fun _ _ => Scan.inBounds_ok _
  | case2 offset _ => exact Scan.inBounds_ok _

/-- The last five bytes are taken for granted only where the script has them. -/
theorem inBounds_scanMultisig (script : Bytes) : Scan.InBounds (scanMultisig script) := by
  refine (Scan.inBounds_ensure _).bind fun _ _ => ?_
  refine inBounds_readCount.bind fun _ _ => ?_
  refine inBounds_readKeys.bind fun _ _ => ?_
  refine (Scan.inBounds_ensure _).bind fun _ _ => ?_
  refine inBounds_readCount.bind fun counted _ => ?_
  refine (Scan.inBounds_ensure _).bind fun _ hend => ?_
  have hlength := (Scan.ensure_eq_ok.mp hend).2
  refine (Scan.inBounds_byteAt (by omega)).bind fun _ _ => ?_
  refine (Scan.inBounds_ensure _).bind fun _ _ => ?_
  refine (Scan.inBounds_bytesAt (by omega)).bind fun _ _ => ?_
  exact (Scan.inBounds_ensure _).bind fun _ _ => Scan.inBounds_ok _

theorem scanSignature_eq_ok {u : Unit} (h : scanSignature script = .ok u) :
    script.length = signatureLength ∧ script.head? = some Opcode.pushData1.code := by
  simp only [scanSignature, bind_eq_ok, Scan.ensure_eq_ok, Scan.byteAt_eq_ok] at h
  obtain ⟨_, hlength, _, hfirst, _, rfl, -⟩ := h
  exact ⟨hlength, by rw [List.head?_eq_getElem?, hfirst]⟩

theorem inBounds_scanSignature (script : Bytes) : Scan.InBounds (scanSignature script) := by
  refine (Scan.inBounds_ensure _).bind fun _ h => ?_
  have hlength : script.length = 40 := Scan.ensure_eq_ok.mp h
  refine (Scan.inBounds_byteAt (by omega)).bind fun _ _ => ?_
  refine (Scan.inBounds_ensure _).bind fun _ _ => ?_
  refine (Scan.inBounds_byteAt (by omega)).bind fun _ _ => ?_
  refine (Scan.inBounds_ensure _).bind fun _ _ => ?_
  refine (Scan.inBounds_byteAt (by omega)).bind fun _ _ => ?_
  refine (Scan.inBounds_ensure _).bind fun _ _ => ?_
  refine (Scan.inBounds_bytesAt (by omega)).bind fun _ _ => ?_
  exact Scan.inBounds_ensure _

theorem inBounds_scanSignatureKey (script : Bytes) : Scan.InBounds (scanSignatureKey script) := by
  refine (inBounds_scanSignature script).bind fun _ h => ?_
  have hlength : script.length = 40 := (scanSignature_eq_ok h).1
  have hkey : FixedBytes.Kind.publicKey.length = 33 := rfl
  refine (Scan.inBounds_bytesAt (by omega)).bind fun _ _ => ?_
  exact Scan.inBounds_expect _

end ScriptKit.Witness
