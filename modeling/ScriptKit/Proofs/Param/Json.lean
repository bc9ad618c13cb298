import ScriptKit.Call.Json
import ScriptKit.Proofs.Bytes.Text
import ScriptKit.Proofs.Text.Numeral

namespace ScriptKit

theorem ParamType.ofName?_name (type : ParamType) : ofName? type.name = some type := by
  cases type <;> rfl

theorem ParamType.ofJson_name (type : ParamType) : ofJson (.string type.name) = .ok type := by
  simp only [ofJson, ofVariant, ofName?_name]

namespace Param

/-- A point is not among the digits of a number. -/
theorem wholeDigits?_of_ne_point {text : List Char} (h : ∀ c ∈ text, c ≠ '.') :
    wholeDigits? text = some text := by
  have hd : (text ++ []).dropWhile (· != '.') = [] :=
    List.dropWhile_append_of_pos (by simpa using h)
  rw [List.append_nil] at hd
  rw [wholeDigits?, hd]

/-- The characters of a written number. -/
theorem forall_mem_toString {P : Char → Bool} (hdigit : ∀ k ≤ 57, 48 ≤ k → P (Char.ofNat k) = true)
    (hminus : P '-' = true) (value : Int) : ∀ c ∈ (toString value).toList, P c = true := by
  have hall : ∀ n, ∀ c ∈ Nat.toDigits 10 n, P c = true := fun n c hc =>
    Text.forall_isDigit hdigit (Text.isDigit_of_mem_toDigits hc)
  rw [Numeral.toList_toString]
  split
  · exact hall _
  · exact List.forall_mem_cons.mpr ⟨hminus, hall _⟩

/-- A number is more than a sign. -/
theorem toList_toString_ne (value : Int) :
    (toString value).toList ≠ [] ∧ (toString value).toList ≠ ['-'] := by
  have hn : ∀ n, Nat.toDigits 10 n ≠ [] := fun _ => Nat.toDigits_ne_nil
  rw [Numeral.toList_toString]
  split
  · refine ⟨hn _, fun he => ?_⟩
    have hm : '-' ∈ Nat.toDigits 10 value.toNat := by simp [he]
    exact absurd (Text.isDigit_of_mem_toDigits hm) (by decide)
  · exact ⟨List.cons_ne_nil _ _, fun he => hn _ (List.cons.inj he).2⟩

/-- An integer is read back from its decimal text. -/
theorem parseInt_toString (value : Int) : parseInt (toString value) = .ok value := by
  have htrim : Text.trim (toString value).toList = (toString value).toList :=
    Text.trim_eq_self fun c hc => by
      simpa using forall_mem_toString (P := fun c => !Text.isBlank c) (by decide) (by decide)
        value c hc
  have hpoint : ∀ c ∈ (toString value).toList, c ≠ '.' := fun c hc => by
    simpa using forall_mem_toString (P := (· != '.')) (by decide) (by decide) value c hc
  have hplus : ∀ c ∈ (toString value).toList, c ≠ '+' := fun c hc => by
    simpa using forall_mem_toString (P := (· != '+')) (by decide) (by decide) value c hc
  obtain ⟨hempty, hminus⟩ := toList_toString_ne value
  rw [parseInt]
  simp only [htrim, wholeDigits?_of_ne_point hpoint]
  -- What is read has no plus sign to be cut off.
  generalize hread : Numeral.integer 10 _ = read
  split at hread
  · next he => exact absurd rfl (hplus '+' (he ▸ List.mem_cons_self))
  · rw [Numeral.integer_toString] at hread
    rw [← hread]

/-- A value with the name of its type is taken apart again. -/
theorem Draft.ofJson_typed (type : ParamType) (value : Json) :
    Draft.ofJson (typed type value) = .ok ⟨type, value⟩ := by
  simp only [typed, Draft.ofJson, List.lookup_cons, ParamType.ofJson_name, BEq.rfl]
  rfl

/-- The value of a parameter of a type without parts. -/
theorem ofTyped_scalar {type : ParamType} (ht : type ≠ .array) (value : Json) :
    ofTyped type value = ofScalar type value := by
  rw [ofTyped]
  rintro items rfl
  exact absurd rfl ht

theorem ofTyped_array (items : List Json) :
    ofTyped .array (.array items) = (ofItems items).map .array := by
  rw [ofTyped]

theorem ofItems_cons {item : Json} {rest : List Json} {draft : Draft} {first : Param}
    {others : List Param} (hd : Draft.ofJson item = .ok draft)
    (hf : ofTyped draft.type draft.value = .ok first) (ho : ofItems rest = .ok others) :
    ofItems (item :: rest) = .ok (first :: others) := by
  rw [ofItems]
  split
  · next he => cases hd.symm.trans he
  · next found he =>
    obtain rfl := Except.ok.inj (hd.symm.trans he)
    exact bind_eq_ok.mpr ⟨first, hf, bind_eq_ok.mpr ⟨others, ho, rfl⟩⟩

mutual

/-- A parameter is written as a value under its type, from which it is read back. -/
theorem ofTyped_toJson (p : Param) :
    ∃ value, p.toJson = typed p.type value ∧ ofTyped p.type value = .ok p := by
  have scalar : ∀ value, p.type ≠ .array → p.toJson = typed p.type value →
      ofScalar p.type value = .ok p →
      ∃ value, p.toJson = typed p.type value ∧ ofTyped p.type value = .ok p :=
    fun value ht hw hr => ⟨value, hw, (ofTyped_scalar ht value).trans hr⟩
  cases p with
  | any text =>
    cases text with
    | none => exact scalar .null nofun (by rw [toJson]; rfl) rfl
    | some text => exact scalar (.string text) nofun (by rw [toJson]; rfl) rfl
  | boolean value => exact scalar (.bool value) nofun (by rw [toJson]; rfl) rfl
  | integer value =>
    exact scalar (.string (toString value)) nofun (by rw [toJson]; rfl)
      (map_eq_ok.mpr ⟨value, parseInt_toString value, rfl⟩)
  | byteArray bytes =>
    refine scalar (.string (Bytes.toText bytes)) nofun (by rw [toJson]; rfl) ?_
    change (Bytes.ofText (Bytes.toText bytes)).map byteArray = _
    rw [Bytes.ofText_toText]
    rfl
  | string text => exact scalar (.string text) nofun (by rw [toJson]; rfl) rfl
  | hash160 hash =>
    refine scalar (.string hash.toText) nofun (by rw [toJson]; rfl) ?_
    change (FixedBytes.ofText hash.toText).map hash160 = _
    rw [hash.ofText_toText]
    rfl
  | hash256 hash =>
    refine scalar (.string hash.toText) nofun (by rw [toJson]; rfl) ?_
    change (FixedBytes.ofText hash.toText).map hash256 = _
    rw [hash.ofText_toText]
    rfl
  | publicKey key =>
    refine scalar (.string key.toText) nofun (by rw [toJson]; rfl) ?_
    change (FixedBytes.ofText key.toText).map publicKey = _
    rw [key.ofText_toText]
    rfl
  | array items =>
    refine ⟨.array (toItems items), by rw [toJson]; rfl, (ofTyped_array _).trans ?_⟩
    exact map_eq_ok.mpr ⟨items, ofItems_toItems items, rfl⟩
  | void => exact scalar .null nofun (by rw [toJson]; rfl) rfl

theorem ofItems_toItems (items : List Param) : ofItems (toItems items) = .ok items := by
  cases items with
  | nil => rw [toItems, ofItems]
  | cons item rest =>
    obtain ⟨value, hw, hr⟩ := ofTyped_toJson item
    rw [toItems, hw]
    exact ofItems_cons (Draft.ofJson_typed _ _) hr (ofItems_toItems rest)

end

theorem ofJson_toJson (p : Param) : ofJson p.toJson = .ok p := by
  obtain ⟨value, hw, hr⟩ := ofTyped_toJson p
  rw [hw, ofJson, Draft.ofJson_typed]
  exact hr

theorem ofPart_toJson (p : Param) : ofPart p.toJson = .ok p := by
  obtain ⟨value, hw, hr⟩ := ofTyped_toJson p
  rw [hw]
  exact bind_eq_ok.mpr ⟨_, Draft.ofJson_typed p.type value, by rw [accept, ofDraft, hr]⟩

theorem mapM_ofPart_toItems (items : List Param) : (toItems items).mapM ofPart = .ok items := by
  induction items with
  | nil =>
    rw [toItems]
    rfl
  | cons item rest ih =>
    rw [toItems, List.mapM_cons]
    exact bind_eq_ok.mpr ⟨item, ofPart_toJson item, bind_eq_ok.mpr ⟨rest, ih, rfl⟩⟩

end Param

namespace Call

theorem hashOfJson_toText (hash : UInt160) : hashOfJson (.string hash.toText) = .ok hash := by
  refine bind_eq_ok.mpr ⟨hash.toText, rfl, ?_⟩
  rw [hashOfText, hash.ofText_toText]

theorem flagsOfJson_bits (flags : CallFlags) : flagsOfJson (.int flags.bits.toNat) = .ok flags := by
  have hl := flags.bits.toNat_lt
  have hb : (0 : Int) ≤ flags.bits.toNat ∧ (flags.bits.toNat : Int) < 256 := by omega
  rw [flagsOfJson, Json.byte, if_pos hb]
  simp [Except.map]

/-- A call is read back with all of its parts. -/
theorem ofJson_toJson (call : Call) : ofJson call.toJson = .ok call := by
  have hargs : argsOfJson (.array (Param.toItems call.args)) = .ok call.args :=
    Param.mapM_ofPart_toItems call.args
  simp only [toJson, ofJson, List.lookup_cons, Option.mapM_some, String.reduceBEq, BEq.rfl,
    hashOfJson_toText, hargs, flagsOfJson_bits]
  rfl

/-- Every parameter and every call is read back from the JSON that is written for it. The script
hash of a call stands there with its bytes in the order in which they are shown. -/
theorem params_and_calls_read_back :
    (∀ p : Param, Param.ofJson p.toJson = .ok p) ∧
      ∀ call : Call, ofJson call.toJson = .ok call ∧
        call.toJson.field? "scriptHash" = some (.string (Bytes.toText call.scriptHash.bytes)) :=
  ⟨Param.ofJson_toJson, fun call => ⟨ofJson_toJson call, rfl⟩⟩

end Call

end ScriptKit
