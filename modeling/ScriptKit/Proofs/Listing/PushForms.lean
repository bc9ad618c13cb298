import ScriptKit.Proofs.Instruction.Canonical
import ScriptKit.Proofs.Listing.Faultless
import ScriptKit.Proofs.Listing.Lines.Grammar
import ScriptKit.Proofs.Listing.Meaning
import ScriptKit.Proofs.Listing.RoundTrip
import ScriptKit.Proofs.Listing.Unplaced

namespace ScriptKit

open Listing Listing.Parser Text

namespace Listing

/-- A mnemonic and one argument behind it are a listing of one statement. -/
theorem parse_of_argument {name : String} {word : List Char} {value : Literal}
    (hname : IsMnemonic name.toList) (hs : Stops isBlank word)
    (ha : Reads argument word [] (·.value = value)) :
    ∃ s, parse (name.toList ++ ' ' :: word) = ⟨some [s], []⟩ ∧ s.mnemonic = name ∧
      s.literals = [value] := by
  have hinline : Stops (fun c => c == ' ' || c == '\t') word :=
    hs.of_imp fun _ => isBlank_of_isInline
  have hargs : Reads arguments word [] fun args => args.map (·.value) = [value] := by
    have hnone : Reads (many do comma; argument) [] [] fun args => args = [] :=
      .many (.stop (refuses_comma_of_not_mem List.not_mem_nil).bind rfl)
    refine .orElse_left (ha.bind fun arg hv => hnone.bind fun args he => .pure ?_)
    rw [he, List.map_singleton, hv]
  have hgap : Skips ([] : List Char) [] := skips_gap (stops_nil _)
  have hline : Reads wholeStatement (name.toList ++ ' ' :: word) []
      fun s => s.mnemonic = name ∧ s.literals = [value] :=
    (reads_statement hname 0 hinline hargs).bind fun s hv => hgap.reads.bind fun _ _ => .pure hv
  have hall : ReadsAll nextStatement (name.toList ++ ' ' :: word) []
      fun found => ∃ s, found = [s] ∧ s.mnemonic = name ∧ s.literals = [value] := by
    refine .more hline.skipUntil (by simp) (.stop refuses_nextStatement_end rfl) ?_
    rintro s _ hv rfl
    exact ⟨s, rfl, hv⟩
  obtain ⟨_, hp, s, rfl, hv⟩ := parse_of_readsAll (skips_gap hname.stops_gap) hall
  exact ⟨s, hp, hv⟩

/-- A text of one statement comes to what is written for the statement. -/
theorem assembleText_of_single {text : String} {s : Statement}
    (h : parse text.toList = ⟨some [s], []⟩) :
    assembleText text = (s.encode false).mapError Refusal.notAssembled := by
  rw [assembleText_of_parse h, assemble_cons]
  cases s.encode false with
  | error diagnostic => rfl
  | ok bytes => exact congrArg Except.ok (List.append_nil bytes)

namespace Statement

variable {s : Statement} {wantsAll : Bool}

theorem oneArg_of_read {α : Type} {read : ArgReader α} {arg : Argument} {value : α}
    (ha : s.args = [arg]) (hread : read arg = .ok value) : s.oneArg read = .ok (arg, value) := by
  rw [oneArg, ha]
  simp only [hread]
  rfl

theorem encode_pushInt {value : Int} (hm : s.mnemonic = "PUSHINT")
    (hl : s.literals = [.number value]) :
    s.encode wantsAll = s.located (Emission.int value).result := by
  obtain ⟨arg, ha, hv⟩ := args_of_single hl
  have hread : ArgReader.number arg = .ok value := by
    rw [ArgReader.number, ArgReader.ofKind, hv]
  have hop : Opcode.ofMnemonic? "PUSHINT" = none := by decide +kernel
  rw [encode, hm, hop]
  simp only [↓reduceIte, oneArg_of_read ha hread]
  rfl

theorem encode_pushData {value : Literal} {bytes : Bytes} (hm : s.mnemonic = "PUSHDATA")
    (hl : s.literals = [value]) (hv : value = .bytes bytes ∨
      ∃ text, value = .text text ∧ Utf8.encode text = bytes) :
    s.encode wantsAll = s.located (Emission.data bytes).result := by
  obtain ⟨arg, ha, he⟩ := args_of_single hl
  have hread : ArgReader.data arg = .ok bytes := by
    rcases hv with rfl | ⟨text, rfl, rfl⟩
    · simp only [ArgReader.data, ArgReader.orElse, ArgReader.bytes, ArgReader.ofKind, he]
    · simp only [ArgReader.data, ArgReader.orElse, ArgReader.bytes, ArgReader.text,
        ArgReader.ofKind, he]
  have hop : Opcode.ofMnemonic? "PUSHDATA" = none := by decide +kernel
  have hne : ¬ "PUSHDATA" = "PUSHINT" := by decide
  rw [encode, hm, hop]
  simp only [hne, ↓reduceIte, oneArg_of_read ha hread]
  rfl

end Statement

theorem assembleText_pushInt (value : Int) : ∃ s : Statement,
    assembleText ("PUSHINT " ++ toString value) =
      (s.located (Emission.int value).result).mapError Refusal.notAssembled := by
  have hname : IsMnemonic "PUSHINT".toList := by decide
  have hs : Stops isBlank (toString value).toList := by
    obtain ⟨c, rest, hc, hb, -⟩ := (Literal.Written.number value).first
    rw [hc, stops_cons]
    exact hb
  have ha := reads_argument (.number value) (stops_nil _)
  rw [List.append_nil] at ha
  obtain ⟨s, hp, hm, hl⟩ := parse_of_argument hname hs ha
  have htext : ("PUSHINT " ++ toString value).toList =
      "PUSHINT".toList ++ ' ' :: (toString value).toList := by
    rw [String.toList_append]
    rfl
  rw [← htext] at hp
  exact ⟨s, by rw [assembleText_of_single hp, Statement.encode_pushInt hm hl]⟩

/-- A byte string or a text behind the mnemonic is read without a fault and pushed. -/
theorem assembleText_pushData {word : String} {value : Literal} {bytes : Bytes}
    (hs : Stops isBlank word.toList) (ha : Reads argument word.toList [] (·.value = value))
    (hv : value = .bytes bytes ∨ ∃ text, value = .text text ∧ Utf8.encode text = bytes) :
    ∃ s, parse ("PUSHDATA " ++ word).toList = ⟨some [s], []⟩ ∧ s.literals = [value] ∧
      assembleText ("PUSHDATA " ++ word) =
        (s.located (Emission.data bytes).result).mapError Refusal.notAssembled := by
  have hname : IsMnemonic "PUSHDATA".toList := by decide
  obtain ⟨s, hp, hm, hl⟩ := parse_of_argument hname hs ha
  have htext : ("PUSHDATA " ++ word).toList = "PUSHDATA".toList ++ ' ' :: word.toList := by
    rw [String.toList_append]
    rfl
  rw [← htext] at hp
  exact ⟨s, hp, hl, by rw [assembleText_of_single hp, Statement.encode_pushData hm hl hv]⟩

end Listing

namespace Emission

theorem int_of_encode {value : Int} {i : Instruction} {script : Bytes}
    (hp : Instruction.pushInt value = .ok i) (he : i.encode = .ok script) :
    int value = bytes script := by
  rw [int_eq, hp]
  change ofResult i.encode = _
  rw [he]
  rfl

theorem data_of_encode {value : Bytes} {op : Opcode} {script : Bytes}
    (hp : Instruction.dataPush value.length = .ok op)
    (he : Instruction.encode ⟨op, some value⟩ = .ok script) : data value = bytes script := by
  rw [data_eq, Instruction.pushBytes, hp]
  change ofResult (Instruction.encode ⟨op, some value⟩) = _
  rw [he]
  rfl

/-- Data below 4 GiB are pushed, by an instruction that fits their length. -/
theorem data_of_length {value : Bytes} (hl : value.length < 2 ^ 32) : ∃ op script,
    Instruction.dataPush value.length = .ok op ∧ op ∈ Instruction.dataPushes ∧
      Instruction.encode ⟨op, some value⟩ = .ok script ∧ data value = bytes script := by
  obtain ⟨op, hop⟩ := Instruction.dataPush_ok_iff.mpr hl
  have hpush : Instruction.pushBytes value = .ok ⟨op, some value⟩ := by
    rw [Instruction.pushBytes, hop]
    rfl
  obtain ⟨hm, -, hvalid⟩ := Instruction.pushBytes_eq_ok hpush
  have he := Instruction.encode_eq_ok_iff.mpr ⟨hvalid, rfl⟩
  exact ⟨op, _, hop, hm, he, data_of_encode hop he⟩

end Emission

/-- An integer that is pushed at all is pushed by the same script in every way, and any other is
refused in every way with the same fault. Data below 4 GiB are pushed by the same script in every
way; it holds one data push, and no other data push of the same data is shorter. -/
theorem pushes_agree :
    (∀ value : Int, -2 ^ 255 ≤ value → value < 2 ^ 255 → ∃ script,
      Emission.int value = .bytes script ∧
      (Instruction.pushInt value >>= Instruction.encode) = .ok script ∧
      assembleText ("PUSHINT " ++ toString value) = .ok script) ∧
    (∀ value : Int, ¬(-2 ^ 255 ≤ value ∧ value < 2 ^ 255) →
      Emission.int value = .failed (.integerOverflow value) ∧
      (Instruction.pushInt value >>= Instruction.encode) = .error (.integerOverflow value) ∧
      ∃ span, assembleText ("PUSHINT " ++ toString value) =
        .error (.notAssembled (.encode (.integerOverflow value) span))) ∧
    ∀ data : Bytes, data.length < 2 ^ 32 → ∃ op script,
      Instruction.dataPush data.length = .ok op ∧ op ∈ Instruction.dataPushes ∧
      Emission.data data = .bytes script ∧
      Instruction.encode ⟨op, some data⟩ = .ok script ∧
      assembleText ("PUSHDATA " ++ bytesText data) = .ok script ∧
      Instruction.decode script = .ok [⟨op, some data⟩] ∧
      ∀ (i : Instruction) (other : Bytes), i.op ∈ Instruction.dataPushes → i.payload = data →
        i.encode = .ok other → script.length ≤ other.length := by
  refine ⟨?_, ?_, ?_⟩
  · intro value hl hu
    obtain ⟨i, hi⟩ := Instruction.pushInt_ok_iff.mpr ⟨hl, hu⟩
    obtain ⟨-, hvalid, -⟩ := Instruction.pushInt_eq_ok hi
    have he := Instruction.encode_eq_ok_iff.mpr ⟨hvalid, rfl⟩
    have hint := Emission.int_of_encode hi he
    obtain ⟨s, hs⟩ := assembleText_pushInt value
    exact ⟨_, hint, bind_eq_ok.mpr ⟨i, hi, he⟩, by rw [hs, hint]; rfl⟩
  · intro value hrange
    have hi := Instruction.pushInt_error hrange
    have hint : Emission.int value = .failed (.integerOverflow value) := by
      rw [Emission.int, hi]
    obtain ⟨s, hs⟩ := assembleText_pushInt value
    exact ⟨hint, by rw [hi]; rfl, s.span, by rw [hs, hint]; rfl⟩
  · intro data hl
    obtain ⟨op, script, hop, hm, he, hdata⟩ := Emission.data_of_length hl
    have hpush : Instruction.pushBytes data = .ok ⟨op, some data⟩ := by
      rw [Instruction.pushBytes, hop]
      rfl
    have ha := reads_argument (.bytes data) (stops_nil _)
    rw [List.append_nil] at ha
    have hs : Stops isBlank (bytesText data).toList := by
      rw [toList_bytesText]
      exact stops_cons.mpr (by decide)
    obtain ⟨s, -, -, htext⟩ := assembleText_pushData hs ha (.inl rfl)
    refine ⟨op, script, hop, hm, hdata, he, by rw [htext, hdata]; rfl,
      Instruction.decode_of_encode he (Instruction.normal_of_dataPush hm rfl), ?_⟩
    intro i other hi hp ho
    rw [Instruction.length_of_encode he, Instruction.length_of_encode ho]
    exact Instruction.size_pushBytes_le hpush hi (Instruction.encode_eq_ok_iff.mp ho).1 hp

/-- An integer that takes two bytes, the least one that is refused, and the least number of bytes
whose length takes two bytes. -/
theorem pushes_agree_at_switches :
    (Emission.int (-129) = .bytes [0x01, 0x7f, 0xff] ∧
      assembleText ("PUSHINT " ++ toString (-129 : Int)) = .ok [0x01, 0x7f, 0xff]) ∧
    (Emission.int (2 ^ 255) = .failed (.integerOverflow (2 ^ 255)) ∧
      ∃ span, assembleText ("PUSHINT " ++ toString (2 ^ 255 : Int)) =
        .error (.notAssembled (.encode (.integerOverflow (2 ^ 255)) span))) ∧
    Emission.data (List.replicate 256 7) = .bytes (0x0d :: 0 :: 1 :: List.replicate 256 7) ∧
      assembleText ("PUSHDATA " ++ bytesText (List.replicate 256 7)) =
        .ok (0x0d :: 0 :: 1 :: List.replicate 256 7) := by
  have hint : Emission.int (-129) = .bytes [0x01, 0x7f, 0xff] := by decide +kernel
  have hdata : Emission.data (List.replicate 256 7) =
      .bytes (0x0d :: 0 :: 1 :: List.replicate 256 7) := by decide +kernel
  obtain ⟨script, hi, -, ha⟩ := pushes_agree.1 (-129) (by decide) (by decide)
  obtain rfl := congrArg Emission.written (hi.symm.trans hint)
  obtain ⟨hfail, -, hspan⟩ := pushes_agree.2.1 (2 ^ 255) (by decide)
  obtain ⟨op, written, -, -, hd, -, hb, -⟩ :=
    pushes_agree.2.2 (List.replicate 256 7) (by rw [List.length_replicate]; decide)
  obtain rfl := congrArg Emission.written (hd.symm.trans hdata)
  exact ⟨⟨hint, ha⟩, ⟨hfail, hspan⟩, hdata, hb⟩

end ScriptKit
