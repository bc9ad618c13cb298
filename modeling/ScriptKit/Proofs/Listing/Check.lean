import ScriptKit.Proofs.Listing.Assembler
import ScriptKit.Proofs.Opcode

namespace ScriptKit.Listing

variable {α β : Type}

/-- What is left of a fault if of two numbers out of range only the first is named. -/
def Diagnostic.first : Diagnostic → Diagnostic
  | .both (.outOfRange span) (.outOfRange _) => .argument (.outOfRange span)
  | diagnostic => diagnostic

/-- A computation that never finds two numbers out of range. -/
def NamesOne (x : Except Diagnostic α) : Prop :=
  ∀ diagnostic, x = .error diagnostic → diagnostic.first = diagnostic

namespace NamesOne

theorem ok (value : α) : NamesOne (.ok value : Except Diagnostic α) := FailsWith.ok value

theorem error {diagnostic : Diagnostic} (h : diagnostic.first = diagnostic) :
    NamesOne (.error diagnostic : Except Diagnostic α) :=
  FailsWith.error h

theorem map {x : Except Diagnostic α} (hx : NamesOne x) (f : α → β) : NamesOne (x.map f) :=
  FailsWith.map hx f

theorem bind {x : Except Diagnostic α} {f : α → Except Diagnostic β} (hx : NamesOne x)
    (hf : ∀ value, NamesOne (f value)) : NamesOne (x >>= f) :=
  FailsWith.bind hx fun value _ => hf value

end NamesOne

namespace ArgReader

variable {p q : ArgReader α} {arg : Argument}

theorem namesOne_ofKind (kind : ArgKind) (value? : Literal → Option α) (arg : Argument) :
    NamesOne (ofKind kind value? arg) := by
  rw [ofKind]
  split
  · exact .ok _
  · exact .error rfl

theorem namesOne_orElse (hp : NamesOne (p arg)) (hq : NamesOne (q arg)) :
    NamesOne (orElse p q arg) := by
  rw [orElse]
  split
  · split
    · exact .error rfl
    · exact hq
  · exact hp

theorem namesOne_data (arg : Argument) : NamesOne (data arg) :=
  namesOne_orElse (namesOne_ofKind _ _ arg) (namesOne_ofKind _ _ arg)

theorem namesOne_content (arg : Argument) : NamesOne (content arg) :=
  namesOne_orElse ((namesOne_ofKind _ _ arg).map _) ((namesOne_ofKind _ _ arg).map _)

theorem namesOne_service (arg : Argument) : NamesOne (service arg) := by
  refine (namesOne_ofKind _ _ arg).bind fun name => ?_
  split
  · exact .ok _
  · exact .error rfl

theorem namesOne_flag (arg : Argument) : NamesOne (flag arg) := by
  refine (namesOne_ofKind _ _ arg).bind fun value => ?_
  split
  · exact .ok _
  · split
    · exact .ok _
    · exact .error rfl

end ArgReader

namespace Statement

theorem namesOne_noArgs (s : Statement) : NamesOne s.noArgs := by
  rw [noArgs]
  split
  · exact .ok _
  · exact .error rfl

theorem namesOne_oneArg {read : ArgReader α} (h : ∀ arg, NamesOne (read arg)) (s : Statement) :
    NamesOne (s.oneArg read) := by
  rw [oneArg]
  split
  · exact .error rfl
  · exact (h _).map _
  · exact .error rfl

theorem namesOne_fixedOperand (op : Opcode) (width : Nat) (span : Span) (content : Content) :
    NamesOne (fixedOperand op width span content) := by
  cases content with
  | number value =>
    rw [fixedOperand, numberBytes]
    cases LittleEndian.ofInt? op.hasSignedOperand width value with
    | none => exact .error rfl
    | some bytes => exact .ok _
  | bytes bytes =>
    rw [fixedOperand]
    split
    · exact .ok _
    · exact .error rfl

theorem namesOne_located (s : Statement) (x : Except Fault α) : NamesOne (s.located x) := by
  cases x with
  | ok value => exact .ok _
  | error fault => exact .error rfl

/-- Both numbers that the statement gives for the halves of an operand are out of range. -/
structure HalvesOutOfRange (s : Statement) (first second : Argument) : Prop where
  args : s.args = [first, second]
  range : ∃ (op : Opcode) (width : Nat) (a b : Int), s.mnemonic = op.mnemonic ∧
    op ∈ [.tryOp, .tryOpL, .initSlot] ∧ op.operand = .fixed width ∧
    first.value = .number a ∧ second.value = .number b ∧
    LittleEndian.ofInt? op.hasSignedOperand (width / 2) a = none ∧
    LittleEndian.ofInt? op.hasSignedOperand (width / 2) b = none

/-- How what comes of a statement if one fault is wanted compares with what comes if all are. -/
inductive Agree (s : Statement) : Except Diagnostic α → Except Diagnostic α → Prop where
  | same {x : Except Diagnostic α} (one : NamesOne x) : Agree s x x
  | halves {first second : Argument} (out : s.HalvesOutOfRange first second) :
    Agree s (.error (.argument (.outOfRange first.span)))
      (.error (.both (.outOfRange first.span) (.outOfRange second.span)))

namespace Agree

variable {s : Statement} {x y : Except Diagnostic α}

theorem bind {f : α → Except Diagnostic β} (h : s.Agree x y) (hf : ∀ value, NamesOne (f value)) :
    s.Agree (x >>= f) (y >>= f) := by
  cases h with
  | same one => exact .same (one.bind hf)
  | halves out => exact .halves out

theorem map (h : s.Agree x y) (f : α → β) : s.Agree (x.map f) (y.map f) := by
  cases h with
  | same one => exact .same (one.map f)
  | halves out => exact .halves out

end Agree

variable {s : Statement} {op : Opcode} {width : Nat} {first second : Argument}

theorem numberOf_eq_ok {arg : Argument} {value : Int} :
    numberOf arg = .ok value ↔ arg.value = .number value := by
  rw [numberOf]
  split
  · next h => simp [h]
  · next h =>
    constructor
    · intro he
      cases he
    · intro he
      exact absurd he (h value)

theorem joinBoth_eq_ok {γ : Type} {x : Except ArgFault β} {y : Except ArgFault γ} {a : β} {b : γ} :
    joinBoth x y = .ok (a, b) ↔ x = .ok a ∧ y = .ok b := by
  cases x <;> cases y <;> simp [joinBoth]

/-- What is no number is not out of range either. -/
theorem namesOne_numbers (first second : Argument) :
    NamesOne (joinBoth (numberOf first) (numberOf second)) := by
  cases hx : numberOf first with
  | ok a =>
    cases numberOf second with
    | ok b => exact .ok _
    | error fault => exact .error rfl
  | error fault =>
    cases numberOf second with
    | ok b => exact .error rfl
    | error other =>
      rw [numberOf] at hx
      split at hx
      · cases hx
      · obtain rfl := Except.error.inj hx
        exact .error rfl

/-- Numbers are encoded in order, so the fault that comes first is the one named alone. -/
theorem agree_twoNumbers (hm : s.mnemonic = op.mnemonic) (ho : op.hasTwoNumbers = true)
    (hw : op.operand = .fixed width) (ha : s.args = [first, second]) :
    s.Agree (twoNumbers false op width first second) (twoNumbers true op width first second) := by
  have hone := namesOne_numbers first second
  rw [twoNumbers, twoNumbers]
  cases hj : joinBoth (numberOf first) (numberOf second) with
  | error diagnostic => exact .same (.error (hone _ hj))
  | ok numbers =>
    obtain ⟨a, b⟩ := numbers
    obtain ⟨hfirst, hsecond⟩ := joinBoth_eq_ok.mp hj
    simp only [bind, Except.bind, numberBytes]
    cases hlow : LittleEndian.ofInt? op.hasSignedOperand (width / 2) a with
    | some low =>
      cases LittleEndian.ofInt? op.hasSignedOperand (width / 2) b with
      | some high => exact .same (.ok _)
      | none => exact .same (.error rfl)
    | none =>
      cases hhigh : LittleEndian.ofInt? op.hasSignedOperand (width / 2) b with
      | some high => exact .same (.error rfl)
      | none =>
        exact .halves ⟨ha, op, width, a, b, hm, Opcode.hasTwoNumbers_iff.mp ho, hw,
          numberOf_eq_ok.mp hfirst, numberOf_eq_ok.mp hsecond, hlow, hhigh⟩

theorem agree_operand (hm : s.mnemonic = op.mnemonic) :
    s.Agree (s.operand false op) (s.operand true op) := by
  rw [operand, operand]
  cases hr : op.operand with
  | none => exact .same ((namesOne_noArgs s).map _)
  | counted width => exact .same ((namesOne_oneArg ArgReader.namesOne_data s).map _)
  | fixed width =>
    dsimp only
    split
    · next ho ha => exact (agree_twoNumbers hm ho hr ha).map some
    · refine .same ((namesOne_oneArg (fun arg => ?_) s).bind fun read => ?_)
      · split
        · exact ArgReader.namesOne_orElse (ArgReader.namesOne_service arg)
            (ArgReader.namesOne_content arg)
        · exact ArgReader.namesOne_content arg
      · exact (namesOne_fixedOperand op width read.1.span read.2).map some

theorem agree_encode (s : Statement) : s.Agree (s.encode false) (s.encode true) := by
  rw [encode, encode]
  cases ho : Opcode.ofMnemonic? s.mnemonic with
  | some op =>
    exact (agree_operand (Opcode.mnemonic_of_ofMnemonic? ho).symm).bind fun _ => namesOne_located s _
  | none =>
    refine .same ?_
    dsimp only
    split
    · exact (namesOne_oneArg (ArgReader.namesOne_ofKind _ _) s).bind fun _ => namesOne_located s _
    · split
      · exact (namesOne_oneArg ArgReader.namesOne_data s).bind fun _ => namesOne_located s _
      · split
        · exact (namesOne_oneArg ArgReader.namesOne_flag s).bind fun _ => namesOne_located s _
        · exact .error rfl

theorem encode_ok_iff {bytes : Bytes} : s.encode false = .ok bytes ↔ s.encode true = .ok bytes := by
  have h := agree_encode s
  generalize s.encode false = x at h ⊢
  generalize s.encode true = y at h ⊢
  cases h with
  | same one => exact Iff.rfl
  | halves out =>
    constructor
    · intro he
      cases he
    · intro he
      cases he

/-- The fault that stops assembling is the one found by a check, or the first half of it. -/
theorem encode_error {single : Diagnostic} (he : s.encode false = .error single) :
    ∃ full, s.encode true = .error full ∧ single = full.first ∧
      (full.first ≠ full → ∃ first second, s.HalvesOutOfRange first second ∧
        full = .both (.outOfRange first.span) (.outOfRange second.span)) := by
  have h := agree_encode s
  generalize s.encode false = x at h he
  generalize s.encode true = y at h ⊢
  cases h with
  | same one => exact ⟨single, he, (one _ he).symm, fun hne => absurd (one _ he) hne⟩
  | halves out =>
    obtain rfl := Except.error.inj he
    exact ⟨_, rfl, rfl, fun _ => ⟨_, _, out, rfl⟩⟩

end Statement

variable {s : Statement} {statements rest : List Statement} {single : Diagnostic}

theorem check_cons (s : Statement) (rest : List Statement) :
    check (s :: rest) = check [s] ++ check rest := check_append [s] rest

/-- A check has at most one fault for each statement, in the order of the statements. -/
theorem check_eq_flatMap (statements : List Statement) :
    check statements = statements.flatMap fun s => check [s] := by
  induction statements with
  | nil => rfl
  | cons s rest ih => rw [check_cons, ih, List.flatMap_cons]

theorem length_check_single_le (s : Statement) : (check [s]).length ≤ 1 := by
  cases h : s.encode true with
  | ok bytes =>
    rw [check_of_ok h]
    exact Nat.zero_le 1
  | error diagnostic =>
    rw [check_of_error h]
    exact Nat.le_refl 1

theorem check_eq_nil_iff (statements : List Statement) :
    check statements = [] ↔ ∃ script, assemble statements = .ok script := by
  induction statements with
  | nil => exact ⟨fun _ => ⟨[], rfl⟩, fun _ => rfl⟩
  | cons s rest ih =>
    simp only [assemble_cons_eq_ok, Statement.encode_ok_iff]
    cases h : s.encode true with
    | ok bytes =>
      rw [check_of_ok h, ih]
      constructor
      · intro ha
        obtain ⟨others, ho⟩ := ha
        exact ⟨bytes ++ others, bytes, others, rfl, ho, rfl⟩
      · intro ha
        obtain ⟨_, _, others, -, ho, -⟩ := ha
        exact ⟨others, ho⟩
    | error diagnostic =>
      rw [check_of_error h]
      constructor
      · intro ha
        cases ha
      · intro ha
        obtain ⟨_, _, _, hb, -, -⟩ := ha
        cases hb

/-- What stops assembling is a fault of the first statement in which a check finds one. -/
theorem assemble_error (h : assemble statements = .error single) :
    ∃ before s after, statements = before ++ s :: after ∧ check before = [] ∧
      s.encode false = .error single := by
  induction statements with
  | nil => cases h
  | cons s rest ih =>
    rw [assemble_cons] at h
    cases hs : s.encode false with
    | error diagnostic =>
      rw [hs] at h
      obtain rfl := Except.error.inj h
      exact ⟨[], s, rest, rfl, rfl, hs⟩
    | ok bytes =>
      rw [hs] at h
      cases hr : assemble rest with
      | ok others =>
        rw [hr] at h
        cases h
      | error diagnostic =>
        rw [hr] at h
        obtain rfl := Except.error.inj h
        obtain ⟨before, t, after, rfl, hb, ht⟩ := ih hr
        refine ⟨s :: before, t, after, rfl, ?_, ht⟩
        rw [check_of_ok (Statement.encode_ok_iff.mp hs), hb]

/-- A check finds nothing exactly where assembling gives a script. The parts of a listing are
checked one by one, each statement with at most one fault, and the scripts of the parts make up the
script of the listing. What stops assembling is the first fault of a check, or its first half where
two numbers for one operand are out of range. -/
theorem check_agrees_with_assemble :
    (∀ statements, check statements = [] ↔ ∃ script, assemble statements = .ok script) ∧
    (∀ first second, check (first ++ second) = check first ++ check second) ∧
    (∀ statements, check statements = statements.flatMap fun s => check [s]) ∧
    (∀ s, (check [s]).length ≤ 1) ∧
    (∀ first second a b, assemble first = .ok a → assemble second = .ok b →
      assemble (first ++ second) = .ok (a ++ b)) ∧
    ∀ statements single, assemble statements = .error single →
      ∃ before s after full, statements = before ++ s :: after ∧ check before = [] ∧
        check [s] = [full] ∧ (check statements).head? = some full ∧ single = full.first ∧
        (full.first ≠ full → ∃ first second, s.HalvesOutOfRange first second ∧
          full = .both (.outOfRange first.span) (.outOfRange second.span)) := by
  refine ⟨check_eq_nil_iff, check_append, check_eq_flatMap, length_check_single_le, ?_, ?_⟩
  · intro first second a b ha hb
    exact assemble_append.mpr ⟨a, b, ha, hb, rfl⟩
  · intro statements single h
    obtain ⟨before, s, after, rfl, hb, hs⟩ := assemble_error h
    obtain ⟨full, hf, hsingle, hhalves⟩ := Statement.encode_error hs
    refine ⟨before, s, after, full, rfl, hb, check_of_error hf, ?_, hsingle, hhalves⟩
    rw [check_append, hb, check_of_error hf]
    rfl

/-- Behind a good statement stand one with both its numbers out of range and one with a misspelt
mnemonic. Two good ones are assembled to two instructions. -/
theorem check_agrees_with_assemble_two_numbers :
    (assemble [⟨⟨0, 3⟩, ⟨0, 3⟩, "NOP", []⟩, ⟨⟨4, 18⟩, ⟨4, 7⟩, "TRY",
        [⟨⟨8, 12⟩, .number 1000⟩, ⟨⟨14, 18⟩, .number 1000⟩]⟩, ⟨⟨19, 22⟩, ⟨19, 22⟩, "FOO", []⟩] =
          .error (.argument (.outOfRange ⟨8, 12⟩)) ∧
      ∃ full, (check [⟨⟨0, 3⟩, ⟨0, 3⟩, "NOP", []⟩, ⟨⟨4, 18⟩, ⟨4, 7⟩, "TRY",
          [⟨⟨8, 12⟩, .number 1000⟩, ⟨⟨14, 18⟩, .number 1000⟩]⟩,
          ⟨⟨19, 22⟩, ⟨19, 22⟩, "FOO", []⟩]).head? = some full ∧
        .argument (.outOfRange ⟨8, 12⟩) = full.first) ∧
    assemble [⟨⟨0, 3⟩, ⟨0, 3⟩, "NOP", []⟩] = .ok [0x21] ∧
    assemble ([⟨⟨0, 3⟩, ⟨0, 3⟩, "NOP", []⟩] ++ [⟨⟨0, 3⟩, ⟨0, 3⟩, "NOP", []⟩]) =
      .ok ([0x21] ++ [0x21]) := by
  have hbad : assemble [⟨⟨0, 3⟩, ⟨0, 3⟩, "NOP", []⟩, ⟨⟨4, 18⟩, ⟨4, 7⟩, "TRY",
      [⟨⟨8, 12⟩, .number 1000⟩, ⟨⟨14, 18⟩, .number 1000⟩]⟩, ⟨⟨19, 22⟩, ⟨19, 22⟩, "FOO", []⟩] =
        .error (.argument (.outOfRange ⟨8, 12⟩)) := by
    decide +kernel
  have hgood : assemble [⟨⟨0, 3⟩, ⟨0, 3⟩, "NOP", []⟩] = .ok [0x21] := by decide +kernel
  obtain ⟨-, -, -, -, hjoin, hfirst⟩ := check_agrees_with_assemble
  obtain ⟨_, _, _, full, -, -, -, hfull, hone, -⟩ := hfirst _ _ hbad
  exact ⟨⟨hbad, full, hfull, hone⟩, hgood, hjoin _ _ _ _ hgood hgood⟩

end ScriptKit.Listing
