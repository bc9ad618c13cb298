import ScriptKit.Proofs.Except
import ScriptKit.Proofs.Listing.Assembler

namespace ScriptKit.Listing

variable {α β : Type}

/-- The place of what has none. -/
def Span.nowhere : Span := ⟨0, 0⟩

def Argument.unplaced (arg : Argument) : Argument := ⟨.nowhere, arg.value⟩

namespace Statement

def unplaced (s : Statement) : Statement :=
  ⟨.nowhere, .nowhere, s.mnemonic, s.args.map (·.unplaced)⟩

/-- What a statement says: its mnemonic and the values of its arguments. -/
def wording (s : Statement) : String × List Literal := (s.mnemonic, s.args.map (·.value))

/-- Without its place, nothing is left of a statement but what it says. -/
theorem unplaced_eq (s : Statement) :
    s.unplaced =
      ⟨.nowhere, .nowhere, s.wording.1, s.wording.2.map fun value => ⟨.nowhere, value⟩⟩ := by
  rw [unplaced, wording, List.map_map]
  rfl

theorem map_unplaced_of_wording {first second : List Statement}
    (h : first.map wording = second.map wording) :
    first.map unplaced = second.map unplaced := by
  have hmap : ∀ statements : List Statement, statements.map unplaced =
      (statements.map wording).map fun said =>
        ⟨.nowhere, .nowhere, said.1, said.2.map fun value => ⟨.nowhere, value⟩⟩ := by
    intro statements
    rw [List.map_map]
    exact List.map_congr_left fun s _ => s.unplaced_eq
  rw [hmap, h, ← hmap]

end Statement

def ArgFault.unplaced : ArgFault → ArgFault
  | .wrongKind _ found expected => .wrongKind .nowhere found expected
  | .outOfRange _ => .outOfRange .nowhere

def Diagnostic.unplaced : Diagnostic → Diagnostic
  | .unknownOpcode name _ => .unknownOpcode name .nowhere
  | .unknownService name _ => .unknownService name .nowhere
  | .argument fault => .argument fault.unplaced
  | .both first second => .both first.unplaced second.unplaced
  | .tooManyArgs _ => .tooManyArgs .nowhere
  | .notEnoughArgs _ => .notEnoughArgs .nowhere
  | .encode fault _ => .encode fault .nowhere

def SyntaxError.unplaced : SyntaxError → SyntaxError
  | .unexpected _ found => .unexpected .nowhere found
  | .badNumber _ problem => .badNumber .nowhere problem
  | .badBytes _ problem => .badBytes .nowhere problem
  | .badEscape _ found => .badEscape .nowhere found

def Refusal.unplaced : Refusal → Refusal
  | .notRead error? => .notRead (error?.map (·.unplaced))
  | .notAssembled diagnostic => .notAssembled diagnostic.unplaced

namespace ArgReader

/-- The reader looks at the place of an argument only to lay a fault there. -/
def Placeless (read : ArgReader α) : Prop :=
  ∀ arg, read arg.unplaced = (read arg).mapError Diagnostic.unplaced

variable {p q : ArgReader α}

theorem placeless_ofKind (kind : ArgKind) (value? : Literal → Option α) :
    (ofKind kind value?).Placeless := by
  intro arg
  simp only [ofKind, Argument.unplaced]
  cases value? arg.value with
  | none => rfl
  | some value => rfl

theorem Placeless.map (hp : p.Placeless) (f : α → β) :
    Placeless fun arg => (p arg).map f := by
  intro arg
  dsimp only
  rw [hp arg]
  cases p arg with
  | error diagnostic => rfl
  | ok value => rfl

theorem Placeless.bind {f : Argument → α → Except Diagnostic β} (hp : p.Placeless)
    (hf : ∀ arg value, f arg.unplaced value = (f arg value).mapError Diagnostic.unplaced) :
    Placeless fun arg => p arg >>= f arg := by
  intro arg
  dsimp only
  rw [hp arg]
  cases p arg with
  | error diagnostic => rfl
  | ok value => exact hf arg value

theorem Placeless.orElse (hp : p.Placeless) (hq : q.Placeless) : (orElse p q).Placeless := by
  intro arg
  rw [ArgReader.orElse, ArgReader.orElse, hp arg, hq arg]
  rcases p arg with diagnostic | value
  · cases diagnostic with
    | argument fault =>
      cases fault with
      | outOfRange span => rfl
      | wrongKind span found expected =>
        rcases q arg with diagnostic | value
        · cases diagnostic with
          | argument fault => cases fault <;> rfl
          | _ => rfl
        · rfl
    | _ => rfl
  · rfl

theorem placeless_data : data.Placeless := (placeless_ofKind _ _).orElse (placeless_ofKind _ _)

theorem placeless_content : content.Placeless :=
  ((placeless_ofKind _ _).map _).orElse ((placeless_ofKind _ _).map _)

theorem placeless_service : service.Placeless := by
  unfold service
  refine Placeless.bind (placeless_ofKind _ _) fun arg name => ?_
  split
  · rfl
  · rfl

theorem placeless_flag : flag.Placeless := by
  unfold flag
  refine Placeless.bind (placeless_ofKind _ _) fun arg value => ?_
  split
  · rfl
  · split
    · rfl
    · rfl

end ArgReader

namespace Statement

theorem argsSpan_unplaced (first : Argument) (rest : List Argument) :
    argsSpan first.unplaced (rest.map (·.unplaced)) = .nowhere := by
  have hspan : ∀ span, span = Span.nowhere →
      (rest.map (·.unplaced)).foldl (fun span arg => span.hull arg.span) span = .nowhere := by
    induction rest with
    | nil => exact fun _ h => h
    | cons arg rest ih =>
      rintro span rfl
      exact ih _ rfl
  exact hspan _ rfl

theorem noArgs_unplaced (s : Statement) :
    s.unplaced.noArgs = s.noArgs.mapError Diagnostic.unplaced := by
  obtain ⟨span, mnemonicSpan, mnemonic, args⟩ := s
  cases args with
  | nil => rfl
  | cons first rest =>
    simp only [noArgs, unplaced, List.map_cons, argsSpan_unplaced]
    rfl

theorem oneArg_unplaced {read : ArgReader α} (h : read.Placeless) (s : Statement) :
    s.unplaced.oneArg read =
      ((s.oneArg read).map fun found => (found.1.unplaced, found.2)).mapError
        Diagnostic.unplaced := by
  obtain ⟨span, mnemonicSpan, mnemonic, args⟩ := s
  match args with
  | [] => rfl
  | [arg] =>
    simp only [oneArg, unplaced, List.map_cons, List.map_nil, h arg]
    cases read arg with
    | error diagnostic => rfl
    | ok value => rfl
  | other :: first :: rest =>
    simp only [oneArg, unplaced, List.map_cons, argsSpan_unplaced]
    rfl

/-- A statement with one argument, of which something is made. -/
theorem oneArg_bind_unplaced {read : ArgReader α} {f g : Argument × α → Except Diagnostic β}
    (h : read.Placeless)
    (hf : ∀ arg value, g (arg.unplaced, value) = (f (arg, value)).mapError Diagnostic.unplaced)
    (s : Statement) :
    s.unplaced.oneArg read >>= g = (s.oneArg read >>= f).mapError Diagnostic.unplaced := by
  rw [oneArg_unplaced h]
  cases s.oneArg read with
  | error diagnostic => rfl
  | ok found => exact hf found.1 found.2

theorem numberBytes_unplaced (op : Opcode) (width : Nat) (span : Span) (value : Int) :
    numberBytes op width .nowhere value =
      (numberBytes op width span value).mapError ArgFault.unplaced := by
  rw [numberBytes, numberBytes]
  split
  · rfl
  · rfl

theorem numberOf_unplaced (arg : Argument) :
    numberOf arg.unplaced = (numberOf arg).mapError ArgFault.unplaced := by
  obtain ⟨span, value⟩ := arg
  cases value with
  | _ => rfl

theorem joinBoth_unplaced (x : Except ArgFault α) (y : Except ArgFault β) :
    joinBoth (x.mapError ArgFault.unplaced) (y.mapError ArgFault.unplaced) =
      (joinBoth x y).mapError Diagnostic.unplaced := by
  cases x with
  | error fault =>
    cases y with
    | error other => rfl
    | ok b => rfl
  | ok a =>
    cases y with
    | error fault => rfl
    | ok b => rfl

theorem twoNumbers_unplaced (wantsAll : Bool) (op : Opcode) (width : Nat)
    (first second : Argument) :
    twoNumbers wantsAll op width first.unplaced second.unplaced =
      (twoNumbers wantsAll op width first second).mapError Diagnostic.unplaced := by
  rw [twoNumbers, twoNumbers, numberOf_unplaced, numberOf_unplaced, joinBoth_unplaced]
  cases joinBoth (numberOf first) (numberOf second) with
  | error diagnostic => rfl
  | ok numbers =>
    obtain ⟨a, b⟩ := numbers
    have hlow := numberBytes_unplaced op (width / 2) first.span a
    have hhigh := numberBytes_unplaced op (width / 2) second.span b
    simp only [mapError_ok, bind, Except.bind, Argument.unplaced] at hlow hhigh ⊢
    rw [hlow, hhigh]
    cases numberBytes op (width / 2) first.span a with
    | error fault =>
      cases wantsAll with
      | false => rfl
      | true => cases numberBytes op (width / 2) second.span b <;> rfl
    | ok low => cases numberBytes op (width / 2) second.span b <;> rfl

theorem fixedOperand_unplaced (op : Opcode) (width : Nat) (span : Span) (content : Content) :
    fixedOperand op width .nowhere content =
      (fixedOperand op width span content).mapError Diagnostic.unplaced := by
  cases content with
  | number value =>
    rw [fixedOperand, fixedOperand, numberBytes_unplaced op width span]
    cases numberBytes op width span value with
    | error fault => rfl
    | ok bytes => rfl
  | bytes bytes =>
    rw [fixedOperand, fixedOperand]
    split
    · rfl
    · rfl

theorem operand_unplaced (wantsAll : Bool) (op : Opcode) (s : Statement) :
    s.unplaced.operand wantsAll op = (s.operand wantsAll op).mapError Diagnostic.unplaced := by
  have hreader : (if op = .syscall then ArgReader.service.orElse .content
      else .content : ArgReader Content).Placeless := by
    split
    · exact ArgReader.placeless_service.orElse ArgReader.placeless_content
    · exact ArgReader.placeless_content
  have hone := fun width => oneArg_bind_unplaced hreader
    (g := fun found => (fixedOperand op width found.1.span found.2).map some)
    (f := fun found => (fixedOperand op width found.1.span found.2).map some)
    (fun arg content => by
      dsimp only
      rw [← map_mapError, ← fixedOperand_unplaced]
      rfl) s
  rw [operand, operand]
  cases op.operand with
  | none => rw [noArgs_unplaced, map_mapError]
  | counted width =>
    dsimp only
    rw [oneArg_unplaced ArgReader.placeless_data]
    cases s.oneArg .data with
    | error diagnostic => rfl
    | ok found => rfl
  | fixed width =>
    cases htwo : op.hasTwoNumbers with
    | false => exact hone width
    | true =>
      obtain ⟨span, mnemonicSpan, mnemonic, args⟩ := s
      match args with
      | [] => exact hone width
      | [_] => exact hone width
      | _ :: _ :: _ :: _ => exact hone width
      | [first, second] =>
        change (twoNumbers wantsAll op width first.unplaced second.unplaced).map some = _
        rw [twoNumbers_unplaced, map_mapError]

theorem located_unplaced (s : Statement) (x : Except Fault α) :
    s.unplaced.located x = (s.located x).mapError Diagnostic.unplaced := by
  cases x with
  | error fault => rfl
  | ok value => rfl

theorem encode_unplaced (wantsAll : Bool) (s : Statement) :
    s.unplaced.encode wantsAll = (s.encode wantsAll).mapError Diagnostic.unplaced := by
  have hpush : ∀ {β : Type} {read : ArgReader β} (push : β → Emission), read.Placeless →
      (s.unplaced.oneArg read >>= fun found => s.unplaced.located (push found.2).result) =
        (s.oneArg read >>= fun found => s.located (push found.2).result).mapError
          Diagnostic.unplaced :=
    fun push hr => oneArg_bind_unplaced hr (fun _ value => located_unplaced s (push value).result) s
  have hmnemonic : s.unplaced.mnemonic = s.mnemonic := rfl
  rw [encode, encode, hmnemonic]
  split
  · next op _ =>
    rw [operand_unplaced]
    cases s.operand wantsAll op with
    | error diagnostic => rfl
    | ok operand => exact located_unplaced s _
  · split
    · exact hpush .int (ArgReader.placeless_ofKind _ _)
    · split
      · exact hpush .data ArgReader.placeless_data
      · split
        · exact hpush .bool ArgReader.placeless_flag
        · rfl

end Statement

/-- A listing gives the same script or the same fault, apart from its place, wherever its
statements stand. -/
theorem assemble_unplaced (statements : List Statement) :
    assemble (statements.map (·.unplaced)) =
      (assemble statements).mapError Diagnostic.unplaced := by
  induction statements with
  | nil => rfl
  | cons s rest ih =>
    rw [List.map_cons, assemble_cons, assemble_cons, s.encode_unplaced, ih]
    cases s.encode false with
    | error diagnostic => rfl
    | ok bytes =>
      cases assemble rest with
      | error diagnostic => rfl
      | ok others => rfl

theorem assembleText_of_parse {text : String} {statements : List Statement}
    (h : parse text.toList = ⟨some statements, []⟩) :
    assembleText text = (assemble statements).mapError Refusal.notAssembled := by
  rw [assembleText, h]
  simp only [Parsed.valid]
  cases assemble statements with
  | error diagnostic => rfl
  | ok script => rfl

/-- Texts that are read without a fault and say the same come to the same. -/
theorem assembleText_congr {first second : String} {statements others : List Statement}
    (hf : parse first.toList = ⟨some statements, []⟩)
    (hs : parse second.toList = ⟨some others, []⟩)
    (h : others.map Statement.wording = statements.map Statement.wording) :
    (assembleText second).mapError Refusal.unplaced =
      (assembleText first).mapError Refusal.unplaced := by
  have hswap : ∀ x : Except Diagnostic Bytes,
      (x.mapError Refusal.notAssembled).mapError Refusal.unplaced =
        (x.mapError Diagnostic.unplaced).mapError Refusal.notAssembled := by
    intro x
    cases x with
    | error diagnostic => rfl
    | ok script => rfl
  rw [assembleText_of_parse hf, assembleText_of_parse hs, hswap, hswap, ← assemble_unplaced,
    ← assemble_unplaced, Statement.map_unplaced_of_wording h]

end ScriptKit.Listing
