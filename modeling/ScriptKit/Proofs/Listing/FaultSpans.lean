import ScriptKit.Proofs.Except
import ScriptKit.Proofs.Listing.Assembler
import ScriptKit.Proofs.Listing.Placement

namespace ScriptKit.Listing

variable {α β γ : Type} {P : Span → Prop} {K : ArgKind → Prop}

/-- The kinds that the fault finds where others should stand. -/
def ArgFault.kinds : ArgFault → List ArgKind
  | .wrongKind _ found _ => [found]
  | .outOfRange _ => []

namespace Diagnostic

/-- The place of a fault, and the places of the faults that it is made up of. -/
def spans : Diagnostic → List Span
  | .both first second => [first.span.hull second.span, first.span, second.span]
  | diagnostic => [diagnostic.span]

def kinds : Diagnostic → List ArgKind
  | .argument fault => fault.kinds
  | .both first second => first.kinds ++ second.kinds
  | _ => []

end Diagnostic

/-- The places of all faults that the computation can end with have a property, and the kinds that
they find have another. -/
def Blames (P : Span → Prop) (K : ArgKind → Prop) (x : Except Diagnostic α) : Prop :=
  FailsWith (fun diagnostic => (∀ span ∈ diagnostic.spans, P span) ∧
    ∀ kind ∈ diagnostic.kinds, K kind) x

/-- The same of a computation that reads one argument. -/
def BlamesArg (P : Span → Prop) (K : ArgKind → Prop) (x : Except ArgFault α) : Prop :=
  FailsWith (fun fault => P fault.span ∧ ∀ kind ∈ fault.kinds, K kind) x

namespace Blames

theorem one {diagnostic : Diagnostic} (h : P diagnostic.span)
    (hone : diagnostic.spans = [diagnostic.span]) (hnone : diagnostic.kinds = []) :
    Blames P K (.error diagnostic : Except Diagnostic α) :=
  FailsWith.error (by rw [hone, hnone]; simpa using h)

theorem argument {fault : ArgFault} (h : P fault.span) (hk : ∀ kind ∈ fault.kinds, K kind) :
    Blames P K (.error (.argument fault) : Except Diagnostic α) :=
  FailsWith.error ⟨by simpa [Diagnostic.spans, Diagnostic.span] using h, hk⟩

end Blames

namespace ArgReader

variable {p q : ArgReader α} {arg : Argument}

theorem blames_ofKind (kind : ArgKind) (value? : Literal → Option α) (h : P arg.span)
    (hk : K arg.value.kind) : Blames P K (ofKind kind value? arg) := by
  rw [ofKind]
  split
  · exact .ok _
  · exact .argument h (by simpa [ArgFault.kinds] using hk)

theorem blames_orElse (hp : Blames P K (p arg)) (hq : Blames P K (q arg)) :
    Blames P K (orElse p q arg) := by
  rw [orElse]
  split
  · next span found expected he =>
    split
    · exact .argument ((hp _ he).1 span List.mem_cons_self) (hp _ he).2
    · exact hq
  · exact hp

theorem blames_data (h : P arg.span) (hk : K arg.value.kind) : Blames P K (data arg) :=
  blames_orElse (blames_ofKind _ _ h hk) (blames_ofKind _ _ h hk)

theorem blames_content (h : P arg.span) (hk : K arg.value.kind) : Blames P K (content arg) :=
  blames_orElse (FailsWith.map (blames_ofKind _ _ h hk) _)
    (FailsWith.map (blames_ofKind _ _ h hk) _)

theorem blames_service (h : P arg.span) (hk : K arg.value.kind) : Blames P K (service arg) := by
  refine FailsWith.bind (blames_ofKind _ _ h hk) fun name _ => ?_
  split
  · exact .ok _
  · exact Blames.one h rfl rfl

theorem blames_flag (h : P arg.span) (hk : K arg.value.kind) : Blames P K (flag arg) := by
  refine FailsWith.bind (blames_ofKind _ _ h hk) fun value _ => ?_
  split
  · exact .ok _
  · split
    · exact .ok _
    · exact Blames.one h rfl rfl

end ArgReader

namespace Statement

variable {s : Statement} {op : Opcode} {width : Nat} {first second : Argument}

theorem blamesArg_numberOf (h : P first.span) (hk : K first.value.kind) :
    BlamesArg P K (numberOf first) := by
  rw [numberOf]
  split
  · exact .ok _
  · exact .error ⟨h, by simpa [ArgFault.kinds] using hk⟩

theorem blamesArg_numberBytes (op : Opcode) (width : Nat) {span : Span} (value : Int)
    (h : P span) : BlamesArg P K (numberBytes op width span value) := by
  rw [numberBytes]
  split
  · exact .ok _
  · exact .error ⟨h, by simp [ArgFault.kinds]⟩

theorem blames_joinBoth (hull : ∀ a b, P a → P b → P (a.hull b)) {x : Except ArgFault β}
    {y : Except ArgFault γ} (hx : BlamesArg P K x) (hy : BlamesArg P K y) :
    Blames P K (joinBoth x y) := by
  cases x with
  | ok a =>
    cases y with
    | ok b => exact .ok _
    | error fault => exact .argument (hy fault rfl).1 (hy fault rfl).2
  | error fault =>
    cases y with
    | ok b => exact .argument (hx fault rfl).1 (hx fault rfl).2
    | error other =>
      obtain ⟨hfault, hkinds⟩ := hx fault rfl
      obtain ⟨hother, hothers⟩ := hy other rfl
      refine FailsWith.error ?_
      simp only [Diagnostic.spans, Diagnostic.kinds, List.forall_mem_cons,
        List.forall_mem_append]
      exact ⟨⟨hull _ _ hfault hother, hfault, hother, by simp⟩, hkinds, hothers⟩

theorem blames_twoNumbers (hull : ∀ a b, P a → P b → P (a.hull b)) (wantsAll : Bool)
    (hf : P first.span ∧ K first.value.kind) (hs : P second.span ∧ K second.value.kind) :
    Blames P K (twoNumbers wantsAll op width first second) := by
  refine FailsWith.bind (blames_joinBoth hull (blamesArg_numberOf hf.1 hf.2)
    (blamesArg_numberOf hs.1 hs.2)) fun numbers _ => ?_
  have hlow : BlamesArg P K (numberBytes op (width / 2) first.span numbers.1) :=
    blamesArg_numberBytes op (width / 2) numbers.1 hf.1
  have hhigh : BlamesArg P K (numberBytes op (width / 2) second.span numbers.2) :=
    blamesArg_numberBytes op (width / 2) numbers.2 hs.1
  dsimp only
  split
  · next fault he => exact Blames.argument (hlow fault he).1 (hlow fault he).2
  · exact (blames_joinBoth hull hlow hhigh).bind fun _ _ => .ok _

theorem blames_fixedOperand {span : Span} (h : P span) (content : Content) :
    Blames P K (fixedOperand op width span content) := by
  cases content with
  | number value =>
    have hbytes : BlamesArg P K (numberBytes op width span value) :=
      blamesArg_numberBytes op width value h
    rw [fixedOperand]
    split
    · exact .ok _
    · next fault he => exact .argument (hbytes fault he).1 (hbytes fault he).2
  | bytes bytes =>
    rw [fixedOperand]
    split
    · exact .ok _
    · exact .one h rfl rfl

theorem blames_located (h : P s.span) (x : Except Fault α) : Blames P K (s.located x) := by
  cases x with
  | ok value => exact .ok _
  | error fault => exact .one h rfl rfl

theorem mem_args_of_oneArg {read : ArgReader α} {arg : Argument} {value : α}
    (h : s.oneArg read = .ok (arg, value)) : arg ∈ s.args := by
  rw [oneArg] at h
  split at h
  · cases h
  · next only ha =>
    obtain ⟨_, -, he⟩ := map_eq_ok.mp h
    obtain ⟨rfl, rfl⟩ := Prod.mk.inj he
    simp [ha]
  · cases h

section Arguments

variable (hull : ∀ a b, P a → P b → P (a.hull b)) (hs : ∀ span ∈ s.spans, P span)
  (hk : ∀ arg ∈ s.args, K arg.value.kind)

include hs

theorem of_mem_args {arg : Argument} (h : arg ∈ s.args) : P arg.span :=
  hs _ (List.mem_cons_of_mem _ (List.mem_cons_of_mem _ (List.mem_map_of_mem h)))

section Hull

include hull

theorem of_argsSpan {rest : List Argument} (hf : first ∈ s.args)
    (hr : ∀ arg ∈ rest, arg ∈ s.args) : P (argsSpan first rest) :=
  foldl_hull hull (of_mem_args hs hf) fun arg ha => of_mem_args hs (hr arg ha)

theorem blames_noArgs : Blames P K s.noArgs := by
  rw [noArgs]
  split
  · exact .ok _
  · next first rest ha =>
    exact .one (of_argsSpan hull hs (by simp [ha]) (by simp +contextual [ha])) rfl rfl

end Hull

include hull hk

theorem blames_oneArg {read : ArgReader α}
    (h : ∀ arg, P arg.span → K arg.value.kind → Blames P K (read arg)) :
    Blames P K (s.oneArg read) := by
  rw [oneArg]
  split
  · exact .one (hs s.mnemonicSpan (by simp [spans])) rfl rfl
  · next arg ha =>
    have hm : arg ∈ s.args := by simp [ha]
    exact FailsWith.map (h arg (of_mem_args hs hm) (hk arg hm)) _
  · next other first rest ha =>
    exact .one (of_argsSpan hull hs (by simp [ha]) (by simp +contextual [ha])) rfl rfl

theorem blames_operand (wantsAll : Bool) (op : Opcode) : Blames P K (s.operand wantsAll op) := by
  rw [operand]
  split
  · exact (blames_noArgs hull hs).map _
  · exact (blames_oneArg hull hs hk fun _ => ArgReader.blames_data).map _
  · split
    · next first second _ ha =>
      have hf : first ∈ s.args := by simp [ha]
      have hsec : second ∈ s.args := by simp [ha]
      exact (blames_twoNumbers hull wantsAll ⟨of_mem_args hs hf, hk first hf⟩
        ⟨of_mem_args hs hsec, hk second hsec⟩).map _
    · refine FailsWith.bind (blames_oneArg hull hs hk fun arg h hkind => ?_) fun found hf => ?_
      · split
        · exact ArgReader.blames_orElse (ArgReader.blames_service h hkind)
            (ArgReader.blames_content h hkind)
        · exact ArgReader.blames_content h hkind
      · exact (blames_fixedOperand (of_mem_args hs (mem_args_of_oneArg hf)) found.2).map _

/-- The places of all faults of a statement are made up of its own and those of its parts, and the
kinds that they find are those of its arguments. -/
theorem blames_encode (wantsAll : Bool) : Blames P K (s.encode wantsAll) := by
  have hlocated : ∀ x : Except Fault Bytes, Blames P K (s.located x) :=
    blames_located (hs _ (by simp [spans]))
  have hone : ∀ {β : Type} (read : ArgReader β) (push : β → Emission),
      (∀ arg, P arg.span → K arg.value.kind → Blames P K (read arg)) →
        Blames P K (s.oneArg read >>= fun found => s.located (push found.2).result) :=
    fun read push hr => (blames_oneArg hull hs hk hr).bind fun found _ => hlocated _
  rw [encode]
  split
  · exact (blames_operand hull hs hk wantsAll _).bind fun _ _ => hlocated _
  · split
    · exact hone .number .int fun _ => ArgReader.blames_ofKind _ _
    · split
      · exact hone .data .data fun _ => ArgReader.blames_data
      · split
        · exact hone .flag .bool fun _ => ArgReader.blames_flag
        · exact .one (hs s.mnemonicSpan (by simp [spans])) rfl rfl

end Arguments

end Statement

/-- What a check finds in a statement has what the places of the statement and the kinds of its
arguments have. -/
theorem check_blames (K : ArgKind → Prop) {s : Statement} (hull : ∀ a b, P a → P b → P (a.hull b))
    (hs : ∀ span ∈ s.spans, P span) (hk : ∀ arg ∈ s.args, K arg.value.kind) :
    ∀ diagnostic ∈ check [s],
      (∀ span ∈ diagnostic.spans, P span) ∧ ∀ kind ∈ diagnostic.kinds, K kind := by
  intro diagnostic hd
  cases he : s.encode true with
  | ok bytes =>
    rw [check_of_ok he] at hd
    cases hd
  | error fault =>
    rw [check_of_error he] at hd
    obtain rfl := List.mem_singleton.mp hd
    exact Statement.blames_encode hull hs hk true diagnostic he

/-- What a check finds in a statement of a text lies in the text, and within the statement. -/
theorem check_placed {text : List Char} {s : Statement} (hl : ∀ span ∈ s.spans, span.LiesIn text)
    (hc : s.CoversParts) :
    ∀ diagnostic ∈ check [s], ∀ span ∈ diagnostic.spans, span.LiesIn text ∧ span.Within s.span := by
  intro diagnostic hd
  exact (check_blames (fun _ => True) (fun _ _ ha hb => ⟨ha.1.hull hb.1, ha.2.hull hb.2⟩)
    (fun span hs => ⟨hl span hs, hc.within span hs⟩) (fun _ _ => trivial) diagnostic hd).1

end ScriptKit.Listing
