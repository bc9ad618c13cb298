import Mathlib.Data.List.Basic
import ScriptKit.Proofs.Except
import ScriptKit.Listing.Assemble

namespace ScriptKit.Listing

variable {α β : Type}

namespace Expected

@[simp]
theorem alternatives_join (a b : Expected) :
    (a.join b).alternatives = a.alternatives ++ b.alternatives := by
  induction a with
  | exactly kind => rfl
  | oneOf kind others ih => rw [join, alternatives, alternatives, ih, List.cons_append]

theorem alternatives_ne_nil (e : Expected) : e.alternatives ≠ [] := by
  cases e with
  | exactly kind => exact List.cons_ne_nil _ _
  | oneOf kind others => exact List.cons_ne_nil _ _

/-- The kinds in their order are all there is to it. -/
theorem alternatives_inj {a b : Expected} : a.alternatives = b.alternatives ↔ a = b := by
  refine ⟨fun h => ?_, congrArg alternatives⟩
  induction a generalizing b with
  | exactly kind =>
    cases b with
    | exactly kind' => rw [List.singleton_inj.mp h]
    | oneOf kind' others' => exact absurd (List.cons.inj h).2.symm others'.alternatives_ne_nil
  | oneOf kind others ih =>
    cases b with
    | exactly kind' => exact absurd (List.cons.inj h).2 others.alternatives_ne_nil
    | oneOf kind' others' =>
      obtain ⟨rfl, hothers⟩ := List.cons.inj h
      rw [ih hothers]

theorem join_assoc (a b c : Expected) : (a.join b).join c = a.join (b.join c) := by
  apply alternatives_inj.mp
  simp only [alternatives_join, List.append_assoc]

/-- The kinds joined one by one to the first. -/
def joined (first : ArgKind) (rest : List ArgKind) : Expected :=
  rest.foldl (fun all kind => all.join (exactly kind)) (exactly first)

/-- Each kind put in front of those behind it. -/
def nested : ArgKind → List ArgKind → Expected
  | last, [] => exactly last
  | kind, next :: rest => oneOf kind (nested next rest)

theorem alternatives_foldl (e : Expected) (kinds : List ArgKind) :
    (kinds.foldl (fun all kind => all.join (exactly kind)) e).alternatives =
      e.alternatives ++ kinds := by
  induction kinds generalizing e with
  | nil => exact (List.append_nil _).symm
  | cons kind kinds ih =>
    rw [List.foldl_cons, ih, alternatives_join, List.append_assoc]
    rfl

theorem alternatives_joined (first : ArgKind) (rest : List ArgKind) :
    (joined first rest).alternatives = first :: rest :=
  alternatives_foldl (exactly first) rest

theorem alternatives_nested (first : ArgKind) (rest : List ArgKind) :
    (nested first rest).alternatives = first :: rest := by
  induction rest generalizing first with
  | nil => rfl
  | cons next rest ih => rw [nested, alternatives, ih]

end Expected

/-- Words to choose from, with commas between them and "or" before the last. -/
def choiceText (words : List String) : String :=
  match words.reverse with
  | [] => ""
  | [word] => word
  | last :: front => ", ".intercalate front.reverse ++ " or " ++ last

theorem choiceText_append {front : List String} (h : front ≠ []) (last : String) :
    choiceText (front ++ [last]) = ", ".intercalate front ++ " or " ++ last := by
  obtain ⟨before, word, rfl⟩ := (List.eq_nil_or_concat' front).resolve_left h
  simp [choiceText]

theorem choiceText_cons {front : List String} (h : front ≠ []) (word last : String) :
    choiceText (word :: (front ++ [last])) = word ++ ", " ++ choiceText (front ++ [last]) := by
  rw [← List.cons_append, choiceText_append (List.cons_ne_nil _ _), choiceText_append h,
    String.intercalate_cons_of_ne_nil h]
  simp only [String.append_assoc]

theorem Expected.describe_eq (e : Expected) :
    e.describe = choiceText (e.alternatives.map ArgKind.describe) := by
  induction e with
  | exactly kind => rfl
  | oneOf kind others ih =>
    cases others with
    | exactly last => rfl
    | oneOf second others =>
      -- The second kind is not the last, so what stands between is a comma.
      obtain ⟨before, last, hsplit⟩ :=
        (List.eq_nil_or_concat' others.alternatives).resolve_left others.alternatives_ne_nil
      have hwords : (oneOf second others).alternatives.map ArgKind.describe =
          (second :: before).map ArgKind.describe ++ [last.describe] := by
        rw [alternatives, hsplit, ← List.cons_append, List.map_append, List.map_singleton]
      calc (oneOf kind (oneOf second others)).describe
        _ = kind.describe ++ ", " ++ (oneOf second others).describe := rfl
        _ = kind.describe ++ ", " ++
            choiceText ((second :: before).map ArgKind.describe ++ [last.describe]) := by
          rw [ih, hwords]
        _ = choiceText (kind.describe ::
            ((second :: before).map ArgKind.describe ++ [last.describe])) :=
          (choiceText_cons (by simp) _ _).symm
        _ = choiceText ((oneOf kind (oneOf second others)).alternatives.map ArgKind.describe) := by
          rw [← hwords]
          rfl

namespace ArgReader

/-- The reader asks for one kind, or tries readers in turn, nested in any way; these are the kinds
of all of them, in the order in which they are tried. What has been read may be changed, or kept
together with a part of the argument such as its place. -/
inductive Tries : {α : Type} → ArgReader α → List ArgKind → Prop where
  | number : Tries number [.number]
  | flag : Tries flag [.number]
  | bytes : Tries bytes [.bytes]
  | text : Tries text [.text]
  | service : Tries service [.service]
  | map {α β : Type} {read : ArgReader α} {kinds : List ArgKind} (tries : Tries read kinds)
    (f : Argument → α → β) : Tries (fun arg => (read arg).map (f arg)) kinds
  | orElse {α : Type} {first second : ArgReader α} {kinds others : List ArgKind}
    (tries : Tries first kinds) (next : Tries second others) :
    Tries (first.orElse second) (kinds ++ others)

theorem tries_data : Tries data [.bytes, .text] := .orElse .bytes .text

theorem tries_content : Tries content [.number, .bytes] :=
  .orElse (.map .number fun _ => Content.number) (.map .bytes fun _ => Content.bytes)

/-- What a reader does that wants an argument of one of these kinds. -/
structure Wants (read : ArgReader α) (expected : Expected) : Prop where
  /-- Any other argument is refused at its place, with its own kind and all that were wanted. -/
  refuses : ∀ arg, arg.value.kind ∉ expected.alternatives →
    read arg = .error (.argument (.wrongKind arg.span arg.value.kind expected))
  /-- An argument of such a kind may be refused for its value, but not for its kind. -/
  reports : ∀ arg span found others,
    read arg = .error (.argument (.wrongKind span found others)) →
      arg.value.kind ∉ expected.alternatives

namespace Wants

variable {read first second : ArgReader α} {a b : Expected}

theorem ofKind {kind : ArgKind} {value? : Literal → Option α}
    (own : ∀ literal, value? literal = none ↔ literal.kind ≠ kind) :
    Wants (ofKind kind value?) (.exactly kind) where
  refuses arg h := by
    rw [ArgReader.ofKind, (own arg.value).mpr (by simpa [Expected.alternatives] using h)]
  reports arg span found others h := by
    rw [ArgReader.ofKind] at h
    split at h
    · cases h
    · next hnone => simpa [Expected.alternatives] using (own arg.value).mp hnone

theorem map (hread : Wants read a) (f : Argument → α → β) :
    Wants (fun arg => (read arg).map (f arg)) a where
  refuses arg h := by
    rw [hread.refuses arg h]
    rfl
  reports arg span found others h := hread.reports arg span found others (map_eq_error.mp h)

/-- A test of what has been read does not come to the kind again. -/
theorem bind (hread : Wants read a) {test : Argument → α → Except Diagnostic β}
    (htest : ∀ arg value span found others,
      test arg value ≠ .error (.argument (.wrongKind span found others))) :
    Wants (fun arg => read arg >>= test arg) a where
  refuses arg h := by
    rw [hread.refuses arg h]
    rfl
  reports arg span found others h := by
    rcases bind_eq_error.mp h with h | ⟨value, -, h⟩
    · exact hread.reports arg span found others h
    · exact absurd h (htest arg value span found others)

theorem orElse (hfirst : Wants first a) (hsecond : Wants second b) :
    Wants (first.orElse second) (a.join b) where
  refuses arg h := by
    rw [Expected.alternatives_join, List.mem_append, not_or] at h
    simp only [ArgReader.orElse, hfirst.refuses arg h.1, hsecond.refuses arg h.2]
  reports arg span found others h := by
    rw [Expected.alternatives_join, List.mem_append, not_or]
    rw [ArgReader.orElse] at h
    -- The second reader is asked only if the first refused the kind.
    split at h
    · next hrefused =>
      refine ⟨hfirst.reports arg _ _ _ hrefused, ?_⟩
      split at h
      · next hrefused => exact hsecond.reports arg _ _ _ hrefused
      · exact hsecond.reports arg _ _ _ h
    · next hother => exact absurd h (hother _ _ _)

theorem number : Wants number (.exactly .number) := .ofKind fun literal => by
  cases literal <;> simp [Literal.kind]

theorem bytes : Wants bytes (.exactly .bytes) := .ofKind fun literal => by
  cases literal <;> simp [Literal.kind]

theorem text : Wants text (.exactly .text) := .ofKind fun literal => by
  cases literal <;> simp [Literal.kind]

theorem flag : Wants flag (.exactly .number) := number.bind fun arg value span found others => by
  split
  · nofun
  · split <;> nofun

theorem service : Wants service (.exactly .service) := by
  refine bind (.ofKind fun literal => ?_) fun arg name span found others => ?_
  · cases literal <;> simp [Literal.kind]
  · split <;> nofun

end Wants

theorem Tries.wants {read : ArgReader α} {kinds : List ArgKind} (h : Tries read kinds) :
    ∃ expected : Expected, expected.alternatives = kinds ∧ Wants read expected := by
  induction h with
  | number => exact ⟨_, rfl, .number⟩
  | flag => exact ⟨_, rfl, .flag⟩
  | bytes => exact ⟨_, rfl, .bytes⟩
  | text => exact ⟨_, rfl, .text⟩
  | service => exact ⟨_, rfl, .service⟩
  | map _ f ih =>
    obtain ⟨expected, rfl, hwants⟩ := ih
    exact ⟨expected, rfl, hwants.map f⟩
  | orElse _ _ ihfirst ihsecond =>
    obtain ⟨a, rfl, hfirst⟩ := ihfirst
    obtain ⟨b, rfl, hsecond⟩ := ihsecond
    exact ⟨a.join b, Expected.alternatives_join a b, hfirst.orElse hsecond⟩

end ArgReader

/-- Joining keeps the kinds of both in their order, so it does not matter which are joined first.
Kinds that are joined one by one and kinds that are nested have the same text, with commas between
the names and "or" before the last. However readers are nested that are tried in turn, an argument
is refused for its kind if and only if none of them is for this kind, and then the fault is laid at
the argument, with its kind and those of all the readers in the order in which they were tried. -/
theorem tried_kinds_are_listed :
    (∀ a b : Expected, (a.join b).alternatives = a.alternatives ++ b.alternatives) ∧
    (∀ a b c : Expected, (a.join b).join c = a.join (b.join c)) ∧
    (∀ e : Expected, e.describe = choiceText (e.alternatives.map ArgKind.describe)) ∧
    (∀ first rest,
      (Expected.joined first rest).describe = choiceText ((first :: rest).map ArgKind.describe) ∧
      (Expected.nested first rest).describe = choiceText ((first :: rest).map ArgKind.describe)) ∧
    ∀ (α : Type) (read : ArgReader α) (kinds : List ArgKind), read.Tries kinds →
      ∀ arg : Argument,
        (arg.value.kind ∉ kinds → ∃ expected : Expected, expected.alternatives = kinds ∧
          read arg = .error (.argument (.wrongKind arg.span arg.value.kind expected))) ∧
        ∀ span found expected, read arg = .error (.argument (.wrongKind span found expected)) →
          arg.value.kind ∉ kinds ∧ span = arg.span ∧ found = arg.value.kind ∧
            expected.alternatives = kinds := by
  refine ⟨Expected.alternatives_join, Expected.join_assoc, Expected.describe_eq, ?_, ?_⟩
  · intro first rest
    constructor
    · rw [Expected.describe_eq, Expected.alternatives_joined]
    · rw [Expected.describe_eq, Expected.alternatives_nested]
  · intro α read kinds htries arg
    obtain ⟨expected, rfl, hwants⟩ := htries.wants
    refine ⟨fun hother => ⟨expected, rfl, hwants.refuses arg hother⟩, ?_⟩
    intro span found others hrefused
    have hother := hwants.reports arg span found others hrefused
    rw [hwants.refuses arg hother] at hrefused
    cases hrefused
    exact ⟨hother, rfl, rfl, rfl⟩

/-- Two pairs of readers and one more are nested on both sides, and one kind is tried twice. What
they refuse is an argument that could not be read. -/
theorem tried_kinds_are_listed_five_readers :
    let read : ArgReader Content :=
      ArgReader.orElse (fun arg => (ArgReader.data arg).map .bytes)
        (ArgReader.service.orElse .content)
    let kinds : List ArgKind := [.bytes, .text, .service, .number, .bytes]
    let arg : Argument := ⟨⟨8, 13⟩, .unreadable⟩
    let expected : Expected :=
      .oneOf .bytes (.oneOf .text (.oneOf .service (.oneOf .number (.exactly .bytes))))
    read.Tries kinds ∧ arg.value.kind ∉ kinds ∧
    (∃ expected : Expected, expected.alternatives = kinds ∧
      read arg = .error (.argument (.wrongKind ⟨8, 13⟩ .unreadable expected))) ∧
    read arg = .error (.argument (.wrongKind ⟨8, 13⟩ .unreadable expected)) ∧
    expected.alternatives = kinds ∧
    expected.describe = "byte string, string, service name, number or byte string" := by
  intro read kinds arg expected
  have htries : read.Tries kinds :=
    .orElse (.map ArgReader.tries_data fun _ => Content.bytes)
      (.orElse .service ArgReader.tries_content)
  have hother : arg.value.kind ∉ kinds := by decide
  have hrefused : read arg = .error (.argument (.wrongKind ⟨8, 13⟩ .unreadable expected)) := rfl
  have hlists := tried_kinds_are_listed.2.2.2.2 Content read kinds htries arg
  exact ⟨htries, hother, hlists.1 hother, hrefused, (hlists.2 _ _ _ hrefused).2.2.2, by decide⟩

end ScriptKit.Listing
