import ScriptKit.Proofs.Listing.Trivia
import ScriptKit.Proofs.Text.Radix

namespace ScriptKit.Listing

open Listing.Parser Text

variable {a word digits : List Char} {radix n : Nat} {value : Int}

/-- The radixes, each with its mark. -/
def marks : List (List Char × Nat) := [([], 10), (['0', 'x'], 16), (['0', 'b'], 2)]

/-- A word for a natural number: the mark of a radix and digits of the radix, with underscores only
between two digits. -/
inductive IsNatural : List Char → Nat → Prop where
  | spelt {mark digits : List Char} {radix : Nat} {ds : List Nat} (marked : (mark, radix) ∈ marks)
      (spells : Numeral.Spells radix digits ds) :
      IsNatural (mark ++ digits) (Nat.ofDigits radix ds.reverse)

/-- A word for an integer. Minus zero is zero. -/
inductive IsInteger : List Char → Int → Prop where
  | plain {word : List Char} {n : Nat} (natural : IsNatural word n) : IsInteger word n
  | minus {word : List Char} {n : Nat} (natural : IsNatural word n) : IsInteger ('-' :: word) (-n)

theorem mem_marks_iff {mark : List Char} : (mark, radix) ∈ marks ↔
    mark = [] ∧ radix = 10 ∨ mark = ['0', 'x'] ∧ radix = 16 ∨ mark = ['0', 'b'] ∧ radix = 2 := by
  simp only [marks, List.mem_cons, Prod.mk.injEq, List.not_mem_nil, or_false]

/-- The radixes lie in the range in which letters are digits. -/
theorem radix_bounds {mark : List Char} (h : (mark, radix) ∈ marks) : 0 < radix ∧ radix ≤ 16 := by
  have hradix := mem_marks_iff.mp h
  omega

theorem IsNatural.first (h : IsNatural word n) :
    ∃ c rest, word = c :: rest ∧ c.isDigit = true := by
  obtain @⟨mark, digits, radix, ds, marked, spells⟩ := h
  rcases mem_marks_iff.mp marked with ⟨rfl, rfl⟩ | ⟨rfl, -⟩ | ⟨rfl, -⟩
  · obtain ⟨⟨c, d, hc, hd⟩, -⟩ := spells.ends
    obtain ⟨rest, rfl⟩ := List.head?_eq_some_iff.mp hc
    exact ⟨c, rest, rfl, hd.isDigit⟩
  · exact ⟨'0', _, rfl, by decide⟩
  · exact ⟨'0', _, rfl, by decide⟩

/-- What is written for an integer is a word for it, without underscores. -/
theorem isInteger_toString (value : Int) :
    IsInteger (toString value).toList value ∧ '_' ∉ (toString value).toList := by
  have hdigit : ∀ n, ∀ c ∈ Nat.toDigits 10 n, c.isDigit = true :=
    fun _ _ hc => isDigit_of_mem_toDigits hc
  have hplain : ∀ n, ∀ c ∈ Nat.toDigits 10 n, c ≠ '_' := by
    rintro n c hc rfl
    exact absurd (hdigit n '_' hc) (by decide)
  have hnatural : ∀ n, IsNatural (Nat.toDigits 10 n) n := by
    intro n
    have hread := Numeral.digits_of_isDigit (hdigit n) 0
    rw [Nat.ofDigitChars_ten_toDigits, ← Numeral.amounts_iff (by decide)] at hread
    obtain ⟨ds, hs, hn⟩ := (Numeral.exists_amounts_iff Nat.toDigits_ne_nil
      (fun h => hplain n '_' (List.mem_of_head? h) rfl)
      (fun h => hplain n '_' (List.mem_of_getLast? h) rfl) (P := (n = ·))).mp ⟨n, hread, rfl⟩
    have h := IsNatural.spelt (mem_marks_iff.mpr (.inl ⟨rfl, rfl⟩)) hs
    rwa [List.nil_append, ← hn] at h
  rw [Numeral.toList_toString]
  split
  · next hv =>
    have h := IsInteger.plain (hnatural value.toNat)
    rw [Int.toNat_of_nonneg hv] at h
    exact ⟨h, fun hu => hplain _ '_' hu rfl⟩
  · next hv =>
    have h := IsInteger.minus (hnatural (-value).toNat)
    rw [Int.toNat_of_nonneg (by omega), Int.neg_neg] at h
    refine ⟨h, fun hu => ?_⟩
    rcases List.mem_cons.mp hu with he | hu
    · cases he
    · exact hplain _ '_' hu rfl

/-- What starts a word when the zeros in front of it are passed over. -/
abbrev behindZeros (digits : List Char) : Option Char := (digits.dropWhile (· == '0')).head?

/-- A word that differs from the digits by zeros in front is read as what they amount to. -/
theorem integer_eq_ok_of_zeros (hl : 0 < radix) (hr : radix ≤ 16) {left : List Char}
    (hne : left ≠ []) (hsign : ∀ c ∈ left.head?, c ≠ '-' ∧ c ≠ '+')
    (hsame : left.dropWhile (· == '0') = digits.dropWhile (· == '0')) :
    Numeral.integer radix left = .ok value ↔
      left.head? ≠ some '_' ∧ ∃ n : Nat, Numeral.Amounts radix digits n ∧ value = n := by
  rw [Numeral.integer_eq_ok hr (fun h => (hsign _ h).1 rfl) (fun h => (hsign _ h).2 rfl)]
  have hamounts : ∀ n, Numeral.Amounts radix left n ↔ Numeral.Amounts radix digits n := by
    intro n
    rw [← Numeral.amounts_dropWhile hl, hsame, Numeral.amounts_dropWhile hl]
  simp only [hamounts, hne, ne_eq, not_false_eq_true, true_and]

theorem numberValue_eq_ok_iff {span : Span} (hl : 0 < radix) (hr : radix ≤ 16)
    (hsign : ∀ c ∈ behindZeros digits, c ≠ '-' ∧ c ≠ '+') :
    numberValue radix span digits = .ok value ↔
      behindZeros digits ≠ some '_' ∧ ∃ n : Nat, Numeral.Amounts radix digits n ∧ value = n := by
  cases hdrop : digits.dropWhile (· == '0') with
  | nil =>
    rw [behindZeros, hdrop]
    have hread : numberValue radix span digits = .ok value ↔
        Numeral.integer radix ['0'] = .ok value := by
      rw [numberValue, hdrop]
      cases Numeral.integer radix ['0'] <;> simp
    have hsame : ['0'].dropWhile (· == '0') = digits.dropWhile (· == '0') := by
      rw [hdrop]
      rfl
    rw [hread, integer_eq_ok_of_zeros hl hr (List.cons_ne_nil _ _) (by simp) hsame]
    simp
  | cons c rest =>
    have hread : numberValue radix span digits = .ok value ↔
        Numeral.integer radix (c :: rest) = .ok value := by
      rw [numberValue, hdrop]
      cases Numeral.integer radix (c :: rest) <;> simp
    have hne : (c == '0') = false := by
      have := List.head?_dropWhile_not (· == '0') digits
      simpa [hdrop] using this
    rw [behindZeros, hdrop] at hsign ⊢
    refine hread.trans (integer_eq_ok_of_zeros hl hr (List.cons_ne_nil _ _) hsign ?_)
    rw [hdrop, List.dropWhile_cons_of_neg (by simpa using hne)]

/-- Digits that do not end with an underscore, and have no sign behind their zeros, are read if no
underscore follows the zeros and they spell a number. -/
theorem numberValue_eq_ok {span : Span} (hl : 0 < radix) (hr : radix ≤ 16) (hne : digits ≠ [])
    (hlast : digits.getLast? ≠ some '_') (hsign : ∀ c ∈ behindZeros digits, c ≠ '-' ∧ c ≠ '+') :
    numberValue radix span digits = .ok value ↔
      behindZeros digits ≠ some '_' ∧
        ∃ ds, Numeral.Spells radix digits ds ∧ value = (Nat.ofDigits radix ds.reverse : Nat) := by
  rw [numberValue_eq_ok_iff hl hr hsign]
  refine and_congr_right fun hu => Numeral.exists_amounts_iff hne ?_ hlast (P := (value = ·))
  -- An underscore in front of the digits would stand behind no zeros.
  intro hhead
  cases digits with
  | nil => cases hhead
  | cons c rest =>
    obtain rfl := Option.some.inj hhead
    exact hu rfl

/-- What may stand behind a number: a blank, a comma or a slash, or nothing. -/
def EndsNumber (text : List Char) : Prop :=
  Stops (fun c => !(isBlank c || ",/".toList.contains c)) text

theorem reads_endOfText : Reads endOfText [] [] fun _ => True := by
  intro offset blame errors
  exact ⟨(), offset, blame, rfl, trivial⟩

theorem refuses_endOfText {c : Char} : Refuses endOfText (c :: a) := by
  intro offset blame errors
  exact ⟨_, rfl⟩

theorem reads_numberEnd (h : EndsNumber a) : ∃ b, Reads numberEnd a b fun _ => True := by
  cases a with
  | nil => exact ⟨[], .orElse_left reads_endOfText⟩
  | cons c rest =>
    cases hb : isBlank c with
    | true =>
      refine ⟨rest.dropWhile isBlank, .orElse_right refuses_endOfText (.orElse_left ?_)⟩
      have hw : ∀ d ∈ c :: rest.takeWhile isBlank, isBlank d = true := by
        rw [List.forall_mem_cons]
        exact ⟨hb, fun d hd => List.all_eq_true.mp List.all_takeWhile d hd⟩
      have hr := reads_blanks (List.cons_ne_nil _ _) hw (stops_dropWhile _ rest)
      rwa [List.cons_append, List.takeWhile_append_dropWhile] at hr
    | false =>
      have hc : ",/".toList.contains c = true := by
        rw [EndsNumber, stops_cons, hb, Bool.false_or, Bool.not_eq_false'] at h
        exact h
      refine ⟨rest, .orElse_right refuses_endOfText (.orElse_right ?_ ?_)⟩
      · exact refuses_blanks (stops_cons.mpr hb)
      · exact (reads_char hc).bind fun _ _ => .pure trivial

theorem refuses_numberEnd (h : ¬ EndsNumber a) : Refuses numberEnd a := by
  cases a with
  | nil => exact absurd (stops_nil _) h
  | cons c rest =>
    rw [EndsNumber, stops_cons, Bool.not_eq_false', Bool.or_eq_true, not_or, Bool.not_eq_true,
      Bool.not_eq_true] at h
    exact refuses_endOfText.orElse ((refuses_blanks (stops_cons.mpr h.1)).orElse
      (refuses_char (stops_cons.mpr h.2)).bind)

/-- The mark of a radix is more than its first character. -/
theorem refuses_markedNumber {c mark : Char} {radix : Nat} (h : Stops (· == mark) a) :
    Refuses (markedNumber ['0', mark] radix) (c :: a) := by
  apply Refuses.judge
  apply Refuses.bind
  by_cases hz : c = '0'
  · subst hz
    exact (reads_char (by decide)).bind_refuses fun _ _ => refuses_symbol h
  · exact refuses_symbol (stops_cons.mpr (by simpa using hz))

theorem isNumberChar_of_isDigit {c : Char} {d : Nat} (h : Numeral.IsDigit radix c d) :
    isNumberChar c = true := by
  rcases h.code with hc | hc | hc <;>
    exact forall_between (P := isNumberChar) (by decide) hc.1 hc.2

theorem isNumberChar_of_spells {ds : List Nat} (h : Numeral.Spells radix digits ds) :
    ∀ c ∈ digits, isNumberChar c = true := by
  intro c hc
  rcases h.ends.2.2 c hc with rfl | ⟨d, hd⟩
  · decide
  · exact isNumberChar_of_isDigit hd

/-- Nothing that may stand in a number goes on behind one. -/
theorem EndsNumber.stops {test : Char → Bool} (h : EndsNumber a)
    (ht : ∀ c, test c = true → isNumberChar c = true) : Stops test a := by
  refine Stops.of_imp h fun c hc => ?_
  have hn := ht c hc
  simp only [isNumberChar, Bool.and_eq_true, Bool.not_eq_true'] at hn
  have hmore : ",/\x7b\x7d".toList = ",/".toList ++ ['\x7b', '\x7d'] := by decide
  rw [hmore, List.contains_append, Bool.or_eq_false_iff] at hn
  rw [hn.1, hn.2.1]
  rfl

/-- A letter stands neither among decimal digits nor right behind them. -/
theorem stops_mark {ds : List Nat} {mark : Char} (hd : List.Forall₂ (Numeral.IsDigit 10) digits ds)
    (h : EndsNumber a) (hm : mark.isDigit = false) (hc : isNumberChar mark = true) :
    Stops (· == mark) (digits ++ a) := by
  cases hd with
  | nil =>
    refine h.stops fun c he => ?_
    rw [beq_iff_eq] at he
    rwa [he]
  | cons digit others =>
    rw [List.cons_append, stops_cons, beq_eq_false_iff_ne]
    rintro rfl
    rw [digit.isDigit] at hm
    cases hm

theorem numberValue_of_spells {ds : List Nat} (hl : 0 < radix) (hr : radix ≤ 16)
    (hs : Numeral.Spells radix digits ds) (hu : '_' ∉ digits) (span : Span) :
    numberValue radix span digits = .ok (Nat.ofDigits radix ds.reverse : Nat) := by
  obtain ⟨⟨first, -, hfirst, -⟩, ⟨last, d, hlast, hd⟩, hall⟩ := hs.ends
  have hne : digits ≠ [] := by
    rintro rfl
    cases hfirst
  have hbehind : ∀ c ∈ behindZeros digits, c ∈ digits := fun c hc =>
    (List.dropWhile_suffix _).subset (List.mem_of_head? hc)
  refine (numberValue_eq_ok hl hr hne ?_ ?_).mpr ⟨fun hz => hu (hbehind _ hz), ds, hs, rfl⟩
  · rw [hlast]
    exact fun he => hd.ne.2.2 (Option.some.inj he)
  · intro c hc
    rcases hall c (hbehind c hc) with rfl | ⟨d, hd⟩
    · exact absurd (hbehind _ hc) hu
    · exact ⟨hd.ne.1, hd.ne.2.1⟩

/-- A word for a natural number is read as its number. -/
theorem reads_natural (hw : IsNatural word n) (hu : '_' ∉ word) (h : EndsNumber a) :
    Reads unsignedNumber (word ++ a) a (· = (n : Int)) := by
  obtain @⟨mark, digits, radix, ds, marked, spells⟩ := hw
  obtain ⟨hl, hr⟩ := radix_bounds marked
  have hplain : '_' ∉ digits := fun hm => hu (List.mem_append_right mark hm)
  have hne : digits ≠ [] := by
    rintro rfl
    cases spells
  have hword : Reads (run1 unexpectedKind isNumberChar) (digits ++ a) a (· = digits) :=
    reads_run1 notes_kind hne (isNumberChar_of_spells spells) (h.stops fun _ => id)
  have hjudge : ∀ {p : Parser (List Char)} {b : List Char}, Reads p b a (· = digits) →
      Reads (judge p (numberValue radix)) b a (· = (Nat.ofDigits radix ds.reverse : Nat)) := by
    intro p b hp
    refine hp.judge fun span value hv => ?_
    subst hv
    exact ⟨_, numberValue_of_spells hl hr spells hplain span, rfl⟩
  rcases mem_marks_iff.mp marked with ⟨rfl, rfl⟩ | ⟨rfl, rfl⟩ | ⟨rfl, rfl⟩
  · have hdigits := spells.forall₂
    rw [List.filter_eq_self.mpr fun c hc => bne_iff_ne.mpr (ne_of_mem_of_not_mem hc hplain)]
      at hdigits
    cases hdigits with
    | nil => exact absurd rfl hne
    | @cons first d rest ds digit others =>
      have hx : Stops (· == 'x') (rest ++ a) := stops_mark others h (by decide) (by decide)
      have hb : Stops (· == 'b') (rest ++ a) := stops_mark others h (by decide) (by decide)
      exact .orElse_right (refuses_markedNumber hx) (.orElse_right (refuses_markedNumber hb)
        ((reads_char digit.isDigit).ahead.bind fun _ _ => hjudge hword))
  · exact .orElse_left (hjudge ((reads_symbol ['0', 'x']).bind fun _ _ => hword))
  · exact .orElse_right (refuses_markedNumber (stops_cons.mpr (by decide)))
      (.orElse_left (hjudge ((reads_symbol ['0', 'b']).bind fun _ _ => hword)))

theorem refuses_unsignedNumber (h : Stops Char.isDigit a) : Refuses unsignedNumber a := by
  have hz : Stops (· == '0') a := h.of_imp fun c hc => by
    rw [beq_iff_eq] at hc
    subst hc
    decide
  have hmark : ∀ mark radix, Refuses (markedNumber ('0' :: mark) radix) a :=
    fun mark radix => (refuses_symbol hz).bind.judge
  exact (hmark _ _).orElse ((hmark _ _).orElse (refuses_char h).ahead.bind)

theorem refuses_number (h : Stops (fun c => c.isDigit || c == '-') a) : Refuses number a := by
  have hd : Stops Char.isDigit a := h.of_imp fun c hc => by simp [hc]
  have hm : Stops (· == '-') a := h.of_imp fun c hc => by simp [hc]
  exact ((refuses_symbol hm).bind.orElse (refuses_unsignedNumber hd)).bind

/-- A word for an integer is read as its integer. -/
theorem reads_integer (hw : IsInteger word value) (hu : '_' ∉ word) (h : EndsNumber a) :
    Reads number (word ++ a) a (· = value) := by
  obtain ⟨b, hb⟩ := reads_numberEnd h
  refine Reads.bind (Q := (· = value)) ?_ fun v hv => hb.ahead.bind fun _ _ => .pure hv
  cases hw with
  | plain natural =>
    obtain ⟨c, rest, rfl, hc⟩ := natural.first
    have hm : Stops (· == '-') (c :: rest ++ a) := by
      rw [List.cons_append, stops_cons, beq_eq_false_iff_ne]
      rintro rfl
      exact absurd hc (by decide)
    exact .orElse_right (refuses_symbol hm).bind (reads_natural natural hu h)
  | minus natural =>
    have hplain := List.not_mem_of_not_mem_cons hu
    refine .orElse_left ((reads_symbol ['-']).bind fun _ _ => ?_)
    refine (reads_natural natural hplain h).bind fun v hv => ?_
    subst hv
    exact .pure rfl

end ScriptKit.Listing
