import ScriptKit.Proofs.Instruction.Codec

namespace ScriptKit.Instruction

variable {offset count place missing place' missing' : Nat} {byte : UInt8} {i : Instruction}
  {bytes rest more script : Bytes} {rule : OperandRule} {fault : Fault}

theorem cut_eq_error :
    cut offset count bytes = .error fault ↔
      bytes.length < count ∧ fault = .endOfScript offset (count - bytes.length) := by
  unfold cut
  simp only [List.splitAt_eq, List.length_take]
  split
  · next hl =>
    simp only [reduceCtorEq, false_iff, not_and]
    omega
  · next hl =>
    have hs : bytes.length < count := by omega
    rw [Nat.min_eq_right (Nat.le_of_lt hs), Except.error.injEq, eq_comm, and_iff_right hs]

/-- The bytes end before the operand does: so many bytes are missing at a place, either of an
operand of a fixed width, of the length in front of a counted one, or of the counted bytes. -/
inductive Lacks (offset : Nat) (bytes : Bytes) : OperandRule → Nat → Nat → Prop where
  | fixed {width : Nat} (short : bytes.length < width) :
      Lacks offset bytes (.fixed width) offset (width - bytes.length)
  | length {width : Nat} (short : bytes.length < width) :
      Lacks offset bytes (.counted width) offset (width - bytes.length)
  | payload {width : Nat} {field rest : Bytes} (split : bytes = field ++ rest)
      (whole : field.length = width) (short : rest.length < LittleEndian.toNat field) :
      Lacks offset bytes (.counted width) (offset + width)
        (LittleEndian.toNat field - rest.length)

/-- An operand is refused only because bytes are missing. -/
theorem readOperand_eq_error :
    readOperand offset bytes rule = .error fault ↔
      ∃ place missing, fault = .endOfScript place missing ∧ Lacks offset bytes rule place missing := by
  constructor
  · intro h
    cases rule with
    | none => cases h
    | fixed width =>
      rcases bind_eq_error.mp h with hc | ⟨_, -, hp⟩
      · obtain ⟨hs, rfl⟩ := cut_eq_error.mp hc
        exact ⟨_, _, rfl, .fixed hs⟩
      · cases hp
    | counted width =>
      rcases bind_eq_error.mp h with hc | ⟨⟨field, rest⟩, hf, h⟩
      · obtain ⟨hs, rfl⟩ := cut_eq_error.mp hc
        exact ⟨_, _, rfl, .length hs⟩
      · obtain ⟨he, hw⟩ := cut_eq_ok hf
        rcases bind_eq_error.mp h with hc | ⟨_, -, hp⟩
        · obtain ⟨hs, rfl⟩ := cut_eq_error.mp hc
          exact ⟨_, _, rfl, .payload he.symm hw hs⟩
        · cases hp
  · rintro ⟨place, missing, rfl, h⟩
    cases h with
    | fixed short =>
      exact bind_eq_error.mpr (.inl (cut_eq_error.mpr ⟨short, rfl⟩))
    | length short =>
      exact bind_eq_error.mpr (.inl (cut_eq_error.mpr ⟨short, rfl⟩))
    | payload split whole short =>
      subst split
      refine bind_eq_error.mpr (.inr ⟨_, cut_append offset whole _, ?_⟩)
      exact bind_eq_error.mpr (.inl (cut_eq_error.mpr ⟨short, rfl⟩))

/-- The place lies behind bytes that are there, and at least one byte is missing at it. -/
theorem Lacks.bounds (h : Lacks offset bytes rule place missing) :
    offset ≤ place ∧ place ≤ offset + bytes.length ∧ 0 < missing := by
  cases h with
  | fixed short => omega
  | length short => omega
  | payload split whole short =>
    subst split
    rw [List.length_append]
    omega

/-- With fewer bytes than are missing, the rest of them is missing at the same place. -/
theorem Lacks.fewer (h : Lacks offset bytes rule place missing) (hm : more.length < missing) :
    Lacks offset (bytes ++ more) rule place (missing - more.length) := by
  cases h with
  | fixed short =>
    rw [Nat.sub_sub, ← List.length_append]
    refine .fixed ?_
    rw [List.length_append]
    omega
  | length short =>
    rw [Nat.sub_sub, ← List.length_append]
    refine .length ?_
    rw [List.length_append]
    omega
  | payload split whole short =>
    subst split
    rw [Nat.sub_sub, ← List.length_append, List.append_assoc]
    refine .payload rfl whole ?_
    rw [List.length_append]
    omega

/-- With so many bytes as are missing, others are missing behind the place if any are. -/
theorem Lacks.enough (h : Lacks offset bytes rule place missing) (hm : missing ≤ more.length)
    (h' : Lacks offset (bytes ++ more) rule place' missing') : place < place' := by
  cases h with
  | fixed short =>
    cases h' with
    | fixed short' =>
      rw [List.length_append] at short'
      omega
  | length short =>
    cases h' with
    | length short' =>
      rw [List.length_append] at short'
      omega
    | payload => omega
  | payload split whole short =>
    subst split
    cases h' with
    | length short' =>
      simp only [List.length_append] at short'
      omega
    | payload split' whole' short' =>
      rw [List.append_assoc] at split'
      obtain ⟨rfl, rfl⟩ := List.append_inj split' (whole.trans whole'.symm)
      rw [List.length_append] at short'
      omega

theorem read_eq_error :
    read offset byte bytes = .error fault ↔
      (Opcode.ofCode? byte = none ∧ fault = .unsupportedOpcode byte) ∨
        ∃ op place missing, Opcode.ofCode? byte = some op ∧ fault = .endOfScript place missing ∧
          Lacks (offset + 1) bytes op.operand place missing := by
  unfold read
  split
  · next hop => simp [hop, eq_comm]
  · next op hop =>
    simp only [hop, reduceCtorEq, false_and, false_or, Option.some.injEq]
    constructor
    · intro h
      rcases bind_eq_error.mp h with ho | ⟨_, -, hp⟩
      · obtain ⟨place, missing, rfl, hl⟩ := readOperand_eq_error.mp ho
        exact ⟨op, place, missing, rfl, rfl, hl⟩
      · cases hp
    · rintro ⟨_, place, missing, rfl, rfl, hl⟩
      exact bind_eq_error.mpr (.inl (readOperand_eq_error.mpr ⟨place, missing, rfl, hl⟩))

theorem read_eq_endOfScript :
    read offset byte bytes = .error (.endOfScript place missing) ↔
      ∃ op, Opcode.ofCode? byte = some op ∧ Lacks (offset + 1) bytes op.operand place missing := by
  rw [read_eq_error]
  constructor
  · rintro (⟨-, he⟩ | ⟨op, _, _, hop, he, hl⟩)
    · cases he
    · obtain ⟨rfl, rfl⟩ := Fault.endOfScript.inj he
      exact ⟨op, hop, hl⟩
  · rintro ⟨op, hop, hl⟩
    exact .inr ⟨op, place, missing, hop, rfl, hl⟩

/-- What is read is the same with more bytes behind it. -/
theorem read_append (h : read offset byte bytes = .ok (i, rest)) (more : Bytes) :
    read offset byte (bytes ++ more) = .ok (i, rest ++ more) := by
  obtain ⟨tail, he, rfl, hn⟩ := encode_of_read h
  obtain ⟨tail', ht, hr⟩ := read_of_encode he
  obtain ⟨rfl, rfl⟩ := List.cons.inj ht
  rw [List.append_assoc, hr, hn]

/-- An instruction that is read only with further bytes takes in at least one of them. -/
theorem size_of_read_append (h : read offset byte bytes = .error fault)
    (hr : read offset byte (bytes ++ more) = .ok (i, rest)) : 1 + bytes.length < i.size := by
  obtain ⟨tail, he, ht, hn⟩ := encode_of_read hr
  have hs := length_of_encode he
  rw [List.length_cons] at hs
  by_contra hle
  -- Otherwise the instruction stands in the bytes alone.
  obtain ⟨left, rfl⟩ : tail <+: bytes :=
    List.prefix_of_prefix_length_le ⟨rest, ht⟩ ⟨more, rfl⟩ (by omega)
  obtain ⟨tail', ht', hread⟩ := read_of_encode he
  obtain ⟨rfl, rfl⟩ := List.cons.inj ht'
  rw [hread] at h
  cases h

/-- Behind instructions that are read already, splitting goes on as from a start of its own. -/
theorem decodeFrom_append {front : Bytes} {is : List Instruction}
    (h : decodeFrom offset front = .ok is) (more : Bytes) :
    decodeFrom offset (front ++ more) =
      (decodeFrom (offset + front.length) more).map (is ++ ·) := by
  induction is generalizing offset front with
  | nil =>
    cases front with
    | nil => cases hm : decodeFrom offset more <;> simp [Except.map, hm]
    | cons byte bytes =>
      obtain ⟨_, -, h⟩ := bind_eq_ok.mp (decodeFrom_cons offset byte bytes ▸ h)
      obtain ⟨_, -, hp⟩ := bind_eq_ok.mp h
      cases hp
  | cons i is ih =>
    cases front with
    | nil => simp [decodeFrom] at h
    | cons byte bytes =>
      obtain ⟨⟨j, rest⟩, hr, h⟩ := bind_eq_ok.mp (decodeFrom_cons offset byte bytes ▸ h)
      obtain ⟨_, ho, hp⟩ := bind_eq_ok.mp h
      obtain ⟨rfl, rfl⟩ := List.cons.inj (pure_eq_ok.mp hp)
      obtain ⟨tail, he, rfl, -⟩ := encode_of_read hr
      have hlength : offset + j.size + rest.length = offset + (byte :: (tail ++ rest)).length := by
        rw [← length_of_encode he]
        simp only [List.length_cons, List.length_append]
        omega
      rw [List.cons_append, decodeFrom_cons, read_append hr, ← hlength]
      change (do let others ← decodeFrom (offset + j.size) (rest ++ more); pure (j :: others)) = _
      rw [ih ho]
      cases decodeFrom (offset + j.size + rest.length) more <;> rfl

/-- A script is refused because of the first instruction that cannot be read. -/
theorem decodeFrom_eq_error :
    decodeFrom offset script = .error fault ↔
      ∃ front is byte bytes, script = front ++ byte :: bytes ∧ decodeFrom offset front = .ok is ∧
        read (offset + front.length) byte bytes = .error fault := by
  constructor
  · intro h
    induction hn : script.length using Nat.strongRecOn generalizing offset script with
    | ind n ih =>
      cases script with
      | nil => simp [decodeFrom] at h
      | cons byte bytes =>
        rcases bind_eq_error.mp (decodeFrom_cons offset byte bytes ▸ h) with hr | ⟨⟨i, rest⟩, hr, h⟩
        · exact ⟨[], [], byte, bytes, rfl, by simp [decodeFrom], hr⟩
        rcases bind_eq_error.mp h with ho | ⟨_, -, hp⟩
        · have hlt : rest.length < n := by
            have hle := length_rest_of_read hr
            rw [← hn, List.length_cons]
            omega
          obtain ⟨front, is, byte', bytes', rfl, hf, hr'⟩ := ih _ hlt ho rfl
          obtain ⟨tail, he, rfl, hnormal⟩ := encode_of_read hr
          have hfirst : decodeFrom offset (byte :: tail) = .ok [i] := by
            have hall : encodeAll [i] = .ok (byte :: tail) :=
              encodeAll_cons_eq_ok.mpr ⟨_, [], he, rfl, by simp⟩
            rw [decodeFrom_of_encodeAll hall, List.map_singleton, hnormal]
          have hlength : i.size = (byte :: tail).length := (length_of_encode he).symm
          refine ⟨(byte :: tail) ++ front, i :: is, byte', bytes', by simp, ?_, ?_⟩
          · rw [decodeFrom_append hfirst, ← hlength, hf]
            rfl
          · rwa [List.length_append, ← hlength, ← Nat.add_assoc]
        · cases hp
  · rintro ⟨front, is, byte, bytes, rfl, hf, hr⟩
    rw [decodeFrom_append hf, decodeFrom_of_read_error hr]
    rfl

/-- The place of a fault lies behind an opcode of the script, and at least one byte is missing. -/
theorem bounds_of_decodeFrom (h : decodeFrom offset script = .error (.endOfScript place missing)) :
    offset < place ∧ place ≤ offset + script.length ∧ 0 < missing := by
  obtain ⟨front, is, byte, bytes, rfl, -, hr⟩ := decodeFrom_eq_error.mp h
  obtain ⟨op, -, hl⟩ := read_eq_endOfScript.mp hr
  have hb := hl.bounds
  simp only [List.length_append, List.length_cons]
  omega

theorem encodeAll_append_eq_ok {is js : List Instruction} :
    encodeAll (is ++ js) = .ok script ↔
      ∃ first second, encodeAll is = .ok first ∧ encodeAll js = .ok second ∧
        script = first ++ second := by
  constructor
  · intro h
    induction is generalizing script with
    | nil => exact ⟨[], script, rfl, h, rfl⟩
    | cons i is ih =>
      obtain ⟨bytes, others, hb, ho, rfl⟩ := encodeAll_cons_eq_ok.mp h
      obtain ⟨first, second, hf, hs, rfl⟩ := ih ho
      exact ⟨bytes ++ first, second, encodeAll_cons_eq_ok.mpr ⟨_, _, hb, hf, rfl⟩, hs, by simp⟩
  · rintro ⟨first, second, hf, hs, rfl⟩
    exact encodeAll_append hf hs

theorem decodeFrom_append_fewer
    (h : decodeFrom offset script = .error (.endOfScript place missing))
    (hm : more.length < missing) :
    decodeFrom offset (script ++ more) = .error (.endOfScript place (missing - more.length)) := by
  obtain ⟨front, is, byte, bytes, rfl, hf, hr⟩ := decodeFrom_eq_error.mp h
  obtain ⟨op, hop, hl⟩ := read_eq_endOfScript.mp hr
  rw [List.append_assoc, List.cons_append]
  apply decodeFrom_eq_error.mpr
  exact ⟨front, is, byte, bytes ++ more, rfl, hf, read_eq_endOfScript.mpr ⟨op, hop, hl.fewer hm⟩⟩

/-- Either the same operand is short of bytes at a later place, or a later instruction is. -/
theorem decodeFrom_append_enough
    (h : decodeFrom offset script = .error (.endOfScript place missing))
    (hm : missing ≤ more.length)
    (h' : decodeFrom offset (script ++ more) = .error (.endOfScript place' missing')) :
    place < place' := by
  obtain ⟨front, is, byte, bytes, rfl, hf, hr⟩ := decodeFrom_eq_error.mp h
  obtain ⟨op, hop, hl⟩ := read_eq_endOfScript.mp hr
  rw [List.append_assoc, List.cons_append, decodeFrom_append hf] at h'
  cases hd : decodeFrom (offset + front.length) (byte :: (bytes ++ more)) with
  | ok others =>
    rw [hd] at h'
    cases h'
  | error fault =>
    rw [hd] at h'
    obtain rfl := Except.error.inj h'
    rcases bind_eq_error.mp (decodeFrom_cons _ byte _ ▸ hd) with hr' | ⟨⟨i, rest⟩, hr', hd'⟩
    · obtain ⟨op', hop', hl'⟩ := read_eq_endOfScript.mp hr'
      obtain rfl : op = op' := Option.some.inj (hop.symm.trans hop')
      exact hl.enough hm hl'
    · rcases bind_eq_error.mp hd' with ho | ⟨_, -, hp⟩
      · have hfirst := hl.bounds
        have hsize := size_of_read_append hr hr'
        have hlater := bounds_of_decodeFrom ho
        omega
      · cases hp

/-- The number of bytes that instructions take. -/
def sizeAll (is : List Instruction) : Nat := (is.map size).foldr (· + ·) 0

theorem sizeAll_cons (i : Instruction) (is : List Instruction) :
    sizeAll (i :: is) = i.size + sizeAll is := rfl

theorem sizeAll_append (is js : List Instruction) :
    sizeAll (is ++ js) = sizeAll is + sizeAll js := by
  induction is with
  | nil => exact (Nat.zero_add _).symm
  | cons i is ih => rw [List.cons_append, sizeAll_cons, sizeAll_cons, ih, Nat.add_assoc]

/-- Up to a place between two instructions, a script splits into the instructions before it. -/
theorem decode_of_boundary {first second : Bytes} {is : List Instruction}
    (h : decode (first ++ second) = .ok is) {count : Nat}
    (hb : first.length = sizeAll (is.take count)) : decode first = .ok (is.take count) := by
  obtain ⟨he, hn⟩ := decode_eq_ok_iff.mp h
  rw [← List.take_append_drop count is] at he
  obtain ⟨front, behind, hf, -, hs⟩ := encodeAll_append_eq_ok.mp he
  obtain ⟨rfl, rfl⟩ := List.append_inj hs (hb.trans (sum_size_of_encodeAll hf))
  exact decode_eq_ok_iff.mpr ⟨hf, fun i hi => hn i (List.mem_of_mem_take hi)⟩

/-- A piece that splits into instructions ends between two instructions of the script. -/
theorem boundary_of_decode {first second : Bytes} {is js : List Instruction}
    (h : decode (first ++ second) = .ok is) (hf : decode first = .ok js) :
    first.length = sizeAll (is.take js.length) := by
  rw [decode, decodeFrom_append hf] at h
  obtain ⟨ks, -, rfl⟩ := map_eq_ok.mp h
  rw [List.take_left]
  exact (sum_size_of_encodeAll (decode_eq_ok_iff.mp hf).1).symm

/-- A piece that does not split into instructions is short of bytes that come behind it. -/
theorem truncated_of_decode_append {first second : Bytes} {is : List Instruction}
    (h : decode (first ++ second) = .ok is) (hf : decode first = .error fault) :
    ∃ place missing, fault = .endOfScript place missing ∧ missing ≤ second.length := by
  obtain ⟨front, js, byte, bytes, rfl, hd, hr⟩ := decodeFrom_eq_error.mp hf
  rcases read_eq_error.mp hr with ⟨hop, rfl⟩ | ⟨op, place, missing, hop, rfl, hl⟩
  · -- The byte would be refused in the whole script as well.
    have hall : decode (front ++ byte :: bytes ++ second) = .error (.unsupportedOpcode byte) := by
      apply decodeFrom_eq_error.mpr
      refine ⟨front, js, byte, bytes ++ second, by simp, hd, ?_⟩
      exact read_eq_error.mpr (.inl ⟨hop, rfl⟩)
    rw [hall] at h
    cases h
  · refine ⟨place, missing, rfl, ?_⟩
    by_contra hm
    have hall := decodeFrom_append_fewer hf (Nat.lt_of_not_le hm)
    rw [decode, hall] at h
    cases h

/-- A truncated script is short of at least one byte, at a place in it. Fewer bytes than are missing
leave the fault at its place with the rest of them missing; so many bytes end it. A piece of a sound
script splits into the first instructions if it ends between two, and else it is truncated, and short
of no more bytes than come behind it. -/
theorem truncation_diagnosed :
    (∀ script place missing, decode script = .error (.endOfScript place missing) →
      place ≤ script.length ∧ 1 ≤ missing ∧ ∀ more : Bytes,
        (more.length < missing →
          decode (script ++ more) = .error (.endOfScript place (missing - more.length))) ∧
        (missing ≤ more.length →
          ∀ still, decode (script ++ more) ≠ .error (.endOfScript place still))) ∧
    ∀ first second is, decode (first ++ second) = .ok is →
      (∀ count, first.length = sizeAll (is.take count) →
        decode first = .ok (is.take count)) ∧
      ((∀ count, first.length ≠ sizeAll (is.take count)) →
        ∃ place missing, decode first = .error (.endOfScript place missing) ∧
          missing ≤ second.length) := by
  constructor
  · intro script place missing h
    have hb := bounds_of_decodeFrom h
    refine ⟨by omega, hb.2.2, fun more => ⟨decodeFrom_append_fewer h, fun hm still h' => ?_⟩⟩
    exact Nat.lt_irrefl place (decodeFrom_append_enough h hm h')
  · intro first second is h
    refine ⟨fun count => decode_of_boundary h, fun hcut => ?_⟩
    cases hf : decode first with
    | ok js => exact absurd (boundary_of_decode h hf) (hcut js.length)
    | error fault =>
      obtain ⟨place, missing, rfl, hm⟩ := truncated_of_decode_append h hf
      exact ⟨place, missing, rfl, hm⟩

/-- Counted bytes that end early, also once their length is there, and a script cut in front of them
and within them. -/
theorem truncation_diagnosed_counted_bytes :
    (decode [0x21, 0x0d, 3] = .error (.endOfScript 2 1) ∧
      decode [0x21, 0x0d, 3, 0] ≠ .error (.endOfScript 2 1)) ∧
    (decode [0x21, 0x0d, 3, 0, 7] = .error (.endOfScript 4 2) ∧
      decode [0x21, 0x0d, 3, 0, 7, 8] = .error (.endOfScript 4 1)) ∧
    (decode ([0x21] ++ [0x0d, 3, 0, 7, 8, 9]) = .ok [⟨.nop, none⟩, ⟨.pushData2, some [7, 8, 9]⟩] ∧
      decode [0x21] = .ok [⟨.nop, none⟩]) ∧
    (decode ([0x21, 0x0d, 3] ++ [0, 7, 8, 9]) = .ok [⟨.nop, none⟩, ⟨.pushData2, some [7, 8, 9]⟩] ∧
      ∃ place missing, decode [0x21, 0x0d, 3] = .error (.endOfScript place missing) ∧
        missing ≤ 4) := by
  have hlength : decode [0x21, 0x0d, 3] = .error (.endOfScript 2 1) := by decide +kernel
  have hbytes : decode [0x21, 0x0d, 3, 0, 7] = .error (.endOfScript 4 2) := by decide +kernel
  have hwhole : decode [0x21, 0x0d, 3, 0, 7, 8, 9] =
      .ok [⟨.nop, none⟩, ⟨.pushData2, some [7, 8, 9]⟩] := by decide +kernel
  have hcut : ∀ count, [0x21, 0x0d, (3 : UInt8)].length ≠
      sizeAll (([⟨.nop, none⟩, ⟨.pushData2, some [7, 8, 9]⟩] : List Instruction).take count) := by
    intro count
    rcases count with _ | _ | count
    · decide
    · decide
    · simp only [List.take_succ_cons, List.take_nil]
      decide
  refine ⟨⟨hlength, ?_⟩, ⟨hbytes, ?_⟩, ⟨hwhole, ?_⟩, hwhole, ?_⟩
  · exact ((truncation_diagnosed.1 _ _ _ hlength).2.2 [0]).2 (by decide) 1
  · exact ((truncation_diagnosed.1 _ _ _ hbytes).2.2 [8]).1 (by decide)
  · exact (truncation_diagnosed.2 [0x21] [0x0d, 3, 0, 7, 8, 9] _ hwhole).1 1 (by decide)
  · exact (truncation_diagnosed.2 [0x21, 0x0d, 3] [0, 7, 8, 9] _ hwhole).2 hcut

end ScriptKit.Instruction
