import ScriptKit.Proofs.Bytes.Fixed
import ScriptKit.Proofs.Call.Machine
import ScriptKit.Proofs.Instruction.Push
import ScriptKit.Proofs.Text.Utf8

namespace ScriptKit.Call

/-- An instruction that pushes one value on its own. -/
inductive Atom : Instruction → Param → Prop
  | true {operand : Option Bytes} : Atom ⟨.pushT, operand⟩ (.boolean true)
  | false {operand : Option Bytes} : Atom ⟨.pushF, operand⟩ (.boolean false)
  | null {operand : Option Bytes} : Atom ⟨.pushNull, operand⟩ (.any none)
  | data {i : Instruction} (push : i.op ∈ Instruction.dataPushes) : Atom i (.byteArray i.payload)
  | small {i : Instruction} {value : Int} (push : i.op.smallInt? = some value) :
      Atom i (.integer value)
  | wide {op : Opcode} {operand : Bytes} (push : (operand.length, op) ∈ Opcode.intPushes) :
      Atom ⟨op, some operand⟩ (.integer (LittleEndian.toInt true operand))

/-- Instructions that push values one after another. The values are listed as they then lie on the
stack, the last one first. -/
inductive Pushes : List Instruction → List Param → Prop
  | nil : Pushes [] []
  | atom {before : List Instruction} {values : List Param} {i : Instruction} {value : Param}
      (start : Pushes before values) (last : Atom i value) :
      Pushes (before ++ [i]) (value :: values)
  | pack {before packed : List Instruction} {values items : List Param} {count i : Instruction}
      (start : Pushes before values) (inner : Pushes packed items)
      (number : Atom count (.integer items.length)) (last : i.op = .pack) :
      Pushes (before ++ (packed ++ [count, i])) (.array items :: values)

/-- Instructions that make a call: its arguments as an array, the operation, the flags unless
everything is allowed, and the hash of the contract, in the order of scripts. -/
inductive Makes : List Instruction → Call → Prop
  | intro {args flags : List Instruction} {operation hash i : Instruction} {call : Call}
      (pushArgs : Pushes args [.array call.args])
      (pushOperation : Atom operation (.byteArray (Utf8.encode call.operation)))
      (pushFlags : flags = [] ∧ call.flags = ⟨15⟩ ∨
        ∃ f, flags = [f] ∧ Atom f (.integer call.flags.bits.toNat))
      (pushHash : Atom hash (.byteArray call.scriptHash.bytes.reverse))
      (last : i.op = .syscall ∧ i.payload = [0x62, 0x7d, 0x5b, 0x52]) :
      Makes (args ++ operation :: flags ++ [hash, i]) call

/-- A whole script: calls, and between them values that are dropped by a return. Values at the end
go nowhere. -/
inductive Calls : List Instruction → List Call → Prop
  | values {is : List Instruction} {values : List Param} (pushes : Pushes is values) : Calls is []
  | ret {is rest : List Instruction} {values : List Param} {i : Instruction} {calls : List Call}
      (pushes : Pushes is values) (drop : i.op = .ret) (others : Calls rest calls) :
      Calls (is ++ i :: rest) calls
  | call {is rest : List Instruction} {call : Call} {calls : List Call}
      (makes : Makes is call) (others : Calls rest calls) : Calls (is ++ rest) (call :: calls)

/-- An instruction that pushes an integer pushes nothing else. -/
theorem value_of_int? {i : Instruction} {value : Int} (h : i.int? = .ok value) :
    i.value = .ok (.integer value) := by
  have hp : (i.op.smallInt?.isSome || i.op.isIntPush) = true := by
    rcases Instruction.int?_eq_ok.mp h with hs | ⟨_, _, hm, _⟩
    · simp [hs]
    · simp [Instruction.isIntPush_iff.mpr ⟨_, hm⟩]
  simp only [Instruction.value]
  split
  case h_7 => rw [if_pos hp, h]; rfl
  all_goals
    next hop =>
    rw [hop] at hp
    exact absurd hp (by decide)

theorem value_of_atom {i : Instruction} {value : Param} (h : Atom i value) :
    i.value = .ok value := by
  cases h with
  | true | false | null => rfl
  | data push =>
    simp only [Instruction.dataPushes, List.mem_cons, List.not_mem_nil, or_false] at push
    rcases push with h | h | h <;> simp only [Instruction.value, h]
  | small push => exact value_of_int? (Instruction.int?_eq_ok.mpr (.inl push))
  | wide push => exact value_of_int? (Instruction.int?_eq_ok.mpr (.inr ⟨_, rfl, push, rfl⟩))

/-- Atoms are the only instructions that push a value. -/
theorem atom_of_value {i : Instruction} {value : Param} (h : i.value = .ok value) :
    Atom i value := by
  obtain ⟨op, operand⟩ := i
  simp only [Instruction.value] at h
  split at h
  case h_7 =>
    split at h
    · obtain ⟨number, hn, rfl⟩ := map_eq_ok.mp h
      rcases Instruction.int?_eq_ok.mp hn with hs | ⟨bytes, hi, hm, rfl⟩
      · exact .small hs
      · rw [hi]
        exact .wide hm
    · cases h
  all_goals cases h
  · exact .true
  · exact .false
  · exact .null
  all_goals exact .data (by simp [Instruction.dataPushes])

/-- An atom is none of the instructions that the machine treats on their own. -/
theorem step_atom {stack : ArgStack} {i : Instruction} {value : Param} (h : Atom i value) :
    step stack i = .ok (.inl (value :: stack)) := by
  have hv := value_of_atom h
  obtain ⟨op, operand⟩ := i
  have hn : ∀ other ∈ [Opcode.nop, .assert, .ret, .pack, .syscall], op ≠ other := by
    rintro other hm rfl
    have he : Instruction.value ⟨op, operand⟩ = .error (.unexpectedInstruction op) := by
      simp only [List.mem_cons, List.not_mem_nil, or_false] at hm
      rcases hm with rfl | rfl | rfl | rfl | rfl <;> rfl
    rw [he] at hv
    cases hv
  simp only [List.forall_mem_cons] at hn
  obtain ⟨hnop, hassert, hret, hpack, hsyscall, -⟩ := hn
  rw [step_value (by simp [isIdle, hnop, hassert]) hret hpack hsyscall, hv]
  rfl

/-- Where an instruction is none of those, it steps only by pushing a value. -/
theorem atom_of_step {stack : ArgStack} {i : Instruction} {result : ArgStack ⊕ Call}
    (hi : isIdle i = false) (hr : i.op ≠ .ret) (hp : i.op ≠ .pack) (hs : i.op ≠ .syscall)
    (h : step stack i = .ok result) : ∃ value, Atom i value ∧ result = .inl (value :: stack) := by
  rw [step_value hi hr hp hs] at h
  obtain ⟨value, hv, rfl⟩ := map_eq_ok.mp h
  exact ⟨value, atom_of_value hv, rfl⟩

theorem pack_eq_ok {stack rest : ArgStack} :
    stack.pack = (.ok (), rest) ↔
      ∃ items below, stack = .integer items.length :: (items ++ below) ∧
        rest = .array items :: below := by
  constructor
  · intro h
    simp only [ArgStack.pack] at h
    split at h
    · cases h
    · next top below =>
      split at h
      · next count =>
        split at h
        · next hc =>
          obtain ⟨-, rfl⟩ := Prod.mk.inj h
          have hl : (below.take count.toNat).length = count.toNat := by
            rw [List.length_take]
            omega
          refine ⟨below.take count.toNat, below.drop count.toNat, ?_, rfl⟩
          rw [List.take_append_drop, hl, Int.toNat_of_nonneg hc.1]
        · cases h
      · cases h
  · intro h
    obtain ⟨items, below, rfl, rfl⟩ := h
    have hc : (0 : Int) ≤ items.length ∧ (items.length : Int) ≤ (items ++ below).length := by
      rw [List.length_append]
      omega
    simp only [ArgStack.pack, hc, and_self, ↓reduceIte, Int.toNat_natCast, List.take_left,
      List.drop_left]

theorem step_pack_eq_ok {stack : ArgStack} {i : Instruction} {result : ArgStack ⊕ Call}
    (hi : i.op = .pack) :
    step stack i = .ok result ↔
      ∃ items below, stack = .integer items.length :: (items ++ below) ∧
        result = .inl (.array items :: below) := by
  rw [step_pack hi]
  constructor
  · intro h
    split at h
    · next rest hp =>
      obtain ⟨items, below, rfl, rfl⟩ := pack_eq_ok.mp hp
      exact ⟨items, below, rfl, (Except.ok.inj h).symm⟩
    · cases h
  · intro h
    obtain ⟨items, below, rfl, rfl⟩ := h
    rw [pack_eq_ok.mpr ⟨items, below, rfl, rfl⟩]

theorem hashOfParam_eq_ok {value : Param} {hash : UInt160} :
    hashOfParam value = .ok hash ↔ value = .byteArray hash.toWire := by
  constructor
  · intro h
    simp only [hashOfParam] at h
    split at h
    · split at h
      · rw [FixedBytes.ofWire_eq_ok.mp h]
      · cases h
    · cases h
  · intro he
    subst he
    simp only [hashOfParam, FixedBytes.length_toWire, ↓reduceIte]
    exact FixedBytes.ofWire_eq_ok.mpr rfl

theorem operationOfParam_eq_ok {value : Param} {text : String} :
    operationOfParam value = .ok text ↔ value = .byteArray (Utf8.encode text) := by
  constructor
  · intro h
    simp only [operationOfParam] at h
    split at h
    · split at h
      · next hd =>
        obtain rfl := Except.ok.inj h
        rw [Utf8.encode_of_decode? hd]
      · cases h
    · cases h
  · intro he
    subst he
    simp only [operationOfParam, Utf8.decode?_encode]

theorem argsOfParam_eq_ok {value : Param} {args : List Param} :
    argsOfParam value = .ok args ↔ value = .array args := by
  cases value <;> simp [argsOfParam]

theorem pop_eq_ok {missing : Misfit} {stack rest : ArgStack} {top : Param} :
    stack.pop missing = .ok (top, rest) ↔ stack = top :: rest := by
  cases stack <;> simp [ArgStack.pop]

theorem takeFlags_integer (flags : CallFlags) (rest : ArgStack) :
    takeFlags (.integer flags.bits.toNat :: rest) = .ok (flags, rest) := by
  have hl := flags.bits.toNat_lt
  simp only [takeFlags]
  rw [if_pos (by omega)]
  simp

/-- Flags are taken off only if they are a byte. -/
theorem takeFlags_eq_ok {stack rest : ArgStack} {flags : CallFlags}
    (h : takeFlags stack = .ok (flags, rest)) :
    ∃ taken, stack = taken ++ rest ∧
      (taken = [] ∧ flags = .all ∨ taken = [.integer flags.bits.toNat]) := by
  simp only [takeFlags] at h
  split at h
  · next bits below =>
    split at h
    · next hb =>
      obtain ⟨rfl, rfl⟩ := Prod.mk.inj (Except.ok.inj h)
      refine ⟨[.integer bits], rfl, .inr ?_⟩
      simp only [UInt8.toNat_ofNat', List.cons.injEq, Param.integer.injEq, and_true]
      omega
    · cases h
  · obtain ⟨rfl, rfl⟩ := Prod.mk.inj (Except.ok.inj h)
    exact ⟨[], rfl, .inl ⟨rfl, rfl⟩⟩

/-- The stack from which a call is made: hash, flags, operation and arguments, and nothing below. -/
theorem ofStack_eq_ok {stack : ArgStack} {call : Call} :
    ofStack stack = .ok call ↔
      ∃ flags, stack = .byteArray call.scriptHash.toWire :: (flags ++
          [.byteArray (Utf8.encode call.operation), .array call.args]) ∧
        (flags = [] ∧ call.flags = .all ∨ flags = [.integer call.flags.bits.toNat]) := by
  simp only [ofStack, bind_eq_ok]
  constructor
  · intro h
    obtain ⟨⟨hash, below⟩, hp, scriptHash, hh, ⟨flags, below'⟩, hf, ⟨operation, below''⟩, ho,
      name, hn, ⟨args, bottom⟩, ha, items, hi, h⟩ := h
    obtain rfl := pop_eq_ok.mp hp
    obtain ⟨taken, rfl, ht⟩ := takeFlags_eq_ok hf
    obtain rfl := pop_eq_ok.mp ho
    obtain rfl := pop_eq_ok.mp ha
    obtain rfl := hashOfParam_eq_ok.mp hh
    obtain rfl := operationOfParam_eq_ok.mp hn
    obtain rfl := argsOfParam_eq_ok.mp hi
    cases bottom with
    | nil =>
      obtain rfl := Except.ok.inj h
      exact ⟨taken, rfl, ht⟩
    | cons _ _ => cases h
  · intro h
    obtain ⟨flags, rfl, ht⟩ := h
    have hf : takeFlags (flags ++ [.byteArray (Utf8.encode call.operation), .array call.args]) =
        .ok (call.flags, [.byteArray (Utf8.encode call.operation), .array call.args]) := by
      rcases ht with ⟨rfl, hd⟩ | rfl
      · rw [hd]
        rfl
      · exact takeFlags_integer ..
    exact ⟨_, pop_eq_ok.mpr rfl, _, hashOfParam_eq_ok.mpr rfl, _, hf, _, pop_eq_ok.mpr rfl, _,
      operationOfParam_eq_ok.mpr rfl, _, pop_eq_ok.mpr rfl, _, argsOfParam_eq_ok.mpr rfl, rfl⟩

theorem step_syscall_eq_ok {stack : ArgStack} {i : Instruction} {result : ArgStack ⊕ Call}
    (hi : i.op = .syscall) :
    step stack i = .ok result ↔
      ∃ call, i.payload = [0x62, 0x7d, 0x5b, 0x52] ∧ ofStack stack = .ok call ∧
        result = .inr call := by
  rw [step_syscall hi, map_eq_ok, ofSyscall]
  constructor
  · intro h
    obtain ⟨call, h, rfl⟩ := h
    split at h
    · next hp => exact ⟨call, hp, h, rfl⟩
    · cases h
  · intro h
    obtain ⟨call, hp, h, rfl⟩ := h
    exact ⟨call, by rw [if_pos (by rw [hp]; rfl), h], rfl⟩

/-- Instructions that push values put them on any stack. -/
theorem proceed_pushes {is : List Instruction} {values : List Param} (h : Pushes is values)
    (stack : ArgStack) : proceed stack is = .ok (.inl (values ++ stack)) := by
  induction h generalizing stack with
  | nil => rfl
  | atom start last ih =>
    rw [proceed_append (ih stack)]
    exact proceed_cons_eq_ok.mpr ⟨_, step_atom last, rfl⟩
  | pack start inner number last ihStart ihInner =>
    rw [proceed_append (ihStart stack), proceed_append (ihInner _)]
    refine proceed_cons_eq_ok.mpr ⟨_, step_atom number, proceed_cons_eq_ok.mpr ⟨_, ?_, rfl⟩⟩
    exact (step_pack_eq_ok last).mpr ⟨_, _, rfl, rfl⟩

/-- Instructions that push values make the machine push them. -/
theorem run_pushes {is : List Instruction} {values : List Param} (h : Pushes is values)
    (stack : ArgStack) (rest : List Instruction) :
    run stack (is ++ rest) = run (values ++ stack) rest :=
  run_append_of_proceed (proceed_pushes h stack) rest

/-- Instructions that make a call make the machine yield it, from an empty stack. -/
theorem run_makes {is : List Instruction} {call : Call} (h : Makes is call)
    (rest : List Instruction) : run [] (is ++ rest) = (run [] rest).map (call :: ·) := by
  obtain @⟨args, flags, operation, hash, i, _, pushArgs, pushOperation, pushFlags, pushHash,
    last⟩ := h
  have hstack : ∃ values, ofStack (.byteArray call.scriptHash.toWire :: (values ++
        [.byteArray (Utf8.encode call.operation), .array call.args])) = .ok call ∧
      Pushes (args ++ operation :: flags)
        (values ++ [.byteArray (Utf8.encode call.operation), .array call.args]) := by
    have hop := pushArgs.atom pushOperation
    rcases pushFlags with ⟨rfl, hf⟩ | ⟨f, rfl, hf⟩
    · exact ⟨[], ofStack_eq_ok.mpr ⟨[], rfl, .inl ⟨rfl, hf⟩⟩, hop⟩
    · exact ⟨_, ofStack_eq_ok.mpr ⟨_, rfl, .inr rfl⟩, by simpa using hop.atom hf⟩
  obtain ⟨values, hs, hp⟩ := hstack
  have hw : Atom hash (.byteArray call.scriptHash.toWire) := pushHash
  have hstep := (step_syscall_eq_ok last.1).mpr ⟨call, last.2, hs, rfl⟩
  have hrun := run_pushes (hp.atom hw) [] (i :: rest)
  simp only [List.append_assoc, List.cons_append, List.nil_append, List.append_nil] at hrun ⊢
  rw [hrun]
  simp only [run, hstep]

theorem run_calls {is : List Instruction} {calls : List Call} (h : Calls is calls) :
    run [] is = .ok calls := by
  induction h with
  | values pushes => simpa [run] using run_pushes pushes [] []
  | ret pushes drop others ih =>
    rw [run_pushes pushes]
    simp only [run, step_ret drop, ih]
  | call makes others ih =>
    rw [run_makes makes, ih]
    rfl

theorem Pushes.append {first second : List Instruction} {below above : List Param}
    (hf : Pushes first below) (hs : Pushes second above) :
    Pushes (first ++ second) (above ++ below) := by
  induction hs with
  | nil => simpa using hf
  | atom start last ih =>
    rw [← List.append_assoc]
    exact ih.atom last
  | pack start inner number last ih _ =>
    rw [← List.append_assoc]
    exact ih.pack inner number last

/-- The instructions of the last value follow those of the values before. -/
theorem Pushes.split {is : List Instruction} {value : Param} {values : List Param}
    (h : Pushes is (value :: values)) :
    ∃ before last, is = before ++ last ∧ Pushes before values ∧ Pushes last [value] := by
  cases h with
  | atom start last => exact ⟨_, _, rfl, start, Pushes.nil.atom last⟩
  | pack start inner number last => exact ⟨_, _, rfl, start, Pushes.nil.pack inner number last⟩

/-- The values on top come from the last instructions. -/
theorem Pushes.splitTop {is : List Instruction} {top below : List Param}
    (h : Pushes is (top ++ below)) :
    ∃ before last, is = before ++ last ∧ Pushes before below ∧ Pushes last top := by
  induction top generalizing is with
  | nil => exact ⟨is, [], by simp, h, .nil⟩
  | cons value rest ih =>
    obtain ⟨start, last, rfl, hstart, hlast⟩ := Pushes.split h
    obtain ⟨before, middle, rfl, hbefore, hmiddle⟩ := ih hstart
    exact ⟨before, middle ++ last, by simp, hbefore, hmiddle.append hlast⟩

/-- A value that is no array comes from one instruction. -/
theorem Pushes.splitAtom {is : List Instruction} {value : Param} {values : List Param}
    (h : Pushes is (value :: values)) (ha : value.items? = none) :
    ∃ before i, is = before ++ [i] ∧ Pushes before values ∧ Atom i value := by
  cases h with
  | atom start last => exact ⟨_, _, rfl, start, last⟩
  | pack _ _ _ _ => cases ha

/-- Where a call is made of the values pushed so far, its instructions stand there. -/
theorem makes_of_pushes {is : List Instruction} {stack : ArgStack} {i : Instruction} {call : Call}
    (h : Pushes is stack) (hi : i.op = .syscall ∧ i.payload = [0x62, 0x7d, 0x5b, 0x52])
    (hs : ofStack stack = .ok call) : Makes (is ++ [i]) call := by
  obtain ⟨flags, rfl, hf⟩ := ofStack_eq_ok.mp hs
  obtain ⟨start, hash, rfl, hstart, hhash⟩ := h.splitAtom rfl
  rcases hf with ⟨rfl, hf⟩ | rfl
  · obtain ⟨args, operation, rfl, hargs, hop⟩ := hstart.splitAtom rfl
    simpa using Makes.intro hargs hop (.inl ⟨rfl, hf⟩) hhash hi
  · obtain ⟨start, flag, rfl, hstart, hflag⟩ := hstart.splitAtom rfl
    obtain ⟨args, operation, rfl, hargs, hop⟩ := hstart.splitAtom rfl
    simpa using Makes.intro hargs hop (.inr ⟨flag, rfl, hflag⟩) hhash hi

/-- The values that lie on the stack are those pushed since the last call or return, so the
instructions read since then complete what the machine accepts to a script of the grammar. -/
theorem calls_of_run {before is : List Instruction} {stack : ArgStack} {calls : List Call}
    (hb : Pushes before stack) (hn : ∀ i ∈ is, isIdle i = false) (h : run stack is = .ok calls) :
    Calls (before ++ is) calls := by
  induction is generalizing before stack calls with
  | nil =>
    obtain rfl := Except.ok.inj h
    simpa using Calls.values hb
  | cons i rest ih =>
    obtain ⟨hi, hn⟩ := List.forall_mem_cons.mp hn
    cases hs : step stack i with
    | error fault => simp [run, hs] at h
    | ok result =>
      simp only [run, hs] at h
      by_cases hr : i.op = .ret
      · rw [step_ret hr] at hs
        cases hs
        exact .ret hb hr (ih .nil hn h)
      by_cases hp : i.op = .pack
      · obtain ⟨items, below, rfl, rfl⟩ := (step_pack_eq_ok hp).mp hs
        obtain ⟨start, count, rfl, hstart, hcount⟩ := hb.splitAtom rfl
        obtain ⟨low, packed, rfl, hlow, hpacked⟩ := hstart.splitTop
        simpa using ih (hlow.pack hpacked hcount hp) hn h
      by_cases hc : i.op = .syscall
      · obtain ⟨call, hcode, hstack, rfl⟩ := (step_syscall_eq_ok hc).mp hs
        obtain ⟨others, ho, rfl⟩ := map_eq_ok.mp h
        simpa using Calls.call (makes_of_pushes hb ⟨hc, hcode⟩ hstack) (ih .nil hn ho)
      · obtain ⟨value, hv, rfl⟩ := atom_of_step hi hr hp hc hs
        simpa using ih (hb.atom hv) hn h

theorem run_eq_ok {is : List Instruction} {calls : List Call} :
    run [] is = .ok calls ↔ Calls (is.filter fun i => !isIdle i) calls := by
  rw [← run_filter_idle]
  constructor
  · intro h
    exact calls_of_run .nil (by simp) h
  · exact run_calls

/-- Calls are recovered from exactly those scripts that split into instructions which, idle ones
aside, follow the grammar, and they are the calls that the grammar reads there. -/
theorem ofScript_eq_ok_iff_calls (script : Bytes) (calls : List Call) :
    ofScript script = .ok calls ↔
      ∃ is, Instruction.decode script = .ok is ∧
        Calls (is.filter fun i => i.op != .nop && i.op != .assert) calls := by
  rw [ofScript_eq_ok]
  refine exists_congr fun is => and_congr_right fun _ => ?_
  rw [run_eq_ok]
  simp only [isIdle, Bool.not_or, bne]

end ScriptKit.Call
