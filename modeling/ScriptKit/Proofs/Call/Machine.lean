import ScriptKit.Call.Recover
import ScriptKit.Proofs.Instruction.Reader

namespace ScriptKit.Call

/-- What an instruction leads to: a stack to go on with, or a call, after which the stack is
empty. -/
def step (stack : ArgStack) (i : Instruction) : Except Fault (ArgStack ⊕ Call) :=
  match i.op with
  | .nop | .assert => .ok (.inl stack)
  | .ret => .ok (.inl [])
  | .pack =>
    match stack.pack with
    | (.ok (), stack) => .ok (.inl stack)
    | (.error fault, _) => .error fault
  | .syscall => (ofSyscall i.payload stack).map .inr
  | _ => i.value.map fun value => .inl (value :: stack)

/-- The calls that instructions complete, from a given stack on. -/
def run (stack : ArgStack) : List Instruction → Except Fault (List Call)
  | [] => .ok []
  | i :: rest =>
    match step stack i with
    | .error fault => .error fault
    | .ok (.inl stack) => run stack rest
    | .ok (.inr call) => (run [] rest).map (call :: ·)

/-- What instructions make of a stack: another stack, or the call at which they stop. -/
def proceed (stack : ArgStack) : List Instruction → Except Fault (ArgStack ⊕ Call)
  | [] => .ok (.inl stack)
  | i :: rest =>
    match step stack i with
    | .error fault => .error fault
    | .ok (.inl stack) => proceed stack rest
    | .ok (.inr call) => .ok (.inr call)

/-- Whether the instruction leaves the stack as it is. -/
def isIdle (i : Instruction) : Bool := i.op == .nop || i.op == .assert

variable {stack : ArgStack} {i : Instruction}

theorem step_idle (h : isIdle i = true) : step stack i = .ok (.inl stack) := by
  simp only [isIdle, Bool.or_eq_true, beq_iff_eq] at h
  rcases h with h | h <;> simp [step, h]

theorem step_ret (h : i.op = .ret) : step stack i = .ok (.inl []) := by
  simp [step, h]

theorem step_pack (h : i.op = .pack) :
    step stack i =
      match stack.pack with
      | (.ok (), stack) => .ok (.inl stack)
      | (.error fault, _) => .error fault := by
  simp only [step, h]

theorem step_syscall (h : i.op = .syscall) :
    step stack i = (ofSyscall i.payload stack).map .inr := by
  simp only [step, h]

theorem step_value (hi : isIdle i = false) (hr : i.op ≠ .ret) (hp : i.op ≠ .pack)
    (hs : i.op ≠ .syscall) : step stack i = i.value.map fun value => .inl (value :: stack) := by
  simp only [isIdle, Bool.or_eq_false_iff, beq_eq_false_iff_ne] at hi
  simp only [step]
  split <;> simp_all

theorem proceed_cons_eq_ok {is : List Instruction} {last : ArgStack} :
    proceed stack (i :: is) = .ok (.inl last) ↔
      ∃ next, step stack i = .ok (.inl next) ∧ proceed next is = .ok (.inl last) := by
  rw [proceed]
  cases hs : step stack i with
  | error fault => simp
  | ok result => cases result <;> simp

theorem proceed_append {is : List Instruction} {last : ArgStack}
    (h : proceed stack is = .ok (.inl last)) (rest : List Instruction) :
    proceed stack (is ++ rest) = proceed last rest := by
  induction is generalizing stack with
  | nil =>
    obtain rfl := Sum.inl.inj (Except.ok.inj h)
    rfl
  | cons i is ih =>
    obtain ⟨next, hs, hnext⟩ := proceed_cons_eq_ok.mp h
    simp only [List.cons_append, proceed, hs, ih hnext]

/-- Instructions that lead to a stack complete no call before it. -/
theorem run_append_of_proceed {is : List Instruction} {last : ArgStack}
    (h : proceed stack is = .ok (.inl last)) (rest : List Instruction) :
    run stack (is ++ rest) = run last rest := by
  induction is generalizing stack with
  | nil =>
    obtain rfl := Sum.inl.inj (Except.ok.inj h)
    rfl
  | cons i is ih =>
    obtain ⟨next, hs, hnext⟩ := proceed_cons_eq_ok.mp h
    simp only [List.cons_append, run, hs, ih hnext]

/-- Idle instructions make no difference to a run. -/
theorem run_filter_idle (stack : ArgStack) (is : List Instruction) :
    run stack (is.filter fun i => !isIdle i) = run stack is := by
  induction is generalizing stack with
  | nil => rfl
  | cons i rest ih =>
    by_cases hi : isIdle i = true
    · simp [run, step_idle hi, hi, ih]
    · rw [List.filter_cons_of_pos (by simpa using hi)]
      simp only [run, ih]

/-- The calls that a reader yields if the stack is not empty at first. -/
def resume (stack : ArgStack) (r : ScriptReader) : Except Fault (List Call) :=
  match (nextFrom stack r).1 with
  | .error fault => .error fault
  | .ok none => .ok []
  | .ok (some call) => (allFrom (nextFrom stack r).2).1.map (call :: ·)

theorem allFrom_eq_resume (r : ScriptReader) : (allFrom r).1 = resume [] r := by
  rw [allFrom, resume, next]
  split <;> simp_all

theorem nextFrom_of_next_error {r : ScriptReader} {fault : Fault} (h : r.next.1 = .error fault) :
    nextFrom stack r = (.error fault, r.next.2) := by
  rw [nextFrom]
  split <;> simp_all

theorem nextFrom_of_next_none {r : ScriptReader} (h : r.next.1 = .ok none) :
    nextFrom stack r = (.ok none, r.next.2) := by
  rw [nextFrom]
  split <;> simp_all

/-- A reader that yields an instruction takes one step of the machine. -/
theorem nextFrom_of_next_some {r : ScriptReader} (h : r.next.1 = .ok (some i)) :
    nextFrom stack r =
      match step stack i with
      | .error fault => (.error fault, r.next.2)
      | .ok (.inl stack) => nextFrom stack r.next.2
      | .ok (.inr call) => (.ok (some call), r.next.2) := by
  rw [nextFrom]
  split
  · simp_all
  · simp_all
  · next j hj =>
    obtain rfl : j = i := by simp_all
    split
    · next hop => rw [step_idle (by simp [isIdle, hop])]
    · next hop => rw [step_idle (by simp [isIdle, hop])]
    · next hop => rw [step_ret hop]
    · next hop =>
      rw [step_pack hop]
      obtain ⟨result, below⟩ := stack.pack
      cases result <;> rfl
    · next hop =>
      rw [step_syscall hop]
      cases ofSyscall j.payload stack <;> rfl
    · next hn ha hr hp hs =>
      rw [step_value (by simp [isIdle]; exact ⟨hn, ha⟩) hr hp hs]
      cases j.value <;> rfl

theorem resume_of_next_some {r : ScriptReader} (h : r.next.1 = .ok (some i)) :
    resume stack r =
      match step stack i with
      | .error fault => .error fault
      | .ok (.inl stack) => resume stack r.next.2
      | .ok (.inr call) => (resume [] r.next.2).map (call :: ·) := by
  rw [resume, nextFrom_of_next_some h]
  cases hs : step stack i with
  | error fault => rfl
  | ok result =>
    cases result with
    | inl stack' => rfl
    | inr call => simp only [allFrom_eq_resume]

/-- A reader yields what the machine makes of the instructions behind it, and nothing if what stands
there cannot be split into instructions. -/
theorem resume_eq_ok (stack : ArgStack) (r : ScriptReader) (calls : List Call) :
    resume stack r = .ok calls ↔
      ∃ is, Instruction.decodeFrom r.offset r.rest = .ok is ∧ run stack is = .ok calls := by
  cases h : r.rest with
  | nil =>
    have hn := ScriptReader.next_of_rest_nil h
    have hr : resume stack r = .ok [] := by
      rw [resume, nextFrom_of_next_none (by rw [hn])]
    simp [hr, Instruction.decodeFrom, run]
  | cons byte bytes =>
    cases hd : Instruction.read r.offset byte bytes with
    | error fault =>
      have hr : resume stack r = .error fault := by
        rw [resume, nextFrom_of_next_error (ScriptReader.next_of_read_error h hd)]
      simp [hr, Instruction.decodeFrom_of_read_error hd]
    | ok parts =>
      obtain ⟨i, rest⟩ := parts
      have hn := ScriptReader.next_of_read_ok h hd
      have hi : r.next.1 = .ok (some i) := by rw [hn]
      have hl := ScriptReader.length_rest_of_next hi
      have goOn : ∀ stack calls, resume stack r.next.2 = .ok calls ↔
          ∃ is, Instruction.decodeFrom (r.offset + i.size) rest = .ok is ∧
            run stack is = .ok calls := by
        intro stack calls
        rw [resume_eq_ok stack r.next.2 calls, hn, ScriptReader.rest_skip_size h hd]
        rfl
      rw [resume_of_next_some hi]
      simp only [Instruction.decodeFrom_of_read_ok hd, exists_exists_and_eq_and, run]
      cases step stack i with
      | error fault => simp
      | ok result =>
        cases result with
        | inl stack' => exact goOn stack' calls
        | inr call =>
          simp only [map_eq_ok, goOn]
          constructor
          · intro h
            obtain ⟨others, ⟨is, hi, ho⟩, rfl⟩ := h
            exact ⟨is, hi, others, ho, rfl⟩
          · intro h
            obtain ⟨is, hi, others, ho, rfl⟩ := h
            exact ⟨others, ⟨is, hi, ho⟩, rfl⟩
termination_by r.rest.length

/-- The calls of a script are what the machine makes of its instructions. -/
theorem ofScript_eq_ok {script : Bytes} {calls : List Call} :
    ofScript script = .ok calls ↔
      ∃ is, Instruction.decode script = .ok is ∧ run [] is = .ok calls := by
  rw [ofScript, allFrom_eq_resume, resume_eq_ok]
  rfl

end ScriptKit.Call
