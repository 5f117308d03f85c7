import Chip8.Machine.Step
import Chip8.Proofs.Instruction
import Chip8.Proofs.Machine.Perform

/-!
# A step, by cases

A step looks at the memory through `word` and moves the program counter through `skip`; neither ever
gets stuck where an instruction can be fetched. `step_eq` says what is left: the step fails to
fetch, or it meets the instruction at the program counter (`Machine.instruction`) in the machine
behind it (`Machine.fetched`), which knows no operation for it or executes the operation.
-/

namespace Chip8

/-! ## Operands -/

/-- The addresses among the operands have twelve bits. -/
def Operation.Narrow : Operation → Prop
  | .jump target | .call target | .setIndex target | .jumpOffset _ target => target.toNat < 4096
  | _ => True

theorem Instruction.nnn_lt (i : Instruction) : i.nnn.toNat < 4096 := by
  rw [nnn, UInt16.toNat_ofNat']
  omega

theorem Instruction.narrow {i : Instruction} {op : Operation} (h : i.operation? = some op) :
    op.Narrow := by
  have hop := operation?_eq_some_iff.1 h
  have hn := i.nnn_lt
  cases op
  case jump | call | setIndex | jumpOffset => simp_all [Operation.Narrow, Encodes]
  all_goals exact trivial

namespace Machine

/-! ## Fetching -/

/-- The instruction at the program counter. -/
def instruction (m : Machine) : Instruction :=
  ⟨Word.ofBytes (m.memory.byteAt m.pc.toNat) (m.memory.byteAt (m.pc.toNat + 1))⟩

/-- The machine with its program counter behind the instruction. -/
def fetched (m : Machine) : Machine := { m with pc := m.pc + 2 }

variable {m : Machine}

theorem fetchable_iff {addr : UInt16} :
    fetchable addr = true ↔ addr.toNat % 2 = 0 ∧ 0x200 ≤ addr.toNat ∧ addr.toNat ≤ 0xFFE := by
  simp [fetchable, and_assoc]

theorem not_fetchable_iff {addr : UInt16} : fetchable addr = false ↔
    addr.toNat % 2 ≠ 0 ∨ addr.toNat < 0x200 ∨ 0xFFE < addr.toNat := by
  rw [Bool.eq_false_iff, Ne, fetchable_iff]
  omega

theorem word_pc (h : fetchable m.pc = true) : m.memory.word m.pc = .ok m.instruction.word := by
  obtain ⟨-, -, hle⟩ := fetchable_iff.1 h
  exact Memory.word_of_lt (by omega)

theorem skip_eq_fetched (h : fetchable m.pc = true) : m.skip = .ok m.fetched := by
  obtain ⟨-, -, hle⟩ := fetchable_iff.1 h
  exact skip_of_lt (by omega)

theorem toNat_pc_fetched (h : fetchable m.pc = true) :
    m.fetched.pc.toNat = m.pc.toNat + 2 := by
  obtain ⟨-, -, hle⟩ := fetchable_iff.1 h
  rw [fetched, UInt16.toNat_add]
  exact Nat.mod_eq_of_lt (by simp; omega)

/-- **A step, by cases.** -/
theorem step_eq (m : Machine) :
    m.step = if fetchable m.pc then
        match m.instruction.operation? with
        | none => .failed m.fetched (.fault (.unknownInstruction m.instruction.word m.pc))
        | some op =>
          match m.fetched.execute op with
          | .ok after => ⟨.ok m.instruction, after, [.notice (.executed m.pc m.instruction)]⟩
          | .error stop => .failed m.fetched stop
      else .failed m (.fault (.programCounterOutOfRange m.pc)) := by
  unfold step
  split
  · rename_i h
    rewrite [word_pc h, skip_eq_fetched h]
    generalize m.instruction = i
    obtain ⟨word⟩ := i
    dsimp only
    cases (Instruction.mk word).operation? with
    | none => rfl
    | some op =>
      have hdone := m.fetched.perform_amounts op
      dsimp only
      generalize perform op m.fetched = o, m.fetched.execute op = r at hdone
      cases hdone <;> rfl
  · rfl

theorem step_of_not_fetchable (h : fetchable m.pc = false) :
    m.step = .failed m (.fault (.programCounterOutOfRange m.pc)) := by
  rw [step_eq, h]
  rfl

theorem step_of_unknown (h : fetchable m.pc = true) (hop : m.instruction.operation? = none) :
    m.step = .failed m.fetched (.fault (.unknownInstruction m.instruction.word m.pc)) := by
  rw [step_eq, if_pos h, hop]

theorem step_of_ok {op : Operation} {after : Machine} (h : fetchable m.pc = true)
    (hop : m.instruction.operation? = some op) (hx : m.fetched.execute op = .ok after) :
    m.step = ⟨.ok m.instruction, after, [.notice (.executed m.pc m.instruction)]⟩ := by
  rw [step_eq, if_pos h, hop]
  simp only [hx]

theorem step_of_error {op : Operation} {stop : Stop} (h : fetchable m.pc = true)
    (hop : m.instruction.operation? = some op) (hx : m.fetched.execute op = .error stop) :
    m.step = .failed m.fetched stop := by
  rw [step_eq, if_pos h, hop]
  simp only [hx]

/-- What holds of each outcome that a step can have holds of the step. -/
theorem step_cases (m : Machine) {P : Outcome Machine Instruction → Prop}
    (unfetched : fetchable m.pc = false → P (.failed m (.fault (.programCounterOutOfRange m.pc))))
    (unknown : fetchable m.pc = true → m.instruction.operation? = none →
      P (.failed m.fetched (.fault (.unknownInstruction m.instruction.word m.pc))))
    (failed : ∀ op stop, fetchable m.pc = true → m.instruction.operation? = some op →
      m.fetched.execute op = .error stop → P (.failed m.fetched stop))
    (executed : ∀ op after, fetchable m.pc = true → m.instruction.operation? = some op →
      m.fetched.execute op = .ok after →
      P ⟨.ok m.instruction, after, [.notice (.executed m.pc m.instruction)]⟩) : P m.step := by
  cases hf : fetchable m.pc with
  | false =>
    rw [step_of_not_fetchable hf]
    exact unfetched hf
  | true =>
    cases hop : m.instruction.operation? with
    | none =>
      rw [step_of_unknown hf hop]
      exact unknown hf hop
    | some op =>
      cases hx : m.fetched.execute op with
      | ok after =>
        rw [step_of_ok hf hop hx]
        exact executed op after hf hop hx
      | error stop =>
        rw [step_of_error hf hop hx]
        exact failed op stop hf hop hx

/-- A step that succeeds lets the outside see the instruction that it executed; one that fails lets
it see nothing. -/
theorem events_step (m : Machine) : m.step.events =
    match m.step.result with
    | .ok i => [.notice (.executed m.pc i)]
    | .error _ => [] := by
  refine m.step_cases (P := fun o => o.events = match o.result with
    | .ok i => [.notice (.executed m.pc i)]
    | .error _ => []) ?_ ?_ ?_ ?_
  all_goals intros; rfl

/-- A step that succeeds returns the instruction at the program counter. -/
theorem instruction_of_step {i : Instruction} (h : m.step.result = .ok i) :
    i = m.instruction := by
  revert h
  refine m.step_cases (P := fun o => o.result = .ok i → i = m.instruction) ?_ ?_ ?_ ?_
  · exact fun _ h => by cases h
  · exact fun _ _ h => by cases h
  · exact fun _ _ _ _ _ h => by cases h
  · exact fun _ _ _ _ _ h => (Except.ok.inj h).symm

/-- A step that fails moves the program counter at most. -/
theorem state_step_of_error {stop : Stop} (h : m.step.result = .error stop) :
    ∃ pc, m.step.state = { m with pc } := by
  revert h
  refine m.step_cases (P := fun o => o.result = .error stop → ∃ pc, o.state = { m with pc })
    ?_ ?_ ?_ ?_
  · exact fun _ _ => ⟨m.pc, rfl⟩
  · exact fun _ _ _ => ⟨m.pc + 2, rfl⟩
  · exact fun _ _ _ _ _ _ => ⟨m.pc + 2, rfl⟩
  · exact fun _ _ _ _ _ h => by cases h

/-- A step is seen in the log alone. -/
theorem notice_of_step (m : Machine) :
    ∀ event ∈ m.step.events, ∃ notice, event = .notice notice := by
  rw [events_step]
  split <;> simp

end Machine

end Chip8
