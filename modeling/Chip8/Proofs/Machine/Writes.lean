import Chip8.Proofs.Machine.Step

/-!
# What operations write

`Operation.writes` lists, for each operation, the parts of the machine that it may write.
`execute_same` says that it leaves all others alone, and `step_same` says so of a step, which moves
the program counter besides. No operation writes the keypad or the dialect.
-/

namespace Chip8

/-- The parts of a machine. -/
inductive Part
  | memory
  | screen
  | registers
  | index
  | pc
  | stack
  | timers
  | dialect
  | keypad
  | keyWait
  | random
  deriving DecidableEq, Repr

/-- The parts that an operation may write. -/
def Operation.writes : Operation → List Part
  | .clear => [.screen]
  | .ret | .call _ => [.pc, .stack]
  | .jump _ | .jumpOffset .. => [.pc]
  | .skipIfValue .. | .skipUnlessValue .. | .skipIfSame .. | .skipUnlessSame .. => [.pc]
  | .skipIfKey _ | .skipUnlessKey _ => [.pc]
  | .setValue .. | .addValue .. | .move .. | .or .. | .and .. | .xor .. | .add .. | .sub ..
  | .subReversed .. | .shiftRight .. | .shiftLeft .. | .readDelay _ => [.registers]
  | .setIndex _ | .glyph _ => [.index]
  | .addIndex _ => [.registers, .index]
  | .random .. => [.registers, .random]
  | .draw .. => [.screen, .registers]
  | .waitKey _ => [.registers, .pc, .keyWait]
  | .setDelay _ | .setSound _ => [.timers]
  | .decimalDigits _ => [.memory]
  | .store _ => [.memory, .index]
  | .load _ => [.registers, .index]

namespace Machine

/-- Two machines have a part in common. -/
def Same (m m' : Machine) : Part → Prop
  | .memory => m'.memory = m.memory
  | .screen => m'.screen = m.screen
  | .registers => m'.registers = m.registers
  | .index => m'.index = m.index
  | .pc => m'.pc = m.pc
  | .stack => m'.stack = m.stack
  | .timers => m'.timers = m.timers
  | .dialect => m'.dialect = m.dialect
  | .keypad => m'.keypad = m.keypad
  | .keyWait => m'.keyWait = m.keyWait
  | .random => m'.random = m.random

variable {m m' : Machine}

/-! ## Parts of operations -/

theorem eq_of_skip (h : m.skip = .ok m') : ∃ pc, m' = { m with pc } := by
  obtain ⟨pc, -, h⟩ := bind_eq_ok.1 h
  cases h
  exact ⟨pc, rfl⟩

theorem eq_of_rewind (h : m.rewind = .ok m') : ∃ pc, m' = { m with pc } := by
  obtain ⟨pc, -, h⟩ := bind_eq_ok.1 h
  cases h
  exact ⟨pc, rfl⟩

theorem eq_of_skipIf {condition : Bool} (h : m.skipIf condition = .ok m') :
    ∃ pc, m' = { m with pc } := by
  unfold skipIf at h
  split at h
  · exact eq_of_skip h
  · cases h
    exact ⟨m.pc, rfl⟩

theorem eq_of_storeBytes {bytes : List UInt8} (h : m.storeBytes bytes = .ok m') :
    ∃ memory, m' = { m with memory } := by
  obtain ⟨memory, -, h⟩ := bind_eq_ok.1 h
  cases h
  exact ⟨memory, rfl⟩

theorem eq_of_loadRegisters {targets : List Register} (h : m.loadRegisters targets = .ok m') :
    ∃ registers, m' = { m with registers } := by
  -- The cells are those that the machine at the start names, whatever is loaded so far.
  have key : ∀ (l : List Register) (registers : Vector UInt8 16),
      l.foldlM (fun after x => do
          return Machine.set after x (← m.memory.read (← m.cell x.val))) { m with registers } =
        (.ok m' : Result Machine) → ∃ registers, m' = { m with registers } := by
    intro l
    induction l with
    | nil =>
      intro registers h
      cases h
      exact ⟨registers, rfl⟩
    | cons x l ih =>
      intro registers h
      rw [List.foldlM_cons, ← bind_assoc] at h
      obtain ⟨after, hafter, h⟩ := bind_eq_ok.1 h
      obtain ⟨byte, -, hset⟩ := bind_eq_ok.1 hafter
      cases hset
      exact ih _ h
  exact key targets m.registers h

theorem eq_of_passCells {x : Register} (h : m.passCells x = .ok m') :
    ∃ index, m' = { m with index } := by
  unfold passCells at h
  split at h
  · obtain ⟨index, -, h⟩ := bind_eq_ok.1 h
    cases h
    exact ⟨index, rfl⟩
  · cases h
    exact ⟨m.index, rfl⟩

theorem eq_of_waitKey {x : Register} (h : m.waitKey x = .ok m') :
    ∃ registers pc keyWait, m' = { m with registers, pc, keyWait } := by
  unfold waitKey at h
  split at h
  · obtain ⟨down, -, h⟩ := bind_eq_ok.1 h
    obtain ⟨wentUp, -, h⟩ := bind_eq_ok.1 h
    split at h
    · obtain ⟨pc, rfl⟩ := eq_of_rewind h
      exact ⟨_, pc, _, rfl⟩
    · cases h
      exact ⟨_, _, _, rfl⟩
  · obtain ⟨pc, rfl⟩ := eq_of_rewind h
    exact ⟨_, pc, _, rfl⟩

theorem eq_setBitwise (m : Machine) (x : Register) (value : UInt8) :
    ∃ registers, m.setBitwise x value = { m with registers } := by
  unfold setBitwise
  split <;> exact ⟨_, rfl⟩

/-! ## Operations -/

/-- **An operation leaves the parts alone that it does not write.** -/
theorem execute_same {op : Operation} (h : m.execute op = .ok m') {p : Part}
    (hp : p ∉ op.writes) : m.Same m' p := by
  -- In each case `h` comes to say which record update of `m` the machine after it is.
  cases op
  case' ret => obtain ⟨⟨pc, stack⟩, -, h⟩ := bind_eq_ok.1 h
  case' call | jumpOffset | addIndex => obtain ⟨part, -, h⟩ := bind_eq_ok.1 h
  case' draw =>
    obtain ⟨sprite, -, hdraw⟩ := bind_eq_ok.1 h
    obtain ⟨⟨screen, hit⟩, -, h⟩ := bind_eq_ok.1 hdraw
  case' skipIfValue | skipUnlessValue | skipIfSame | skipUnlessSame =>
    obtain ⟨pc, h⟩ := eq_of_skipIf h
  case' skipIfKey | skipUnlessKey =>
    obtain ⟨down, -, hskip⟩ := bind_eq_ok.1 h
    obtain ⟨pc, h⟩ := eq_of_skipIf hskip
  case' or x y | and x y | xor x y =>
    obtain ⟨registers, heq⟩ := eq_setBitwise m x _
    replace h := (Except.ok.inj h).symm.trans heq
  case' random x mask =>
    -- Named before it is looked at: evaluating it would run the generator.
    rcases hnext : m.random.next with ⟨byte, random⟩
    simp only [execute, hnext] at h
  case' waitKey => obtain ⟨registers, pc, keyWait, h⟩ := eq_of_waitKey h
  case' decimalDigits => obtain ⟨memory, h⟩ := eq_of_storeBytes h
  case' store =>
    obtain ⟨stored, hstore, hpass⟩ := bind_eq_ok.1 h
    obtain ⟨memory, rfl⟩ := eq_of_storeBytes hstore
    obtain ⟨index, h⟩ := eq_of_passCells hpass
  case' load =>
    obtain ⟨loaded, hload, hpass⟩ := bind_eq_ok.1 h
    obtain ⟨registers, rfl⟩ := eq_of_loadRegisters hload
    obtain ⟨index, h⟩ := eq_of_passCells hpass
  all_goals
    cases h
    cases p <;> first
      | simp [Operation.writes] at hp; done
      | simp only [Same, set, setFlag, setWithFlag]

/-! ## Steps -/

theorem Same.refl (m : Machine) (p : Part) : m.Same m p := by
  cases p <;> rfl

theorem Same.trans {m₁ m₂ m₃ : Machine} {p : Part} (h₁ : m₁.Same m₂ p) (h₂ : m₂.Same m₃ p) :
    m₁.Same m₃ p := by
  cases p <;> exact Eq.trans h₂ h₁

theorem same_fetched {p : Part} (hp : p ≠ .pc) : m.Same m.fetched p := by
  cases p <;> first | rfl | exact absurd rfl hp

/-- **A step leaves the parts alone that its operation does not write**, but for the program
counter. -/
theorem step_same {p : Part} (hpc : p ≠ .pc)
    (hp : ∀ op, m.instruction.operation? = some op → p ∉ op.writes) : m.Same m.step.state p := by
  cases hf : fetchable m.pc with
  | false =>
    rw [step_of_not_fetchable hf]
    exact .refl m p
  | true =>
    cases hop : m.instruction.operation? with
    | none =>
      rw [step_of_unknown hf hop]
      exact same_fetched hpc
    | some op =>
      cases hx : m.fetched.execute op with
      | ok after =>
        rw [step_of_ok hf hop hx]
        exact (same_fetched hpc).trans (execute_same hx (hp op hop))
      | error stop =>
        rw [step_of_error hf hop hx]
        exact same_fetched hpc

theorem keypad_notMem_writes (op : Operation) : Part.keypad ∉ op.writes := by
  cases op <;> simp [Operation.writes]

theorem keypad_step (m : Machine) : m.step.state.keypad = m.keypad :=
  step_same (p := .keypad) (by decide) fun op _ => keypad_notMem_writes op

theorem keyWait_notMem_writes {op : Operation} (h : ∀ x, op ≠ .waitKey x) :
    Part.keyWait ∉ op.writes := by
  cases op with
  | waitKey x => exact absurd rfl (h x)
  | _ => simp [Operation.writes]

theorem keyWait_step (h : ∀ x, m.instruction.operation? ≠ some (.waitKey x)) :
    m.step.state.keyWait = m.keyWait :=
  step_same (p := .keyWait) (by decide) fun op hop =>
    keyWait_notMem_writes fun x hx => h x (hx ▸ hop)

end Machine

end Chip8
