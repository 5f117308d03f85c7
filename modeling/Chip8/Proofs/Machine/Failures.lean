import Chip8.Proofs.Instruction
import Chip8.Proofs.Machine.Bounds
import Chip8.Proofs.Machine.Faults

/-!
# Steps that fail

The machine and the word in front of it tell beforehand whether a step fails and for which fault
(`Machine.faultAhead?`), and a step that fails changes nothing but the program counter.

* `execute_eq_error_iff`: an operation fails for a cause just when `Machine.Fails` names it;
* `result_step`: a step fails for the fault that lies ahead, and succeeds if there is none;
* `step_fails`: both of every machine that a run can reach, and what a failure leaves.
-/

namespace Chip8.Machine

variable {m : Machine} {op : Operation} {cause : Fault} {actions : List Action}

/-- The fault for which a step fails, in the order in which a step comes upon them: the program
counter is odd or out of the program's part of memory; no operation belongs to the word; a call
(`2NNN`) meets a full stack; a return (`00EE`) meets an empty one; a skip (`EX9E` or `EXA1`) asks
for a key that does not exist. -/
def faultAhead? (m : Machine) : Option Fault :=
  let i := m.instruction
  if m.pc.toNat % 2 ≠ 0 ∨ m.pc.toNat < 0x200 ∨ 0xFFE < m.pc.toNat then
    some (.programCounterOutOfRange m.pc)
  else if i.operation? = none then some (.unknownInstruction i.word m.pc)
  else if i.family.val = 0x2 ∧ m.stack.depth = 16 then some (.stackOverflow 17)
  else if i.word = 0x00EE ∧ m.stack.depth = 0 then some .stackUnderflow
  else if i.family.val = 0xE ∧ (i.nn = 0x9E ∨ i.nn = 0xA1) ∧ 15 < (m.get i.x).toNat then
    some (.invalidKey (m.get i.x))
  else none

/-! ## Operations -/

/-- **An operation fails for a cause just when it is said to.** -/
theorem execute_eq_error_iff : m.execute op = .error (.fault cause) ↔ m.Fails op cause := by
  refine ⟨fails_of_execute, fun h => ?_⟩
  cases h with
  | call target full =>
    have hfull : ¬m.stack.depth < CallStack.capacity := Nat.not_lt.2 full
    rw [execute, CallStack.push, if_neg hfull]
    rfl
  | ret empty =>
    rw [execute, CallStack.pop, empty]
    rfl
  | skipIfKey x noKey | skipUnlessKey x noKey =>
    rw [execute, Keypad.isPressed_of_le noKey]
    rfl
  | waitKey x key waits noKey =>
    rw [execute, waitKey, waits]
    dsimp only
    rw [Keypad.isPressed_of_le noKey]
    rfl

/-- Where a word with an operation is fetched, the operation decides. -/
theorem faultAhead?_of_operation (hf : fetchable m.pc = true)
    (hop : m.instruction.operation? = some op) : m.faultAhead? =
      let i := m.instruction
      if i.family.val = 0x2 ∧ m.stack.depth = 16 then some (.stackOverflow 17)
      else if i.word = 0x00EE ∧ m.stack.depth = 0 then some .stackUnderflow
      else if i.family.val = 0xE ∧ (i.nn = 0x9E ∨ i.nn = 0xA1) ∧ 15 < (m.get i.x).toNat then
        some (.invalidKey (m.get i.x))
      else none := by
  have hrange := mt not_fetchable_iff.2 (by rw [hf]; decide)
  have hsome : m.instruction.operation? ≠ none := by rw [hop]; simp
  rw [faultAhead?, if_neg hrange, if_neg hsome]

/-- In front of a word with an operation, the fault that lies ahead is the operation's. -/
theorem faultAhead?_eq_some_iff (hm : m.Bounded) (hf : fetchable m.pc = true)
    (hop : m.instruction.operation? = some op) :
    m.faultAhead? = some cause ↔ m.fetched.Fails op cause := by
  have honly : ∀ op', m.instruction.Encodes op' → op = op' := fun op' h =>
    Option.some.inj (hop.symm.trans (Instruction.operation?_eq_some_iff.2 h))
  rw [faultAhead?_of_operation hf hop]
  dsimp only
  constructor
  · intro h
    split at h
    · rename_i hcall
      obtain rfl := honly (.call _) ⟨hcall.1, rfl⟩
      have hfails := Fails.call (m := m.fetched) m.instruction.nnn (Nat.le_of_eq hcall.2.symm)
      cases h
      rwa [show m.fetched.stack.depth = 16 from hcall.2] at hfails
    split at h
    · rename_i hret
      obtain rfl := honly .ret hret.1
      cases h
      exact .ret (List.length_eq_zero_iff.1 hret.2)
    split at h
    · rename_i hskip
      obtain ⟨hfamily, hnn | hnn, hkey⟩ := hskip
      · obtain rfl := honly (.skipIfKey _) ⟨hfamily, hnn, rfl⟩
        cases h
        exact .skipIfKey m.instruction.x hkey
      · obtain rfl := honly (.skipUnlessKey _) ⟨hfamily, hnn, rfl⟩
        cases h
        exact .skipUnlessKey m.instruction.x hkey
    · cases h
  · intro h
    have hword := Instruction.operation?_eq_some_iff.1 hop
    have hnotRet : m.instruction.family.val ≠ 0x0 → m.instruction.word ≠ 0x00EE :=
      fun hne hret => hne (Instruction.word_eq_ret.1 hret).1
    cases h with
    | call target full =>
      have hfull : m.stack.depth = 16 := Nat.le_antisymm hm.depth_le full
      rw [if_pos ⟨hword.1, hfull⟩, show m.fetched.stack.depth = 16 from hfull]
    | ret empty =>
      have hret : m.instruction.word = 0x00EE := hword
      have hfamily := (Instruction.word_eq_ret.1 hret).1
      rw [if_neg (by omega), if_pos ⟨hret, List.length_eq_zero_iff.2 empty⟩]
    | skipIfKey x noKey =>
      obtain ⟨hfamily, hnn, rfl⟩ := hword
      rw [if_neg (by omega), if_neg fun hret => hnotRet (by omega) hret.1,
        if_pos ⟨hfamily, .inl hnn, noKey⟩]
      rfl
    | skipUnlessKey x noKey =>
      obtain ⟨hfamily, hnn, rfl⟩ := hword
      rw [if_neg (by omega), if_neg fun hret => hnotRet (by omega) hret.1,
        if_pos ⟨hfamily, .inr hnn, noKey⟩]
      rfl
    | waitKey x key waits noKey => exact absurd (hm.key_lt key waits) (by omega)

/-! ## Steps -/

/-- **A step fails for the fault that lies ahead, and succeeds if there is none.** -/
theorem result_step (hm : m.Bounded) : m.step.result =
    match m.faultAhead? with
    | some cause => .error (.fault cause)
    | none => .ok m.instruction := by
  cases hf : fetchable m.pc with
  | false =>
    rw [step_of_not_fetchable hf, faultAhead?, if_pos (not_fetchable_iff.1 hf)]
    rfl
  | true =>
    cases hop : m.instruction.operation? with
    | none =>
      have hrange := mt not_fetchable_iff.2 (by rw [hf]; decide)
      rw [step_of_unknown hf hop, faultAhead?, if_neg hrange, if_pos hop]
      rfl
    | some op =>
      have hahead : ∀ cause, m.faultAhead? = some cause ↔ m.fetched.Fails op cause :=
        fun _ => faultAhead?_eq_some_iff hm hf hop
      rcases hx : m.fetched.execute op with (cause | -) | after
      · rw [step_of_error hf hop hx, (hahead cause).2 (execute_eq_error_iff.1 hx)]
        rfl
      · exact absurd hx (execute_safely (hm.fetched hf) (Instruction.narrow hop)).ne_stuck
      · have hnone : m.faultAhead? = none := by
          refine Option.eq_none_iff_forall_ne_some.2 fun cause h => ?_
          have hfails := execute_eq_error_iff.2 ((hahead cause).1 h)
          rw [hx] at hfails
          cases hfails
        rw [step_of_ok hf hop hx, hnone]

/-- A machine that cannot fetch fails to do so ever after: only a step moves the program counter. -/
theorem result_run_of_not_fetchable (hf : fetchable m.pc = false) (later : List Action) :
    (m.run later).step.result = .error (.fault (.programCounterOutOfRange m.pc)) := by
  have hpc : (m.run later).pc = m.pc := by
    refine run_induction (P := fun m' => m'.pc = m.pc) rfl ?_
    intro m' hm' a _
    by_cases ha : a = .step
    · subst ha
      change m'.step.state.pc = m.pc
      rw [step_of_not_fetchable (by rw [hm']; exact hf)]
      exact hm'
    · obtain ⟨memory, keypad, timers, heq, -⟩ := m'.act_outside ha
      rw [heq]
      exact hm'
  rw [step_of_not_fetchable (by rw [hpc]; exact hf), hpc]
  rfl

/-- What a step leaves that fails: the machine as it was if it could not fetch, and else the machine
behind the word. -/
theorem state_step_of_fault (h : m.step.result = .error (.fault cause)) :
    (cause = .programCounterOutOfRange m.pc ∧ fetchable m.pc = false ∧ m.step.state = m) ∨
      (∀ pc, cause ≠ .programCounterOutOfRange pc) ∧ fetchable m.pc = true ∧
        m.step.state = m.fetched := by
  revert h
  refine m.step_cases (P := fun o => o.result = .error (.fault cause) →
    (cause = .programCounterOutOfRange m.pc ∧ fetchable m.pc = false ∧ o.state = m) ∨
      (∀ pc, cause ≠ .programCounterOutOfRange pc) ∧ fetchable m.pc = true ∧
        o.state = m.fetched) ?_ ?_ ?_ ?_
  · intro hf h
    cases h
    exact .inl ⟨rfl, hf, rfl⟩
  · intro hf _ h
    cases h
    exact .inr ⟨by simp, hf, rfl⟩
  · intro op stop hf _ hx h
    cases h
    refine .inr ⟨?_, hf, rfl⟩
    rintro pc rfl
    cases execute_eq_error_iff.1 hx
  · intro _ _ _ _ _ h
    cases h

/-- **A step fails just when a fault lies ahead of it, for that fault, and leaves the machine
intact.** Whatever a run has made of a new machine, its next step fails for the fault ahead or
returns the instruction at the program counter. A step that cannot fetch leaves the machine as it
was, and so does every later one, whatever happens in between; one that fails in another way moves
the program counter on by two and changes nothing else. -/
theorem step_fails (dialect : Dialect) (seed : UInt64) (actions : List Action) :
    let m := (fresh dialect seed).run actions
    (fetchable m.pc = true → m.memory.word m.pc = .ok m.instruction.word) ∧
      (m.step.result =
        match m.faultAhead? with
        | some cause => .error (.fault cause)
        | none => .ok m.instruction) ∧
      ∀ cause, m.step.result = .error (.fault cause) →
        (cause = .programCounterOutOfRange m.pc ∧ m.step.state = m ∧
          ∀ later, (m.step.state.run later).step.result = .error (.fault cause)) ∨
        (∀ pc, cause ≠ .programCounterOutOfRange pc) ∧ m.step.state = { m with pc := m.pc + 2 } ∧
          (m.pc + 2).toNat = m.pc.toNat + 2 := by
  intro m
  refine ⟨word_pc, result_step (bounded_run dialect seed actions), ?_⟩
  intro cause hresult
  rcases state_step_of_fault hresult with ⟨rfl, hf, hstate⟩ | ⟨hcause, hf, hstate⟩
  · refine .inl ⟨rfl, hstate, fun later => ?_⟩
    rw [hstate]
    exact result_run_of_not_fetchable hf later
  · exact .inr ⟨hcause, hstate, toNat_pc_fetched hf⟩

end Chip8.Machine
