import Mathlib.Data.List.Infix
import Chip8.Proofs.Instruction
import Chip8.Proofs.Machine.Run
import Chip8.Proofs.Machine.Writes

/-!
# Subroutines

A call (`2NNN`) and the return (`00EE`) that ends it belong together like a pair of brackets.

* `stackCourse`: a step leaves the call stack alone, opens one call, or closes the innermost one by
  a return to where it came from;
* `returns_of_frames`: what lies below a frame stays as it is until that frame itself is closed;
* `call_returns`: a run that has come down to the depth at which a call was made has just returned
  from this very call.
-/

namespace Chip8

/-! ## The words -/

theorem Instruction.operation?_of_call {i : Instruction} (h : i.word.toNat / 4096 = 2) :
    i.operation? = some (.call i.nnn) :=
  operation?_eq_some_iff.2 ⟨i.val_family.trans h, rfl⟩

theorem Instruction.eq_of_operation?_eq_ret {i : Instruction} (h : i.operation? = some .ret) :
    i = ⟨0x00EE⟩ :=
  congrArg mk (operation?_eq_some_iff.1 h)

namespace Machine

variable {m : Machine} {addr : UInt16} {frames inner : List UInt16} {later : List Action}

/-! ## One step -/

theorem stack_notMem_writes {op : Operation} (hret : op ≠ .ret)
    (hcall : ∀ target, op ≠ .call target) : Part.stack ∉ op.writes := by
  cases op with
  | ret => exact absurd rfl hret
  | call target => exact absurd rfl (hcall target)
  | _ => simp [Operation.writes]

/-- A return goes to the innermost frame and closes it. -/
theorem step_ret_of_cons (hf : fetchable m.pc = true) (hop : m.instruction.operation? = some .ret)
    (hs : m.stack.frames = addr :: frames) :
    m.step.result = .ok ⟨0x00EE⟩ ∧ m.step.state.pc = addr ∧
      m.step.state.stack.frames = frames := by
  have hpop : m.fetched.stack.pop = .ok (addr, ⟨frames⟩) := by
    rw [CallStack.pop, show m.fetched.stack.frames = addr :: frames from hs]
  have hx : m.fetched.execute .ret = .ok { m.fetched with pc := addr, stack := ⟨frames⟩ } := by
    rw [execute, hpop]
    rfl
  rw [step_of_ok hf hop hx, Instruction.eq_of_operation?_eq_ret hop]
  exact ⟨rfl, rfl, rfl⟩

theorem step_ret_of_nil (hf : fetchable m.pc = true) (hop : m.instruction.operation? = some .ret)
    (hs : m.stack.frames = []) : m.step = .failed m.fetched (.fault .stackUnderflow) := by
  refine step_of_error hf hop ?_
  rw [execute, CallStack.pop, show m.fetched.stack.frames = [] from hs]
  rfl

/-- A call leaves the address behind it on the stack, if the stack is not full. -/
theorem step_call_of_lt {target : UInt16} (hf : fetchable m.pc = true)
    (hop : m.instruction.operation? = some (.call target)) (hd : m.stack.depth < 16) :
    m.step.result = .ok m.instruction ∧
      m.step.state.stack.frames = m.fetched.pc :: m.stack.frames := by
  have hpush : m.fetched.stack.push m.fetched.pc = .ok ⟨m.fetched.pc :: m.stack.frames⟩ :=
    if_pos hd
  have hx : m.fetched.execute (.call target) =
      .ok { m.fetched with pc := target, stack := ⟨m.fetched.pc :: m.stack.frames⟩ } := by
    rw [execute, hpush]
    rfl
  rw [step_of_ok hf hop hx]
  exact ⟨rfl, rfl⟩

theorem step_call_of_full {target : UInt16} (hf : fetchable m.pc = true)
    (hop : m.instruction.operation? = some (.call target)) (hd : ¬m.stack.depth < 16) :
    m.step = .failed m.fetched (.fault (.stackOverflow (m.stack.depth + 1))) := by
  have hpush : m.fetched.stack.push m.fetched.pc =
      .error (.fault (.stackOverflow (m.stack.depth + 1))) := if_neg hd
  refine step_of_error hf hop ?_
  rw [execute, hpush]
  rfl

/-- What a step does to the call stack. -/
inductive StackCourse (m : Machine) : Prop
  | kept (frames : m.step.state.stack.frames = m.stack.frames)
  /-- A call is opened. -/
  | opened (addr : UInt16) (frames : m.step.state.stack.frames = addr :: m.stack.frames)
  /-- A return goes to the innermost frame and closes it. -/
  | closed (executed : m.step.result = .ok ⟨0x00EE⟩)
      (frames : m.stack.frames = m.step.state.pc :: m.step.state.stack.frames)

/-- **Only a call and a return move the call stack**, by one frame each and only if they succeed. -/
theorem stackCourse (m : Machine) : m.StackCourse := by
  cases hf : fetchable m.pc with
  | false => exact .kept (by rw [step_of_not_fetchable hf]; rfl)
  | true =>
    by_cases hret : m.instruction.operation? = some .ret
    · cases hs : m.stack.frames with
      | nil => exact .kept (by rw [step_ret_of_nil hf hret hs]; rfl)
      | cons addr rest =>
        obtain ⟨hresult, hpc, hframes⟩ := step_ret_of_cons hf hret hs
        exact .closed hresult (by rw [hs, hpc, hframes])
    by_cases hcall : ∃ target, m.instruction.operation? = some (.call target)
    · obtain ⟨target, hcall⟩ := hcall
      by_cases hd : m.stack.depth < 16
      · exact .opened _ (step_call_of_lt hf hcall hd).2
      · exact .kept (by rw [step_call_of_full hf hcall hd]; rfl)
    · have hsame : m.step.state.stack = m.stack :=
        step_same (p := .stack) (by decide) fun op hop =>
          stack_notMem_writes (fun h => hret (h ▸ hop)) fun target h => hcall ⟨target, h ▸ hop⟩
      exact .kept (congrArg CallStack.frames hsame)

/-! ## Runs -/

/-- The first moment of a run at which the stack is down at a depth. -/
structure FirstDown (m : Machine) (depth : Nat) (later : List Action) : Prop where
  down : (m.run later).stack.depth = depth
  first : ∀ p, p <+: later → p ≠ later → (m.run p).stack.depth ≠ depth

theorem FirstDown.tail {depth : Nat} {a : Action} (h : m.FirstDown depth (a :: later)) :
    (m.act a).state.FirstDown depth later := by
  refine ⟨h.down, ?_⟩
  intro p hp hne
  exact h.first (a :: p) ((List.prefix_cons_inj a).2 hp) fun heq => hne (List.cons.inj heq).2

/-- If the first action takes the stack down, then it is the last. -/
theorem FirstDown.eq_nil {a : Action} (h : m.FirstDown frames.length (a :: later))
    (hdown : (m.act a).state.stack.frames = frames) : later = [] := by
  cases later with
  | nil => rfl
  | cons b later =>
    have hearly : (m.run [a]).stack.depth = frames.length := congrArg List.length hdown
    exact absurd hearly (h.first [a] ⟨b :: later, rfl⟩ (by simp))

/-- **What lies below a frame stays as it is until that frame is closed**, which takes a return to
the address in the frame. -/
theorem returns_of_frames (hframes : m.stack.frames = inner ++ addr :: frames)
    (h : m.FirstDown frames.length later) :
    ∃ inside, later = inside ++ [.step] ∧ (m.run inside).step.result = .ok ⟨0x00EE⟩ ∧
      (m.run later).pc = addr ∧ (m.run later).stack.frames = frames := by
  induction later generalizing m inner with
  | nil =>
    have hdown := h.down
    rw [run_nil, CallStack.depth, hframes, List.length_append, List.length_cons] at hdown
    omega
  | cons a later ih =>
    -- As long as the frame is on the stack, what is left of the run takes the stack down.
    have hrest : ∀ inner', (m.act a).state.stack.frames = inner' ++ addr :: frames →
        ∃ inside, a :: later = inside ++ [.step] ∧ (m.run inside).step.result = .ok ⟨0x00EE⟩ ∧
          (m.run (a :: later)).pc = addr ∧ (m.run (a :: later)).stack.frames = frames := by
      intro inner' hframes'
      obtain ⟨inside, rfl, hreturn⟩ := ih hframes' h.tail
      exact ⟨a :: inside, rfl, hreturn⟩
    by_cases ha : a = .step
    · subst ha
      cases m.stackCourse with
      | kept hkept => exact hrest inner (hkept.trans hframes)
      | opened called hopened =>
        rw [hframes] at hopened
        exact hrest (called :: inner) hopened
      | closed hresult hclosed =>
        rw [hframes] at hclosed
        cases inner with
        | nil =>
          obtain ⟨rfl, rfl⟩ := List.cons.inj hclosed
          obtain rfl := h.eq_nil rfl
          exact ⟨[], rfl, hresult, rfl, rfl⟩
        | cons called inner => exact hrest inner (List.cons.inj hclosed).2.symm
    · obtain ⟨memory, keypad, timers, heq, -⟩ := m.act_outside ha
      exact hrest inner (by rw [heq]; exact hframes)

/-- **Subroutine calls are well bracketed.** A machine that executes a call, with any calls,
returns, failures and events from outside to follow, comes down to the depth of the call for the
first time by a return, which has succeeded, goes behind the call and leaves the stack as it was
before it. -/
theorem call_returns (m : Machine) (word : UInt16) (hf : fetchable m.pc = true)
    (hword : m.memory.word m.pc = .ok word) (hcall : word.toNat / 4096 = 2)
    (hd : m.stack.depth < 16) :
    m.step.result = .ok ⟨word⟩ ∧ m.step.state.stack.depth = m.stack.depth + 1 ∧
      ∀ later, (m.step.state.run later).stack.depth = m.stack.depth →
        (∀ p, p <+: later → p ≠ later → (m.step.state.run p).stack.depth ≠ m.stack.depth) →
        ∃ inside, later = inside ++ [.step] ∧
          (m.step.state.run inside).step.result = .ok ⟨0x00EE⟩ ∧
          (m.step.state.run later).pc.toNat = m.pc.toNat + 2 ∧
          (m.step.state.run later).stack.frames = m.stack.frames := by
  have hinstruction : m.instruction = ⟨word⟩ := by
    rw [word_pc hf] at hword
    exact congrArg Instruction.mk (Except.ok.inj hword)
  have hop : m.instruction.operation? = some (.call m.instruction.nnn) :=
    Instruction.operation?_of_call (by rw [hinstruction]; exact hcall)
  obtain ⟨hresult, hframes⟩ := step_call_of_lt hf hop hd
  refine ⟨hinstruction ▸ hresult, congrArg List.length hframes, ?_⟩
  intro later hdown hfirst
  have hinner : m.step.state.stack.frames = [] ++ m.fetched.pc :: m.stack.frames := hframes
  obtain ⟨inside, hlater, hret, hpc, hback⟩ := returns_of_frames hinner ⟨hdown, hfirst⟩
  exact ⟨inside, hlater, hret, by rw [hpc, toNat_pc_fetched hf], hback⟩

set_option maxRecDepth 20000 in
/-- A call of a subroutine that calls another one, with a key and the end of a frame in between. -/
theorem call_returns_nested :
    let m := loadedWith .modern 0 [0x22, 0x04, 0x12, 0x00, 0x22, 0x08, 0x00, 0xEE, 0x00, 0xEE]
    let later : List Action := [.press 1, .step, .endFrame, .step, .step]
    m.memory.word m.pc = .ok 0x2204 ∧ m.stack.depth = 0 ∧
      (m.step.state.run later).stack.depth = 0 ∧
      (∀ p, p <+: later → p ≠ later → (m.step.state.run p).stack.depth ≠ 0) ∧
      (m.step.state.run later).pc.toNat = 0x202 := by
  intro m later
  have hword : m.memory.word m.pc = .ok 0x2204 := by decide +kernel
  have hinits : ∀ p ∈ later.inits, (m.step.state.run p).stack.depth = 0 ↔ p = later := by
    decide +kernel
  have hdown : (m.step.state.run later).stack.depth = 0 :=
    (hinits later ((List.mem_inits _ _).2 List.prefix_rfl)).2 rfl
  have hfirst : ∀ p, p <+: later → p ≠ later → (m.step.state.run p).stack.depth ≠ 0 :=
    fun p hp hne hdepth => hne ((hinits p ((List.mem_inits p later).2 hp)).1 hdepth)
  obtain ⟨-, -, hreturns⟩ :=
    call_returns m 0x2204 (by decide +kernel) hword (by decide) (by decide +kernel)
  obtain ⟨inside, -, -, hpc, -⟩ := hreturns later hdown hfirst
  exact ⟨hword, rfl, hdown, hfirst, hpc⟩

end Machine

end Chip8
