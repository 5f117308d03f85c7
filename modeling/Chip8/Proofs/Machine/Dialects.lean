import Chip8.Proofs.Machine.Bounds
import Chip8.Proofs.Machine.Faults

/-!
# The two dialects

Two machines that hold the same program and differ in their dialect alone go through the same steps
until one of them executes a word that the dialects read differently (`Instruction.Disputed`).

* `execute_inDialect`: an operation that is not disputed does the same in both dialects;
* `step_inDialect`, `act_inDialect`: so does a step, be it one that fails, and every other action;
* `dialects_agree`: so does a run, whatever its length.
-/

namespace Chip8

variable {α : Type}

/-! ## Disputed words -/

/-- The dialects read the word differently: it is `8XY1`, `8XY2` or `8XY3`, or it is `8XY6` or
`8XYE` for two different registers, or it is `BNNN` with a second digit that is not zero, or it is
`FX55` or `FX65`. -/
def Instruction.Disputed (i : Instruction) : Prop :=
  (i.family.val = 0x8 ∧ (i.n.val = 0x1 ∨ i.n.val = 0x2 ∨ i.n.val = 0x3)) ∨
  (i.family.val = 0x8 ∧ (i.n.val = 0x6 ∨ i.n.val = 0xE) ∧ i.x ≠ i.y) ∨
  (i.family.val = 0xB ∧ i.x ≠ 0) ∨
  (i.family.val = 0xF ∧ (i.nn = 0x55 ∨ i.nn = 0x65))

instance : DecidablePred Instruction.Disputed := fun _ => inferInstanceAs (Decidable (_ ∨ _))

/-- The operations of disputed words. -/
def Operation.Disputed : Operation → Prop
  | .or .. | .and .. | .xor .. | .store _ | .load _ => True
  | .shiftRight x y | .shiftLeft x y => x ≠ y
  | .jumpOffset x _ => x ≠ 0
  | _ => False

theorem Instruction.disputed_of_operation {i : Instruction} {op : Operation}
    (hop : i.operation? = some op) (hd : op.Disputed) : i.Disputed := by
  have hwords := operation?_eq_some_iff.1 hop
  cases op
  case or | and | xor | shiftRight | shiftLeft =>
    simp_all [Encodes, Encodes.pair, Operation.Disputed, Disputed]
  case jumpOffset | store | load => simp_all [Encodes, Encodes.one, Operation.Disputed, Disputed]
  all_goals exact hd.elim

namespace Machine

variable {m : Machine} {dialect : Dialect} {op : Operation} {actions : List Action}

/-- The machine with another dialect. -/
def inDialect (m : Machine) (dialect : Dialect) : Machine := { m with dialect }

/-! ## Parts of operations -/

/-- What is made of a result in both dialects does not depend on the dialect if each of its values
gives the same in both. -/
theorem bind_inDialect {r : Result α} {f g : α → Result Machine}
    (h : ∀ a, f a = (g a).map (·.inDialect dialect)) :
    (r >>= f) = (r >>= g).map (·.inDialect dialect) := by
  cases r with
  | ok a => exact h a
  | error stop => rfl

theorem skip_inDialect (m : Machine) (dialect : Dialect) :
    (m.inDialect dialect).skip = m.skip.map (·.inDialect dialect) :=
  bind_inDialect fun _ => rfl

theorem rewind_inDialect (m : Machine) (dialect : Dialect) :
    (m.inDialect dialect).rewind = m.rewind.map (·.inDialect dialect) :=
  bind_inDialect fun _ => rfl

theorem skipIf_inDialect (m : Machine) (dialect : Dialect) (condition : Bool) :
    (m.inDialect dialect).skipIf condition =
      (m.skipIf condition).map (·.inDialect dialect) := by
  cases condition with
  | true => exact m.skip_inDialect dialect
  | false => rfl

theorem waitKey_inDialect (m : Machine) (dialect : Dialect) (x : Register) :
    (m.inDialect dialect).waitKey x = (m.waitKey x).map (·.inDialect dialect) := by
  have hwait : (m.inDialect dialect).keyWait = m.keyWait := rfl
  unfold waitKey
  rw [hwait]
  split
  · refine bind_inDialect fun down => bind_inDialect fun wentUp => ?_
    split
    · exact m.rewind_inDialect dialect
    · rfl
  · exact bind_inDialect fun _ => rfl

/-- A shift of a register into itself shifts the same in both dialects. -/
theorem shifted_self (m : Machine) (x : Register) : m.shifted x x = m.get x := by
  unfold shifted
  split <;> rfl

/-! ## Operations -/

/-- **An operation that is not disputed does the same in both dialects.** -/
theorem execute_inDialect (m : Machine) (dialect : Dialect) (h : ¬op.Disputed) :
    (m.inDialect dialect).execute op = (m.execute op).map (·.inDialect dialect) := by
  cases op
  case or | and | xor | store | load => exact absurd trivial h
  case shiftRight x y | shiftLeft x y =>
    obtain rfl : x = y := Decidable.not_not.1 h
    simp only [execute, shifted_self]
    rfl
  case jumpOffset x target =>
    obtain rfl : x = 0 := Decidable.not_not.1 h
    cases dialect <;> cases hm : m.dialect <;> simp only [execute, inDialect, hm] <;>
      exact bind_inDialect fun _ => rfl
  case ret | call | addIndex | decimalDigits => exact bind_inDialect fun _ => rfl
  case skipIfValue | skipUnlessValue | skipIfSame | skipUnlessSame =>
    exact m.skipIf_inDialect dialect _
  case skipIfKey | skipUnlessKey => exact bind_inDialect fun _ => m.skipIf_inDialect dialect _
  case random x mask =>
    -- Named before it is looked at: evaluating it would run the generator.
    have hsame : (m.inDialect dialect).random = m.random := rfl
    rcases hnext : m.random.next with ⟨byte, random⟩
    simp only [execute, hsame, hnext]
    rfl
  case draw => exact bind_inDialect fun _ => bind_inDialect fun _ => rfl
  case waitKey x => exact m.waitKey_inDialect dialect x
  all_goals rfl

/-- A disputed operation of a machine in bounds does not fail. -/
theorem execute_of_disputed (hm : m.Fetched) (hnarrow : op.Narrow) (hd : op.Disputed) :
    ∃ after, m.execute op = .ok after := by
  rcases hx : m.execute op with (cause | -) | after
  · cases fails_of_execute hx <;> exact hd.elim
  · exact absurd hx (execute_safely hm hnarrow).ne_stuck
  · exact ⟨after, rfl⟩

/-! ## Steps -/

/-- **A step on a word that is not disputed does the same in both dialects.** -/
theorem step_inDialect (dialect : Dialect)
    (h : fetchable m.pc = true → ∀ op, m.instruction.operation? = some op → ¬op.Disputed) :
    (m.inDialect dialect).step = m.step.onState (·.inDialect dialect) := by
  have hinstruction : (m.inDialect dialect).instruction = m.instruction := rfl
  have hfetched : (m.inDialect dialect).fetched = m.fetched.inDialect dialect := rfl
  cases hf : fetchable m.pc with
  | false =>
    rw [step_of_not_fetchable hf, step_of_not_fetchable (m := m.inDialect dialect) hf]
    rfl
  | true =>
    cases hop : m.instruction.operation? with
    | none =>
      rw [step_of_unknown hf hop, step_of_unknown (m := m.inDialect dialect) hf hop]
      rfl
    | some op =>
      have hx := m.fetched.execute_inDialect dialect (h hf op hop)
      rw [← hfetched] at hx
      cases hstep : m.fetched.execute op with
      | ok after =>
        rw [hstep] at hx
        rw [step_of_ok hf hop hstep, step_of_ok (m := m.inDialect dialect) hf hop hx]
        rfl
      | error stop =>
        rw [hstep] at hx
        rw [step_of_error hf hop hstep, step_of_error (m := m.inDialect dialect) hf hop hx]
        rfl

/-- A machine in bounds that does not execute a disputed word does not stand at one. -/
theorem not_disputed_of_step (hm : m.Bounded)
    (h : ∀ i, m.step.result = .ok i → ¬i.Disputed) :
    fetchable m.pc = true → ∀ op, m.instruction.operation? = some op → ¬op.Disputed := by
  intro hf op hop hd
  obtain ⟨after, hx⟩ := execute_of_disputed (hm.fetched hf) (Instruction.narrow hop) hd
  have hresult : m.step.result = .ok m.instruction := by rw [step_of_ok hf hop hx]
  exact h _ hresult (Instruction.disputed_of_operation hop hd)

/-! ## Runs -/

/-- Every other action does the same in both dialects. -/
theorem act_inDialect (m : Machine) (dialect : Dialect) {a : Action} (ha : a ≠ .step) :
    (m.inDialect dialect).act a = (m.act a).onState (·.inDialect dialect) := by
  have hchange : ∀ r : Result Machine, (m.inDialect dialect).change (r.map (·.inDialect dialect)) =
      (m.change r).onState (·.inDialect dialect) := by
    intro r
    cases r <;> rfl
  cases a with
  | step => exact absurd rfl ha
  | press key =>
    refine (congrArg (change _) ?_).trans (hchange _)
    exact bind_inDialect (r := m.keypad.press key) fun _ => rfl
  | release key =>
    refine (congrArg (change _) ?_).trans (hchange _)
    exact bind_inDialect (r := m.keypad.release key) fun _ => rfl
  | load program =>
    refine (congrArg (change _) ?_).trans (hchange _)
    simp only [load, bind_assoc]
    exact bind_inDialect (r := m.memory.load program) fun _ => rfl
  | endFrame | tick | setTimers => rfl

/-- What the steps of a run return, in order. -/
def stepResults (m : Machine) : List Action → List (Result Instruction)
  | [] => []
  | a :: actions =>
    let rest := (m.act a).state.stepResults actions
    if a = .step then m.step.result :: rest else rest

theorem stepResults_step (m : Machine) (actions : List Action) :
    m.stepResults (.step :: actions) = m.step.result :: m.step.state.stepResults actions := rfl

theorem stepResults_of_ne {a : Action} (ha : a ≠ .step) (m : Machine) (actions : List Action) :
    m.stepResults (a :: actions) = (m.act a).state.stepResults actions := if_neg ha

theorem stepResults_append (m : Machine) (first last : List Action) :
    m.stepResults (first ++ last) = m.stepResults first ++ (m.run first).stepResults last := by
  induction first generalizing m with
  | nil => rfl
  | cons a first ih =>
    by_cases ha : a = .step
    · subst ha
      exact congrArg (m.step.result :: ·) (ih _)
    · rw [List.cons_append, stepResults_of_ne ha, stepResults_of_ne ha, ih]
      rfl

/-- **A run that executes no disputed word does the same in both dialects.** -/
theorem run_inDialect (hm : m.Bounded) (h : ∀ i, .ok i ∈ m.stepResults actions → ¬i.Disputed) :
    (m.inDialect dialect).stepResults actions = m.stepResults actions ∧
      (m.inDialect dialect).run actions = (m.run actions).inDialect dialect := by
  induction actions generalizing m with
  | nil => exact ⟨rfl, rfl⟩
  | cons a actions ih =>
    by_cases ha : a = .step
    · subst ha
      rw [stepResults_step] at h
      have hstep := step_inDialect dialect <|
        not_disputed_of_step hm fun i hi => h i (hi ▸ List.mem_cons_self)
      obtain ⟨hresults, hrun⟩ := ih (step_safely hm).1 fun i hi => h i (List.mem_cons_of_mem _ hi)
      refine ⟨?_, ?_⟩
      · rw [stepResults_step, stepResults_step, hstep]
        exact congrArg (m.step.result :: ·) hresults
      · rw [run_cons, run_cons]
        change ((m.inDialect dialect).step.state).run actions = _
        rw [hstep]
        exact hrun
    · rw [stepResults_of_ne ha] at h
      obtain ⟨hresults, hrun⟩ := ih (act_safely hm a).1 h
      refine ⟨?_, ?_⟩
      · rw [stepResults_of_ne ha, stepResults_of_ne ha, m.act_inDialect dialect ha]
        exact hresults
      · rw [run_cons, run_cons, m.act_inDialect dialect ha]
        exact hrun

/-! ## Programs that were just loaded -/

theorem inDialect_loadedWith (seed : UInt64) (program : List UInt8) :
    loadedWith .modern seed program = (loadedWith .legacy seed program).inDialect .modern :=
  congrArg Outcome.state <|
    (fresh .legacy seed).act_inDialect .modern (a := .load program) (by simp)

/-- **The dialects agree but on disputed words.** A new machine of each dialect with the same seed
and the same program goes through the same run, whatever happens to both between their steps. As
long as the legacy one executes no disputed word, each step returns the same in both, be it an
instruction or a failure, and the machines differ in nothing but their dialect. -/
theorem dialects_agree (seed : UInt64) (program : List UInt8) (actions : List Action) :
    let legacy := loadedWith .legacy seed program
    let modern := loadedWith .modern seed program
    (∀ i, .ok i ∈ legacy.stepResults actions → ¬i.Disputed) →
      modern.stepResults actions = legacy.stepResults actions ∧
      ∀ p, p <+: actions → modern.run p = { legacy.run p with dialect := .modern } := by
  intro legacy modern h
  have hbounded : legacy.Bounded := bounded_loadedWith .legacy seed program
  have hmodern : modern = legacy.inDialect .modern := inDialect_loadedWith seed program
  rw [hmodern]
  refine ⟨(run_inDialect hbounded h).1, ?_⟩
  rintro p ⟨q, rfl⟩
  rw [stepResults_append] at h
  exact (run_inDialect hbounded fun i hi => h i (List.mem_append_left _ hi)).2

set_option maxRecDepth 20000 in
/-- A random byte, a shift of a register into itself, a return that fails and a jump. -/
theorem dialects_agree_four :
    let program : List UInt8 := [0xC1, 0xFF, 0x81, 0x16, 0x00, 0xEE, 0x12, 0x00]
    let actions : List Action := [.step, .press 3, .step, .step, .tick, .step]
    let legacy := loadedWith .legacy 0 program
    let modern := loadedWith .modern 0 program
    legacy.stepResults actions =
        [.ok ⟨0xC1FF⟩, .ok ⟨0x8116⟩, .error (.fault .stackUnderflow), .ok ⟨0x1200⟩] ∧
      (∀ i, .ok i ∈ legacy.stepResults actions → ¬i.Disputed) ∧
      modern.run actions = { legacy.run actions with dialect := .modern } := by
  intro program actions legacy modern
  have hresults : legacy.stepResults actions =
      [.ok ⟨0xC1FF⟩, .ok ⟨0x8116⟩, .error (.fault .stackUnderflow), .ok ⟨0x1200⟩] := by
    decide +kernel
  have hagree : ∀ i, .ok i ∈ legacy.stepResults actions → ¬i.Disputed := by
    intro i hi
    rw [hresults] at hi
    simp only [List.mem_cons, Except.ok.injEq, reduceCtorEq, List.not_mem_nil, false_or,
      or_false] at hi
    rcases hi with rfl | rfl | rfl <;> decide
  obtain ⟨-, hruns⟩ := dialects_agree 0 program actions hagree
  exact ⟨hresults, hagree, hruns actions List.prefix_rfl⟩

end Machine

end Chip8
