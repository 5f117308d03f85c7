import Chip8.Proofs.Machine.Bounds
import Chip8.Proofs.Machine.Faults

/-!
# What a program perceives

Of its timers and its keypad a program perceives what four instructions tell it
(`Instruction.Perceives`). Machines that are the same but for the two (`Alike`) go through the same
steps until one of them executes such an instruction.

* `execute_alike`: any other operation does the same to machines that are alike;
* `step_alike`: so does a step, be it one that fails.
-/

namespace Chip8

variable {α : Type}

/-! ## Instructions that perceive -/

/-- The instruction looks at a timer or at the keypad: it is `EX9E`, `EXA1`, `FX07` or `FX0A`. -/
def Instruction.Perceives (i : Instruction) : Prop :=
  (i.family.val = 0xE ∧ (i.nn = 0x9E ∨ i.nn = 0xA1)) ∨
  (i.family.val = 0xF ∧ (i.nn = 0x07 ∨ i.nn = 0x0A))

instance : DecidablePred Instruction.Perceives := fun _ => inferInstanceAs (Decidable (_ ∨ _))

/-- The operations of these instructions. -/
def Operation.Perceives : Operation → Prop
  | .skipIfKey _ | .skipUnlessKey _ | .readDelay _ | .waitKey _ => True
  | _ => False

theorem Instruction.perceives_of_operation {i : Instruction} {op : Operation}
    (hop : i.operation? = some op) (hp : op.Perceives) : i.Perceives := by
  have hwords := operation?_eq_some_iff.1 hop
  cases op
  case skipIfKey | skipUnlessKey | readDelay | waitKey =>
    simp_all [Encodes, Encodes.one, Perceives]
  all_goals exact hp.elim

namespace Machine

variable {m m' m₁ m₂ m₃ : Machine} {op : Operation}

/-! ## Machines that are alike -/

/-- The machines are the same but for their timers and their keypads. -/
def Alike (m m' : Machine) : Prop := ∃ timers keypad, m' = { m with timers, keypad }

theorem Alike.refl (m : Machine) : m.Alike m := ⟨_, _, rfl⟩

theorem Alike.symm (h : m.Alike m') : m'.Alike m := by
  obtain ⟨timers, keypad, rfl⟩ := h
  exact ⟨m.timers, m.keypad, rfl⟩

theorem Alike.trans (h : m₁.Alike m₂) (h' : m₂.Alike m₃) : m₁.Alike m₃ := by
  obtain ⟨timers, keypad, rfl⟩ := h
  obtain ⟨timers', keypad', rfl⟩ := h'
  exact ⟨timers', keypad', rfl⟩

theorem Alike.bounded (h : m.Alike m') (hm : m.Bounded) : m'.Bounded := by
  obtain ⟨timers, keypad, rfl⟩ := h
  exact hm.congr rfl rfl rfl rfl rfl

theorem Alike.fetched (h : m.Alike m') : m.fetched.Alike m'.fetched := by
  obtain ⟨timers, keypad, rfl⟩ := h
  exact ⟨_, _, rfl⟩

/-- Two results are alike: machines that are, or none for the same reason. -/
inductive AlikeResults : Result Machine → Result Machine → Prop
  | ok {m m' : Machine} (h : m.Alike m') : AlikeResults (.ok m) (.ok m')
  | error (stop : Stop) : AlikeResults (.error stop) (.error stop)

theorem AlikeResults.bind {r r' : Result Machine} {f f' : Machine → Result Machine}
    (h : AlikeResults r r') (hf : ∀ m m', m.Alike m' → AlikeResults (f m) (f' m')) :
    AlikeResults (r >>= f) (r' >>= f') := by
  cases h with
  | ok hm => exact hf _ _ hm
  | error stop => exact .error stop

/-- What is made of one and the same result. -/
theorem alike_bind {r : Result α} {f f' : α → Result Machine}
    (hf : ∀ a, AlikeResults (f a) (f' a)) : AlikeResults (r >>= f) (r >>= f') := by
  cases r with
  | ok a => exact hf a
  | error stop => exact .error stop

/-! ## Parts of operations -/

theorem skipIf_alike (h : m.Alike m') (condition : Bool) :
    AlikeResults (m.skipIf condition) (m'.skipIf condition) := by
  obtain ⟨timers, keypad, rfl⟩ := h
  cases condition with
  | true => exact alike_bind fun _ => .ok ⟨_, _, rfl⟩
  | false => exact .ok ⟨_, _, rfl⟩

theorem setBitwise_alike (h : m.Alike m') (x : Register) (value : UInt8) :
    (m.setBitwise x value).Alike (m'.setBitwise x value) := by
  obtain ⟨timers, keypad, rfl⟩ := h
  unfold setBitwise
  dsimp only
  split <;> exact ⟨_, _, rfl⟩

theorem passCells_alike (h : m.Alike m') (x : Register) :
    AlikeResults (m.passCells x) (m'.passCells x) := by
  obtain ⟨timers, keypad, rfl⟩ := h
  unfold passCells
  dsimp only
  split
  · exact alike_bind fun _ => .ok ⟨_, _, rfl⟩
  · exact .ok ⟨_, _, rfl⟩

theorem storeBytes_alike (h : m.Alike m') (bytes : List UInt8) :
    AlikeResults (m.storeBytes bytes) (m'.storeBytes bytes) := by
  obtain ⟨timers, keypad, rfl⟩ := h
  exact alike_bind fun _ => .ok ⟨_, _, rfl⟩

theorem loadRegisters_alike (h : m.Alike m') (targets : List Register) :
    AlikeResults (m.loadRegisters targets) (m'.loadRegisters targets) := by
  -- The cells are those of the same memory, while the machines that are loaded differ.
  have hfold : ∀ loaded loaded' : Machine, loaded.Alike loaded' →
      AlikeResults
        (targets.foldlM (fun loaded x => do
          return loaded.set x (← m.memory.read (← m.cell x.val))) loaded)
        (targets.foldlM (fun loaded x => do
          return loaded.set x (← m.memory.read (← m.cell x.val))) loaded') := by
    induction targets with
    | nil => exact fun _ _ hloaded => .ok hloaded
    | cons x targets ih =>
      intro loaded loaded' hloaded
      rw [List.foldlM_cons, List.foldlM_cons]
      refine AlikeResults.bind (alike_bind fun addr => alike_bind fun byte => .ok ?_) ih
      obtain ⟨timers, keypad, rfl⟩ := hloaded
      exact ⟨_, _, rfl⟩
  obtain ⟨timers, keypad, rfl⟩ := h
  exact hfold m _ ⟨_, _, rfl⟩

/-! ## Operations -/

/-- **An operation that perceives nothing does the same to machines that are alike.** -/
theorem execute_alike (h : m.Alike m') (hop : ¬op.Perceives) :
    AlikeResults (m.execute op) (m'.execute op) := by
  obtain ⟨timers, keypad, rfl⟩ := h
  have h : m.Alike { m with timers, keypad } := ⟨_, _, rfl⟩
  cases op
  case skipIfKey | skipUnlessKey | readDelay | waitKey => exact absurd trivial hop
  case ret | call | jumpOffset | addIndex => exact alike_bind fun _ => .ok ⟨_, _, rfl⟩
  case skipIfValue | skipUnlessValue | skipIfSame | skipUnlessSame => exact skipIf_alike h _
  case or | and | xor => exact .ok (setBitwise_alike h _ _)
  case random x mask =>
    -- Named before it is looked at: evaluating it would run the generator.
    rcases hnext : m.random.next with ⟨byte, random⟩
    simp only [execute, hnext]
    exact .ok ⟨_, _, rfl⟩
  case draw => exact alike_bind fun _ => alike_bind fun _ => .ok ⟨_, _, rfl⟩
  case decimalDigits => exact storeBytes_alike h _
  case store x => exact (storeBytes_alike h _).bind fun _ _ hstored => passCells_alike hstored x
  case load x => exact (loadRegisters_alike h _).bind fun _ _ hloaded => passCells_alike hloaded x
  all_goals exact .ok ⟨_, _, rfl⟩

/-- An operation that perceives something and fails in a machine in bounds was asked for a key that
does not exist, and so it fails in machines that are alike. -/
theorem execute_alike_of_error {stop : Stop} (h : m.Alike m') (hm : m.Fetched)
    (hnarrow : op.Narrow) (hop : op.Perceives) (hx : m.execute op = .error stop) :
    m'.execute op = .error stop := by
  obtain ⟨timers, keypad, rfl⟩ := h
  rcases stop with cause | -
  · have hnoKey : ∀ {x : Register}, 16 ≤ (m.get x).toNat →
        keypad.isPressed (m.get x) = .error (.fault (.invalidKey (m.get x))) :=
      fun hle => Keypad.isPressed_of_le hle
    cases fails_of_execute hx with
    | call | ret => exact hop.elim
    | skipIfKey x hle => exact congrArg (· >>= fun down => skipIf _ down) (hnoKey hle)
    | skipUnlessKey x hle => exact congrArg (· >>= fun down => skipIf _ (!down)) (hnoKey hle)
    | waitKey x key waits hle => exact absurd (hm.key_lt key waits) (by omega)
  · exact absurd hx (execute_safely hm hnarrow).ne_stuck

/-! ## Steps -/

/-- What a step executes, it does to machines that are alike, if it perceives nothing. -/
theorem execute_fetched_alike (h : m.Alike m') (hm : m.Bounded) (hf : fetchable m.pc = true)
    (hop : m.instruction.operation? = some op)
    (hstep : ∀ i, m.step.result = .ok i → ¬i.Perceives) :
    AlikeResults (m.fetched.execute op) (m'.fetched.execute op) := by
  have hfetched := h.fetched
  by_cases hp : op.Perceives
  · cases hx : m.fetched.execute op with
    | ok after =>
      have hresult : m.step.result = .ok m.instruction := by rw [step_of_ok hf hop hx]
      exact absurd (Instruction.perceives_of_operation hop hp) (hstep _ hresult)
    | error stop =>
      rw [execute_alike_of_error hfetched (hm.fetched hf) (Instruction.narrow hop) hp hx]
      exact .error stop
  · exact execute_alike hfetched hp

/-- **A step that perceives nothing does the same to machines that are alike.** -/
theorem step_alike (h : m.Alike m') (hm : m.Bounded)
    (hstep : ∀ i, m.step.result = .ok i → ¬i.Perceives) :
    m'.step.result = m.step.result ∧ m.step.state.Alike m'.step.state := by
  have hfetched := h.fetched
  obtain ⟨hinstruction, hpc⟩ : m'.instruction = m.instruction ∧ m'.pc = m.pc := by
    obtain ⟨timers, keypad, rfl⟩ := h
    exact ⟨rfl, rfl⟩
  cases hf : fetchable m.pc with
  | false =>
    have hf' : fetchable m'.pc = false := by rw [hpc, hf]
    rw [step_of_not_fetchable hf, step_of_not_fetchable hf', hpc]
    exact ⟨rfl, h⟩
  | true =>
    have hf' : fetchable m'.pc = true := by rw [hpc, hf]
    cases hop : m.instruction.operation? with
    | none =>
      have hop' : m'.instruction.operation? = none := by rw [hinstruction, hop]
      rw [step_of_unknown hf hop, step_of_unknown hf' hop', hpc, hinstruction]
      exact ⟨rfl, hfetched⟩
    | some op =>
      have hop' : m'.instruction.operation? = some op := by rw [hinstruction, hop]
      have hx := execute_fetched_alike h hm hf hop hstep
      generalize hr : m.fetched.execute op = r, hr' : m'.fetched.execute op = r' at hx
      cases hx with
      | ok hafter =>
        rw [step_of_ok hf hop hr, step_of_ok hf' hop' hr', hinstruction]
        exact ⟨rfl, hafter⟩
      | error stop =>
        rw [step_of_error hf hop hr, step_of_error hf' hop' hr']
        exact ⟨rfl, hfetched⟩

end Machine

end Chip8
