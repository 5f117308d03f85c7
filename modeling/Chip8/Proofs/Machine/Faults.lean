import Chip8.Proofs.Machine.Step
import Chip8.Proofs.Screen

/-!
# The faults of operations

Five operations can fail for a cause, and each for one: a call on a full stack, a return on an empty
one, and the three that look at a key, when there is no such key (`Machine.Fails`).

* `fails_of_execute`: no operation fails for another cause;
* `step_ne_transfer`: nothing that a step does is a transfer.
-/

namespace Chip8

theorem Keypad.eq_of_keyOf {key : KeyNumber} {cause : Fault}
    (h : keyOf key = .error (.fault cause)) : 16 ≤ key.toNat ∧ cause = .invalidKey key := by
  unfold keyOf at h
  split at h
  · cases h
  · cases h
    exact ⟨by omega, rfl⟩

theorem Keypad.eq_of_isPressed {p : Keypad} {key : KeyNumber} {cause : Fault}
    (h : p.isPressed key = .error (.fault cause)) : 16 ≤ key.toNat ∧ cause = .invalidKey key := by
  rcases bind_eq_error.1 h with hkey | ⟨k, -, hget⟩
  · exact eq_of_keyOf hkey
  · cases hget

theorem Keypad.eq_of_wasReleased {p : Keypad} {key : KeyNumber} {cause : Fault}
    (h : p.wasReleased key = .error (.fault cause)) :
    16 ≤ key.toNat ∧ cause = .invalidKey key := by
  rcases bind_eq_error.1 h with hkey | ⟨k, -, hget⟩
  · exact eq_of_keyOf hkey
  · cases hget

namespace Machine

/-! ## Parts of operations -/

theorem faultless_add (a : UInt16) (b : Nat) : Faultless (Word.add a b) := by
  unfold Word.add
  split
  · exact faultless_ok _
  · exact faultless_stuck

theorem faultless_read (memory : Memory) (addr : UInt16) : Faultless (memory.read addr) := by
  unfold Memory.read
  split
  · exact faultless_ok _
  · exact faultless_stuck

theorem faultless_set (memory : Memory) (addr : UInt16) (byte : UInt8) :
    Faultless (memory.set addr byte) := by
  unfold Memory.set
  split
  · exact faultless_ok _
  · exact faultless_stuck

theorem faultless_skip (m : Machine) : Faultless m.skip :=
  (faultless_add _ _).bind fun _ => faultless_ok _

theorem faultless_skipIf (m : Machine) (condition : Bool) : Faultless (m.skipIf condition) := by
  unfold skipIf
  split
  · exact m.faultless_skip
  · exact faultless_ok m

theorem faultless_cell (m : Machine) (offset : Nat) : Faultless (m.cell offset) :=
  (faultless_add _ _).bind fun _ => faultless_ok _

theorem faultless_sprite (m : Machine) (rows : Nat) : Faultless (m.sprite rows) :=
  faultless_mapM (fun row => (m.faultless_cell row).bind fun _ => faultless_read _ _) _

theorem faultless_storeBytes (m : Machine) (bytes : List UInt8) :
    Faultless (m.storeBytes bytes) := by
  refine Faultless.bind (faultless_foldlM ?_ _ _) fun _ => faultless_ok _
  exact fun memory p => (m.faultless_cell p.2).bind fun addr => faultless_set memory addr p.1

theorem faultless_loadRegisters (m : Machine) (targets : List Register) :
    Faultless (m.loadRegisters targets) := by
  refine faultless_foldlM ?_ _ _
  intro loaded x
  refine (m.faultless_cell x.val).bind fun addr => ?_
  exact (faultless_read _ addr).bind fun _ => faultless_ok _

theorem faultless_passCells (m : Machine) (x : Register) : Faultless (m.passCells x) := by
  unfold passCells
  split
  · exact (m.faultless_cell _).bind fun _ => faultless_ok _
  · exact faultless_ok m

/-! ## Operations -/

/-- Why an operation fails. -/
inductive Fails (m : Machine) : Operation → Fault → Prop
  | call (target : UInt16) (full : 16 ≤ m.stack.depth) :
    Fails m (.call target) (.stackOverflow (m.stack.depth + 1))
  | ret (empty : m.stack.frames = []) : Fails m .ret .stackUnderflow
  | skipIfKey (x : Register) (noKey : 16 ≤ (m.get x).toNat) :
    Fails m (.skipIfKey x) (.invalidKey (m.get x))
  | skipUnlessKey (x : Register) (noKey : 16 ≤ (m.get x).toNat) :
    Fails m (.skipUnlessKey x) (.invalidKey (m.get x))
  | waitKey (x : Register) (key : KeyNumber) (waits : m.keyWait = some (.release key))
    (noKey : 16 ≤ key.toNat) : Fails m (.waitKey x) (.invalidKey key)

variable {m : Machine} {op : Operation} {cause : Fault}

theorem fails_of_waitKey {x : Register} (h : m.waitKey x = .error (.fault cause)) :
    m.Fails (.waitKey x) cause := by
  unfold waitKey at h
  split at h
  · rename_i key hwait
    rcases bind_eq_error.1 h with hpressed | ⟨down, -, hrest⟩
    · obtain ⟨hkey, rfl⟩ := Keypad.eq_of_isPressed hpressed
      exact .waitKey x key hwait hkey
    rcases bind_eq_error.1 hrest with hreleased | ⟨wentUp, -, hend⟩
    · obtain ⟨hkey, rfl⟩ := Keypad.eq_of_wasReleased hreleased
      exact .waitKey x key hwait hkey
    split at hend
    · exact absurd hend (m.faultless_rewind cause)
    · cases hend
  · exact absurd h (faultless_rewind _ cause)

/-- **No operation fails for a cause but these.** -/
theorem fails_of_execute (h : m.execute op = .error (.fault cause)) : m.Fails op cause := by
  have faultless : ¬Faultless (m.execute op) := fun hnone => hnone cause h
  cases op
  case call target =>
    rw [execute, CallStack.push] at h
    split at h
    · cases h
    · rename_i hfull
      cases h
      exact .call target (Nat.le_of_not_lt hfull)
  case ret =>
    rw [execute, CallStack.pop] at h
    split at h
    · cases h
    · rename_i hempty
      cases h
      exact .ret hempty
  case skipIfKey x =>
    rcases bind_eq_error.1 h with hpressed | ⟨down, -, hskip⟩
    · obtain ⟨hkey, rfl⟩ := Keypad.eq_of_isPressed hpressed
      exact .skipIfKey x hkey
    · exact absurd hskip (m.faultless_skipIf _ cause)
  case skipUnlessKey x =>
    rcases bind_eq_error.1 h with hpressed | ⟨down, -, hskip⟩
    · obtain ⟨hkey, rfl⟩ := Keypad.eq_of_isPressed hpressed
      exact .skipUnlessKey x hkey
    · exact absurd hskip (m.faultless_skipIf _ cause)
  case waitKey x => exact fails_of_waitKey h
  case skipIfValue | skipUnlessValue | skipIfSame | skipUnlessSame =>
    exact absurd (m.faultless_skipIf _) faultless
  case jumpOffset | addIndex =>
    exact absurd ((faultless_add _ _).bind fun _ => faultless_ok _) faultless
  case draw =>
    refine absurd ((m.faultless_sprite _).bind fun sprite => ?_) faultless
    rw [Screen.drawSprite_eq]
    exact faultless_ok _
  case decimalDigits => exact absurd (m.faultless_storeBytes _) faultless
  case store x =>
    exact absurd ((m.faultless_storeBytes _).bind fun stored => stored.faultless_passCells x)
      faultless
  case load x =>
    exact absurd ((m.faultless_loadRegisters _).bind fun loaded => loaded.faultless_passCells x)
      faultless
  all_goals cases h

/-! ## Steps -/

/-- No operation complains that there is none. -/
theorem step_eq_unknown_iff (hf : fetchable m.pc = true) :
    m.step.result = .error (.fault (.unknownInstruction m.instruction.word m.pc)) ↔
      m.instruction.operation? = none := by
  constructor
  · intro h
    cases hop : m.instruction.operation? with
    | none => rfl
    | some op =>
      cases hx : m.fetched.execute op with
      | ok after =>
        rw [step_of_ok hf hop hx] at h
        cases h
      | error stop =>
        rw [step_of_error hf hop hx] at h
        cases h
        cases fails_of_execute hx
  · intro hop
    rw [step_of_unknown hf hop]
    rfl

/-- Nothing that a step does is a transfer. -/
theorem step_ne_transfer (m : Machine) (failure : TransferFailure) :
    m.step.result ≠ .error (.fault (.transfer failure)) := by
  refine m.step_cases (P := fun o => o.result ≠ .error (.fault (.transfer failure))) ?_ ?_ ?_ ?_
  · intro _ h
    cases h
  · intro _ _ h
    cases h
  · intro op stop _ _ hx h
    cases h
    cases fails_of_execute hx
  · intro op after _ _ _ h
    cases h

end Machine

end Chip8
