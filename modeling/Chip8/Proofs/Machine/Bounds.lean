import Chip8.Proofs.Keypad
import Chip8.Proofs.Machine.Run
import Chip8.Proofs.Screen

/-!
# Bounds

What a machine holds stays in bounds (`Bounded`), whatever the program does and whatever happens
between its steps, and so no step ever gets stuck: no sum leaves sixteen bits and no access leaves
its table.

* `execute_safely`: an operation that was fetched ends within the bounds or fails for a cause;
* `act_safely`: so does every action;
* `run_bounded`: so does every run of a new machine.
-/

namespace Chip8.Machine

/-- What a machine holds is in bounds. The program counter may be as far out as `BNNN` goes; what is
called from lies behind an instruction that was fetched. -/
structure Bounded (m : Machine) : Prop where
  index_le : m.index.toNat ≤ 0xFFF
  pc_le : m.pc.toNat ≤ 0x10FE
  depth_le : m.stack.depth ≤ 16
  frames : ∀ addr ∈ m.stack.frames,
    addr.toNat % 2 = 0 ∧ 0x202 ≤ addr.toNat ∧ addr.toNat ≤ 0x1000
  monochrome : m.screen.Monochrome
  key_lt : ∀ key, m.keyWait = some (.release key) → key.toNat < 16

/-- The machine is in bounds and its program counter has just passed an instruction. -/
structure Fetched (m : Machine) : Prop extends Bounded m where
  pc_even : m.pc.toNat % 2 = 0
  le_pc : 0x202 ≤ m.pc.toNat
  pc_le_end : m.pc.toNat ≤ 0x1000

variable {m m' : Machine}

theorem bounded_fresh (dialect : Dialect) (seed : UInt64) : (fresh dialect seed).Bounded :=
  ⟨by simp [fresh], by simp [fresh, Memory.programStart], by simp [fresh, CallStack.depth],
    by simp [fresh], Screen.monochrome_blank, by simp [fresh]⟩

theorem Bounded.congr (hm : m.Bounded) (hi : m'.index = m.index) (hp : m'.pc = m.pc)
    (hs : m'.stack = m.stack) (hscreen : m'.screen = m.screen) (hwait : m'.keyWait = m.keyWait) :
    m'.Bounded where
  index_le := hi ▸ hm.index_le
  pc_le := hp ▸ hm.pc_le
  depth_le := hs ▸ hm.depth_le
  frames := hs ▸ hm.frames
  monochrome := hscreen ▸ hm.monochrome
  key_lt := hwait ▸ hm.key_lt

theorem Bounded.withPc {pc : UInt16} (hm : m.Bounded) (hp : pc.toNat ≤ 0x10FE) :
    ({ m with pc } : Machine).Bounded :=
  { hm with pc_le := hp }

theorem Bounded.withIndex {index : UInt16} (hm : m.Bounded) (hi : index.toNat ≤ 0xFFF) :
    ({ m with index } : Machine).Bounded :=
  { hm with index_le := hi }

theorem Bounded.withScreen {screen : Screen} (hm : m.Bounded) (hs : screen.Monochrome) :
    ({ m with screen } : Machine).Bounded :=
  { hm with monochrome := hs }

theorem Bounded.withKeyWait {keyWait : Option KeyWait} (hm : m.Bounded)
    (hk : ∀ key, keyWait = some (.release key) → key.toNat < 16) :
    ({ m with keyWait } : Machine).Bounded :=
  { hm with key_lt := hk }

theorem Bounded.fetched (hm : m.Bounded) (h : fetchable m.pc = true) : m.fetched.Fetched := by
  have hpc := toNat_pc_fetched h
  obtain ⟨heven, hle, hge⟩ := fetchable_iff.1 h
  have hend : m.fetched.pc.toNat ≤ 0x10FE := by omega
  exact ⟨hm.withPc hend, by omega, by omega, by omega⟩

/-! ## Parts of operations -/

theorem wrap_le (a : UInt16) : (Word.wrap a).toNat ≤ 0xFFF := by
  rw [Word.toNat_wrap]
  omega

theorem skip_safely (hm : m.Fetched) : Safely Bounded m.skip := by
  have hpc := hm.pc_le_end
  rw [skip_of_lt (by omega)]
  refine hm.withPc ?_
  rw [UInt16.toNat_add]
  simp
  omega

theorem skipIf_safely (hm : m.Fetched) (condition : Bool) :
    Safely Bounded (m.skipIf condition) := by
  cases condition with
  | true => exact skip_safely hm
  | false => exact hm.toBounded

theorem skipOn_safely (hm : m.Fetched) (r : Result Bool) (hr : r ≠ .error .stuck)
    (f : Bool → Bool) : Safely Bounded (do m.skipIf (f (← r))) := by
  rcases r with (cause | -) | down
  · exact trivial
  · exact absurd rfl hr
  · exact skipIf_safely hm _

theorem rewind_safely (hm : m.Fetched) : Safely Bounded m.rewind := by
  have hpc := hm.le_pc
  have hend := hm.pc_le_end
  rw [rewind_of_le (by omega)]
  refine hm.withPc ?_
  rw [UInt16.toNat_sub]
  simp
  omega

theorem passCells_safely (hm : m.Bounded) (x : Register) : Safely Bounded (m.passCells x) := by
  have hi := hm.index_le
  rw [passCells_eq (by omega)]
  split
  · have hwrap := toNat_ofNat_mod (m.index.toNat + (x.val + 1))
    exact hm.withIndex (by omega)
  · exact hm

theorem waitKey_safely (hm : m.Fetched) (x : Register) : Safely Bounded (m.waitKey x) := by
  unfold waitKey
  split
  · rename_i key hwait
    have hkey : key.toNat = (⟨key.toNat, hm.key_lt key hwait⟩ : Fin 16).val := rfl
    rw [Keypad.isPressed_eq hkey, ok_bind, Keypad.wasReleased_eq hkey, ok_bind]
    split
    · exact rewind_safely hm
    · have hnone : ({ m with keyWait := none } : Machine).Bounded := hm.withKeyWait (by simp)
      exact hnone.congr rfl rfl rfl rfl rfl
  · refine rewind_safely ⟨hm.withKeyWait ?_, hm.pc_even, hm.le_pc, hm.pc_le_end⟩
    intro key hkey
    split at hkey
    · rename_i k _
      rw [KeyWait.untilUp_eq_release.1 (Option.some.inj hkey)]
      exact k.isLt
    · cases hkey

/-! ## Operations -/

theorem ret_safely (hm : m.Fetched) : Safely Bounded (m.execute .ret) := by
  have hdepth := hm.depth_le
  have hframes := hm.frames
  cases hs : m.stack.frames with
  | nil =>
    rw [execute, CallStack.pop, hs]
    exact trivial
  | cons addr rest =>
    rw [execute, CallStack.pop, hs, ok_bind]
    rw [CallStack.depth, hs, List.length_cons] at hdepth
    rw [hs] at hframes
    obtain ⟨-, -, haddr⟩ := hframes addr (by simp)
    refine ⟨hm.index_le, by dsimp only; omega, by dsimp only [CallStack.depth]; omega, ?_,
      hm.monochrome, hm.key_lt⟩
    exact fun frame hframe => hframes frame (by simp_all)

/-- What is called from lies behind an instruction, which is why each frame has its bounds. -/
theorem call_safely (hm : m.Fetched) {target : UInt16} (ht : target.toNat < 4096) :
    Safely Bounded (m.execute (.call target)) := by
  rw [execute, CallStack.push]
  split
  · rename_i hdepth
    rw [ok_bind]
    refine ⟨hm.index_le, by dsimp only; omega, hdepth, ?_, hm.monochrome, hm.key_lt⟩
    intro addr haddr
    rcases List.mem_cons.1 haddr with rfl | haddr
    · exact ⟨hm.pc_even, hm.le_pc, hm.pc_le_end⟩
    · exact hm.frames addr haddr
  · exact trivial

theorem jumpOffset_safely (hm : m.Fetched) (x : Register) {target : UInt16}
    (ht : target.toNat < 4096) : Safely Bounded (m.execute (.jumpOffset x target)) := by
  have key : ∀ offset : UInt8, Safely Bounded
      (do return { m with pc := ← Word.add target offset.toNat }) := by
    intro offset
    have hoffset := offset.toNat_lt
    rw [Word.add_of_lt (by omega), ok_bind]
    refine hm.withPc ?_
    rw [UInt16.toNat_ofNat']
    omega
  exact key _

theorem addIndex_safely (hm : m.Fetched) (x : Register) :
    Safely Bounded (m.execute (.addIndex x)) := by
  have hi := hm.index_le
  have hx := (m.get x).toNat_lt
  rw [execute, Word.add_of_lt (by omega), ok_bind]
  exact (hm.withIndex (wrap_le _)).congr rfl rfl rfl rfl rfl

theorem glyph_safely (hm : m.Fetched) (x : Register) : Safely Bounded (m.execute (.glyph x)) := by
  refine hm.withIndex ?_
  rw [Memory.toNat_glyphAddr]
  omega

theorem decimalDigits_safely (hm : m.Fetched) (x : Register) :
    Safely Bounded (m.execute (.decimalDigits x)) := by
  have hi := hm.index_le
  rw [execute, storeBytes_eq (by simp; omega)]
  exact hm.congr rfl rfl rfl rfl rfl

theorem store_safely (hm : m.Fetched) (x : Register) : Safely Bounded (m.execute (.store x)) := by
  have hi := hm.index_le
  have hlen : ((upTo x).map m.get).length ≤ 16 := by
    rw [List.length_map]
    exact Nat.le_trans (List.length_filter_le _ _) (by simp)
  rw [execute, storeBytes_eq (by omega), ok_bind]
  refine passCells_safely ?_ x
  exact hm.congr rfl rfl rfl rfl rfl

theorem load_safely (hm : m.Fetched) (x : Register) : Safely Bounded (m.execute (.load x)) := by
  have hi := hm.index_le
  rw [execute, loadRegisters_eq (by omega), ok_bind]
  refine passCells_safely ?_ x
  exact hm.congr rfl rfl rfl rfl rfl

theorem draw_safely (hm : m.Fetched) (x y : Register) (rows : Fin 16) :
    Safely Bounded (m.execute (.draw x y rows)) := by
  have hi := hm.index_le
  have hrows := rows.isLt
  rw [execute, sprite_eq (by omega), ok_bind, Screen.drawSprite_eq, ok_bind]
  exact (hm.withScreen (hm.monochrome.draw _ _ _)).congr rfl rfl rfl rfl rfl

/-- **An operation that was fetched ends within the bounds or fails for a cause.** -/
theorem execute_safely (hm : m.Fetched) {op : Operation} (hop : op.Narrow) :
    Safely Bounded (m.execute op) := by
  cases op
  case ret => exact ret_safely hm
  case call target => exact call_safely hm hop
  case jump target => exact hm.withPc (by simp only [Operation.Narrow] at hop; omega)
  case jumpOffset x target => exact jumpOffset_safely hm x hop
  case setIndex addr => exact hm.withIndex (by simp only [Operation.Narrow] at hop; omega)
  case addIndex x => exact addIndex_safely hm x
  case glyph x => exact glyph_safely hm x
  case skipIfValue | skipUnlessValue | skipIfSame | skipUnlessSame => exact skipIf_safely hm _
  case skipIfKey x => exact skipOn_safely hm _ (m.keypad.isPressed_ne_stuck (m.get x)) id
  case skipUnlessKey x => exact skipOn_safely hm _ (m.keypad.isPressed_ne_stuck (m.get x)) not
  case waitKey x => exact waitKey_safely hm x
  case decimalDigits x => exact decimalDigits_safely hm x
  case store x => exact store_safely hm x
  case load x => exact load_safely hm x
  case draw x y rows => exact draw_safely hm x y rows
  case or | and | xor =>
    simp only [execute, setBitwise, Safely]
    split <;> exact hm.congr rfl rfl rfl rfl rfl
  case random x mask =>
    -- Named before it is looked at: evaluating it would run the generator.
    rcases hnext : m.random.next with ⟨byte, random⟩
    simp only [execute, hnext]
    exact hm.congr rfl rfl rfl rfl rfl
  case clear => exact hm.withScreen Screen.monochrome_blank
  case setValue | addValue | move | add | sub | subReversed | shiftRight | shiftLeft
      | readDelay | setDelay | setSound =>
    exact hm.congr rfl rfl rfl rfl rfl

/-! ## Steps and runs -/

theorem step_safely (hm : m.Bounded) : m.step.state.Bounded ∧ m.step.result ≠ .error .stuck := by
  cases hf : fetchable m.pc with
  | false =>
    rw [step_of_not_fetchable hf]
    exact ⟨hm, by simp [Outcome.failed]⟩
  | true =>
    have hfetched := hm.fetched hf
    cases hop : m.instruction.operation? with
    | none =>
      rw [step_of_unknown hf hop]
      exact ⟨hfetched.toBounded, by simp [Outcome.failed]⟩
    | some op =>
      have hsafe := execute_safely hfetched (Instruction.narrow hop)
      cases hx : m.fetched.execute op with
      | ok after =>
        rw [step_of_ok hf hop hx]
        exact ⟨hsafe.of_ok hx, by simp⟩
      | error stop =>
        rw [step_of_error hf hop hx]
        have hstop : stop ≠ .stuck := fun h => hsafe.ne_stuck (h ▸ hx)
        exact ⟨hfetched.toBounded, by simpa [Outcome.failed] using hstop⟩

/-- **An action ends within the bounds, and if it fails, then for a cause.** -/
theorem act_safely (hm : m.Bounded) (a : Action) :
    (m.act a).state.Bounded ∧ (m.act a).result ≠ .error .stuck := by
  by_cases ha : a = .step
  · subst ha
    obtain ⟨hstate, hresult⟩ := step_safely hm
    refine ⟨hstate, ?_⟩
    cases hr : m.step.result with
    | ok instruction => simp [act, hr, Except.map]
    | error stop =>
      rw [hr] at hresult
      simpa [act, hr, Except.map] using hresult
  · obtain ⟨memory, keypad, timers, heq, -⟩ := m.act_outside ha
    rw [heq]
    exact ⟨hm.congr rfl rfl rfl rfl rfl, act_outside_ne_stuck ha⟩

theorem Bounded.run (hm : m.Bounded) (actions : List Action) : (m.run actions).Bounded :=
  run_induction hm fun _ hm a _ => (act_safely hm a).1

theorem bounded_run (dialect : Dialect) (seed : UInt64) (actions : List Action) :
    ((fresh dialect seed).run actions).Bounded :=
  (bounded_fresh dialect seed).run actions

theorem bounded_loadedWith (dialect : Dialect) (seed : UInt64) (program : List UInt8) :
    (loadedWith dialect seed program).Bounded :=
  bounded_run dialect seed [.load program]

/-- **A run of a new machine stays within the bounds and gets stuck nowhere**, whatever its actions,
and going on after those that fail. -/
theorem run_bounded (dialect : Dialect) (seed : UInt64) (actions : List Action) :
    let m := (fresh dialect seed).run actions
    m.index.toNat ≤ 0xFFF ∧ m.pc.toNat ≤ 0x10FE ∧ m.stack.depth ≤ 16 ∧
      (∀ addr ∈ m.stack.frames, addr.toNat % 2 = 0 ∧ 0x202 ≤ addr.toNat ∧ addr.toNat ≤ 0x1000) ∧
      (∀ x y, m.screen.pixel x y = 0 ∨ m.screen.pixel x y = 1) ∧
      (∀ key, m.keyWait = some (.release key) → key.toNat < 16) ∧
      m.memory.cells.toList.length = 4096 ∧
      m.step.result ≠ .error .stuck ∧ ∀ a, (m.act a).result ≠ .error .stuck := by
  intro m
  have hm : m.Bounded :=
    run_induction (bounded_fresh dialect seed) fun m hm a _ => (act_safely hm a).1
  refine ⟨hm.index_le, hm.pc_le, hm.depth_le, hm.frames, hm.monochrome, hm.key_lt, ?_, ?_, ?_⟩
  · exact Vector.length_toList
  · exact (step_safely hm).2
  · exact fun a => (act_safely hm a).2

end Chip8.Machine
