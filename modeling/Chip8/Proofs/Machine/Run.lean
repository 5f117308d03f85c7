import Chip8.Proofs.Machine.Step

/-!
# Runs of a machine

A machine makes steps, and between them its surroundings press and release keys, end frames, let the
timers fall or set them, and load programs. An `Action` is one such event; a run is a list of them
in any order, and it goes on after an action that fails, from the machine that the failure left.
-/

namespace Chip8

/-- What can happen to a machine. -/
inductive Action
  | step
  | press (key : UInt8)
  | release (key : UInt8)
  | endFrame
  | tick
  | setTimers (timers : Timers)
  | load (program : List UInt8)
  deriving DecidableEq, Repr

/-- Whether the action loads a program. -/
def Action.isLoad : Action → Bool
  | .load _ => true
  | _ => false

namespace Machine

/-- A change of the machine, which leaves it as it is where the change fails. -/
def change (m : Machine) : Result Machine → Outcome Machine Unit
  | .ok after => ⟨.ok (), after, []⟩
  | .error stop => .failed m stop

/-- What an action does. -/
def act (m : Machine) : Action → Outcome Machine Unit
  | .step => ⟨m.step.result.map fun _ => (), m.step.state, m.step.events⟩
  | .press key => m.change do return { m with keypad := ← m.keypad.press key }
  | .release key => m.change do return { m with keypad := ← m.keypad.release key }
  | .endFrame => m.change (.ok { m with keypad := m.keypad.endFrame })
  | .tick => m.change (.ok { m with timers := m.timers.tick })
  | .setTimers timers => m.change (.ok { m with timers })
  | .load program => m.change do return (← m.load program).2

/-- The machine after a run. -/
def run (m : Machine) (actions : List Action) : Machine :=
  actions.foldl (fun m a => (m.act a).state) m

/-- A new machine after the load of a program, which it holds if the load succeeded. -/
def loadedWith (dialect : Dialect) (seed : UInt64) (program : List UInt8) : Machine :=
  ((fresh dialect seed).act (.load program)).state

variable {m m' : Machine}

@[simp] theorem run_nil (m : Machine) : m.run [] = m := rfl

@[simp] theorem run_cons (m : Machine) (a : Action) (actions : List Action) :
    m.run (a :: actions) = (m.act a).state.run actions := rfl

theorem run_append (m : Machine) (first last : List Action) :
    m.run (first ++ last) = (m.run first).run last :=
  List.foldl_append

theorem run_concat (m : Machine) (actions : List Action) (a : Action) :
    m.run (actions ++ [a]) = ((m.run actions).act a).state := by
  rw [run_append]
  rfl

/-- **What every action keeps, a run keeps.** -/
theorem run_induction {P : Machine → Prop} {actions : List Action} (h : P m)
    (hact : ∀ m, P m → ∀ a ∈ actions, P (m.act a).state) : P (m.run actions) := by
  induction actions generalizing m with
  | nil => exact h
  | cons a actions ih =>
    exact ih (hact m h a (by simp)) fun m hm b hb => hact m hm b (by simp [hb])

/-! ## Actions from outside -/

theorem act_press {key : UInt8} {k : Fin 16} (h : Keypad.keyOf key = .ok k) :
    m.act (.press key) = ⟨.ok (), { m with keypad := m.keypad.pressKey k }, []⟩ := by
  simp only [act, Keypad.press, h]
  rfl

theorem act_release {key : UInt8} {k : Fin 16} (h : Keypad.keyOf key = .ok k) :
    m.act (.release key) = ⟨.ok (), { m with keypad := m.keypad.releaseKey k }, []⟩ := by
  simp only [act, Keypad.release, h]
  rfl

theorem act_press_error {key : UInt8} {stop : Stop} (h : Keypad.keyOf key = .error stop) :
    m.act (.press key) = .failed m stop := by
  simp only [act, Keypad.press, h]
  rfl

theorem act_release_error {key : UInt8} {stop : Stop} (h : Keypad.keyOf key = .error stop) :
    m.act (.release key) = .failed m stop := by
  simp only [act, Keypad.release, h]
  rfl

theorem eq_of_load (m : Machine) (program : List UInt8) :
    ∃ memory, (m.act (.load program)).state = { m with memory } := by
  cases hl : m.memory.load program with
  | ok loaded =>
    refine ⟨loaded.2, ?_⟩
    simp only [act, load, hl]
    rfl
  | error stop =>
    refine ⟨m.memory, ?_⟩
    simp only [act, load, hl]
    rfl

/-- An action that is no step changes the memory, the keypad and the timers at most, and only a load
changes the memory. -/
theorem act_outside {a : Action} (ha : a ≠ .step) :
    ∃ memory keypad timers, (m.act a).state = { m with memory, keypad, timers } ∧
      (a.isLoad = false → memory = m.memory) := by
  cases a with
  | step => exact absurd rfl ha
  | press key =>
    cases hk : Keypad.keyOf key with
    | ok k => exact ⟨_, _, _, congrArg Outcome.state (act_press hk), fun _ => rfl⟩
    | error stop => exact ⟨_, _, _, congrArg Outcome.state (act_press_error hk), fun _ => rfl⟩
  | release key =>
    cases hk : Keypad.keyOf key with
    | ok k => exact ⟨_, _, _, congrArg Outcome.state (act_release hk), fun _ => rfl⟩
    | error stop => exact ⟨_, _, _, congrArg Outcome.state (act_release_error hk), fun _ => rfl⟩
  | endFrame => exact ⟨m.memory, _, _, rfl, fun _ => rfl⟩
  | tick => exact ⟨m.memory, _, _, rfl, fun _ => rfl⟩
  | setTimers timers => exact ⟨m.memory, _, _, rfl, fun _ => rfl⟩
  | load program =>
    obtain ⟨memory, heq⟩ := eq_of_load m program
    exact ⟨memory, _, _, heq, fun h => by simp [Action.isLoad] at h⟩

theorem change_ne_error {r : Result Machine} {stop : Stop} (h : r ≠ .error stop) :
    (m.change r).result ≠ .error stop := by
  cases r with
  | ok after => simp [change]
  | error other => simpa [change, Outcome.failed] using h

/-- An action that is no step fails for a cause, if at all. -/
theorem act_outside_ne_stuck {a : Action} (ha : a ≠ .step) :
    (m.act a).result ≠ .error .stuck := by
  cases a with
  | step => exact absurd rfl ha
  | press key | release key =>
    refine change_ne_error ?_
    simp only [Keypad.press, Keypad.release, Keypad.keyOf]
    split <;> simp [ok_bind, error_bind, pure, Except.pure]
  | endFrame | tick | setTimers => exact change_ne_error (by simp)
  | load program =>
    refine change_ne_error ?_
    rw [load, Memory.load_eq]
    split <;> simp [ok_bind, error_bind, pure, Except.pure]

end Machine

end Chip8
