import Chip8.Proofs.Emulator.Cycle

/-!
# Runs of an emulator

The emulator's driver makes cycles, and may end frames in between. A run is a list of such calls in
any order; it goes on after a call that fails or quits.
-/

namespace Chip8

/-- What the driver of an emulator may call. -/
inductive Call
  | cycle
  | endFrame
  deriving DecidableEq, Repr

namespace Emulator

/-- The emulator after a call. -/
def call (e : Emulator) : Call → Emulator
  | .cycle => (cycle e).state
  | .endFrame => (endFrame e).state

/-- The emulator after a run. -/
def calls (e : Emulator) (run : List Call) : Emulator := run.foldl call e

/-- What the outside sees of a call. -/
def callEvents (e : Emulator) : Call → List Event
  | .cycle => (cycle e).events
  | .endFrame => (endFrame e).events

/-- What the outside sees of a run. -/
def trace (e : Emulator) : List Call → List Event
  | [] => []
  | c :: run => e.callEvents c ++ (e.call c).trace run

/-- A new emulator after the load of a program, which it holds if the load succeeded. -/
def loadedWith (rate : UInt32) (dialect : Dialect) (seed : UInt64) (host : Host)
    (debugger : Option Debugger) (program : List UInt8) : Emulator :=
  (load program (fresh rate dialect seed host debugger)).state

variable {e : Emulator}

@[simp] theorem calls_cons (e : Emulator) (c : Call) (run : List Call) :
    e.calls (c :: run) = (e.call c).calls run := rfl

/-- **What every call keeps, a run keeps.** -/
theorem calls_induction {P : Emulator → Prop} {run : List Call} (h : P e)
    (hcall : ∀ e c, P e → P (e.call c)) : P (e.calls run) := by
  induction run generalizing e with
  | nil => exact h
  | cons c run ih => exact ih (hcall e c h)

theorem loadedWith_eq (rate : UInt32) (dialect : Dialect) (seed : UInt64) (host : Host)
    (debugger : Option Debugger) (program : List UInt8) :
    loadedWith rate dialect seed host debugger program =
      { fresh rate dialect seed host debugger with
        machine := Machine.loadedWith dialect seed program } := by
  have hfresh : (fresh rate dialect seed host debugger).machine.load program =
      (Machine.fresh dialect seed).load program := rfl
  rw [loadedWith, load, Act.state_bind, hfresh, Machine.loadedWith, Machine.act]
  cases (Machine.fresh dialect seed).load program with
  | ok loaded => rfl
  | error stop => rfl

theorem clock_loadedWith (rate : UInt32) (dialect : Dialect) (seed : UInt64) (host : Host)
    (debugger : Option Debugger) (program : List UInt8) :
    (loadedWith rate dialect seed host debugger program).clock = .ofRate rate := by
  rw [loadedWith_eq]
  rfl

theorem machine_loadedWith (rate : UInt32) (dialect : Dialect) (seed : UInt64) (host : Host)
    (debugger : Option Debugger) (program : List UInt8) :
    ∃ memory, (loadedWith rate dialect seed host debugger program).machine =
      { Machine.fresh dialect seed with memory } := by
  rw [loadedWith_eq]
  exact Machine.eq_of_load (.fresh dialect seed) program

end Emulator

end Chip8
