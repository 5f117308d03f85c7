import Chip8.CallStack
import Chip8.Dialect
import Chip8.Instruction
import Chip8.Keypad
import Chip8.Memory
import Chip8.Random
import Chip8.Screen
import Chip8.Timers

/-!
# The machine

Everything that a running program can see or change. Words are held in sixteen bits although
addresses need only twelve: an instruction may leave the program counter where nothing can be
fetched, and it is the next fetch that fails.
-/

namespace Chip8

/-- How far a wait for a key has come. -/
inductive KeyWait
  /-- No key went down yet. -/
  | press
  /-- The key of this number went down and has to come up. -/
  | release (key : KeyNumber)
  deriving DecidableEq, Repr

/-- Waiting for one of the keys to come up. -/
def KeyWait.untilUp (k : Fin 16) : KeyWait := .release (.of k)

/-- The state of the machine. -/
structure Machine where
  memory : Memory
  screen : Screen
  registers : Vector UInt8 16
  index : UInt16
  pc : UInt16
  stack : CallStack
  timers : Timers
  dialect : Dialect
  keypad : Keypad
  keyWait : Option KeyWait
  random : Random
  deriving DecidableEq

namespace Machine

/-- A machine without a program. -/
def fresh (dialect : Dialect) (seed : UInt64) : Machine where
  memory := .fresh
  screen := .blank
  registers := Vector.replicate 16 0
  index := 0
  pc := Memory.programStart
  stack := {}
  timers := {}
  dialect := dialect
  keypad := .fresh
  keyWait := none
  random := { seed }

/-- Loads a program; the result is its length and the machine that holds it. -/
def load (m : Machine) (program : List UInt8) : Result (Nat × Machine) := do
  let (length, memory) ← m.memory.load program
  return (length, { m with memory })

/-- A register's value. -/
def get (m : Machine) (x : Register) : UInt8 := m.registers[x]

/-- The register of a number, if there is one. -/
def register (m : Machine) (index : Nat) : Result UInt8 :=
  match m.registers[index]? with
  | some value => .ok value
  | none => .error .stuck

/-- The machine with a value in a register. -/
def set (m : Machine) (x : Register) (value : UInt8) : Machine :=
  { m with registers := m.registers.set x value }

theorem get_set (m : Machine) (x y : Register) (value : UInt8) :
    (m.set x value).get y = if x = y then value else m.get y := by
  simp only [get, set, Fin.getElem_fin, Vector.getElem_set, Fin.ext_iff]

/-- The machine with the flag `VF` up or down. -/
def setFlag (m : Machine) (up : Bool) : Machine :=
  m.set 0xF (if up then 1 else 0)

/-- Whether the timers are held: a key went down for a waiting instruction and is not up yet. -/
def timersHeld (m : Machine) : Bool :=
  match m.keyWait with
  | some (.release _) => true
  | _ => false

end Machine

end Chip8
