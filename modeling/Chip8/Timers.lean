/-!
# Timers

Two counters that fall to zero at sixty steps a second, and the clock that says, instruction by
instruction, when such a step is due.
-/

namespace Chip8

/-- The delay and the sound counter. -/
structure Timers where
  delay : UInt8 := 0
  sound : UInt8 := 0
  deriving DecidableEq, Repr

namespace Timers

/-- One less, and zero stays zero. -/
def fall (count : UInt8) : UInt8 :=
  if count = 0 then 0 else count - 1

/-- A sixtieth of a second passes. -/
def tick (t : Timers) : Timers := ⟨fall t.delay, fall t.sound⟩

/-- Whether the beeper is to sound. -/
def sounding (t : Timers) : Bool := 0 < t.sound

/-- The timers before each of `n` ticks, and after the last. -/
def history (t : Timers) : (n : Nat) → List Timers
  | 0 => [t]
  | n + 1 => t :: t.tick.history n

end Timers

/-- Counts instructions up to the length of a frame. -/
structure FrameClock where
  period : Nat
  count : Nat := 0
  deriving DecidableEq, Repr

namespace FrameClock

/-- The clock for a rate in instructions a second: sixty frames a second, and at least one
instruction a frame. -/
def ofRate (rate : UInt32) : FrameClock := { period := max 1 (rate.toNat / 60) }

/-- Counts an instruction; the answer is whether it ends a frame. -/
def advance (c : FrameClock) : Bool × FrameClock :=
  if c.period ≤ c.count + 1 then (true, { c with count := 0 })
  else (false, { c with count := c.count + 1 })

/-- Counts one more instruction, with the numbers of those that ended a frame. -/
def advanceNoting (s : FrameClock × List Nat) (done : Nat) : FrameClock × List Nat :=
  match s.1.advance with
  | (true, c) => (c, (done + 1) :: s.2)
  | (false, c) => (c, s.2)

/-- Which of the next `n` instructions end a frame, counted from one. -/
def hits (c : FrameClock) (n : Nat) : List Nat :=
  ((List.range n).foldl advanceNoting (c, [])).2.reverse

end FrameClock

end Chip8
