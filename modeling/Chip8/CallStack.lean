import Chip8.Word

/-!
# The call stack

The addresses that calls return to, at most sixteen of them.
-/

namespace Chip8

/-- The return addresses, the innermost call's first. -/
structure CallStack where
  frames : List UInt16 := []
  deriving DecidableEq, Repr

namespace CallStack

/-- How many calls may be open. -/
def capacity : Nat := 16

/-- How many calls are open. -/
def depth (s : CallStack) : Nat := s.frames.length

/-- The return addresses, the outermost call's first. -/
def oldestFirst (s : CallStack) : List UInt16 := s.frames.reverse

/-- Opens a call. -/
def push (s : CallStack) (addr : UInt16) : Result CallStack :=
  if s.depth < capacity then .ok ⟨addr :: s.frames⟩
  else .error (.fault (.stackOverflow (s.depth + 1)))

/-- Closes the innermost call: the address to return to, and the stack without it. -/
def pop (s : CallStack) : Result (UInt16 × CallStack) :=
  match s.frames with
  | addr :: rest => .ok (addr, ⟨rest⟩)
  | [] => .error (.fault .stackUnderflow)

end CallStack

end Chip8
