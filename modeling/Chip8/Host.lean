import Chip8.Beeper
import Chip8.Fault
import Chip8.Screen

/-!
# The host

What the emulator runs on: a display that shows frames, an input that is polled, and a beeper. This
host plays its input from a script, keeps what it was shown, and refuses calls by plan. A refused
call counts as made but does nothing else. A bare host has no terminal to give away: it grants the
calls about the terminal without doing or counting anything.
-/

namespace Chip8

/-- What the input reports at a poll. -/
inductive Scripted
  | idle
  | press (key : UInt8)
  | release (key : UInt8)
  | quit
  deriving DecidableEq, Repr

/-- How often each call was made. -/
structure CallCounts where
  draw : Nat := 0
  invalidate : Nat := 0
  poll : Nat := 0
  suspend : Nat := 0
  resume : Nat := 0
  beep : Nat := 0
  stop : Nat := 0
  deriving DecidableEq, Repr

namespace CallCounts

/-- How often a call was made. -/
def get (counts : CallCounts) : HostCall → Nat
  | .draw => counts.draw
  | .invalidate => counts.invalidate
  | .poll => counts.poll
  | .suspend => counts.suspend
  | .resume => counts.resume
  | .beep => counts.beep
  | .stop => counts.stop

/-- One more call. -/
def add (counts : CallCounts) : HostCall → CallCounts
  | .draw => { counts with draw := counts.draw + 1 }
  | .invalidate => { counts with invalidate := counts.invalidate + 1 }
  | .poll => { counts with poll := counts.poll + 1 }
  | .suspend => { counts with suspend := counts.suspend + 1 }
  | .resume => { counts with resume := counts.resume + 1 }
  | .beep => { counts with beep := counts.beep + 1 }
  | .stop => { counts with stop := counts.stop + 1 }

end CallCounts

/-- The host's state. -/
structure Host where
  /-- What the input will report, poll by poll; after the script it is idle. -/
  script : List Scripted := []
  /-- Whether the call of this number, from one, is refused. -/
  refuses : HostCall → Nat → Bool := fun _ _ => false
  bare : Bool := false
  calls : CallCounts := {}
  /-- How many frames were shown, and the last of them. -/
  frames : Nat := 0
  lastFrame : Option Screen := none
  invalidations : Nat := 0
  polls : Nat := 0
  suspended : Bool := false
  beeper : Beeper := {}

namespace Host

/-- Whether the host has nothing to do for a call. -/
def ignores (h : Host) (call : HostCall) : Bool :=
  h.bare && (call = .invalidate || call = .suspend || call = .resume)

/-- A call is made: whether it is granted, and the host that counted it. -/
def receive (h : Host) (call : HostCall) : Bool × Host :=
  if h.ignores call then (true, h)
  else
    let calls := h.calls.add call
    (!h.refuses call (calls.get call), { h with calls })

/-- Shows a frame. -/
def display (h : Host) (frame : Screen) : Host :=
  { h with frames := h.frames + 1, lastFrame := some frame }

/-- Forgets what the display shows. -/
def invalidate (h : Host) : Host :=
  if h.bare then h else { h with invalidations := h.invalidations + 1 }

/-- Gives the terminal away or takes it back. -/
def setSuspended (h : Host) (suspended : Bool) : Host :=
  if h.bare then h else { h with suspended }

/-- Plays the next entry of the script. -/
def poll (h : Host) : Scripted × Host :=
  (h.script.headD .idle, { h with script := h.script.tail, polls := h.polls + 1 })

/-- Switches the beeper. -/
def switch (h : Host) (on : Bool) : Host := { h with beeper := h.beeper.switch on }

end Host

end Chip8
