import Chip8.Dialect
import Chip8.Fault
import Chip8.Instruction
import Chip8.Screen

/-!
# Events

What an activity lets the outside see besides its result: the notices it writes to the log, its
talk with the console, and its calls to the host. Events are data; `Notice.text` puts a notice into
words.
-/

namespace Chip8

open Text (decimal hex)

/-- How much a notice matters. -/
inductive Level
  | trace
  | debug
  | info
  | warn
  | error
  deriving DecidableEq, Repr

/-- The level's name. -/
def Level.name : Level → String
  | .trace => "TRACE"
  | .debug => "DEBUG"
  | .info => "INFO"
  | .warn => "WARN"
  | .error => "ERROR"

/-- What is written to the log. -/
inductive Notice
  /-- An instruction was executed. -/
  | executed (addr : UInt16) (instruction : Instruction)
  /-- The debugger paused in front of an address. -/
  | paused (addr : UInt16)
  /-- The terminal was given back for line input. -/
  | rawModeOff
  /-- A program was loaded. -/
  | loaded (length : Nat)
  /-- The host wants the emulator to end. -/
  | quitAsked
  /-- The emulator's loop begins. -/
  | running (rate : UInt32) (dialect : Dialect) (period : Nat)
  /-- The emulator's loop ended. -/
  | stopped (count : Nat)
  /-- The emulator's loop failed. -/
  | halted (pc : UInt16) (cause : Fault)
  /-- The host's beeper did not switch. -/
  | beeperFailed (failure : TransferFailure)
  deriving DecidableEq, Repr

namespace Notice

/-- How much a notice matters. -/
def level : Notice → Level
  | .executed .. => .trace
  | .paused _ | .rawModeOff => .debug
  | .loaded _ | .quitAsked | .running .. | .stopped _ => .info
  | .beeperFailed _ => .warn
  | .halted .. => .error

/-- The notice in words. -/
def text : Notice → String
  | .executed addr instruction => hex 3 addr.toNat ++ ": " ++ instruction.text
  | .paused addr => "breakpoint at " ++ hex 3 addr.toNat
  | .rawModeOff => "raw mode off"
  | .loaded length => "loaded " ++ decimal length ++ " bytes of program"
  | .quitAsked => "host asked to quit"
  | .running rate dialect period =>
    "running at " ++ decimal rate.toNat ++ " instructions/s, " ++ dialect.name ++
      " quirks, timers every " ++ decimal period ++ " instructions"
  | .stopped count => "stopped after " ++ decimal count ++ " instructions"
  | .halted pc cause => "machine halted at " ++ hex 3 pc.toNat ++ ": " ++ cause.message
  | .beeperFailed failure => "sound: " ++ failure.message

/-- The log's line for a notice. -/
def line (n : Notice) : String := n.level.name ++ " " ++ n.text

end Notice

/-- What the outside sees of an activity. -/
inductive Event
  /-- A line of the log. -/
  | notice (notice : Notice)
  /-- Text printed on the console. -/
  | printed (text : String)
  /-- A line is taken from the console. -/
  | consoleRead
  /-- The host is called, and grants the call or refuses it. -/
  | hostCall (call : HostCall) (granted : Bool)
  /-- The host shows a frame. -/
  | shown (frame : Screen)
  deriving DecidableEq

/-- The lines of the log among the events. -/
def logLines (events : List Event) : List String :=
  events.filterMap fun
    | .notice n => some n.line
    | _ => none

/-- The text printed on the console among the events. -/
def printedText (events : List Event) : String :=
  String.join <| events.filterMap fun
    | .printed text => some text
    | _ => none

end Chip8
