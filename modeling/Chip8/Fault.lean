import Chip8.Text.Numeral

/-!
# Faults

What stops the machine, as causes, and the one function that puts each cause into words. A `Stop`
is either such a cause or `stuck`: a word left sixteen bits, or an access left its table, where
nothing is said about what comes next.
-/

namespace Chip8

open Text (decimal hex)

/-- What the emulator asks of its host. -/
inductive HostCall
  | draw
  | invalidate
  | poll
  | suspend
  | resume
  | beep
  | stop
  deriving DecidableEq, Repr

/-- The host call's name. -/
def HostCall.name : HostCall → String
  | .draw => "draw"
  | .invalidate => "invalidate"
  | .poll => "poll"
  | .suspend => "suspend"
  | .resume => "resume"
  | .beep => "beep"
  | .stop => "stop"

/-- Why bytes or calls did not get through. -/
inductive TransferFailure
  /-- Fewer bytes were given than were to be stored. -/
  | shortData
  /-- A line of the console is not UTF-8. -/
  | malformedText
  /-- The host refused a call. -/
  | refused (call : HostCall)
  deriving DecidableEq, Repr

/-- The failure in words. -/
def TransferFailure.message : TransferFailure → String
  | .shortData => "failed to fill whole buffer"
  | .malformedText => "stream did not contain valid UTF-8"
  | .refused call => "injected " ++ call.name

/-- The causes that stop the machine. -/
inductive Fault
  | programTooLarge (length capacity : Nat)
  | programCounterOutOfRange (pc : UInt16)
  | unknownInstruction (word addr : UInt16)
  | stackOverflow (depth : Nat)
  | stackUnderflow
  | invalidKey (key : UInt8)
  | transfer (failure : TransferFailure)
  deriving DecidableEq, Repr

/-- The cause in words. -/
def Fault.message : Fault → String
  | .programTooLarge length capacity =>
    "program is " ++ decimal length ++ " bytes; only " ++ decimal capacity ++
      " fit between 0x200 and 0xe8f"
  | .programCounterOutOfRange pc =>
    "program counter 0x" ++ hex 3 pc.toNat ++ " is odd or outside 0x200..=0xffe"
  | .unknownInstruction word addr =>
    "no instruction for 0x" ++ hex 4 word.toNat ++ " at 0x" ++ hex 3 addr.toNat
  | .stackOverflow depth => "call stack overflow (depth " ++ decimal depth ++ ")"
  | .stackUnderflow => "return with an empty call stack"
  | .invalidKey key => "key 0x" ++ hex 2 key.toNat ++ " does not exist"
  | .transfer failure => "host i/o failed: " ++ failure.message

/-- Why an operation has no result. -/
inductive Stop
  | fault (cause : Fault)
  | stuck
  deriving DecidableEq, Repr

end Chip8
