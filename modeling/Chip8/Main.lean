import Chip8.Emulator
import Chip8.Exit

/-!
# The program

Reads the command line and the program's file, and then either prints the listing or runs the
emulator. Frames are printed on the terminal as text, sixty a second at most; the keypad stays
untouched, and the debugger's console is the standard input, taken as a whole before the run.
-/

namespace Chip8

/-- The bytes of a file that can be read. -/
def readBytes? (path : String) : IO (Option (List UInt8)) := do
  try
    let bytes ← IO.FS.readBinFile path
    return some bytes.toList
  catch _ => return none

/-- Everything on the standard input. -/
def readConsole : IO (List UInt8) := do
  let input ← IO.getStdin
  let bytes ← input.readToEnd
  return bytes.toUTF8.toList

/-- Lets the user see an event. -/
def perform : Event → IO Unit
  | .printed text => IO.print text
  | .shown frame => do
    IO.print ("\x1b[H" ++ frame.text)
    IO.sleep 16
  | .notice notice =>
    if notice.level = .warn ∨ notice.level = .error then IO.eprintln notice.line else return ()
  | _ => return ()

/-- Runs cycles until one quits or fails, or none is left; the result is the exit code. -/
partial def playOn (left : Option Nat) (e : Emulator) : IO UInt32 := do
  if left = some 0 then return 0
  let o := e.cycle
  o.events.forM perform
  match o.result with
  | .ok .proceed => playOn (left.map (· - 1)) o.state
  | .ok .quit => return 0
  | .error (.fault cause) => do
    perform (.notice (.halted o.state.machine.pc cause))
    return 1
  | .error .stuck => return 101

/-- The seed that is asked for, or any. -/
def chooseSeed : Option UInt64 → IO UInt64
  | some seed => return seed
  | none => return UInt64.ofNat (← IO.rand 0 (UInt64.size - 1))

/-- The debugger, if there is to be one. -/
def chooseDebugger (a : Arguments) : IO (Option Debugger) := do
  if a.debug ∨ a.breakpoint.isSome then
    let console ← readConsole
    return some { paused := a.debug, breakpoint := a.breakpoint, console }
  else return none

/-- Loads a program and runs it. -/
def playProgram (a : Arguments) (program : List UInt8) : IO UInt32 := do
  let seed ← chooseSeed a.seed
  let debugger ← chooseDebugger a
  let o := Emulator.load program (.fresh a.rate a.dialect seed {} debugger)
  match o.result with
  | .ok _ => playOn (a.cycles.map (·.toNat)) o.state
  | .error (.fault cause) => do
    IO.eprintln cause.message
    return 1
  | .error .stuck => return 101

end Chip8

open Chip8 in
/-- The program's entry. -/
def main (words : List String) : IO UInt32 := do
  let file ← match CommandLine.read words with
    | .ok a => readBytes? a.rom
    | .error _ => pure none
  match CommandLine.read words, file with
  | .ok a, some program =>
    if a.disassemble then
      let exit := Exit.ofListing (disassemble Memory.programStart program)
      IO.print exit.output
      return UInt32.ofNat exit.code
    else playProgram a program
  | _, _ => do
    let exit := Exit.ofListingRun words fun _ => file
    IO.print exit.output
    return UInt32.ofNat exit.code
