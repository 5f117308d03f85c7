import Chip8.Text.Address

/-!
# The debugger's commands

A command is a line that starts, behind blanks, with its letter. Only `b` takes something behind the
letter: an address, or nothing, in which case the address is asked for.
-/

namespace Chip8

/-- What the user tells a paused debugger to do. -/
inductive Command
  /-- Show the machine. -/
  | state
  /-- Run on. -/
  | proceed
  /-- Execute one instruction and pause again. -/
  | next
  | quit
  /-- Set a breakpoint and run on. -/
  | breakpoint (addr : Option UInt16)
  | help
  deriving DecidableEq, Repr

namespace Command

open Text (trim allBlank readAddress?)

/-- A command without an operand. -/
def plain? (command : Command) (operand : List Char) : Option Command :=
  if allBlank operand then some command else none

/-- The command in a line. -/
def parse? (line : List Char) : Option Command :=
  match trim line with
  | 's' :: operand => plain? .state operand
  | 'c' :: operand => plain? .proceed operand
  | 'n' :: operand => plain? .next operand
  | 'q' :: operand => plain? .quit operand
  | 'h' :: operand => plain? .help operand
  | 'b' :: operand =>
    if allBlank operand then some (.breakpoint none)
    else (readAddress? operand).map fun addr => .breakpoint (some addr)
  | _ => none

/-- What there is to be told. -/
def helpText : String :=
  "Commands:
  > s          Print entire machine state to console
  > c          Continue with execution without stopping
  > n          Execute instruction then pause again
  > q          Quit program
  > b <0xXXX>  Set a breakpoint at a memory address in hex
  > h          Help, print this message
"

end Command

end Chip8
