import Chip8.Console
import Chip8.Debugger.Command
import Chip8.Machine.Dump
import Chip8.Machine.Step

/-!
# The debugger

A debugger stands between the emulator and the machine. While it runs, a step of it is a step of the
machine. While it is paused, a step first talks with the console: commands are read until one lets
the machine go or ends the session. After a step of the machine the debugger pauses if the program
counter has come to the breakpoint.

* `converse`: the talk with the console, which looks at the machine and does not change it;
* `step`: the talk, if the debugger is paused, and then at most one step of the machine.
-/

namespace Chip8

open Text (hex)

/-- Whether to go on. -/
inductive Flow
  | proceed
  | quit
  deriving DecidableEq, Repr

/-- The debugger's state and the console input it has not read. -/
structure Debugger where
  paused : Bool
  breakpoint : Option UInt16 := none
  last : Option Instruction := none
  console : List UInt8 := []
  deriving DecidableEq, Repr

namespace Debugger

/-! ## Words to the console -/

/-- Where the machine stands. -/
def statusText (d : Debugger) (m : Machine) : String :=
  match d.last with
  | some i =>
    "PC (incremented): " ++ hex 1 m.pc.toNat ++
      "; Instruction just executed: " ++ hex 4 i.word.toNat ++ " (" ++ i.text ++ ")" ++
      "; A: " ++ hex 1 i.family.val ++ "; X: " ++ hex 1 i.x.val ++ "; Y: " ++ hex 1 i.y.val ++
      "; N: " ++ hex 1 i.n.val ++ "; NN: " ++ hex 1 i.nn.toNat ++ "; NNN: " ++ hex 1 i.nnn.toNat ++
      "\n"
  | none => "PC: " ++ hex 1 m.pc.toNat ++ "; nothing executed yet\n"

/-- The commands in short. -/
def promptText : String :=
  "Debug: (s)tate, (c)ontinue, (n)ext, (q)uit, (b)reakpoint, (h)elp\n"

/-- The question for a breakpoint's address. -/
def addressPrompt : String := "Enter memory address in hex (e.g. 0xXXX): "

/-- The answer to an address that cannot be read. -/
def addressRefusal : String := "Sorry, that is not a hex address\n"

/-- The answer to a line that is no command. -/
def commandRefusal (line : List Char) : String :=
  "Sorry, " ++ String.ofList (Text.trim line) ++ " is not a valid command\n"

/-! ## The talk -/

/-- Sets a breakpoint and runs on. -/
def runTo (d : Debugger) (addr : UInt16) : Debugger :=
  { d with breakpoint := some addr, paused := false }

/-- Reads commands until one lets the machine go or ends the session; the end of the input ends it
too. The status is shown first, unless it was `announced`, and again after each command that does
neither; a line that is no command gets its answer and nothing else. -/
def converse (m : Machine) (d : Debugger) (announced : Bool) : Outcome Debugger Flow :=
  .after (if announced then [] else [.printed (d.statusText m ++ promptText)]) <|
    if _ended : d.console = [] then ⟨.ok .quit, d, [.consoleRead]⟩
    else
      let rest := (Console.readLine d.console).2
      let d' := { d with console := rest }
      .after [.consoleRead] <|
        match (Console.readLine d.console).1 with
        | none => ⟨.error (.fault (.transfer .malformedText)), d', []⟩
        | some line =>
          match Command.parse? line with
          | none => (converse m d' true).after [.printed (commandRefusal line)]
          | some .state => (converse m d' false).after [.printed (m.dump ++ m.screen.text)]
          | some .help => (converse m d' false).after [.printed Command.helpText]
          | some .proceed => ⟨.ok .proceed, { d' with paused := false }, []⟩
          | some .next => ⟨.ok .proceed, d', []⟩
          | some .quit => ⟨.ok .quit, d', []⟩
          | some (.breakpoint (some addr)) => ⟨.ok .proceed, d'.runTo addr, []⟩
          | some (.breakpoint none) =>
            let d'' := { d with console := (Console.readLine rest).2 }
            .after [.printed addressPrompt, .consoleRead] <|
              match (Console.readLine rest).1 with
              | none => ⟨.error (.fault (.transfer .malformedText)), d'', []⟩
              | some answer =>
                match Text.readAddress? answer with
                | some addr => ⟨.ok .proceed, d''.runTo addr, []⟩
                | none => (converse m d'' false).after [.printed addressRefusal]
termination_by d.console.length
decreasing_by
  · exact Console.length_rest_lt _ended
  · exact Console.length_rest_lt _ended
  · exact Console.length_rest_lt _ended
  · exact Nat.lt_of_le_of_lt (Console.length_rest_le _) (Console.length_rest_lt _ended)

/-! ## Steps -/

/-- A step of the machine, and the look at the breakpoint behind it. -/
def advance (d : Debugger) (m : Machine) : Outcome (Debugger × Machine) Flow :=
  match m.step with
  | ⟨.ok instruction, m, events⟩ =>
    let d := { d with last := some instruction }
    if d.breakpoint = some m.pc then
      ⟨.ok .proceed, ({ d with paused := true }, m), events ++ [.notice (.paused m.pc)]⟩
    else ⟨.ok .proceed, (d, m), events⟩
  | ⟨.error stop, m, events⟩ => ⟨.error stop, (d, m), events⟩

/-- Talks with the console while paused; then one step of the machine, unless the talk ended the
session. -/
def step (d : Debugger) (m : Machine) : Outcome (Debugger × Machine) Flow :=
  if d.paused then
    match d.converse m false with
    | ⟨.ok .proceed, d, events⟩ => (d.advance m).after events
    | ⟨.ok .quit, d, events⟩ => ⟨.ok .quit, (d, m), events⟩
    | ⟨.error stop, d, events⟩ => ⟨.error stop, (d, m), events⟩
  else d.advance m

end Debugger

end Chip8
