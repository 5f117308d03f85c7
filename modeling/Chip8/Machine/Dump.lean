import Chip8.Machine

/-!
# Dumps

The machine in text, as the debugger shows it: the program counter and the like, the registers in
two lines of eight, the call stack and, where an instruction waits for a key, what it waits for.
-/

namespace Chip8

open Text (decimal hex hexUpper)

/-- What an instruction waits for, in words. -/
def KeyWait.text : KeyWait → String
  | .press => "Press"
  | .release key => "Release(" ++ decimal key.val ++ ")"

namespace Machine

/-- A register's name and value, and what follows it in its line. -/
def registerText (m : Machine) (x : Register) : String :=
  registerName x ++ ":" ++ hex 2 (m.get x).toNat ++ (if x.val % 8 = 7 then "\n" else " ")

/-- The machine in text. -/
def dump (m : Machine) : String :=
  "PC: " ++ hex 3 m.pc.toNat ++ "  I: " ++ hex 3 m.index.toNat ++
    "  DT: " ++ hex 2 m.timers.delay.toNat ++ "  ST: " ++ hex 2 m.timers.sound.toNat ++
    "  quirks: " ++ m.dialect.name ++ "\n" ++
  String.join ((List.finRange 16).map m.registerText) ++
  "stack (" ++ decimal m.stack.depth ++ "):" ++
  String.join (m.stack.oldestFirst.map fun addr => " " ++ hex 3 addr.toNat) ++ "\n" ++
  match m.keyWait with
  | some wait => "waiting for key: " ++ wait.text ++ "\n"
  | none => ""

end Machine

end Chip8
