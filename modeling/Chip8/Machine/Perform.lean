import Chip8.Machine.Execute
import Chip8.Outcome

/-!
# Execution in place

An operation changes the machine part by part, and where it fails, what it changed before stays
changed. The operations that use the call stack or ask for a key can fail, and are written out
here; no other one has a cause to, and each of them changes the machine to what `execute` makes of
it.
-/

namespace Chip8.Machine

/-- Waits for a key, in place. -/
def awaitKey (x : Register) : Act Machine Unit := do
  let m ← Act.state
  match m.keyWait with
  | some (.release key) =>
    if ← Act.ofResult (m.keypad.isHeld key) then Act.update rewind
    else
      Act.modify fun m => { m with keyWait := none }
      Act.modify fun m => m.set x key
  | _ =>
    let wait := match m.keypad.firstFresh with
      | some k => KeyWait.untilUp k
      | none => KeyWait.press
    Act.modify fun m => { m with keyWait := some wait }
    Act.update rewind

/-- Executes an operation in place. -/
def perform : Operation → Act Machine Unit
  | .ret => do
    let (addr, stack) ← Act.ofResult (← Act.state).stack.pop
    Act.modify fun m => { m with stack }
    Act.modify fun m => { m with pc := addr }
  | .call target => do
    let m ← Act.state
    let stack ← Act.ofResult (m.stack.push m.pc)
    Act.modify fun m => { m with stack }
    Act.modify fun m => { m with pc := target }
  | .skipIfKey x => do
    let m ← Act.state
    let down ← Act.ofResult (m.keypad.isPressed (m.get x))
    Act.update fun m => m.skipIf down
  | .skipUnlessKey x => do
    let m ← Act.state
    let down ← Act.ofResult (m.keypad.isPressed (m.get x))
    Act.update fun m => m.skipIf (!down)
  | .waitKey x => awaitKey x
  | op => Act.update fun m => m.execute op

end Chip8.Machine
