import Chip8.Machine

/-!
# Execution

What each operation does to the machine. The program counter has already passed the instruction, so
a skip moves it on by two and a wait moves it back by two. Where an operation has a result and a
flag, the result is stored first and the flag last, so that the flag wins in `VF`. An operation that
fails gives no machine at all.
-/

namespace Chip8.Machine

/-! ## Parts of operations -/

/-- The program counter moves past an instruction. -/
def skip (m : Machine) : Result Machine := do
  return { m with pc := ← Word.add m.pc 2 }

/-- The program counter moves back to the instruction, which is executed again. -/
def rewind (m : Machine) : Result Machine := do
  return { m with pc := ← Word.sub m.pc 2 }

/-- The next instruction is skipped if `condition` holds. -/
def skipIf (m : Machine) (condition : Bool) : Result Machine :=
  if condition then m.skip else .ok m

/-- The address of the cell `offset` cells behind that which `I` names, round the end of memory. -/
def cell (m : Machine) (offset : Nat) : Result UInt16 := do
  return Word.wrap (← Word.add m.index offset)

/-- The registers up to `x`, ascending. -/
def upTo (x : Register) : List Register :=
  (List.finRange 16).filter (· ≤ x)

/-- A result goes to `VX` and the flag to `VF`. -/
def setWithFlag (m : Machine) (x : Register) (value : UInt8) (flag : Bool) : Machine :=
  (m.set x value).setFlag flag

/-- A bitwise operation's result goes to `VX`; the legacy dialect clears the flag. -/
def setBitwise (m : Machine) (x : Register) (value : UInt8) : Machine :=
  match m.dialect with
  | .legacy => m.setWithFlag x value false
  | .modern => m.set x value

/-- What a shift shifts. -/
def shifted (m : Machine) (x y : Register) : UInt8 :=
  match m.dialect with
  | .legacy => m.get y
  | .modern => m.get x

/-- The bytes in the first `rows` cells from `I` on. -/
def sprite (m : Machine) (rows : Nat) : Result (List UInt8) :=
  (List.range rows).mapM fun row => do m.memory.read (← m.cell row)

/-- Stores bytes in the cells from `I` on. -/
def storeBytes (m : Machine) (bytes : List UInt8) : Result Machine := do
  let memory ← bytes.zipIdx.foldlM (fun memory (byte, offset) => do
    memory.set (← m.cell offset) byte) m.memory
  return { m with memory }

/-- Loads the cells from `I` on into registers, the first cell into the first register. -/
def loadRegisters (m : Machine) (targets : List Register) : Result Machine :=
  targets.foldlM (fun loaded x => do
    return loaded.set x (← m.memory.read (← m.cell x.val))) m

/-- After a bulk transfer of `V0` to `VX`, the legacy dialect moves `I` behind the cells. -/
def passCells (m : Machine) (x : Register) : Result Machine :=
  match m.dialect with
  | .legacy => do return { m with index := ← m.cell (x.val + 1) }
  | .modern => .ok m

/-- Waits for a key to go down and then up, and puts its number in `VX`. A key that already went up
in this frame does not count as going down; a key that went up counts as up even if it is down
again. -/
def waitKey (m : Machine) (x : Register) : Result Machine := do
  match m.keyWait with
  | some (.release key) =>
    let down ← m.keypad.isPressed key
    let wentUp ← m.keypad.wasReleased key
    if down && !wentUp then m.rewind
    else return { m with keyWait := none }.set x key
  | _ =>
    let wait := match m.keypad.firstFresh with
      | some k => KeyWait.untilUp k
      | none => KeyWait.press
    { m with keyWait := some wait }.rewind

/-! ## Operations -/

/-- Executes an operation. -/
def execute (m : Machine) : Operation → Result Machine
  | .clear => .ok { m with screen := .blank }
  | .ret => do
    let (pc, stack) ← m.stack.pop
    return { m with pc, stack }
  | .jump target => .ok { m with pc := target }
  | .call target => do
    let stack ← m.stack.push m.pc
    return { m with pc := target, stack }
  | .skipIfValue x value => m.skipIf (m.get x == value)
  | .skipUnlessValue x value => m.skipIf (m.get x != value)
  | .skipIfSame x y => m.skipIf (m.get x == m.get y)
  | .skipUnlessSame x y => m.skipIf (m.get x != m.get y)
  | .setValue x value => .ok (m.set x value)
  | .addValue x value => .ok (m.set x (m.get x + value))
  | .move x y => .ok (m.set x (m.get y))
  | .or x y => .ok (m.setBitwise x (m.get x ||| m.get y))
  | .and x y => .ok (m.setBitwise x (m.get x &&& m.get y))
  | .xor x y => .ok (m.setBitwise x (m.get x ^^^ m.get y))
  | .add x y =>
    .ok (m.setWithFlag x (m.get x + m.get y) (256 ≤ (m.get x).toNat + (m.get y).toNat))
  | .sub x y => .ok (m.setWithFlag x (m.get x - m.get y) (m.get y < m.get x))
  | .subReversed x y => .ok (m.setWithFlag x (m.get y - m.get x) (m.get x < m.get y))
  | .shiftRight x y =>
    let operand := m.shifted x y
    .ok (m.setWithFlag x (operand >>> 1) (operand % 2 == 1))
  | .shiftLeft x y =>
    let operand := m.shifted x y
    .ok (m.setWithFlag x (operand <<< 1) (128 ≤ operand))
  | .setIndex addr => .ok { m with index := addr }
  | .jumpOffset x target => do
    let offset := match m.dialect with
      | .legacy => m.get 0
      | .modern => m.get x
    return { m with pc := ← Word.add target offset.toNat }
  | .random x mask =>
    let (byte, random) := m.random.next
    .ok ({ m with random }.set x (byte &&& mask))
  | .draw x y rows => do
    let sprite ← m.sprite rows
    let (screen, hit) ← m.screen.drawSprite (m.get x) (m.get y) sprite
    return { m with screen }.setFlag hit
  | .skipIfKey x => do m.skipIf (← m.keypad.isPressed (m.get x))
  | .skipUnlessKey x => do m.skipIf (!(← m.keypad.isPressed (m.get x)))
  | .readDelay x => .ok (m.set x m.timers.delay)
  | .waitKey x => m.waitKey x
  | .setDelay x => .ok { m with timers := { m.timers with delay := m.get x } }
  | .setSound x => .ok { m with timers := { m.timers with sound := m.get x } }
  | .addIndex x => do
    let sum ← Word.add m.index (m.get x).toNat
    return { m with index := Word.wrap sum }.setFlag (0xFFF < sum)
  | .glyph x => .ok { m with index := Memory.glyphAddr (m.get x) }
  | .decimalDigits x =>
    let value := m.get x
    m.storeBytes [value / 100, value / 10 % 10, value % 10]
  | .store x => do (← m.storeBytes ((upTo x).map m.get)).passCells x
  | .load x => do (← m.loadRegisters (upTo x)).passCells x

end Chip8.Machine
