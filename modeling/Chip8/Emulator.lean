import Chip8.Debugger
import Chip8.Host

/-!
# The emulator

A machine on a host, with or without a debugger. One `cycle` is: the host's input is polled, one
instruction is executed, and if that ends a frame, the timers fall, the screen is shown, the keypad
forgets the frame's releases and the beeper follows the sound timer.

While the debugger is paused its console has the terminal: the input is suspended and not polled,
and no frame is shown. Frames end all the same.
-/

namespace Chip8

/-- The emulator's state. -/
structure Emulator where
  machine : Machine
  host : Host
  debugger : Option Debugger
  rate : UInt32
  clock : FrameClock
  consoleOpen : Bool := false

namespace Emulator

/-- An emulator without a program, for a rate in instructions a second. -/
def fresh (rate : UInt32) (dialect : Dialect) (seed : UInt64) (host : Host)
    (debugger : Option Debugger) : Emulator where
  machine := .fresh dialect seed
  host := host
  debugger := debugger
  rate := rate
  clock := .ofRate rate

/-- Whether there is a debugger and it is paused. -/
def debuggerPaused (e : Emulator) : Bool := e.debugger.any (·.paused)

/-! ## The host -/

/-- Calls the host; the answer is whether it grants the call. -/
def request (call : HostCall) : Act Emulator Bool := fun e =>
  let (granted, host) := e.host.receive call
  ⟨.ok granted, { e with host }, [.hostCall call granted]⟩

/-- Calls the host, and fails if it refuses. -/
def require (call : HostCall) : Act Emulator Unit := do
  if !(← request call) then Act.fail (.fault (.transfer (.refused call)))

/-- Changes the host. -/
def modifyHost (f : Host → Host) : Act Emulator Unit :=
  Act.modify fun e => { e with host := f e.host }

/-- Changes the machine. -/
def modifyMachine (f : Machine → Machine) : Act Emulator Unit :=
  Act.modify fun e => { e with machine := f e.machine }

/-- Changes the keypad, unless the change fails. -/
def changeKeypad (f : Keypad → Result Keypad) : Act Emulator Unit := do
  let keypad ← Act.ofResult (f (← Act.state).machine.keypad)
  modifyMachine fun m => { m with keypad }

/-- The host shows the screen. -/
def draw : Act Emulator Unit := do
  require .draw
  let frame := (← Act.state).machine.screen
  modifyHost (·.display frame)
  Act.emit (.shown frame)

/-- The host's input goes to the keypad; the answer is whether to go on. -/
def poll : Act Emulator Flow := do
  require .poll
  let (entry, host) := (← Act.state).host.poll
  modifyHost fun _ => host
  match entry with
  | .idle => return .proceed
  | .press key => do changeKeypad (·.press key); return .proceed
  | .release key => do changeKeypad (·.release key); return .proceed
  | .quit => do Act.emit (.notice .quitAsked); return .quit

/-! ## Cycles -/

/-- When the debugger has just paused, its console gets the terminal. -/
def openConsole : Act Emulator Unit := do
  let e ← Act.state
  if e.debuggerPaused && !e.consoleOpen then
    require .suspend
    modifyHost (·.setSuspended true)
    Act.modify fun e => { e with consoleOpen := true }

/-- The input is polled, unless the console has the terminal. -/
def pollInput : Act Emulator Flow := do
  if (← Act.state).consoleOpen then return .proceed else poll

/-- One instruction, through the debugger if there is one. -/
def advance : Act Emulator Flow := fun e =>
  match e.debugger with
  | some d =>
    (d.step e.machine).onState fun (d, machine) => { e with debugger := some d, machine }
  | none =>
    let o := e.machine.step.onState fun machine => { e with machine }
    { o with result := o.result.map fun _ => .proceed }

/-- When the debugger runs again, the host gets the terminal back and forgets what it shows. -/
def closeConsole : Act Emulator Unit := do
  let e ← Act.state
  if e.consoleOpen && !e.debuggerPaused then
    require .resume
    modifyHost (·.setSuspended false)
    require .invalidate
    modifyHost (·.invalidate)
    Act.modify fun e => { e with consoleOpen := false }

/-- The beeper follows the sound timer. A beeper that does not switch is no reason to stop. -/
def switchBeeper : Act Emulator Unit := do
  let e ← Act.state
  let on := e.machine.timers.sounding
  if on != e.host.beeper.sounding then
    let call := if on then HostCall.beep else HostCall.stop
    if ← request call then modifyHost (·.switch on)
    else Act.emit (.notice (.beeperFailed (.refused call)))

/-- A frame ends. -/
def endFrame : Act Emulator Unit := do
  modifyMachine fun m => if m.timersHeld then m else { m with timers := m.timers.tick }
  if !(← Act.state).consoleOpen then draw
  modifyMachine fun m => { m with keypad := m.keypad.endFrame }
  switchBeeper

/-- Counts an instruction, and ends the frame if it was the frame's last. -/
def countInstruction : Act Emulator Unit := do
  let (due, clock) := (← Act.state).clock.advance
  Act.modify fun e => { e with clock }
  if due then endFrame

/-- One instruction, with what comes before and after it. -/
def cycle : Act Emulator Flow := do
  openConsole
  match ← pollInput with
  | .quit => return .quit
  | .proceed =>
    match ← advance with
    | .quit => return .quit
    | .proceed => do
      closeConsole
      countInstruction
      return .proceed

/-! ## Runs -/

/-- Loads a program; the result is its length. -/
def load (program : List UInt8) : Act Emulator Nat := do
  let (length, machine) ← Act.ofResult ((← Act.state).machine.load program)
  modifyMachine fun _ => machine
  Act.emit (.notice (.loaded length))
  return length

/-- Up to `left` more cycles after `done` of them, with `seen` the events so far, the last first. A
loop without a limit ends when its count of cycles does not fit in 64 bits. -/
def cyclesFrom (limited : Bool) : (left done : Nat) → (seen : List Event) → Emulator →
    Outcome Emulator Nat
  | 0, done, seen, e => ⟨if limited then .ok done else .error .stuck, e, seen.reverse⟩
  | left + 1, done, seen, e =>
    match e.cycle with
    | ⟨.ok .proceed, e, events⟩ => cyclesFrom limited left (done + 1) (events.reverseAux seen) e
    | ⟨.ok .quit, e, events⟩ => ⟨.ok done, e, (events.reverseAux seen).reverse⟩
    | ⟨.error stop, e, events⟩ => ⟨.error stop, e, (events.reverseAux seen).reverse⟩

/-- Cycles until one quits or fails, or the limit is reached; the result is how many cycles ran. -/
def cycles (limit : Option UInt64) : Act Emulator Nat :=
  match limit with
  | some limit => cyclesFrom true limit.toNat 0 []
  | none => cyclesFrom false UInt64.size 0 []

/-- The emulator's loop. -/
def loop (limit : Option UInt64) : Act Emulator Nat := do
  let e ← Act.state
  Act.emit (.notice (.running e.rate e.machine.dialect e.clock.period))
  cycles limit

/-- Loads a program and runs the loop, with a notice of how it ended. -/
def play (program : List UInt8) (limit : Option UInt64) : Act Emulator Unit := do
  let _ ← load program
  match ← Act.observe (loop limit) with
  | .ok count => Act.emit (.notice (.stopped count))
  | .error (.fault cause) => do
    Act.emit (.notice (.halted (← Act.state).machine.pc cause))
    Act.fail (.fault cause)
  | .error .stuck => Act.fail .stuck

end Emulator

end Chip8
