import Chip8.Proofs.Act
import Chip8.Proofs.Emulator.Parts

/-!
# The stages of a cycle

What each stage comes to, by the host's answers to its calls.
-/

namespace Chip8

namespace Emulator

variable {e : Emulator} {call : HostCall}

/-! ## Calls of the host -/

/-- Why an activity fails whose call the host refuses. -/
def refusal (call : HostCall) : Stop := .fault (.transfer (.refused call))

/-- Whether the host grants the next call. -/
def grants (e : Emulator) (call : HostCall) : Bool := (e.host.receive call).1

/-- The emulator after a call that did nothing else. -/
def called (e : Emulator) (call : HostCall) : Emulator :=
  { e with host := (e.host.receive call).2 }

theorem request_eq :
    request call e = ⟨.ok (e.grants call), e.called call, [.hostCall call (e.grants call)]⟩ := rfl

theorem require_of_granted (h : e.grants call = true) :
    require call e = ⟨.ok (), e.called call, [.hostCall call true]⟩ := by
  rw [require, Act.bind_of_ok request_eq, h]
  rfl

theorem require_of_refused (h : e.grants call = false) :
    require call e = ⟨.error (refusal call), e.called call, [.hostCall call false]⟩ := by
  rw [require, Act.bind_of_ok request_eq, h]
  rfl

/-! ## The console -/

/-- The console has the terminal. -/
def opened (e : Emulator) : Emulator :=
  { e with host := (e.called .suspend).host.setSuspended true, consoleOpen := true }

theorem openConsole_eq (e : Emulator) :
    openConsole e =
      if e.debuggerPaused && !e.consoleOpen then
        if e.grants .suspend then ⟨.ok (), e.opened, [.hostCall .suspend true]⟩
        else ⟨.error (refusal .suspend), e.called .suspend, [.hostCall .suspend false]⟩
      else ⟨.ok (), e, []⟩ := by
  rw [openConsole, Act.state_bind, Act.ite_apply]
  split
  · cases hg : e.grants .suspend with
    | true =>
      rw [Act.bind_of_ok (require_of_granted hg)]
      rfl
    | false => exact Act.bind_of_error (require_of_refused hg)
  · rfl

/-- The host has the terminal back and is asked to forget what it shows. -/
def resumed (e : Emulator) : Emulator :=
  { e with host := (e.called .resume).host.setSuspended false }

/-- The console is closed. -/
def closed (e : Emulator) : Emulator :=
  { e with host := (e.resumed.called .invalidate).host.invalidate, consoleOpen := false }

theorem closeConsole_eq (e : Emulator) :
    closeConsole e =
      if e.consoleOpen && !e.debuggerPaused then
        if e.grants .resume then
          if e.resumed.grants .invalidate then
            ⟨.ok (), e.closed, [.hostCall .resume true, .hostCall .invalidate true]⟩
          else ⟨.error (refusal .invalidate), e.resumed.called .invalidate,
            [.hostCall .resume true, .hostCall .invalidate false]⟩
        else ⟨.error (refusal .resume), e.called .resume, [.hostCall .resume false]⟩
      else ⟨.ok (), e, []⟩ := by
  rw [closeConsole, Act.state_bind, Act.ite_apply]
  split
  · cases hg : e.grants .resume with
    | true =>
      rw [Act.bind_of_ok (require_of_granted hg), modifyHost, Act.modify_bind]
      change ((require .invalidate >>= _) e.resumed).after _ = _
      cases hi : e.resumed.grants .invalidate with
      | true =>
        rw [Act.bind_of_ok (require_of_granted hi)]
        rfl
      | false =>
        rw [Act.bind_of_error (require_of_refused hi)]
        rfl
    | false => exact Act.bind_of_error (require_of_refused hg)
  · rfl

/-! ## The input -/

/-- The entry that the input plays at the next poll. -/
def entry (e : Emulator) : Scripted := e.host.script.headD .idle

/-- The input has played its entry. -/
def played (e : Emulator) : Emulator := { e with host := (e.called .poll).host.poll.2 }

theorem poll_called (e : Emulator) : (e.called .poll).host.poll.1 = e.entry := by
  obtain ⟨calls, h⟩ := e.host.receive_eq .poll
  rw [called, h]
  rfl

theorem changeKeypad_proceed (f : Keypad → Result Keypad) (e : Emulator) :
    (do changeKeypad f; return Flow.proceed) e =
      let o := e.machine.change do return { e.machine with keypad := ← f e.machine.keypad }
      ⟨o.result.map fun _ => .proceed, { e with machine := o.state }, []⟩ := by
  cases hf : f e.machine.keypad with
  | ok keypad =>
    have hchange : changeKeypad f e = ⟨.ok (), { e with machine.keypad := keypad }, []⟩ := by
      rw [changeKeypad, Act.state_bind, hf]
      rfl
    rw [Act.bind_of_ok hchange]
    rfl
  | error stop =>
    have hchange : changeKeypad f e = ⟨.error stop, e, []⟩ := by
      rw [changeKeypad, Act.state_bind, hf]
      rfl
    rw [Act.bind_of_error hchange]
    rfl

theorem poll_eq (e : Emulator) :
    poll e =
      if e.grants .poll then
        ((e.machine.hear e.entry).onState fun machine => { e.played with machine }).after
          [.hostCall .poll true]
      else ⟨.error (refusal .poll), e.called .poll, [.hostCall .poll false]⟩ := by
  rw [poll]
  cases hg : e.grants .poll with
  | false => exact Act.bind_of_error (require_of_refused hg)
  | true =>
    rw [Act.bind_of_ok (require_of_granted hg), Act.state_bind]
    have hentry := e.poll_called
    rcases hpoll : (e.called .poll).host.poll with ⟨entry, host⟩
    rw [hpoll] at hentry
    have hplayed : e.played = { e with host } := by
      rw [played, hpoll]
    rw [← hentry, hplayed]
    refine congrArg (Outcome.after _) ?_
    cases entry with
    | idle | quit => rfl
    | press key => exact changeKeypad_proceed _ { e with host }
    | release key => exact changeKeypad_proceed _ { e with host }

theorem pollInput_eq (e : Emulator) :
    pollInput e = if e.consoleOpen then ⟨.ok .proceed, e, []⟩ else poll e := by
  rw [pollInput, Act.state_bind, Act.ite_apply]
  rfl

/-! ## The end of a frame -/

/-- The timers fall, unless they are held. -/
def ticked (e : Emulator) : Emulator := { e with machine := e.machine.ticked }

/-- The host shows the screen. -/
def drawn (e : Emulator) : Emulator :=
  { e with host := (e.called .draw).host.display e.machine.screen }

/-- The keypad forgets the frame's releases. -/
def forgot (e : Emulator) : Emulator :=
  { e with machine.keypad := e.machine.keypad.endFrame }

theorem draw_eq (e : Emulator) :
    draw e =
      if e.grants .draw then
        ⟨.ok (), e.drawn, [.hostCall .draw true, .shown e.machine.screen]⟩
      else ⟨.error (refusal .draw), e.called .draw, [.hostCall .draw false]⟩ := by
  rw [draw]
  cases hg : e.grants .draw with
  | true =>
    rw [Act.bind_of_ok (require_of_granted hg)]
    rfl
  | false => exact Act.bind_of_error (require_of_refused hg)

/-- The call that makes the beeper follow the sound timer. -/
def beepCall (e : Emulator) : HostCall :=
  if e.machine.timers.sounding then .beep else .stop

/-- The beeper is switched, if the host grants it. -/
def beeped (e : Emulator) : Emulator :=
  if e.grants e.beepCall then
    { e with host := (e.called e.beepCall).host.switch e.machine.timers.sounding }
  else e.called e.beepCall

/-- What the switch of the beeper lets the outside see. -/
def beepEvents (e : Emulator) : List Event :=
  if e.grants e.beepCall then [.hostCall e.beepCall true]
  else [.hostCall e.beepCall false, .notice (.beeperFailed (.refused e.beepCall))]

theorem switchBeeper_eq (e : Emulator) :
    switchBeeper e =
      if e.machine.timers.sounding != e.host.beeper.sounding then ⟨.ok (), e.beeped, e.beepEvents⟩
      else ⟨.ok (), e, []⟩ := by
  rw [switchBeeper, Act.state_bind, Act.ite_apply]
  split
  · change (request e.beepCall >>= _) e = _
    rw [Act.bind_of_ok request_eq, beeped, beepEvents, Act.ite_apply]
    cases e.grants e.beepCall <;> rfl
  · rfl

theorem endFrame_eq (e : Emulator) :
    endFrame e =
      if e.consoleOpen then switchBeeper e.ticked.forgot
      else if e.ticked.grants .draw then
        (switchBeeper e.ticked.drawn.forgot).after
          [.hostCall .draw true, .shown e.ticked.machine.screen]
      else ⟨.error (refusal .draw), e.ticked.called .draw, [.hostCall .draw false]⟩ := by
  rw [endFrame, modifyMachine, Act.modify_bind, Act.state_bind]
  change (if (!e.consoleOpen) = true then draw >>= _ else _) e.ticked = _
  rw [Act.ite_apply]
  cases e.consoleOpen with
  | true => rfl
  | false =>
    cases hg : e.ticked.grants .draw with
    | true => exact Act.bind_of_ok ((draw_eq e.ticked).trans (if_pos hg))
    | false =>
      have hdraw := draw_eq e.ticked
      rw [hg] at hdraw
      exact Act.bind_of_error hdraw

theorem countInstruction_eq (e : Emulator) :
    countInstruction e =
      if e.clock.advance.1 then endFrame { e with clock := e.clock.advance.2 }
      else ⟨.ok (), { e with clock := e.clock.advance.2 }, []⟩ := by
  rw [countInstruction, Act.state_bind]
  rcases e.clock.advance with ⟨due, clock⟩
  change (Act.modify _ >>= _) e = _
  rw [Act.modify_bind, Act.ite_apply]
  rfl

end Emulator

end Chip8
