import Chip8.Proofs.Emulator.Cycle

/-!
# Changes of the host

An activity carries a change of the state if it does after the change what it does without it. A
change of the host that passes through what the host does for some of its calls (`Host.Passes`) is
carried by each stage of a cycle that makes no other calls.
-/

namespace Chip8

/-- What the host does for these calls comes to the same before and behind the change. -/
structure Host.Passes (f : Host → Host) (calls : HostCall → Bool) : Prop where
  receive : ∀ h call, calls call = true →
    (f h).receive call = ((h.receive call).1, f (h.receive call).2)
  setSuspended : ∀ h suspended, (f h).setSuspended suspended = f (h.setSuspended suspended)
  invalidate : ∀ h, (f h).invalidate = f h.invalidate
  poll : ∀ h, (f h).poll = (h.poll.1, f h.poll.2)
  display : ∀ h frame, (f h).display frame = f (h.display frame)

/-- The beeper is the same before and behind the change. -/
structure Host.PassesBeeper (f : Host → Host) : Prop where
  beeper : ∀ h, (f h).beeper = h.beeper
  switch : ∀ h on, (f h).switch on = f (h.switch on)

namespace Act

variable {σ α β : Type} {g : σ → σ} {s : σ}

/-- The activity does after a change of the state what it does without it, and the change stays. -/
def Carries (g : σ → σ) (x : Act σ α) : Prop := ∀ s, x (g s) = (x s).onState g

/-- What carries the change from a state is followed by what carries it from any. -/
theorem Carries.after {x : Act σ α} {f : α → Act σ β} (hx : x (g s) = (x s).onState g)
    (hf : ∀ a, Carries g (f a)) : (x >>= f) (g s) = ((x >>= f) s).onState g := by
  rcases h : x s with ⟨stop | a, t, events⟩
  all_goals rw [h] at hx
  · rw [bind_of_error h, bind_of_error hx]
    rfl
  · rw [bind_of_ok h, bind_of_ok hx, hf a t]
    rfl

theorem Carries.bind {x : Act σ α} {f : α → Act σ β} (hx : Carries g x)
    (hf : ∀ a, Carries g (f a)) : Carries g (x >>= f) :=
  fun s => Carries.after (hx s) hf

theorem Carries.pure (a : α) : Carries g (Pure.pure a : Act σ α) := fun _ => rfl

end Act

namespace Emulator

open Act (Carries)

variable {f : Host → Host} {calls : HostCall → Bool} {call : HostCall}

/-- The emulator with its host changed. -/
def withHost (f : Host → Host) (e : Emulator) : Emulator := { e with host := f e.host }

section

variable (hf : Host.Passes f calls) (e : Emulator)
include hf

theorem grants_withHost (hcall : calls call = true) :
    (e.withHost f).grants call = e.grants call := by
  change ((f e.host).receive call).1 = _
  rw [hf.receive _ _ hcall]
  rfl

theorem called_withHost (hcall : calls call = true) :
    (e.withHost f).called call = (e.called call).withHost f :=
  congrArg (fun r : Bool × Host => { e with host := r.2 }) (hf.receive e.host call hcall)

/-! ## The console -/

theorem opened_of_called
    (hcalled : (e.withHost f).called .suspend = (e.called .suspend).withHost f) :
    (e.withHost f).opened = e.opened.withHost f := by
  rw [opened, hcalled]
  exact congrArg (fun host => { e with host, consoleOpen := true }) (hf.setSuspended _ true)

theorem resumed_withHost (hresume : calls .resume = true) :
    (e.withHost f).resumed = e.resumed.withHost f := by
  rw [resumed, called_withHost hf e hresume]
  exact congrArg (fun host => { e with host }) (hf.setSuspended _ false)

theorem closed_withHost (hresume : calls .resume = true) (hinvalidate : calls .invalidate = true) :
    (e.withHost f).closed = e.closed.withHost f := by
  rw [closed, resumed_withHost hf e hresume, called_withHost hf e.resumed hinvalidate]
  exact congrArg (fun host => { e with host, consoleOpen := false }) (hf.invalidate _)

/-! ## The input and the display -/

theorem played_of_called (hcalled : (e.withHost f).called .poll = (e.called .poll).withHost f) :
    (e.withHost f).played = e.played.withHost f := by
  rw [played, hcalled]
  exact congrArg (fun r : Scripted × Host => { e with host := r.2 }) (hf.poll _)

theorem entry_withHost : (e.withHost f).entry = e.entry := by
  change (f e.host).poll.1 = _
  rw [hf.poll]
  rfl

theorem drawn_withHost (hdraw : calls .draw = true) :
    (e.withHost f).drawn = e.drawn.withHost f := by
  rw [drawn, called_withHost hf e hdraw]
  exact congrArg (fun host => { e with host }) (hf.display _ _)

end

/-! ## Stage by stage -/

theorem carries_openConsole (hf : Host.Passes f calls) (hsuspend : calls .suspend = true) :
    Carries (withHost f) openConsole := by
  intro e
  rw [openConsole_eq, openConsole_eq, grants_withHost hf e hsuspend,
    opened_of_called hf e (called_withHost hf e hsuspend), called_withHost hf e hsuspend]
  have hpaused : (e.withHost f).debuggerPaused = e.debuggerPaused := rfl
  have hopen : (e.withHost f).consoleOpen = e.consoleOpen := rfl
  rw [hpaused, hopen]
  split
  · split <;> rfl
  · rfl

theorem carries_pollInput (hf : Host.Passes f calls) (hpoll : calls .poll = true) :
    Carries (withHost f) pollInput := by
  intro e
  rw [pollInput_eq, pollInput_eq, poll_eq, poll_eq, grants_withHost hf e hpoll,
    played_of_called hf e (called_withHost hf e hpoll), called_withHost hf e hpoll,
    entry_withHost hf e]
  have hopen : (e.withHost f).consoleOpen = e.consoleOpen := rfl
  rw [hopen]
  split
  · rfl
  · split <;> rfl

/-- The instruction has nothing to do with the host. -/
theorem carries_advance (f : Host → Host) : Carries (withHost f) advance := by
  intro e
  have hdebugger : (e.withHost f).debugger = e.debugger := rfl
  rw [advance, advance, hdebugger]
  cases e.debugger <;> rfl

theorem carries_closeConsole (hf : Host.Passes f calls) (hresume : calls .resume = true)
    (hinvalidate : calls .invalidate = true) : Carries (withHost f) closeConsole := by
  intro e
  rw [closeConsole_eq, closeConsole_eq, resumed_withHost hf e hresume,
    closed_withHost hf e hresume hinvalidate, grants_withHost hf e hresume,
    grants_withHost hf e.resumed hinvalidate, called_withHost hf e hresume,
    called_withHost hf e.resumed hinvalidate]
  have hpaused : (e.withHost f).debuggerPaused = e.debuggerPaused := rfl
  have hopen : (e.withHost f).consoleOpen = e.consoleOpen := rfl
  rw [hpaused, hopen]
  split
  · split
    · split <;> rfl
    · rfl
  · rfl

/-! ## Where the beeper is the same -/

section

variable (hf : Host.Passes f calls) (hb : Host.PassesBeeper f)
include hf hb

theorem carries_switchBeeper (hbeep : calls .beep = true) (hstop : calls .stop = true) :
    Carries (withHost f) switchBeeper := by
  intro e
  have hcall : calls e.beepCall = true := by
    rw [beepCall]
    split
    · exact hbeep
    · exact hstop
  have hsame : (e.withHost f).beepCall = e.beepCall := rfl
  have hbeeped : (e.withHost f).beeped = e.beeped.withHost f := by
    rw [beeped, beeped, hsame, grants_withHost hf e hcall, called_withHost hf e hcall]
    split
    · exact congrArg (fun host => { e with host }) (hb.switch _ _)
    · rfl
  have hevents : (e.withHost f).beepEvents = e.beepEvents := by
    rw [beepEvents, beepEvents, hsame, grants_withHost hf e hcall]
  have hsounding : (e.withHost f).host.beeper = e.host.beeper := hb.beeper e.host
  rw [switchBeeper_eq, switchBeeper_eq, hbeeped, hevents, hsounding]
  have htimers : (e.withHost f).machine = e.machine := rfl
  rw [htimers]
  split <;> rfl

/-- What comes behind an instruction polls no input and opens no console. -/
theorem carries_settle (hcalls : ∀ call, call ≠ .suspend → call ≠ .poll → calls call = true) :
    Carries (withHost f) settle := by
  have hbeeper := carries_switchBeeper hf hb (hcalls .beep nofun nofun) (hcalls .stop nofun nofun)
  have hdraw : calls .draw = true := hcalls .draw nofun nofun
  have hend : Carries (withHost f) endFrame := by
    intro e
    have hticked : (e.withHost f).ticked = e.ticked.withHost f := rfl
    have hforgot : ∀ t : Emulator, (t.withHost f).forgot = t.forgot.withHost f := fun _ => rfl
    have hopen : (e.withHost f).consoleOpen = e.consoleOpen := rfl
    have hmachine : (e.ticked.withHost f).machine = e.ticked.machine := rfl
    rw [endFrame_eq, endFrame_eq, hticked, grants_withHost hf e.ticked hdraw,
      drawn_withHost hf e.ticked hdraw, hforgot, hforgot, called_withHost hf e.ticked hdraw, hopen,
      hmachine, hbeeper, hbeeper]
    split
    · rfl
    · split <;> rfl
  have hcount : Carries (withHost f) countInstruction := by
    intro e
    have hclock : (e.withHost f).clock = e.clock := rfl
    rw [countInstruction_eq, countInstruction_eq, hclock]
    split
    · exact hend { e with clock := e.clock.advance.2 }
    · rfl
  have hclose :=
    carries_closeConsole hf (hcalls .resume nofun nofun) (hcalls .invalidate nofun nofun)
  exact hclose.bind fun _ => hcount.bind fun _ => .pure _

theorem carries_execute (hcalls : ∀ call, call ≠ .suspend → call ≠ .poll → calls call = true) :
    Carries (withHost f) execute := by
  refine (carries_advance f).bind fun flow => ?_
  cases flow with
  | quit => exact .pure _
  | proceed => exact carries_settle hf hb hcalls

end

end Emulator

end Chip8
