import Chip8.Proofs.Debugger
import Chip8.Proofs.Emulator.Stages

/-!
# The stages of a cycle and the core

The core of an emulator is what decides what the program computes and what the outside sees of it,
but for the debugger and the console. Each stage of a cycle comes to a record update of the core,
whatever the host answers.
-/

namespace Chip8.Emulator

variable {e t : Emulator} {call : HostCall}

/-! ## The core -/

/-- What decides what the program computes and what the outside sees of it. -/
structure Core where
  machine : Machine
  clock : FrameClock
  script : List Scripted
  polls : Nat
  refuses : HostCall → Nat → Bool
  beeper : Beeper

/-- The core of an emulator. -/
def core (e : Emulator) : Core :=
  ⟨e.machine, e.clock, e.host.script, e.host.polls, e.host.refuses, e.host.beeper⟩

/-- The input was polled once. -/
def Core.polled (c : Core) : Core := { c with script := c.script.tail, polls := c.polls + 1 }

theorem core_called (e : Emulator) (call : HostCall) : (e.called call).core = e.core := by
  obtain ⟨calls, h⟩ := e.host.receive_eq call
  rw [called, h]
  rfl

theorem core_setSuspended (e : Emulator) (suspended consoleOpen : Bool) :
    { e with host := e.host.setSuspended suspended, consoleOpen }.core = e.core := by
  rw [Host.setSuspended]
  split <;> rfl

theorem core_opened (e : Emulator) : e.opened.core = e.core :=
  (core_setSuspended (e.called .suspend) true true).trans (e.core_called .suspend)

theorem core_resumed (e : Emulator) : e.resumed.core = e.core :=
  (core_setSuspended (e.called .resume) false e.consoleOpen).trans (e.core_called .resume)

theorem core_closed (e : Emulator) : e.closed.core = e.core := by
  rw [← e.core_resumed, ← e.resumed.core_called .invalidate, closed, Host.invalidate]
  split <;> rfl

theorem core_played (e : Emulator) : e.played.core = e.core.polled := by
  obtain ⟨calls, h⟩ := e.host.receive_eq .poll
  rw [played, called, h]
  rfl

theorem core_drawn (e : Emulator) : e.drawn.core = e.core := by
  obtain ⟨calls, h⟩ := e.host.receive_eq .draw
  rw [drawn, called, h]
  rfl

theorem grants_of_obliging (h : e.host.Obliging) (call : HostCall) : e.grants call = true :=
  h.receive call

/-! ## Before the instruction -/

/-- In the coming cycle the console has the terminal, and the input is not polled. -/
def consoleHolds (e : Emulator) : Bool := e.consoleOpen || e.debuggerPaused

/-- The console opens if it has to, unless the host refuses. -/
theorem openConsole_cases (e : Emulator) :
    (∃ t events, openConsole e = ⟨.error (refusal .suspend), t, events⟩ ∧
      e.grants .suspend = false ∧ t.core = e.core) ∨
    ∃ t events, openConsole e = ⟨.ok (), t, events⟩ ∧ t.core = e.core ∧
      t.debugger = e.debugger ∧ t.consoleOpen = e.consoleHolds ∧ shownFrames events = [] := by
  rw [openConsole_eq]
  cases hopen : e.debuggerPaused && !e.consoleOpen with
  | true =>
    have hpaused : e.debuggerPaused = true := (Bool.and_eq_true_iff.1 hopen).1
    cases hg : e.grants .suspend with
    | true =>
      refine .inr ⟨e.opened, _, rfl, e.core_opened, rfl, ?_, rfl⟩
      rw [consoleHolds, hpaused, Bool.or_true]
      rfl
    | false => exact .inl ⟨_, _, rfl, rfl, e.core_called .suspend⟩
  | false =>
    refine .inr ⟨e, _, rfl, rfl, rfl, ?_, rfl⟩
    rw [consoleHolds]
    cases hc : e.consoleOpen with
    | true => rfl
    | false => simpa [hc] using hopen.symm

/-- The host refuses the poll, or the machine hears the entry. -/
theorem poll_cases (e : Emulator) :
    (∃ t events, poll e = ⟨.error (refusal .poll), t, events⟩ ∧
      e.grants .poll = false ∧ t.core = e.core) ∨
    ∃ t events, poll e = ⟨(e.machine.hear e.entry).result, t, events⟩ ∧
      t.core = { e.core.polled with machine := (e.machine.hear e.entry).state } ∧
      t.debugger = e.debugger ∧ t.consoleOpen = e.consoleOpen ∧ shownFrames events = [] := by
  rw [poll_eq]
  cases hg : e.grants .poll with
  | false => exact .inl ⟨_, _, rfl, rfl, e.core_called .poll⟩
  | true =>
    refine .inr ⟨{ e.played with machine := (e.machine.hear e.entry).state }, _, rfl, ?_, rfl, rfl,
      ?_⟩
    · rw [← core_played]
      rfl
    · cases e.entry <;> rfl

/-! ## The instruction -/

/-- The machine is not let go, which takes a paused debugger, or it makes a step. -/
theorem advance_cases (e : Emulator) :
    (e.debuggerPaused = true ∧ ∃ r t events, advance e = ⟨r, t, events⟩ ∧ r ≠ .ok .proceed ∧
      t.core = e.core) ∨
    ∃ t before after, advance e = ⟨e.machine.step.result.map fun _ => .proceed, t,
        before ++ e.machine.step.events ++ after⟩ ∧
      t.core = { e.core with machine := e.machine.step.state } ∧ t.consoleOpen = e.consoleOpen ∧
      (e.debugger = none → t.debugger = none) ∧
      shownFrames before = [] ∧ shownFrames after = [] := by
  rw [advance, debuggerPaused]
  cases hd : e.debugger with
  | none =>
    refine .inr ⟨{ e with machine := e.machine.step.state }, [], [], ?_, rfl, rfl, fun _ => hd,
      rfl, rfl⟩
    simp [Outcome.onState, hd]
  | some d =>
    obtain ⟨hp, r, d', events, heq, hr, -⟩ | ⟨d', before, after, heq, hbefore, hafter⟩ :=
      d.step_cases e.machine
    · refine .inl ⟨hp, r, { e with debugger := some d' }, events, ?_, hr, rfl⟩
      simp only [heq, Outcome.onState]
    · refine .inr ⟨{ e with debugger := some d', machine := e.machine.step.state }, before, after,
        ?_, rfl, rfl, fun h => absurd h (by simp), hbefore, hafter⟩
      simp only [heq, Outcome.onState]

/-! ## Behind the instruction -/

theorem switchBeeper_cases (e : Emulator) :
    ∃ t events beeper, switchBeeper e = ⟨.ok (), t, events⟩ ∧ t.core = { e.core with beeper } ∧
      t.debugger = e.debugger ∧ t.consoleOpen = e.consoleOpen ∧ shownFrames events = [] ∧
      (e.host.Obliging → beeper = e.host.beeper.follow e.machine.timers.sounding) := by
  rw [switchBeeper_eq, Beeper.follow]
  split
  · obtain ⟨calls, hcall⟩ := e.host.receive_eq e.beepCall
    rw [beeped, beepEvents, called, hcall]
    cases hg : e.grants e.beepCall with
    | true => exact ⟨_, _, _, rfl, rfl, rfl, rfl, rfl, fun _ => rfl⟩
    | false =>
      refine ⟨_, _, e.host.beeper, rfl, rfl, rfl, rfl, rfl, ?_⟩
      intro hobliging
      exact absurd hg (by simp [grants_of_obliging hobliging])
  · exact ⟨e, [], e.host.beeper, rfl, rfl, rfl, rfl, rfl, fun _ => rfl⟩

/-- The end of a frame settles the machine. If the host obliges, the frame is shown, unless the
console has the terminal, and the beeper follows the sound timer. -/
theorem endFrame_cases (e : Emulator) :
    ∃ r t events machine beeper, endFrame e = ⟨r, t, events⟩ ∧
      t.core = { e.core with machine, beeper } ∧ e.machine.Settles machine ∧
      t.debugger = e.debugger ∧ t.consoleOpen = e.consoleOpen ∧
      (e.host.Obliging → r = .ok () ∧ machine = e.machine.endFrame ∧
        beeper = e.host.beeper.follow machine.timers.sounding ∧
        shownFrames events = if e.consoleOpen then [] else [e.machine.screen]) := by
  rw [endFrame_eq]
  have hend := e.machine.settles_endFrame
  split
  · obtain ⟨t, events, beeper, heq, hcore, hd, hc, hshown, hbeeper⟩ :=
      switchBeeper_cases e.ticked.forgot
    exact ⟨_, t, events, e.machine.endFrame, beeper, heq, hcore, hend, hd, hc,
      fun ho => ⟨rfl, rfl, hbeeper ho, hshown⟩⟩
  split
  · obtain ⟨t, events, beeper, heq, hcore, hd, hc, hshown, hbeeper⟩ :=
      switchBeeper_cases e.ticked.drawn.forgot
    have hdrawn : e.ticked.drawn.forgot.core = { e.core with machine := e.machine.endFrame } :=
      congrArg (fun c : Core => { c with machine := e.machine.endFrame }) e.ticked.core_drawn
    refine ⟨_, t, _, e.machine.endFrame, beeper, congrArg (Outcome.after _) heq, ?_, hend, hd, hc,
      ?_⟩
    · rw [hcore, hdrawn]
    · intro ho
      have hrefuses : e.ticked.drawn.forgot.host.refuses = e.host.refuses :=
        congrArg Core.refuses hdrawn
      have hsame : e.ticked.drawn.forgot.host.beeper = e.host.beeper := congrArg Core.beeper hdrawn
      have hscreen : e.ticked.machine.screen = e.machine.screen := by
        obtain ⟨timers, h⟩ := e.machine.ticked_eq
        rw [ticked, h]
      refine ⟨rfl, rfl, ?_, ?_⟩
      · rw [← hsame]
        exact hbeeper (ho.congr hrefuses)
      · rw [shownFrames_append, hshown, hscreen]
        rfl
  · rename_i hg
    refine ⟨_, _, _, e.machine.ticked, e.host.beeper, rfl, ?_, e.machine.settles_ticked, rfl, rfl,
      ?_⟩
    · exact e.ticked.core_called .draw
    · intro ho
      exact absurd (grants_of_obliging (e := e.ticked) ho .draw) hg

theorem settles_of_endFrame (e : Emulator) : e.machine.Settles (endFrame e).state.machine := by
  obtain ⟨r, t, events, machine, beeper, heq, hcore, hsettles, -⟩ := endFrame_cases e
  have hmachine : t.machine = machine := congrArg Core.machine hcore
  rw [heq]
  exact hmachine ▸ hsettles

theorem closeConsole_cases (e : Emulator) :
    ∃ r t events, closeConsole e = ⟨r, t, events⟩ ∧ t.core = e.core ∧ t.debugger = e.debugger ∧
      shownFrames events = [] ∧ (r = .ok () → t.consoleOpen = (e.consoleOpen && e.debuggerPaused)) ∧
      (e.host.Obliging → r = .ok ()) := by
  rw [closeConsole_eq]
  cases hclose : e.consoleOpen && !e.debuggerPaused with
  | true =>
    have hpaused : e.debuggerPaused = false := by
      have h := (Bool.and_eq_true_iff.1 hclose).2
      simpa using h
    cases hr : e.grants .resume with
    | true =>
      cases hi : e.resumed.grants .invalidate with
      | true =>
        refine ⟨_, _, _, rfl, e.core_closed, rfl, rfl, fun _ => ?_, fun _ => rfl⟩
        rw [hpaused, Bool.and_false]
        rfl
      | false =>
        refine ⟨_, _, _, rfl, ?_, rfl, rfl, fun h => absurd h (by simp), ?_⟩
        · rw [core_called, core_resumed]
        · intro ho
          have hrefuses : e.resumed.host.refuses = e.host.refuses :=
            congrArg Core.refuses e.core_resumed
          exact absurd hi (by simp [grants_of_obliging (ho.congr hrefuses)])
    | false =>
      refine ⟨_, _, _, rfl, e.core_called .resume, rfl, rfl, fun h => absurd h (by simp), ?_⟩
      intro ho
      exact absurd hr (by simp [grants_of_obliging ho])
  | false =>
    refine ⟨_, e, _, rfl, rfl, rfl, rfl, fun _ => ?_, fun _ => rfl⟩
    cases hc : e.consoleOpen with
    | true => simpa [hc] using hclose
    | false => rfl

end Chip8.Emulator
