import Chip8.Proofs.Debugger.Session

/-!
# What comes to a debugger

Whoever holds a debugger asks it for steps and sets its breakpoint, and between the two the
machine's surroundings act on the machine without the debugger. A `Request` is one such event, and
`serveAll` is what any number of them make of a debugger and its machine, whatever the steps
return.

Also here, field by field, is what a debugger makes of letting the machine go (`advance`).
-/

namespace Chip8

/-- What can come to a debugger and its machine. -/
inductive Request
  | step
  | setBreakpoint (addr : UInt16)
  /-- Something happens to the machine, and the debugger is not asked. -/
  | act (action : Action)
  deriving DecidableEq, Repr

/-- What the request is to a machine without a debugger. -/
def Request.action? : Request → Option Action
  | .step => some .step
  | .setBreakpoint _ => none
  | .act action => some action

/-- The next step of the machine succeeds and leaves the program counter at the breakpoint. -/
def Machine.ArrivesAt (m : Machine) (breakpoint : Option UInt16) : Prop :=
  (∃ i, m.step.result = .ok i) ∧ breakpoint = some m.step.state.pc

namespace Debugger

/-- A debugger and its machine after a request. -/
def serve (s : Debugger × Machine) : Request → Debugger × Machine
  | .step => (s.1.step s.2).state
  | .setBreakpoint addr => ({ s.1 with breakpoint := some addr }, s.2)
  | .act action => (s.1, (s.2.act action).state)

/-- A debugger and its machine after a number of requests. -/
def serveAll (s : Debugger × Machine) (requests : List Request) : Debugger × Machine :=
  requests.foldl serve s

/-! ## Letting the machine go -/

variable (d : Debugger) (m : Machine)

/-- **Letting the machine go is a step of it.** Of the debugger it changes what was executed last
and whether it is paused, and what has not been read from the console plays no part. -/
theorem advance_parts : ∃ last paused notices,
    (∀ input, { d with console := input }.advance m =
      ⟨m.step.result.map fun _ => .proceed,
        ({ d with last, paused, console := input }, m.step.state), m.step.events ++ notices⟩) ∧
    (paused = true ↔ d.paused = true ∨ m.ArrivesAt d.breakpoint) ∧ executions notices = [] := by
  unfold advance Machine.ArrivesAt
  rcases m.step with ⟨stop | i, after, events⟩
  · exact ⟨d.last, d.paused, [], fun _ => by rw [List.append_nil]; rfl, by simp, rfl⟩
  by_cases harrived : d.breakpoint = some after.pc
  · refine ⟨some i, true, [.notice (.paused after.pc)], ?_, by simp [harrived], rfl⟩
    intro input
    dsimp only
    rw [if_pos harrived]
    rfl
  · refine ⟨some i, d.paused, [], ?_, by simp [harrived], rfl⟩
    intro input
    dsimp only
    rw [if_neg harrived, List.append_nil]
    rfl

@[simp] theorem result_advance :
    (d.advance m).result = m.step.result.map fun _ => .proceed := by
  obtain ⟨last, paused, notices, heq, -⟩ := d.advance_parts m
  exact congrArg Outcome.result (heq d.console)

@[simp] theorem machine_advance : (d.advance m).state.2 = m.step.state := by
  obtain ⟨last, paused, notices, heq, -⟩ := d.advance_parts m
  exact congrArg (fun o => o.state.2) (heq d.console)

@[simp] theorem console_advance : (d.advance m).state.1.console = d.console := by
  obtain ⟨last, paused, notices, heq, -⟩ := d.advance_parts m
  exact congrArg (fun o => o.state.1.console) (heq d.console)

@[simp] theorem breakpoint_advance : (d.advance m).state.1.breakpoint = d.breakpoint := by
  obtain ⟨last, paused, notices, heq, -⟩ := d.advance_parts m
  exact congrArg (fun o => o.state.1.breakpoint) (heq d.console)

theorem executions_advance : executions (d.advance m).events = executions m.step.events := by
  obtain ⟨last, paused, notices, heq, -, hnone⟩ := d.advance_parts m
  have hevents := congrArg Outcome.events (heq d.console)
  rw [show (d.advance m).events = m.step.events ++ notices from hevents, executions_append, hnone,
    List.append_nil]

/-- Letting the machine go pauses the debugger at the breakpoint, and never sets it running. -/
theorem paused_advance :
    (d.advance m).state.1.paused = true ↔ d.paused = true ∨ m.ArrivesAt d.breakpoint := by
  obtain ⟨last, paused, notices, heq, hpaused, -⟩ := d.advance_parts m
  rw [← hpaused]
  exact iff_of_eq (congrArg (fun o => o.state.1.paused = true) (heq d.console))

theorem advance_withConsole (input : List UInt8) :
    { d with console := input }.advance m =
      (d.advance m).onState fun s => ({ s.1 with console := input }, s.2) := by
  obtain ⟨last, paused, notices, heq, -⟩ := d.advance_parts m
  rw [heq input]
  exact (congrArg (Outcome.onState fun s => ({ s.1 with console := input }, s.2))
    (heq d.console)).symm

/-! ## Steps -/

theorem step_of_running {d : Debugger} (m : Machine) (h : d.paused = false) :
    d.step m = d.advance m := by
  simp [step, h]

theorem step_of_paused {d d' : Debugger} {m : Machine} {r : Result Flow} {events : List Event}
    (h : d.paused = true) (htalk : d.converse m false = ⟨r, d', events⟩) :
    d.step m =
      if r = .ok .proceed then (d'.advance m).after events else ⟨r, (d', m), events⟩ := by
  rw [step, if_pos h, htalk]
  rcases r with stop | flow
  · rfl
  · cases flow <;> rfl

end Debugger

end Chip8
