import Chip8.Proofs.Emulator.Debugging
import Chip8.Proofs.Emulator.Executions
import Chip8.Proofs.Machine.Timers

/-!
# Timekeeping

Both timers stand where the history of a run says (`timers_accounted`). The history is read off the
log: a timer is set by the instructions that set it, and a frame ends with each call for its end and
with each instruction whose number the period divides, whether the console has the terminal or not.
-/

namespace Chip8

namespace TimerEvent

/-- The end of a frame. -/
theorem Accounted.endFrame {history : List TimerEvent} {timer : Timer} {m : Machine}
    (h : Accounted history (timer.count m.timers)) :
    Accounted (history ++ [.frameEnded m.endFrame.keyWait]) (timer.count m.endFrame.timers) := by
  have hwait : m.endFrame.keyWait = m.keyWait := by
    obtain ⟨⟨timers, keypad, hend⟩, -⟩ := m.settles_endFrame
    rw [hend]
  have htimers : m.endFrame.timers = if m.timersHeld then m.timers else m.timers.tick := by
    rw [Machine.endFrame, Machine.ticked]
    split <;> rfl
  rw [Accounted] at h
  rw [Accounted, lastValue_frameEnded, fallsSince_frameEnded, hwait, falls_frameEnded, htimers]
  cases m.timersHeld with
  | true => exact h
  | false =>
    have htick := timer.count_tick m.timers
    simp only [Bool.not_false, if_true, Bool.false_eq_true, if_false]
    omega

end TimerEvent

namespace Emulator

variable {e : Emulator} {timer : Timer} {period done : Nat} {history : List TimerEvent}

/-! ## Histories -/

/-- What a call does to a timer, with frames of `period` instructions and after `done` instructions:
it is set if the call executes an instruction that sets it, and a frame ends if the call is for its
end, or executes an instruction whose number the period divides. -/
def timerEvents (timer : Timer) (period done : Nat) (e : Emulator) (c : Call) : List TimerEvent :=
  let executed := executions (e.callEvents c)
  let settings := (executed.filter fun (_, i) => timer.setBy i).map fun (_, i) =>
    .set (e.machine.get i.x)
  let ends : Bool := c = .endFrame || (executed ≠ [] && period ∣ done + executed.length)
  settings ++ if ends then [.frameEnded (e.call c).machine.keyWait] else []

/-- What a run does to a timer. -/
def timerHistory (timer : Timer) (period done : Nat) (e : Emulator) : List Call → List TimerEvent
  | [] => []
  | c :: run => e.timerEvents timer period done c ++
    (e.call c).timerHistory timer period (done + (executions (e.callEvents c)).length) run

/-! ## One call -/

theorem timerEvents_endFrame (e : Emulator) :
    e.timerEvents timer period done .endFrame =
      [.frameEnded (e.call .endFrame).machine.keyWait] := by
  have hnone : executions (e.callEvents .endFrame) = [] := executesNothing_endFrame e
  simp [timerEvents, hnone]

theorem timerEvents_cycle_of_ne (ho : e.host.Obliging) (hne : e.cycle.result ≠ .ok .proceed) :
    e.timerEvents timer period done .cycle = [] := by
  have hnone : executions (e.callEvents .cycle) = [] := (executions_cycle ho).trans (if_neg hne)
  simp [timerEvents, hnone]

theorem timerEvents_cycle (ho : e.host.Obliging) (hgo : e.cycle.result = .ok .proceed) :
    e.timerEvents timer period done .cycle =
      (if timer.setBy e.machine.instruction then [.set (e.machine.get e.machine.instruction.x)]
        else []) ++
      if period ∣ done + 1 then [.frameEnded e.cycle.state.machine.keyWait] else [] := by
  have honce : executions (e.callEvents .cycle) = [(e.machine.pc, e.machine.instruction)] :=
    (executions_cycle ho).trans (if_pos hgo)
  simp only [timerEvents, honce, List.filter_singleton]
  cases timer.setBy e.machine.instruction <;> simp [call]

/-- A cycle that does not go through leaves the clock and the timers alone. -/
theorem stands_of_ne (ho : e.host.Obliging) (hne : e.cycle.result ≠ .ok .proceed) :
    e.cycle.state.clock = e.clock ∧ e.cycle.state.machine.timers = e.machine.timers ∧
      e.cycle.state.host.refuses = e.host.refuses := by
  cases e.cycle_course with
  | unplayed _ _ hcore | unheard _ _ _ hcore =>
    exact ⟨congrArg Core.clock hcore, congrArg (·.machine.timers) hcore,
      congrArg Core.refuses hcore⟩
  | @failed polled m _ htakes hstep _ hcore =>
    obtain ⟨keypad, rfl⟩ := htakes.eq
    obtain ⟨pc, hstate⟩ := Machine.state_step_of_error hstep
    rw [hstate] at hcore
    cases polled <;> exact ⟨congrArg Core.clock hcore, congrArg (·.machine.timers) hcore,
      congrArg Core.refuses hcore⟩
  | advanced _ _ hcore hopen hplain hframes _ heq =>
    exact absurd (executed_of_advanced ho hcore hopen hplain hframes heq).result hne

/-- The clock has counted `done` instructions, and the timer stands where its history says. -/
structure Timed (e : Emulator) (timer : Timer) (period done : Nat) (history : List TimerEvent) :
    Prop where
  obliging : e.host.Obliging
  clock : e.clock.Counted period done
  accounted : TimerEvent.Accounted history (timer.count e.machine.timers)

theorem Timed.endFrame (h : e.Timed timer period done history) :
    (e.call .endFrame).Timed timer period done
      (history ++ e.timerEvents timer period done .endFrame) := by
  obtain ⟨r, t, events, machine, beeper, heq, hcore, -, -, -, hobliging⟩ := endFrame_cases e
  obtain ⟨-, rfl, -⟩ := hobliging h.obliging
  have hstate : e.call .endFrame = t := congrArg Outcome.state heq
  have hmachine : t.machine = e.machine.endFrame := congrArg Core.machine hcore
  have hclock : t.clock = e.clock := congrArg Core.clock hcore
  rw [timerEvents_endFrame, hstate]
  refine ⟨h.obliging.congr (congrArg Core.refuses hcore), ?_, ?_⟩
  · rw [hclock]
    exact h.clock
  · rw [hmachine]
    exact h.accounted.endFrame

theorem Timed.cycle_of_ne (h : e.Timed timer period done history)
    (hne : e.cycle.result ≠ .ok .proceed) :
    (e.call .cycle).Timed timer period done
      (history ++ e.timerEvents timer period done .cycle) := by
  obtain ⟨hclock, htimers, hrefuses⟩ := stands_of_ne h.obliging hne
  rw [timerEvents_cycle_of_ne h.obliging hne, List.append_nil]
  refine ⟨h.obliging.congr hrefuses, ?_, ?_⟩
  · rw [call, hclock]
    exact h.clock
  · rw [call, htimers]
    exact h.accounted

/-- An instruction sets the timer or leaves it alone. Behind it the frame may end. -/
theorem Timed.cycle_of_proceed (h : e.Timed timer period done history)
    (hgo : e.cycle.result = .ok .proceed) :
    (e.call .cycle).Timed timer period (done + 1)
      (history ++ e.timerEvents timer period done .cycle) := by
  obtain ⟨polled, m, i, htakes, hstep, hexecuted⟩ := executed_of_proceed h.obliging hgo
  have hdue : e.frameDue = true ↔ period ∣ done + 1 := h.clock.due
  have hinstruction : i = e.machine.instruction := by
    rw [Machine.instruction_of_step hstep]
    obtain ⟨keypad, rfl⟩ := htakes.eq
    rfl
  have hset : TimerEvent.Accounted
      (history ++ if timer.setBy e.machine.instruction then
        [.set (e.machine.get e.machine.instruction.x)] else [])
      (timer.count m.step.state.timers) := by
    rw [Timer.count_step hstep, hinstruction]
    obtain ⟨keypad, rfl⟩ := htakes.eq
    split
    · exact .set _ _
    · rw [List.append_nil]
      exact h.accounted
  rw [timerEvents_cycle h.obliging hgo, ← List.append_assoc]
  refine ⟨h.obliging.congr hexecuted.refuses, ?_, ?_⟩
  · rw [call, hexecuted.clock]
    exact h.clock.advance
  · rw [call, hexecuted.machine]
    by_cases hends : e.frameDue = true
    · rw [if_pos hends, if_pos (hdue.1 hends)]
      exact hset.endFrame
    · rw [if_neg hends, if_neg (fun hdvd => hends (hdue.2 hdvd)), List.append_nil]
      exact hset

/-! ## Runs -/

theorem Timed.call (h : e.Timed timer period done history) (c : Call) :
    (e.call c).Timed timer period (done + (executions (e.callEvents c)).length)
      (history ++ e.timerEvents timer period done c) := by
  cases c with
  | endFrame =>
    have hnone : executions (e.callEvents .endFrame) = [] := executesNothing_endFrame e
    rw [hnone]
    exact h.endFrame
  | cycle =>
    have hexecutions : executions (e.callEvents .cycle) = _ := executions_cycle h.obliging
    rw [hexecutions]
    split
    · rename_i hgo
      exact h.cycle_of_proceed hgo
    · rename_i hne
      exact h.cycle_of_ne hne

theorem Timed.calls (h : e.Timed timer period done history) (run : List Call) :
    TimerEvent.Accounted (history ++ e.timerHistory timer period done run)
      (timer.count (e.calls run).machine.timers) := by
  induction run generalizing e done history with
  | nil =>
    rw [timerHistory, List.append_nil]
    exact h.accounted
  | cons c run ih =>
    rw [timerHistory, ← List.append_assoc]
    exact ih (h.call c)

/-- **Each timer stands at what it was set to last, less the frames since then**, but for those in
which the machine waited for a key to come up. So it is behind every run, whatever the program, the
rate, the script and the console. -/
theorem timers_accounted (rate : UInt32) (dialect : Dialect) (seed : UInt64)
    (program : List UInt8) (script : List Scripted) (bare : Bool) (debugger : Option Debugger)
    (run : List Call) (timer : Timer) :
    let e := loadedWith rate dialect seed { script, bare } debugger program
    let history := e.timerHistory timer (max 1 (rate.toNat / 60)) 0 run
    (timer.count (e.calls run).machine.timers).toNat =
      (TimerEvent.lastValue history).toNat - TimerEvent.fallsSince history := by
  intro e history
  obtain ⟨memory, hmachine⟩ :=
    machine_loadedWith rate dialect seed { script, bare } debugger program
  have hstart : e.Timed timer (max 1 (rate.toNat / 60)) 0 [] := by
    refine ⟨?_, ?_, ?_⟩
    · rw [show e.host = _ from host_loadedWith ..]
      exact fun _ _ => rfl
    · rw [show e.clock = _ from clock_loadedWith ..]
      exact FrameClock.counted_ofRate rate
    · rw [show e.machine = _ from hmachine]
      cases timer <;> rfl
  exact hstart.calls run

set_option maxRecDepth 20000 in
/-- A timer that is set to five falls at the end of its own frame, in a frame that waits for a key
to go down, and at an end that the run calls for. -/
example :
    let e := loadedWith 60 .modern 0 {} none [0x6A, 0x05, 0xFA, 0x15, 0xF3, 0x0A]
    e.timerHistory .delay 1 0 [.cycle, .cycle, .cycle, .endFrame] =
        [.frameEnded none, .set 5, .frameEnded none, .frameEnded (some .press),
          .frameEnded (some .press)] ∧
      (e.calls [.cycle, .cycle, .cycle, .endFrame]).machine.timers.delay = 2 := by
  decide +kernel

end Emulator

end Chip8
