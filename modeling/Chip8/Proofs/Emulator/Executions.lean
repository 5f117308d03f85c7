import Chip8.Proofs.Debugger.Session
import Chip8.Proofs.Emulator.Calls
import Chip8.Proofs.Emulator.Intake

/-!
# The instructions of a run

The log of an emulator tells which instructions it executes. Only one stage of a cycle executes
anything, so a cycle executes one instruction or none: the one at the program counter if it goes
through, and none if it quits (`executions_of_proceed`, `executions_of_quit`). If nothing is
refused, it executes one just when it goes through (`executions_cycle`), and what it shows comes
behind that (`executesOnce_cycle`).
-/

namespace Chip8

namespace Emulator

variable {e : Emulator} {α : Type}

/-! ## Stages that execute nothing -/

/-- The activity executes nothing. -/
def ExecutesNothing (x : Act Emulator α) : Prop :=
  x.Within fun _ events _ => executions events = []

theorem composes_executesNothing :
    Act.Composes fun (_ : Emulator) events (_ : Emulator) => executions events = [] where
  nothing _ := rfl
  after hfirst hlast := by rw [executions_append, hfirst, hlast]; rfl

theorem executesNothing_closeConsole : ExecutesNothing closeConsole := by
  intro e
  rw [closeConsole_eq]
  split
  · split
    · split <;> rfl
    · rfl
  · rfl

theorem executesNothing_switchBeeper : ExecutesNothing switchBeeper := by
  intro e
  rw [switchBeeper_eq]
  split
  · rw [beepEvents]
    split <;> rfl
  · rfl

theorem executesNothing_endFrame : ExecutesNothing endFrame := by
  intro e
  rw [endFrame_eq]
  split
  · exact executesNothing_switchBeeper _
  · split
    · exact executesNothing_switchBeeper _
    · rfl

theorem executesNothing_countInstruction : ExecutesNothing countInstruction := by
  intro e
  rw [countInstruction_eq]
  split
  · exact executesNothing_endFrame _
  · rfl

theorem executesNothing_settle : ExecutesNothing settle :=
  within_settle composes_executesNothing executesNothing_closeConsole
    executesNothing_countInstruction

/-! ## The stage that executes -/

/-- The activity executes one instruction if it goes through, and shows frames behind it only; else
it executes none. -/
structure ExecutesOnce (place : UInt16 × Instruction) (o : Outcome Emulator Flow) : Prop where
  through : o.result = .ok .proceed → ∃ before behind, o.events = before ++ behind ∧
    shownFrames before = [] ∧ executions before = [place] ∧ executions behind = []
  otherwise : o.result ≠ .ok .proceed → executions o.events = []

theorem ExecutesOnce.after {place : UInt16 × Instruction} {o : Outcome Emulator Flow}
    {earlier : List Event} (h : ExecutesOnce place o) (hexecutions : executions earlier = [])
    (hframes : shownFrames earlier = []) : ExecutesOnce place (o.after earlier) := by
  refine ⟨?_, ?_⟩
  · intro hgo
    obtain ⟨before, behind, hevents, hbefore, honce, hbehind⟩ := h.through hgo
    refine ⟨earlier ++ before, behind, ?_, ?_, ?_, hbehind⟩
    · rw [Outcome.after, hevents, List.append_assoc]
    · rw [shownFrames_append, hframes, hbefore]
      rfl
    · rw [executions_append, hexecutions, honce]
      rfl
  · intro hne
    rw [Outcome.after, executions_append, hexecutions, h.otherwise hne]
    rfl

theorem ExecutesOnce.of_ne {place : UInt16 × Instruction} {o : Outcome Emulator Flow}
    (hne : o.result ≠ .ok .proceed) (hnone : executions o.events = []) : ExecutesOnce place o :=
  ⟨fun hgo => absurd hgo hne, fun _ => hnone⟩

theorem host_advance (e : Emulator) : (advance e).state.host = e.host := by
  rw [advance]
  split <;> rfl

theorem shownFrames_advance (e : Emulator) : shownFrames (advance e).events = [] := by
  rw [advance]
  split
  · rename_i d _
    refine List.filterMap_eq_nil_iff.2 fun event hevent => ?_
    obtain ⟨notice, rfl⟩ | ⟨-, hconsole⟩ := d.seen_step e.machine event hevent
    · rfl
    · cases event with
      | printed | consoleRead => rfl
      | notice | hostCall | shown => exact hconsole.elim
  · exact shownFrames_step e.machine

/-- **The instruction at the program counter is executed, or none is.** -/
theorem executions_advance (e : Emulator) :
    ((advance e).result = .ok .proceed →
      executions (advance e).events = [(e.machine.pc, e.machine.instruction)]) ∧
    ((advance e).result ≠ .ok .proceed → executions (advance e).events = []) := by
  rw [advance]
  split
  · rename_i d _
    dsimp only [Outcome.onState]
    cases d.step_course e.machine with
    | executed i step result _ once =>
      rw [result, once, Machine.instruction_of_step step]
      exact ⟨fun _ => rfl, fun hne => absurd rfl hne⟩
    | failed _ _ result _ none =>
      rw [result, none]
      exact ⟨fun h => absurd h (by simp), fun _ => rfl⟩
    | talked _ result _ none => exact ⟨fun h => absurd h result, fun _ => none⟩
  · dsimp only [Outcome.onState]
    rw [Machine.events_step]
    cases hstep : e.machine.step.result with
    | ok i =>
      rw [Machine.instruction_of_step hstep]
      exact ⟨fun _ => rfl, fun hne => absurd rfl hne⟩
    | error stop => exact ⟨fun h => absurd h (by simp [Except.map]), fun _ => rfl⟩

/-- What comes behind the instruction executes nothing more. -/
theorem executions_execute (e : Emulator) :
    executions (execute e).events = if (advance e).result = .ok .proceed then
      [(e.machine.pc, e.machine.instruction)] else [] := by
  obtain ⟨honce, hnone⟩ := executions_advance e
  split
  · rename_i hgo
    rcases hadvance : advance e with ⟨result, t, events⟩
    rw [hadvance] at hgo honce
    obtain rfl : result = .ok .proceed := hgo
    have hsettle : executions (settle t).events = [] := executesNothing_settle t
    rw [execute_of_proceed hadvance, Outcome.after, executions_append, honce rfl, hsettle]
    rfl
  · rename_i hne
    rw [execute_of_ne hne]
    exact hnone hne

/-! ## The whole cycle -/

theorem executesNothing_intake : ExecutesNothing intake :=
  fun e => e.filterMap_intake (fun _ => rfl) (fun _ => rfl) rfl

/-- **A cycle that goes through has executed the instruction at the program counter.** -/
theorem executions_of_proceed (h : e.cycle.result = .ok .proceed) :
    executions e.cycle.events = [(e.machine.pc, e.machine.instruction)] := by
  have htaken := e.takenIn_intake
  have hnone := executesNothing_intake e
  rcases hintake : intake e with ⟨stop | (_ | _), t, events⟩
  all_goals rw [hintake] at htaken hnone
  · rw [cycle_of_error hintake] at h
    cases h
  · obtain ⟨keypad, hmachine⟩ := htaken.machine
    rw [cycle_of_proceed hintake] at h ⊢
    rw [Outcome.after, executions_append, hnone, executions_execute,
      if_pos ((advance_of_execute h).2 rfl), hmachine]
    rfl
  · rw [cycle_of_quit hintake] at h
    cases h

/-- **A cycle that quits has executed nothing.** -/
theorem executions_of_quit (h : e.cycle.result = .ok .quit) : executions e.cycle.events = [] := by
  have hnone := executesNothing_intake e
  rcases hintake : intake e with ⟨stop | (_ | _), t, events⟩
  all_goals rw [hintake] at hnone
  · rw [cycle_of_error hintake] at h
    cases h
  · rw [cycle_of_proceed hintake] at h ⊢
    rw [Outcome.after, executions_append, hnone, executions_execute, if_neg]
    · rfl
    · exact fun hgo => by cases (advance_of_execute h).1 hgo
  · rw [cycle_of_quit hintake]
    exact hnone

/-- Behind the step everything goes through, if nothing is refused. -/
theorem executesOnce_execute (ho : e.host.Obliging) :
    ExecutesOnce (e.machine.pc, e.machine.instruction) (execute e) := by
  obtain ⟨honce, hnone⟩ := executions_advance e
  by_cases hgo : (advance e).result = .ok .proceed
  · have hframes := shownFrames_advance e
    have hhost := host_advance e
    rcases hadvance : advance e with ⟨result, t, events⟩
    rw [hadvance] at hgo honce hframes hhost
    obtain rfl : result = .ok .proceed := hgo
    obtain ⟨u, events', hsettle, -⟩ := settle_obliging (ho.congr (congrArg Host.refuses hhost))
    have hbehind := executesNothing_settle t
    rw [hsettle] at hbehind
    rw [execute_of_proceed hadvance, hsettle]
    exact ⟨fun _ => ⟨events, events', rfl, hframes, honce rfl, hbehind⟩,
      fun hne => absurd rfl hne⟩
  · rw [execute_of_ne hgo]
    exact .of_ne hgo (hnone hgo)

/-- **A cycle executes the instruction at the program counter, or none**, if nothing is refused. -/
theorem executesOnce_cycle (ho : e.host.Obliging) :
    ExecutesOnce (e.machine.pc, e.machine.instruction) e.cycle := by
  have htaken := e.takenIn_intake
  have hquiet := executesNothing_intake e
  have hframes := e.shownFrames_intake
  rcases hintake : intake e with ⟨stop | (_ | _), t, events⟩
  all_goals rw [hintake] at htaken hquiet hframes
  · rw [cycle_of_error hintake]
    exact .of_ne (by simp) hquiet
  · -- The intake changes the keypad only, so the instruction is still the same.
    obtain ⟨keypad, hmachine⟩ := htaken.machine
    have honce := executesOnce_execute (e := t) (ho.congr htaken.refuses)
    rw [hmachine] at honce
    rw [cycle_of_proceed hintake]
    exact honce.after hquiet hframes
  · rw [cycle_of_quit hintake]
    exact .of_ne (by simp) hquiet

/-- **If nothing is refused, a cycle executes an instruction just when it goes through.** -/
theorem executions_cycle (ho : e.host.Obliging) :
    executions e.cycle.events = if e.cycle.result = .ok .proceed then
      [(e.machine.pc, e.machine.instruction)] else [] := by
  obtain ⟨hthrough, hotherwise⟩ := executesOnce_cycle ho
  split
  · rename_i hgo
    obtain ⟨before, behind, hevents, -, honce, hbehind⟩ := hthrough hgo
    rw [hevents, executions_append, honce, hbehind]
    rfl
  · rename_i hne
    exact hotherwise hne

end Emulator

end Chip8
