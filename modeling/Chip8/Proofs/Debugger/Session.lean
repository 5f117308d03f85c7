import Chip8.Proofs.Debugger
import Chip8.Proofs.Machine.Faults
import Chip8.Proofs.Machine.Run

/-!
# Sessions with a debugger

A debugger changes the machine through the machine's own steps and in no other way, whatever its
console says.

* `talk_converse`: a talk with the console ends after a number of lines that the length of the input
  bounds, and in one of four ways (`TalkEnd`);
* `step_course`: a step of the debugger comes to one step of the machine, or leaves it as it is;
* `session_steps`: what a session makes of the machine is what the machine's steps make of it.
-/

namespace Chip8

/-- The instructions executed among the events, with their addresses. -/
def executions (events : List Event) : List (UInt16 × Instruction) :=
  events.filterMap fun
    | .notice (.executed addr instruction) => some (addr, instruction)
    | _ => none

theorem executions_append (first last : List Event) :
    executions (first ++ last) = executions first ++ executions last :=
  List.filterMap_append

theorem executions_of_onConsole {events : List Event} (h : ∀ event ∈ events, event.OnConsole) :
    executions events = [] :=
  filterMap_of_onConsole (fun _ => rfl) rfl h

/-- What can be left of an input that is read line by line. -/
inductive Console.Unread (input : List UInt8) : List UInt8 → Prop
  | all : Unread input input
  | line {unread : List UInt8} (h : Unread input unread) : Unread input (readLine unread).2

theorem Console.Unread.trans {input unread rest : List UInt8} (h : Unread unread rest)
    (h' : Unread input unread) : Unread input rest := by
  induction h with
  | all => exact h'
  | line _ ih => exact ih.line

namespace Debugger

variable {input unread : List UInt8} {m : Machine} {d : Debugger}

/-! ## Talks -/

/-- Why a talk fails: a line of the console is not UTF-8. -/
def malformedLine : Stop := .fault (.transfer .malformedText)

/-- How a talk ends that starts with some input: its result, and the input that it leaves. -/
inductive TalkEnd (input : List UInt8) : Result Flow → List UInt8 → Prop
  /-- A command lets the machine go. -/
  | letGo (rest : List UInt8) (left : Console.Unread input rest) : TalkEnd input (.ok .proceed) rest
  /-- The session ends with the command to quit. -/
  | quit (unread rest : List UInt8) (line : List Char) (left : Console.Unread input unread)
      (read : Console.readLine unread = (some line, rest))
      (parse : Command.parse? line = some .quit) : TalkEnd input (.ok .quit) rest
  /-- The session ends with the input. -/
  | ended (left : Console.Unread input []) : TalkEnd input (.ok .quit) []
  /-- A line is not UTF-8. -/
  | malformed (unread rest : List UInt8) (left : Console.Unread input unread)
      (read : Console.readLine unread = (none, rest)) : TalkEnd input (.error malformedLine) rest

theorem TalkEnd.of_unread {r : Result Flow} {rest : List UInt8} (h : TalkEnd unread r rest)
    (hu : Console.Unread input unread) : TalkEnd input r rest := by
  cases h with
  | letGo _ left => exact .letGo rest (left.trans hu)
  | quit unread' _ line left read parse =>
    exact .quit unread' rest line (left.trans hu) read parse
  | ended left => exact .ended (left.trans hu)
  | malformed unread' _ left read => exact .malformed unread' rest (left.trans hu) read

/-- A talk fails for no other reason. -/
theorem TalkEnd.stop_eq {stop : Stop} {rest : List UInt8} (h : TalkEnd input (.error stop) rest) :
    stop = malformedLine := by
  cases h
  rfl

/-- What a talk is that starts with some input. -/
structure Talk (input : List UInt8) (o : Outcome Debugger Flow) : Prop where
  reads : o.events.count .consoleRead ≤ 2 * input.length + 1
  ends : TalkEnd input o.result o.state.console

/-- A talk that began earlier: each byte that was taken since pays for two reads. -/
theorem Talk.after {o : Outcome Debugger Flow} {earlier : List Event} (h : Talk unread o)
    (hu : Console.Unread input unread)
    (hreads : earlier.count .consoleRead + 2 * unread.length ≤ 2 * input.length) :
    Talk input (o.after earlier) := by
  refine ⟨?_, h.ends.of_unread hu⟩
  have hrest := h.reads
  rw [Outcome.after, List.count_append]
  omega

/-- **A talk ends**, with at most two lines read for each byte of the input and one more. -/
theorem talk_converse (m : Machine) (d : Debugger) (announced : Bool) :
    Talk d.console (d.converse m announced) := by
  fun_induction converse m d announced with
  | case1 d announced ihRefused ihShown ihAsked =>
    have hhere : Console.Unread d.console d.console := .all
    refine Talk.after ?_ hhere (by split <;> simp)
    split
    · rename_i hend
      exact ⟨by simp, by rw [hend] at hhere ⊢; exact .ended hhere⟩
    rename_i hleft
    have hlt := Console.length_rest_lt hleft
    have hrest := hhere.line
    split
    · rename_i hread
      exact ⟨by simp [Outcome.after], .malformed d.console _ hhere (Prod.ext hread rfl)⟩
    rename_i line hread
    split
    case h_1 =>
      rw [Outcome.after_after]
      exact (ihRefused hleft).after hrest (by simp; omega)
    case h_2 | h_3 =>
      rw [Outcome.after_after]
      exact (ihShown hleft).after hrest (by simp; omega)
    case h_4 | h_5 | h_7 => exact ⟨by simp [Outcome.after], .letGo _ hrest⟩
    case h_6 hparse =>
      exact ⟨by simp [Outcome.after], .quit d.console _ line hhere (Prod.ext hread rfl) hparse⟩
    -- The address of a breakpoint is asked for.
    rw [Outcome.after_after]
    have hlast := hrest.line
    have hle := Console.length_rest_le (Console.readLine d.console).2
    split
    · rename_i hanswer
      exact ⟨by simp [Outcome.after]; omega, .malformed _ _ hrest (Prod.ext hanswer rfl)⟩
    split
    · exact ⟨by simp [Outcome.after]; omega, .letGo _ hlast⟩
    · rw [Outcome.after_after]
      exact (ihAsked hleft).after hlast (by simp; omega)

/-! ## Steps -/

/-- What a step of the debugger comes to. -/
inductive StepCourse (d : Debugger) (m : Machine) (o : Outcome (Debugger × Machine) Flow) : Prop
  /-- The machine makes a step that succeeds. -/
  | executed (i : Instruction) (step : m.step.result = .ok i) (result : o.result = .ok .proceed)
    (machine : o.state.2 = m.step.state) (once : executions o.events = [(m.pc, i)])
  /-- The machine makes a step that fails. -/
  | failed (stop : Stop) (step : m.step.result = .error stop) (result : o.result = .error stop)
    (machine : o.state.2 = m.step.state) (none : executions o.events = [])
  /-- The talk goes no further, and the machine makes no step. -/
  | talked (ends : TalkEnd d.console o.result o.state.1.console) (result : o.result ≠ .ok .proceed)
    (machine : o.state.2 = m) (none : executions o.events = [])

/-- Letting the machine go makes one step of it. -/
theorem course_advance (d d' : Debugger) (m : Machine) : StepCourse d m (d'.advance m) := by
  have hevents := m.events_step
  rcases hstep : m.step with ⟨stop | i, after, events⟩
  · rw [hstep] at hevents
    obtain rfl : events = [] := hevents
    rw [advance, hstep]
    exact .failed stop (by rw [hstep]) rfl (by rw [hstep]) rfl
  · rw [hstep] at hevents
    obtain rfl : events = [.notice (.executed m.pc i)] := hevents
    rw [advance, hstep]
    dsimp only
    split
    · exact .executed i (by rw [hstep]) rfl (by rw [hstep]) rfl
    · exact .executed i (by rw [hstep]) rfl (by rw [hstep]) rfl

theorem reads_advance (d : Debugger) (m : Machine) :
    (d.advance m).events.count .consoleRead = 0 := by
  refine List.count_eq_zero.2 fun hread => ?_
  obtain ⟨notice, heq⟩ := d.notice_of_advance m _ hread
  cases heq

theorem StepCourse.after {o : Outcome (Debugger × Machine) Flow} {earlier : List Event}
    (h : StepCourse d m o) (hearlier : executions earlier = []) :
    StepCourse d m (o.after earlier) := by
  have hsame : executions (o.after earlier).events = executions o.events := by
    rw [Outcome.after, executions_append, hearlier, List.nil_append]
  cases h with
  | executed i step result machine once => exact .executed i step result machine (hsame.trans once)
  | failed stop step result machine none =>
    exact .failed stop step result machine (hsame.trans none)
  | talked ends result machine none => exact .talked ends result machine (hsame.trans none)

/-- **A step of the debugger makes one step of the machine, or is a talk that goes no further.** -/
theorem step_course (d : Debugger) (m : Machine) : StepCourse d m (d.step m) := by
  have hends := (talk_converse m d false).ends
  have hnone := executions_of_onConsole (d.onConsole_converse m false)
  refine d.step_elim m (P := StepCourse d m) ?_ ?_ ?_
  · exact fun _ => course_advance d d m
  · intro d' events _ hc
    rw [hc] at hnone
    exact (course_advance d d' m).after hnone
  · intro r d' events _ hc hkept
    rw [hc] at hends hnone
    exact .talked hends hkept rfl hnone

/-- Only a talk reads from the console, so a step reads no more than a talk does. -/
theorem reads_step (d : Debugger) (m : Machine) :
    (d.step m).events.count .consoleRead ≤ 2 * d.console.length + 1 := by
  have hreads := (talk_converse m d false).reads
  refine d.step_elim m
    (P := fun o => o.events.count .consoleRead ≤ 2 * d.console.length + 1) ?_ ?_ ?_
  · intro _
    rw [reads_advance]
    omega
  · intro d' events _ hc
    rw [hc] at hreads
    rw [Outcome.after, List.count_append, reads_advance]
    exact hreads
  · intro r d' events _ hc _
    rw [hc] at hreads
    exact hreads

end Debugger

namespace Machine

theorem steps_succ {m : Machine} {i : Instruction} (h : m.step.result = .ok i) (n : Nat) :
    m.steps (n + 1) =
      (i :: (m.step.state.steps n).1, (m.step.state.steps n).2.after m.step.events) := by
  rw [steps]
  rcases hstep : m.step with ⟨stop | i', after, events⟩
  · rw [hstep] at h
    cases h
  · rw [hstep] at h
    cases h
    rfl

end Machine

namespace Debugger

/-! ## Sessions -/

/-- What a number of steps of the debugger come to, one after the other whatever they return: their
results, and the debugger and the machine behind them. -/
def session (d : Debugger) (m : Machine) : Nat → List (Result Flow) × Debugger × Machine
  | 0 => ([], d, m)
  | n + 1 =>
    let o := d.step m
    let (results, last) := o.state.1.session o.state.2 n
    (o.result :: results, last)

/-- **A session changes the machine through the machine's steps**: without an error of the machine,
it makes as many as the session lets the machine go. -/
theorem session_steps {d : Debugger} {m : Machine} {n : Nat}
    (h : ∀ stop, .error stop ∈ (d.session m n).1 → stop = malformedLine) :
    let plain := (m.steps ((d.session m n).1.count (.ok .proceed))).2
    plain.result = .ok () ∧ plain.state = (d.session m n).2.2 := by
  induction n generalizing d m with
  | zero => exact ⟨rfl, rfl⟩
  | succ n ih =>
    rw [session] at h ⊢
    have hrest := ih fun stop hstop => h stop (List.mem_cons_of_mem _ hstop)
    cases d.step_course m with
    | executed i step result machine =>
      rw [machine] at hrest
      rw [result, machine, List.count_cons_self, Machine.steps_succ step]
      exact hrest
    | failed stop step result =>
      have hline : stop = malformedLine := h stop (by rw [result]; exact List.mem_cons_self)
      exact absurd (hline ▸ step) (m.step_ne_transfer _)
    | talked ends result machine =>
      rw [machine] at hrest
      rw [machine, List.count_cons_of_ne result]
      exact hrest

/-- **The debugger changes the machine only through its steps.** A step of the debugger ends, with
at most two lines read for each byte of the console and one more. If it lets the machine go, the
machine has made one step, which succeeded; if the session ends or a line is malformed, the machine
is as it was; and any other failure is that of the machine's step. Without such a failure a session
of any length leaves the machine where its own steps lead. -/
theorem machine_only_through_steps (d : Debugger) (m : Machine) :
    (d.step m).events.count .consoleRead ≤ 2 * d.console.length + 1 ∧
    ((d.step m).result = .ok .proceed → ∃ i, m.step.result = .ok i ∧
      (d.step m).state.2 = m.step.state ∧ executions (d.step m).events = [(m.pc, i)]) ∧
    ((d.step m).result = .ok .quit →
      (d.step m).state.2 = m ∧ executions (d.step m).events = [] ∧
      TalkEnd d.console (.ok .quit) (d.step m).state.1.console) ∧
    (∀ stop, (d.step m).result = .error stop → executions (d.step m).events = [] ∧
      (stop = malformedLine ∧ (d.step m).state.2 = m ∧
          TalkEnd d.console (.error stop) (d.step m).state.1.console ∨
        stop ≠ malformedLine ∧ m.step.result = .error stop ∧
          (d.step m).state.2 = m.step.state)) ∧
    ∀ n, (∀ stop, .error stop ∈ (d.session m n).1 → stop = malformedLine) →
      let plain := (m.steps ((d.session m n).1.count (.ok .proceed))).2
      plain.result = .ok () ∧ plain.state = (d.session m n).2.2 := by
  refine ⟨d.reads_step m, ?_, ?_, ?_, fun n h => session_steps h⟩
  · intro hgo
    cases d.step_course m with
    | executed i step result machine once => exact ⟨i, step, machine, once⟩
    | failed stop step result => simp [hgo] at result
    | talked ends result => exact absurd hgo result
  · intro hquit
    cases d.step_course m with
    | executed i step result => simp [hquit] at result
    | failed stop step result => simp [hquit] at result
    | talked ends result machine none => exact ⟨machine, none, hquit ▸ ends⟩
  · intro stop herror
    cases d.step_course m with
    | executed i step result => simp [herror] at result
    | failed stop' step result machine none =>
      obtain rfl : stop = stop' := Except.error.inj (herror.symm.trans result)
      refine ⟨none, .inr ⟨?_, step, machine⟩⟩
      rintro rfl
      exact m.step_ne_transfer _ step
    | talked ends result machine none =>
      rw [herror] at ends
      exact ⟨none, .inl ⟨ends.stop_eq, machine, ends⟩⟩

set_option maxRecDepth 20000 in
/-- One instruction, then a line that is no text, and the end of the input behind a prompt. -/
theorem machine_only_through_steps_three :
    let m := Machine.loadedWith .modern 0 [0x60, 0x2A]
    let d : Debugger := { paused := true, console := [110, 10, 0xFF, 10, 98] }
    (d.session m 3).1 = [.ok .proceed, .error malformedLine, .ok .quit] ∧
      (m.steps 1).2.state = (d.session m 3).2.2 ∧ (d.session m 3).2.2.get 0 = 42 := by
  intro m d
  have hresults : (d.session m 3).1 = [.ok .proceed, .error malformedLine, .ok .quit] := by
    decide +kernel
  have honce : (d.session m 3).1.count (.ok .proceed) = 1 := by
    rw [hresults]
    decide
  have hsame := (machine_only_through_steps d m).2.2.2.2 3 (by rw [hresults]; simp)
  rw [honce] at hsame
  exact ⟨hresults, hsame.2, by decide +kernel⟩

end Debugger

end Chip8
