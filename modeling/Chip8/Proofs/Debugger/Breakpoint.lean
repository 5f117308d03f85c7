import Chip8.Proofs.Debugger.Requests

/-!
# Arrival at the breakpoint

A debugger that lets the machine go is paused behind it for one of two reasons: the machine arrived
at the breakpoint, or it was let go for one instruction only, with `n`. Which command let the
machine go is read off the console: it is the line read last (`LastRead`).

* `pauses_on_arrival`: when a step pauses the debugger, what a step of a running debugger leaves
  alone, and how far a running debugger runs.
-/

namespace Chip8

/-! ## The line read last -/

namespace Console

variable {input unread unread' rest : List UInt8}

theorem Unread.length_le (h : Unread input unread) : unread.length ≤ input.length := by
  induction h with
  | all => exact Nat.le_refl _
  | line _ ih => exact Nat.le_trans (length_rest_le _) ih

/-- What is left is all of the input, or is left of what lies behind its first line. -/
theorem Unread.cases_head (h : Unread input unread) :
    unread = input ∨ Unread (readLine input).2 unread := by
  induction h with
  | all => exact .inl rfl
  | line _ ih =>
    rcases ih with rfl | hrest
    · exact .inr .all
    · exact .inr hrest.line

/-- An input is read in one order. -/
theorem Unread.total (h : Unread input unread) (h' : Unread input unread') :
    Unread unread unread' ∨ Unread unread' unread := by
  induction h with
  | all => exact .inl h'
  | line _ ih =>
    rcases ih with hbehind | hbefore
    · rcases hbehind.cases_head with rfl | hrest
      · exact .inr Unread.all.line
      · exact .inl hrest
    · exact .inr hbefore.line

/-- The line that was read last from the input, if `rest` of it is left. -/
def LastRead (input rest : List UInt8) (line : List Char) : Prop :=
  ∃ unread, Unread input unread ∧ unread ≠ [] ∧ readLine unread = (some line, rest)

variable {line line' : List Char}

theorem LastRead.of_unread (h : LastRead unread rest line) (hu : Unread input unread) :
    LastRead input rest line := by
  obtain ⟨last, hlast, hsome, hread⟩ := h
  exact ⟨last, hlast.trans hu, hsome, hread⟩

/-- Who has read a line has less left. -/
theorem LastRead.length_lt (h : LastRead input rest line) : rest.length < input.length := by
  obtain ⟨unread, hunread, hsome, hread⟩ := h
  have hlt := length_rest_lt hsome
  rw [hread] at hlt
  exact Nat.lt_of_lt_of_le hlt hunread.length_le

/-- What is left tells which line was read last. -/
theorem LastRead.unique (h : LastRead input rest line) (h' : LastRead input rest line') :
    line = line' := by
  -- Of two different places to read from, the later one lies behind the line read at the other.
  have same : ∀ {unread unread' line line'}, Unread unread unread' → unread' ≠ [] →
      readLine unread = (some line, rest) → readLine unread' = (some line', rest) →
      line = line' := by
    intro unread unread' line line' hbehind hsome hread hread'
    rcases hbehind.cases_head with rfl | hrest
    · rw [hread] at hread'
      simpa using hread'
    · have hle := hrest.length_le
      have hlt := length_rest_lt hsome
      rw [hread] at hle
      rw [hread'] at hlt
      exact absurd hlt (Nat.not_lt.2 hle)
  obtain ⟨unread, hunread, hsome, hread⟩ := h
  obtain ⟨unread', hunread', hsome', hread'⟩ := h'
  rcases hunread.total hunread' with hbehind | hbehind
  · exact same hbehind hsome' hread hread'
  · exact (same hbehind hsome hread' hread).symm

end Console

open Console (LastRead)

/-- An address is no command to execute one instruction. -/
theorem Command.parse?_ne_next {line : List Char} {addr : UInt16}
    (h : Text.readAddress? line = some addr) : parse? line ≠ some .next := by
  intro hparse
  obtain ⟨operand, hletter⟩ : ∃ operand, Text.trim line = 'n' :: operand := by
    unfold parse? plain? at hparse
    split at hparse
    case h_3 operand hletter => exact ⟨operand, hletter⟩
    case h_6 =>
      split at hparse
      · cases hparse
      · simp at hparse
    case h_7 => cases hparse
    all_goals
      split at hparse <;> cases hparse
  have hdigit : Text.digitValue? 16 'n' = none := by decide
  simp [Text.readAddress?, hletter, Text.skipMark, Text.readNumeral, Text.readDigits, hdigit] at h

namespace Debugger

variable {d : Debugger} {m : Machine}

/-! ## Which command let the machine go -/

/-- The machine was let go by `n`: with a line that says so, read from the console as the last. -/
def LetGoByNext (input rest : List UInt8) : Prop :=
  ∃ line, LastRead input rest line ∧ Command.parse? line = some .next

/-- If a talk lets the machine go, then the line read last from some input says whether the debugger
is left paused. -/
def TellsPaused (input : List UInt8) (o : Outcome Debugger Flow) : Prop :=
  o.result = .ok .proceed → ∃ line, LastRead input o.state.console line ∧
    (o.state.paused = true ↔ Command.parse? line = some .next)

theorem TellsPaused.of_unread {input unread : List UInt8} {o : Outcome Debugger Flow}
    (h : TellsPaused unread o) (hu : Console.Unread input unread) : TellsPaused input o := by
  intro hgo
  obtain ⟨line, hlast, hpaused⟩ := h hgo
  exact ⟨line, hlast.of_unread hu, hpaused⟩

theorem TellsPaused.after {input : List UInt8} {o : Outcome Debugger Flow} (h : TellsPaused input o)
    (earlier : List Event) : TellsPaused input (o.after earlier) := h

/-- **A talk that lets the machine go leaves the debugger paused for the command `n` alone.** -/
theorem tellsPaused_converse (m : Machine) (d : Debugger) (announced : Bool)
    (hp : d.paused = true) : TellsPaused d.console (d.converse m announced) := by
  fun_induction converse m d announced with
  | case1 d announced ihRefused ihShown ihAsked =>
    have hhere : Console.Unread d.console d.console := .all
    refine TellsPaused.after ?_ _
    split
    · rintro ⟨⟩
    rename_i hleft
    have hrest := hhere.line
    refine TellsPaused.after ?_ _
    split
    · rintro ⟨⟩
    rename_i line hread
    have hlast : LastRead d.console (Console.readLine d.console).2 line :=
      ⟨_, hhere, hleft, Prod.ext hread rfl⟩
    split
    case h_1 => exact ((ihRefused hleft hp).of_unread hrest).after _
    case h_2 | h_3 => exact ((ihShown hleft hp).of_unread hrest).after _
    case h_4 hparse | h_7 hparse => exact fun _ => ⟨line, hlast, by simp [runTo, hparse]⟩
    case h_5 hparse => exact fun _ => ⟨line, hlast, by simp [hp, hparse]⟩
    case h_6 => rintro ⟨⟩
    -- The address of a breakpoint is asked for.
    refine TellsPaused.after ?_ _
    split
    · rintro ⟨⟩
    rename_i answer hanswer
    split
    case h_1 addr haddr =>
      have hsome : (Console.readLine d.console).2 ≠ [] := by
        intro hend
        rw [hend] at hanswer
        obtain rfl : [] = answer := Option.some.inj hanswer
        cases haddr
      exact fun _ => ⟨answer, ⟨_, hrest, hsome, Prod.ext hanswer rfl⟩,
        by simp [runTo, Command.parse?_ne_next haddr]⟩
    case h_2 => exact ((ihAsked hleft hp).of_unread hrest.line).after _

/-! ## Steps -/

/-- **Behind a step that let the machine go the debugger is paused** if the machine arrived at the
breakpoint or the command was `n`, and only then. -/
theorem paused_step (d : Debugger) (m : Machine) (hgo : (d.step m).result = .ok .proceed) :
    (d.step m).state.1.paused = true ↔
      (d.step m).state.1.breakpoint = some (d.step m).state.2.pc ∨
        LetGoByNext d.console (d.step m).state.1.console := by
  have arrives : ∀ {d' : Debugger}, (d'.advance m).result = .ok .proceed →
      (m.ArrivesAt d'.breakpoint ↔ d'.breakpoint = some m.step.state.pc) := by
    intro d' hgo
    rw [result_advance] at hgo
    refine and_iff_right ?_
    cases hstep : m.step.result with
    | ok i => exact ⟨i, rfl⟩
    | error stop => simp [hstep, Except.map] at hgo
  have htalk := tellsPaused_converse m d false
  revert hgo
  refine d.step_elim m (P := fun o => o.result = .ok .proceed → (o.state.1.paused = true ↔
    o.state.1.breakpoint = some o.state.2.pc ∨ LetGoByNext d.console o.state.1.console)) ?_ ?_ ?_
  · intro hrunning hgo
    have hunread : ¬ LetGoByNext d.console d.console := by
      rintro ⟨line, hlast, -⟩
      exact absurd hlast.length_lt (Nat.lt_irrefl _)
    rw [paused_advance, arrives hgo, breakpoint_advance, machine_advance, console_advance]
    simp [hrunning, hunread]
  · intro d' events hp hc hgo
    obtain ⟨line, hlast, hpaused⟩ := htalk hp (by rw [hc])
    rw [hc] at hlast hpaused
    have hnext : LetGoByNext d.console d'.console ↔ d'.paused = true := by
      rw [hpaused]
      refine ⟨?_, fun hparse => ⟨line, hlast, hparse⟩⟩
      rintro ⟨line', hlast', hparse⟩
      exact hlast.unique hlast' ▸ hparse
    change (d'.advance m).state.1.paused = true ↔
      (d'.advance m).state.1.breakpoint = some (d'.advance m).state.2.pc ∨
        LetGoByNext d.console (d'.advance m).state.1.console
    rw [paused_advance, arrives hgo, breakpoint_advance, machine_advance, console_advance, hnext]
    exact or_comm
  · exact fun r d' events hp hc hkept hgo => absurd hgo hkept

/-- The step is the machine's own: it leaves the console alone, and pauses the debugger if the
machine arrives at the breakpoint and only then. -/
structure RunsFreely (d : Debugger) (m : Machine) : Prop where
  result : (d.step m).result = m.step.result.map fun _ => .proceed
  machine : (d.step m).state.2 = m.step.state
  executed : executions (d.step m).events = executions m.step.events
  unread : (d.step m).state.1.console = d.console
  silent : ∀ event ∈ (d.step m).events, ¬ event.OnConsole
  breakpoint : (d.step m).state.1.breakpoint = d.breakpoint
  paused : (d.step m).state.1.paused = true ↔ m.ArrivesAt d.breakpoint

theorem runsFreely (m : Machine) (hrunning : d.paused = false) : d.RunsFreely m := by
  refine ⟨?_, ?_, ?_, ?_, ?_, ?_, ?_⟩ <;> rw [step_of_running m hrunning]
  · exact d.result_advance m
  · exact d.machine_advance m
  · exact d.executions_advance m
  · exact d.console_advance m
  · intro event hevent
    obtain ⟨notice, rfl⟩ := d.notice_of_advance m event hevent
    exact id
  · exact d.breakpoint_advance m
  · rw [paused_advance, hrunning]
    simp

/-! ## Runs -/

/-- The breakpoint that is set after a number of requests, if no command sets one. -/
def breakpointAfter (breakpoint : Option UInt16) (requests : List Request) : Option UInt16 :=
  requests.foldl (fun b request => match request with
    | .setBreakpoint addr => some addr
    | _ => b) breakpoint

/-- None of the steps among the requests, made by the machine alone, arrives at the breakpoint that
is set by then. -/
def Unmet (breakpoint : Option UInt16) (m : Machine) : List Request → Prop
  | [] => True
  | .step :: requests => ¬ m.ArrivesAt breakpoint ∧ Unmet breakpoint m.step.state requests
  | .setBreakpoint addr :: requests => Unmet (some addr) m requests
  | .act action :: requests => Unmet breakpoint (m.act action).state requests

/-- **A running debugger runs on until the machine arrives**: until then it has not touched the
console, and the machine is where it would be without the debugger. -/
theorem running_serveAll {requests : List Request} (hrunning : d.paused = false)
    (hunmet : Unmet d.breakpoint m requests) :
    let s := serveAll (d, m) requests
    s.1.paused = false ∧ s.1.console = d.console ∧
      s.1.breakpoint = breakpointAfter d.breakpoint requests ∧
      s.2 = m.run (requests.filterMap Request.action?) := by
  induction requests generalizing d m with
  | nil => exact ⟨hrunning, rfl, rfl, rfl⟩
  | cons request requests ih =>
    cases request with
    | step =>
      have hfree := runsFreely m hrunning
      obtain ⟨hnot, hrest⟩ := hunmet
      rw [← hfree.machine, ← hfree.breakpoint] at hrest
      have hstill : (d.step m).state.1.paused = false :=
        Bool.eq_false_iff.2 fun hpaused => hnot (hfree.paused.1 hpaused)
      obtain ⟨hpaused, hunread, hset, hmachine⟩ := ih hstill hrest
      refine ⟨hpaused, hunread.trans hfree.unread, hset.trans ?_, hmachine.trans ?_⟩
      · rw [hfree.breakpoint]
        rfl
      · rw [hfree.machine]
        rfl
    | setBreakpoint addr =>
      exact ih (d := { d with breakpoint := some addr }) hrunning hunmet
    | act action => exact ih hrunning hunmet

/-- **The debugger pauses exactly on arrival at the breakpoint**, whatever was asked of it before.
Behind a step that let the machine go it is paused if and only if the program counter is at the
breakpoint or the command was `n`. A step that finds it running reads and prints nothing. Whatever
is asked of a running debugger, it makes the machine's own steps up to and including the first that
arrives at the breakpoint, and is paused then, with the console as it was. It plays no part whether
the machine stood at the breakpoint before. -/
theorem pauses_on_arrival (d : Debugger) (m : Machine) :
    ((d.step m).result = .ok .proceed →
      ((d.step m).state.1.paused = true ↔
        (d.step m).state.1.breakpoint = some (d.step m).state.2.pc ∨
          LetGoByNext d.console (d.step m).state.1.console)) ∧
    (d.paused = false → d.RunsFreely m) ∧
    (d.paused = false → ∀ requests, Unmet d.breakpoint m requests →
      let s := serveAll (d, m) requests
      s.1.console = d.console ∧ s.1.breakpoint = breakpointAfter d.breakpoint requests ∧
        s.2 = m.run (requests.filterMap Request.action?) ∧
        s.1.paused = false ∧ s.1.RunsFreely s.2) := by
  refine ⟨d.paused_step m, runsFreely m, fun hrunning requests hunmet => ?_⟩
  obtain ⟨hstill, hunread, hset, hmachine⟩ := running_serveAll hrunning hunmet
  exact ⟨hunread, hset, hmachine, hstill, runsFreely _ hstill⟩

set_option maxRecDepth 20000 in
/-- A loop of two instructions, run from the breakpoint in front of it and back to it; and the first
of the two alone, by the command `n`. -/
theorem pauses_on_arrival_loop :
    let m := Machine.loadedWith .modern 0 [0x70, 0x01, 0x12, 0x00]
    let d : Debugger := { paused := false, breakpoint := some 0x200 }
    let s := serveAll (d, m) [.step]
    m.pc = 0x200 ∧ s.1.paused = false ∧ s.2 = m.run [.step] ∧
      (s.1.step s.2).state.1.paused = true ∧
      let d' : Debugger := { paused := true, console := [110, 10] }
      (d'.step m).state.1.paused = true ∧ LetGoByNext [110, 10] (d'.step m).state.1.console := by
  intro m d s
  have hpast : m.step.state.pc = 0x202 := by decide +kernel
  have hunmet : Unmet d.breakpoint m [.step] := by
    refine ⟨fun harrives => ?_, trivial⟩
    have hthere : some 0x200 = some m.step.state.pc := harrives.2
    rw [hpast] at hthere
    exact absurd hthere (by decide)
  obtain ⟨-, -, hmachine, hrunning, hfree⟩ := (pauses_on_arrival d m).2.2 rfl [.step] hunmet
  have hback : s.2.step.result = .ok ⟨0x1200⟩ ∧ s.1.breakpoint = some s.2.step.state.pc := by
    decide +kernel
  refine ⟨by decide +kernel, hrunning, hmachine, hfree.paused.2 ⟨⟨_, hback.1⟩, hback.2⟩, ?_⟩
  intro d'
  obtain ⟨hgo, hpaused, hbelow⟩ : (d'.step m).result = .ok .proceed ∧
      (d'.step m).state.1.paused = true ∧
      (d'.step m).state.1.breakpoint ≠ some (d'.step m).state.2.pc := by
    decide +kernel
  exact ⟨hpaused, (((pauses_on_arrival d' m).1 hgo).1 hpaused).resolve_left hbelow⟩

end Debugger

end Chip8
