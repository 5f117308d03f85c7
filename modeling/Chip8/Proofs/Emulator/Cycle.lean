import Chip8.Proofs.Emulator.Core

/-!
# A cycle, by cases

What a cycle does to the machine, whatever the host refuses and the console says (`cycle_course`).
It ends before the instruction and leaves the machine as it was; or it takes the input, unless the
console has the terminal (`Takes`), and makes one step of the machine, which fails or is followed by
what comes behind an instruction (`settle`).
-/

namespace Chip8.Emulator

variable {e t : Emulator}

/-! ## Behind the instruction -/

/-- What comes behind an instruction that was executed. -/
def settle : Act Emulator Flow := do
  closeConsole
  countInstruction
  return .proceed

/-- Whether the coming instruction ends a frame. -/
def frameDue (e : Emulator) : Bool := e.clock.advance.1

/-- The emulator after an instruction and what comes behind it, if nothing is refused. -/
structure Settled (e t : Emulator) (events : List Event) : Prop where
  machine : t.machine = if e.frameDue then e.machine.endFrame else e.machine
  clock : t.clock = e.clock.advance.2
  script : t.host.script = e.host.script
  polls : t.host.polls = e.host.polls
  refuses : t.host.refuses = e.host.refuses
  beeper : t.host.beeper =
    if e.frameDue then e.host.beeper.follow t.machine.timers.sounding else e.host.beeper
  debugger : t.debugger = e.debugger
  consoleOpen : t.consoleOpen = (e.consoleOpen && e.debuggerPaused)
  frames : shownFrames events = if e.frameDue && !t.consoleOpen then [e.machine.screen] else []

theorem countInstruction_cases (e : Emulator) :
    ∃ r t events machine beeper, countInstruction e = ⟨r, t, events⟩ ∧
      t.core = { e.core with machine, beeper, clock := e.clock.advance.2 } ∧
      e.machine.Settles machine ∧ t.debugger = e.debugger ∧ t.consoleOpen = e.consoleOpen ∧
      (e.host.Obliging → r = .ok () ∧
        machine = (if e.frameDue then e.machine.endFrame else e.machine) ∧
        beeper = (if e.frameDue then e.host.beeper.follow machine.timers.sounding
          else e.host.beeper) ∧
        shownFrames events = if e.frameDue && !e.consoleOpen then [e.machine.screen] else []) := by
  rw [countInstruction_eq, frameDue]
  cases hdue : e.clock.advance.1 with
  | true =>
    obtain ⟨r, t, events, machine, beeper, heq, hcore, hsettles, hd, hc, hobliging⟩ :=
      endFrame_cases { e with clock := e.clock.advance.2 }
    refine ⟨r, t, events, machine, beeper, heq, hcore, hsettles, hd, hc, ?_⟩
    intro ho
    obtain ⟨hr, hmachine, hbeeper, hframes⟩ := hobliging ho
    refine ⟨hr, hmachine, hbeeper, hframes.trans ?_⟩
    cases e.consoleOpen <;> rfl
  | false =>
    exact ⟨_, _, _, e.machine, e.host.beeper, rfl, rfl, .refl _, rfl, rfl,
      fun _ => ⟨rfl, rfl, rfl, rfl⟩⟩

/-- What comes behind an instruction settles the machine and does not poll. -/
theorem settle_settles (e : Emulator) :
    e.machine.Settles (settle e).state.machine ∧
      (settle e).state.host.polls = e.host.polls := by
  obtain ⟨r, t, events, heq, hcore, -⟩ := closeConsole_cases e
  have hmachine : t.machine = e.machine := congrArg Core.machine hcore
  have hpolls : t.host.polls = e.host.polls := congrArg Core.polls hcore
  rw [settle]
  cases r with
  | error stop =>
    rw [Act.bind_of_error heq]
    exact ⟨hmachine ▸ .refl _, hpolls⟩
  | ok =>
    rw [Act.bind_of_ok heq]
    obtain ⟨r', u, events', machine, beeper, heq', hcore', hsettles, -⟩ := countInstruction_cases t
    have hu : u.machine = machine := congrArg Core.machine hcore'
    have hpolls' : u.host.polls = t.host.polls := congrArg Core.polls hcore'
    rw [hmachine, ← hu] at hsettles
    cases r' with
    | error stop =>
      rw [Act.bind_of_error heq']
      exact ⟨hsettles, hpolls'.trans hpolls⟩
    | ok =>
      rw [Act.bind_of_ok heq']
      exact ⟨hsettles, hpolls'.trans hpolls⟩

/-- If nothing is refused, a cycle goes through behind its instruction. -/
theorem settle_obliging (ho : e.host.Obliging) :
    ∃ t events, settle e = ⟨.ok .proceed, t, events⟩ ∧ e.Settled t events := by
  obtain ⟨r, t, events, heq, hcore, hd, hshown, hopen, hr⟩ := closeConsole_cases e
  obtain rfl := hr ho
  have hmachine : t.machine = e.machine := congrArg Core.machine hcore
  have hclock : t.clock = e.clock := congrArg Core.clock hcore
  have hrefuses : t.host.refuses = e.host.refuses := congrArg Core.refuses hcore
  have hbeeper : t.host.beeper = e.host.beeper := congrArg Core.beeper hcore
  obtain ⟨r', u, events', machine, beeper, heq', hcore', -, hd', hopen', hobliging⟩ :=
    countInstruction_cases t
  obtain ⟨rfl, hm, hb, hframes⟩ := hobliging (ho.congr hrefuses)
  have hu : u.machine = machine := congrArg Core.machine hcore'
  have hdue : t.frameDue = e.frameDue := by rw [frameDue, hclock, frameDue]
  refine ⟨u, events ++ events', ?_, ?_⟩
  · rw [settle, Act.bind_of_ok heq, Act.bind_of_ok heq']
    simp [Pure.pure, Act.pure, Outcome.after]
  · refine ⟨?_, ?_, ?_, ?_, ?_, ?_, hd'.trans hd, hopen'.trans (hopen rfl), ?_⟩
    · rw [hu, hm, hdue, hmachine]
    · exact (congrArg Core.clock hcore').trans (congrArg (·.advance.2) hclock)
    · exact (congrArg Core.script hcore').trans (congrArg Core.script hcore)
    · exact (congrArg Core.polls hcore').trans (congrArg Core.polls hcore)
    · exact (congrArg Core.refuses hcore').trans hrefuses
    · have hb' : u.host.beeper = beeper := congrArg Core.beeper hcore'
      rw [hb', hb, hdue, hu, hbeeper]
    · rw [shownFrames_append, hshown, hframes, hdue, hmachine, hopen']
      rfl

/-! ## What every stage keeps to -/

/-- A cycle is one stage after the other: what carries over from what follows a stage to the whole
holds of the cycle, if it holds of its end. -/
theorem cycle_elim (Stage : ∀ {α : Type}, Act Emulator α → Prop) {P : Act Emulator Flow → Prop}
    (bind : ∀ {α : Type} {x : Act Emulator α} {f : α → Act Emulator Flow}, Stage x →
      (∀ a, P (f a)) → P (x >>= f))
    (quit : P (Pure.pure Flow.quit)) (hopen : Stage openConsole) (hpoll : Stage pollInput)
    (hadvance : Stage advance) (hsettle : P settle) : P cycle := by
  refine bind hopen fun _ => bind hpoll fun heard => ?_
  cases heard with
  | quit => exact quit
  | proceed =>
    refine bind hadvance fun flow => ?_
    cases flow with
    | quit => exact quit
    | proceed => exact hsettle

section Stages

variable {R : Emulator → List Event → Emulator → Prop}

theorem within_settle (hR : Act.Composes R) (hclose : closeConsole.Within R)
    (hcount : countInstruction.Within R) : settle.Within R :=
  hclose.bind hR fun _ => hcount.bind hR fun _ => .pure hR _

/-- What every stage of a cycle keeps to, the cycle does. -/
theorem within_cycle (hR : Act.Composes R) (hopen : openConsole.Within R)
    (hpoll : pollInput.Within R) (hadvance : advance.Within R) (hsettle : settle.Within R) :
    cycle.Within R :=
  cycle_elim (fun x => x.Within R) (fun hx hf => hx.bind hR hf) (.pure hR _) hopen hpoll hadvance
    hsettle

end Stages

/-! ## The whole cycle -/

/-- The machine from which the coming instruction starts, and whether the input was polled for it.
The console keeps the input away; else the machine has to go on from the entry that is played. -/
inductive Takes (e : Emulator) : Bool → Machine → Prop
  | nothing (holds : e.consoleHolds = true) : Takes e false e.machine
  | entry (holds : e.consoleHolds = false)
    (heard : (e.machine.hear e.entry).result = .ok .proceed) :
    Takes e true (e.machine.hear e.entry).state

/-- The core with another machine and, if it was polled, the input behind its entry. -/
def Core.taking (c : Core) (polled : Bool) (m : Machine) : Core :=
  { (if polled then c.polled else c) with machine := m }

/-- How a cycle goes. -/
inductive Course (e : Emulator) : Prop
  /-- It ends before an entry is played, at a refusal or in the talk with the console. -/
  | unplayed (why : e.debuggerPaused = true ∨ ¬e.host.Obliging)
    (result : e.cycle.result ≠ .ok .proceed) (core : e.cycle.state.core = e.core)
  /-- An entry is played that the machine does not go on from. -/
  | unheard (holds : e.consoleHolds = false)
    (heard : (e.machine.hear e.entry).result ≠ .ok .proceed)
    (result : e.cycle.result = (e.machine.hear e.entry).result)
    (core : e.cycle.state.core = e.core.polled)
  /-- The instruction fails. -/
  | failed {polled : Bool} {m : Machine} {stop : Stop} (takes : e.Takes polled m)
    (step : m.step.result = .error stop) (result : e.cycle.result = .error stop)
    (core : e.cycle.state.core = e.core.taking polled m.step.state)
  /-- The instruction is executed. -/
  | advanced {polled : Bool} {m : Machine} {i : Instruction} {t : Emulator} {events : List Event}
    (takes : e.Takes polled m) (step : m.step.result = .ok i)
    (core : t.core = e.core.taking polled m.step.state) (console : t.consoleOpen = e.consoleHolds)
    (plain : e.debugger = none → t.debugger = none) (frames : shownFrames events = [])
    (executed : ∀ event ∈ m.step.events, event ∈ events)
    (result : e.cycle = (settle t).after events)

theorem settles_of_advanced {polled : Bool} {m : Machine} {events : List Event}
    (hcore : t.core = e.core.taking polled m.step.state)
    (heq : e.cycle = (settle t).after events) :
    m.step.state.Settles e.cycle.state.machine ∧
      e.cycle.state.host.polls = (e.core.taking polled m.step.state).polls := by
  obtain ⟨hsettles, hpolls⟩ := settle_settles t
  have hstate : e.cycle.state = (settle t).state := by rw [heq]; rfl
  have hmachine : t.machine = m.step.state := congrArg Core.machine hcore
  rw [hmachine] at hsettles
  rw [hstate]
  exact ⟨hsettles, hpolls.trans (congrArg Core.polls hcore)⟩

/-- What follows the input in a cycle. -/
def execute : Act Emulator Flow := do
  match ← advance with
  | .quit => return .quit
  | .proceed => settle

/-- What follows the console's opening in a cycle. -/
def listen : Act Emulator Flow := do
  match ← pollInput with
  | .quit => return .quit
  | .proceed => execute

theorem course_of_takes {polled : Bool} {m : Machine} {events : List Event}
    (htakes : e.Takes polled m) (hcore : t.core = e.core.taking polled m)
    (hopen : t.consoleOpen = e.consoleHolds) (hd : t.debugger = e.debugger)
    (hshown : shownFrames events = []) (hcycle : e.cycle = (execute t).after events) :
    e.Course := by
  have hmachine : t.machine = m := congrArg Core.machine hcore
  obtain ⟨hp, r, u, events', heq, hr, hcore'⟩ |
    ⟨u, before, after, heq, hcore', hopen', hplain, hbefore, hafter⟩ := advance_cases t
  · -- Only a paused debugger keeps the machine back, and then the console has the terminal.
    have hpaused : e.debuggerPaused = true := by
      rw [debuggerPaused, ← hd]
      exact hp
    have hholds : e.consoleHolds = true := by rw [consoleHolds, hpaused, Bool.or_true]
    cases htakes with
    | entry holds heard => exact absurd hholds (by simp [holds])
    | nothing holds =>
      have hexecute : (execute t).result ≠ .ok .proceed ∧ (execute t).state = u := by
        rw [execute]
        rcases r with stop | (_ | _)
        · rw [Act.bind_of_error heq]
          exact ⟨by simp, rfl⟩
        · exact absurd rfl hr
        · rw [Act.bind_of_ok heq]
          exact ⟨by simp [Outcome.after, Act.pure_apply], rfl⟩
      refine .unplayed (.inl hpaused) ?_ ?_
      · rw [hcycle]
        exact hexecute.1
      · rw [hcycle]
        exact (congrArg core hexecute.2).trans (hcore'.trans hcore)
  · rw [hmachine] at heq hcore'
    have hcore'' : u.core = e.core.taking polled m.step.state := by
      rw [hcore', hcore]
      rfl
    cases hstep : m.step.result with
    | error stop =>
      rw [hstep] at heq
      have hexecute : execute t = ⟨.error stop, u, _⟩ := Act.bind_of_error heq
      rw [hexecute] at hcycle
      exact .failed htakes hstep (by rw [hcycle]; rfl) (by rw [hcycle]; exact hcore'')
    | ok i =>
      rw [hstep] at heq
      have hexecute : execute t = (settle u).after _ := Act.bind_of_ok heq
      rw [hexecute, Outcome.after_after] at hcycle
      refine .advanced htakes hstep hcore'' (hopen'.trans hopen) (fun h => hplain (hd.trans h)) ?_
        ?_ hcycle
      · rw [shownFrames_append, hshown, shownFrames_append, shownFrames_append, hbefore, hafter,
          shownFrames_step]
        rfl
      · intro event hevent
        simp [hevent]

/-- **A cycle, by cases.** -/
theorem cycle_course (e : Emulator) : e.Course := by
  obtain ⟨t, events, heq, hrefused, hcore⟩ | ⟨t, events, heq, hcore, hd, hopen, hshown⟩ :=
    openConsole_cases e
  · have hcycle : e.cycle = ⟨.error (refusal .suspend), t, events⟩ := Act.bind_of_error heq
    have hnot : ¬e.host.Obliging := fun ho => by simp [grants_of_obliging ho] at hrefused
    exact .unplayed (.inr hnot) (by simp [hcycle]) (by rw [hcycle]; exact hcore)
  have hcycle : e.cycle = (listen t).after events := Act.bind_of_ok heq
  have hpoll := pollInput_eq t
  rw [hopen] at hpoll
  cases hholds : e.consoleHolds with
  | true =>
    rw [hholds] at hpoll
    have hlisten : listen t = execute t := Act.bind_of_ok hpoll
    rw [hlisten] at hcycle
    exact course_of_takes (.nothing hholds) hcore hopen hd hshown hcycle
  | false =>
    rw [hholds] at hpoll
    have hmachine : t.machine = e.machine := congrArg Core.machine hcore
    have hentry : t.entry = e.entry := congrArg (·.script.headD .idle) hcore
    obtain ⟨u, events', heq', hrefused, hcore'⟩ |
      ⟨u, events', heq', hcore', hd', hopen', hshown'⟩ := poll_cases t
    · have hrefuses : t.host.refuses = e.host.refuses := congrArg Core.refuses hcore
      have hnot : ¬e.host.Obliging :=
        fun ho => by simp [grants_of_obliging (ho.congr hrefuses)] at hrefused
      have hlisten : listen t = ⟨.error (refusal .poll), u, events'⟩ :=
        Act.bind_of_error (hpoll.trans heq')
      rw [hlisten] at hcycle
      exact .unplayed (.inr hnot) (by simp [hcycle, Outcome.after])
        (by rw [hcycle]; exact hcore'.trans hcore)
    rw [hmachine, hentry] at heq' hcore'
    rw [hcore] at hcore'
    by_cases hheard : (e.machine.hear e.entry).result = .ok .proceed
    · rw [hheard] at heq'
      have hlisten : listen t = (execute u).after events' := Act.bind_of_ok (hpoll.trans heq')
      rw [hlisten, Outcome.after_after] at hcycle
      refine course_of_takes (.entry hholds hheard) hcore' (hopen'.trans hopen)
        (hd'.trans hd) ?_ hcycle
      rw [shownFrames_append, hshown, hshown']
      rfl
    · rw [Machine.state_hear_of_ne hheard] at hcore'
      have hlisten :
          (listen t).result = (e.machine.hear e.entry).result ∧ (listen t).state = u := by
        rcases hr : (e.machine.hear e.entry).result with stop | (_ | _)
        · rw [hr] at heq'
          rw [listen, Act.bind_of_error (hpoll.trans heq')]
          exact ⟨rfl, rfl⟩
        · exact absurd hr hheard
        · rw [hr] at heq'
          rw [listen, Act.bind_of_ok (hpoll.trans heq')]
          exact ⟨rfl, rfl⟩
      refine .unheard hholds hheard ?_ ?_
      · rw [hcycle]
        exact hlisten.1
      · rw [hcycle]
        exact (congrArg core hlisten.2).trans hcore'

/-- A cycle leaves the machine as it was, or makes one step of it and settles it. -/
theorem machine_cycle (e : Emulator) : e.cycle.state.machine = e.machine ∨
    ∃ polled m, e.Takes polled m ∧ m.step.state.Settles e.cycle.state.machine ∧
      e.cycle.state.host.polls = (e.core.taking polled m.step.state).polls := by
  cases e.cycle_course with
  | unplayed _ _ hcore => exact .inl (congrArg Core.machine hcore)
  | unheard _ _ _ hcore => exact .inl (congrArg Core.machine hcore)
  | @failed polled m _ htakes _ _ hcore =>
    have hmachine : e.cycle.state.machine = m.step.state := congrArg Core.machine hcore
    exact .inr ⟨polled, m, htakes, hmachine ▸ .refl _, congrArg Core.polls hcore⟩
  | advanced htakes _ hcore _ _ _ _ heq =>
    exact .inr ⟨_, _, htakes, settles_of_advanced hcore heq⟩

/-! ## Cycles that go through -/

/-- A cycle went through that executed an instruction from a machine, and nothing was refused. -/
structure Executed (e : Emulator) (polled : Bool) (m : Machine) : Prop where
  result : e.cycle.result = .ok .proceed
  machine : e.cycle.state.machine = if e.frameDue then m.step.state.endFrame else m.step.state
  clock : e.cycle.state.clock = e.clock.advance.2
  script : e.cycle.state.host.script = if polled then e.host.script.tail else e.host.script
  polls : e.cycle.state.host.polls = if polled then e.host.polls + 1 else e.host.polls
  refuses : e.cycle.state.host.refuses = e.host.refuses
  beeper : e.cycle.state.host.beeper =
    if e.frameDue then e.host.beeper.follow e.cycle.state.machine.timers.sounding
    else e.host.beeper
  plain : e.debugger = none → e.cycle.state.debugger = none
  console : e.cycle.state.consoleOpen = true → e.consoleHolds = true
  frames : shownFrames e.cycle.events =
    if e.frameDue && !e.cycle.state.consoleOpen then [m.step.state.screen] else []

theorem executed_of_advanced {polled : Bool} {m : Machine} {events : List Event}
    (ho : e.host.Obliging) (hcore : t.core = e.core.taking polled m.step.state)
    (hopen : t.consoleOpen = e.consoleHolds) (hplain : e.debugger = none → t.debugger = none)
    (hframes : shownFrames events = []) (hcycle : e.cycle = (settle t).after events) :
    e.Executed polled m := by
  have hmachine : t.machine = m.step.state := congrArg Core.machine hcore
  have hclock : t.clock = e.clock := by
    cases polled <;> exact congrArg Core.clock hcore
  have hscript : t.host.script = if polled then e.host.script.tail else e.host.script := by
    cases polled <;> exact congrArg Core.script hcore
  have hpolls : t.host.polls = if polled then e.host.polls + 1 else e.host.polls := by
    cases polled <;> exact congrArg Core.polls hcore
  have hrefuses : t.host.refuses = e.host.refuses := by
    cases polled <;> exact congrArg Core.refuses hcore
  have hbeeper : t.host.beeper = e.host.beeper := by
    cases polled <;> exact congrArg Core.beeper hcore
  have hdue : t.frameDue = e.frameDue := by rw [frameDue, hclock, frameDue]
  obtain ⟨u, events', heq, hsettled⟩ := settle_obliging (ho.congr hrefuses)
  rw [heq] at hcycle
  have hstate : e.cycle.state = u := by rw [hcycle]; rfl
  refine ⟨by rw [hcycle]; rfl, ?_, ?_, ?_, ?_, ?_, ?_, ?_, ?_, ?_⟩
  · rw [hstate, hsettled.machine, hdue, hmachine]
  · rw [hstate, hsettled.clock, hclock]
  · rw [hstate, hsettled.script, hscript]
  · rw [hstate, hsettled.polls, hpolls]
  · rw [hstate, hsettled.refuses, hrefuses]
  · rw [hstate, hsettled.beeper, hdue, hbeeper]
  · intro hd
    rw [hstate, hsettled.debugger, hplain hd]
  · intro hopen'
    rw [hstate, hsettled.consoleOpen, hopen] at hopen'
    exact (Bool.and_eq_true_iff.1 hopen').1
  · have hevents : e.cycle.events = events ++ events' := by rw [hcycle]; rfl
    rw [hstate, hevents, shownFrames_append, hframes, hsettled.frames, hdue, hmachine]
    rfl

/-- If nothing is refused, a cycle that goes through has executed an instruction. -/
theorem executed_of_proceed (ho : e.host.Obliging) (h : e.cycle.result = .ok .proceed) :
    ∃ polled m i, e.Takes polled m ∧ m.step.result = .ok i ∧ e.Executed polled m := by
  cases e.cycle_course with
  | unplayed _ hne => exact absurd h hne
  | unheard _ hne hr => exact absurd (hr.symm.trans h) hne
  | failed _ _ hr => exact absurd (hr.symm.trans h) (by simp)
  | advanced htakes hstep hcore hopen hplain hframes _ heq =>
    exact ⟨_, _, _, htakes, hstep, executed_of_advanced ho hcore hopen hplain hframes heq⟩

theorem Takes.unique {polled polled' : Bool} {m m' : Machine} (h : e.Takes polled m)
    (h' : e.Takes polled' m') : polled = polled' ∧ m = m' := by
  cases h with
  | nothing holds =>
    cases h' with
    | nothing => exact ⟨rfl, rfl⟩
    | entry holds' => exact absurd (holds.symm.trans holds') (by simp)
  | entry holds =>
    cases h' with
    | nothing holds' => exact absurd (holds.symm.trans holds') (by simp)
    | entry => exact ⟨rfl, rfl⟩

/-- The instruction starts from the machine as it was, but for the keypad. -/
theorem Takes.eq {polled : Bool} {m : Machine} (h : e.Takes polled m) :
    ∃ keypad, m = { e.machine with keypad } := by
  cases h with
  | nothing => exact ⟨_, rfl⟩
  | entry => exact e.machine.state_hear e.entry

/-- If nothing is refused and no debugger is paused, a cycle goes through whose instruction is
executed. -/
theorem executed_of_takes {polled : Bool} {m : Machine} {i : Instruction} (ho : e.host.Obliging)
    (hp : e.debuggerPaused = false) (htakes : e.Takes polled m) (hstep : m.step.result = .ok i) :
    e.Executed polled m := by
  cases e.cycle_course with
  | unplayed why =>
    rcases why with hpaused | hnot
    · exact absurd (hp.symm.trans hpaused) (by simp)
    · exact absurd ho hnot
  | unheard hholds hne =>
    cases htakes with
    | nothing holds => exact absurd (hholds.symm.trans holds) (by simp)
    | entry _ heard => exact absurd heard hne
  | failed htakes' hstep' =>
    obtain ⟨-, rfl⟩ := htakes.unique htakes'
    exact absurd (hstep.symm.trans hstep') (by simp)
  | advanced htakes' _ hcore hopen hplain hframes _ heq =>
    obtain ⟨rfl, rfl⟩ := htakes.unique htakes'
    exact executed_of_advanced ho hcore hopen hplain hframes heq

/-! ## What the input plays -/

/-- The entry that the coming cycle plays, if its poll gets that far. -/
def plays (e : Emulator) : Option Scripted :=
  if e.cycle.state.host.polls = e.host.polls then none else some e.entry

theorem plays_of_polls (h : e.cycle.state.host.polls = e.host.polls + 1) :
    e.plays = some e.entry := by
  rw [plays, if_neg (by omega)]

theorem plays_of_polls_eq (h : e.cycle.state.host.polls = e.host.polls) : e.plays = none := by
  rw [plays, if_pos h]

/-- An instruction starts from the machine as it was, or as it is behind an entry that is played. -/
theorem plays_of_takes {polled : Bool} {m m' : Machine} (h : e.Takes polled m)
    (hcore : e.cycle.state.host.polls = (e.core.taking polled m').polls) :
    (e.plays = none ∧ m = e.machine) ∨
      e.plays = some e.entry ∧ m = (e.machine.hear e.entry).state := by
  cases h with
  | nothing => exact .inl ⟨plays_of_polls_eq hcore, rfl⟩
  | entry => exact .inr ⟨plays_of_polls hcore, rfl⟩

end Chip8.Emulator
