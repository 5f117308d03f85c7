import Chip8.Proofs.Emulator.Calls

/-!
# Debugging

A debugger does not change what the program computes (`debugging_faithful`). An emulator without one
follows cycle by cycle (`Follows`), as long as the debugger lets the program go on: it has to be
given an idle entry for each cycle in which the console kept the input away, and it shows the frames
that the console hides.
-/

namespace Chip8.Emulator

variable {d p : Emulator}

/-- The emulator after a number of cycles. -/
def afterCycles (e : Emulator) : Nat → Emulator
  | 0 => e
  | n + 1 => e.cycle.state.afterCycles n

/-- In which of the next cycles the input plays an entry. -/
def polled (e : Emulator) (n : Nat) : List Bool :=
  (List.range n).map fun i => (e.afterCycles i).plays.isSome

/-- A script with an idle entry wherever the input is not polled. -/
def withIdles : List Bool → List Scripted → List Scripted
  | [], script => script
  | true :: polled, script => script.headD .idle :: withIdles polled script.tail
  | false :: polled, script => .idle :: withIdles polled script

theorem polled_succ (e : Emulator) (n : Nat) :
    e.polled (n + 1) = e.plays.isSome :: e.cycle.state.polled n := by
  rw [polled, List.range_succ_eq_map, List.map_cons, List.map_map]
  rfl

theorem headD_withIdles (b : Bool) (polled : List Bool) (script : List Scripted) :
    (withIdles (b :: polled) script).headD .idle = if b then script.headD .idle else .idle := by
  cases b <;> rfl

theorem tail_withIdles (b : Bool) (polled : List Bool) (script : List Scripted) :
    (withIdles (b :: polled) script).tail =
      withIdles polled (if b then script.tail else script) := by
  cases b <;> rfl

/-! ## The simulation -/

/-- An emulator without a debugger does what one with a debugger does. -/
structure Follows (d p : Emulator) : Prop where
  machine : p.machine = d.machine
  clock : p.clock = d.clock
  beeper : p.host.beeper = d.host.beeper
  plain : p.debugger = none
  closed : p.consoleOpen = false
  obliging : d.host.Obliging
  obliging' : p.host.Obliging

theorem Follows.cycle (h : Follows d p) (hd : d.cycle.result = .ok .proceed)
    (hentry : p.entry = if d.plays.isSome then d.entry else .idle) :
    p.cycle.result = .ok .proceed ∧ Follows d.cycle.state p.cycle.state ∧
      d.cycle.state.host.script =
        (if d.plays.isSome then d.host.script.tail else d.host.script) ∧
      p.cycle.state.host.script = p.host.script.tail ∧
      shownFrames d.cycle.events =
        if d.cycle.state.consoleOpen then [] else shownFrames p.cycle.events := by
  have hnot : p.debuggerPaused = false := by rw [debuggerPaused, h.plain]; rfl
  have hholds : p.consoleHolds = false := by rw [consoleHolds, h.closed, hnot]; rfl
  obtain ⟨polled, m, i, htakes, hstep, hexec⟩ := executed_of_proceed h.obliging hd
  have hdue : p.frameDue = d.frameDue := by rw [frameDue, h.clock, frameDue]
  obtain ⟨htakes', hpolled⟩ : p.Takes true m ∧ d.plays.isSome = polled := by
    cases htakes with
    | nothing holds =>
      have hplays : d.plays = none := plays_of_polls_eq hexec.polls
      have hidle : p.entry = .idle := by simpa [hplays] using hentry
      have htakes' := Takes.entry hholds (by rw [hidle]; rfl)
      rw [hidle, h.machine] at htakes'
      exact ⟨htakes', by rw [hplays]; rfl⟩
    | entry holds heard =>
      have hplays : d.plays = some d.entry := plays_of_polls hexec.polls
      have hsame : p.entry = d.entry := by simpa [hplays] using hentry
      have htakes' := Takes.entry hholds (by rw [hsame, h.machine]; exact heard)
      rw [hsame, h.machine] at htakes'
      exact ⟨htakes', by rw [hplays]; rfl⟩
  have hexec' := executed_of_takes h.obliging' hnot htakes' hstep
  have hclosed : p.cycle.state.consoleOpen = false := by
    by_contra hopen
    have hholds' := hexec'.console (by simpa using hopen)
    exact absurd (hholds.symm.trans hholds') (by simp)
  have hmachine : p.cycle.state.machine = d.cycle.state.machine := by
    rw [hexec'.machine, hexec.machine, hdue]
  refine ⟨hexec'.result, ⟨hmachine, ?_, ?_, hexec'.plain h.plain, hclosed, ?_, ?_⟩, ?_, ?_, ?_⟩
  · rw [hexec'.clock, hexec.clock, h.clock]
  · rw [hexec'.beeper, hexec.beeper, hdue, h.beeper, hmachine]
  · exact h.obliging.congr hexec.refuses
  · exact h.obliging'.congr hexec'.refuses
  · rw [hexec.script, hpolled]
  · exact hexec'.script
  · rw [hexec.frames, hexec'.frames, hclosed, hdue]
    cases d.frameDue <;> cases d.cycle.state.consoleOpen <;> rfl

/-- **An emulator without a debugger follows one with a debugger**, as long as that one goes through
its cycles, on a script that is idle where the other's input is not polled. -/
theorem Follows.cycles {n : Nat} (h : Follows d p)
    (hscript : p.host.script = withIdles (d.polled n) d.host.script)
    (hd : ∀ i < n, (d.afterCycles i).cycle.result = .ok .proceed) :
    (∀ i < n, (p.afterCycles i).cycle.result = .ok .proceed) ∧
      (∀ i ≤ n, Follows (d.afterCycles i) (p.afterCycles i)) ∧
      ∀ i < n, shownFrames (d.afterCycles i).cycle.events =
        if (d.afterCycles (i + 1)).consoleOpen then []
        else shownFrames (p.afterCycles i).cycle.events := by
  induction n generalizing d p with
  | zero =>
    refine ⟨by simp, ?_, by simp⟩
    intro i hi
    obtain rfl : i = 0 := by omega
    exact h
  | succ n ih =>
    rw [polled_succ] at hscript
    have hentry : p.entry = if d.plays.isSome then d.entry else .idle := by
      rw [entry, hscript, headD_withIdles]
      rfl
    obtain ⟨hresult, hnext, hdscript, hpscript, hframes⟩ := h.cycle (hd 0 (by omega)) hentry
    rw [hscript, tail_withIdles, ← hdscript] at hpscript
    obtain ⟨hresults, hfollows, hall⟩ :=
      ih hnext hpscript fun i hi => hd (i + 1) (by omega)
    refine ⟨?_, ?_, ?_⟩
    · intro i hi
      cases i with
      | zero => exact hresult
      | succ i => exact hresults i (by omega)
    · intro i hi
      cases i with
      | zero => exact h
      | succ i => exact hfollows i (by omega)
    · intro i hi
      cases i with
      | zero => exact hframes
      | succ i => exact hall i (by omega)

/-! ## Programs that were just loaded -/

theorem host_loadedWith (rate : UInt32) (dialect : Dialect) (seed : UInt64) (host : Host)
    (debugger : Option Debugger) (program : List UInt8) :
    (loadedWith rate dialect seed host debugger program).host = host := by
  rw [loadedWith_eq]
  rfl

theorem follows_loadedWith (rate : UInt32) (dialect : Dialect) (seed : UInt64)
    (program : List UInt8) {host host' : Host} (debugger : Option Debugger)
    (ho : host.Obliging) (ho' : host'.Obliging) (hbeeper : host'.beeper = host.beeper) :
    Follows (loadedWith rate dialect seed host debugger program)
      (loadedWith rate dialect seed host' none program) := by
  rw [loadedWith_eq, loadedWith_eq]
  exact ⟨rfl, rfl, hbeeper, rfl, rfl, ho, ho'⟩

/-- **Debugging does not change what the program computes.** If the first cycles of an emulator with
a debugger all go through, then without the debugger they go through as well, on the script with an
idle entry for each cycle that did not poll the input; the machine and the beeper come out the same,
and the frames that were shown are those that the other one shows while the console is closed. -/
theorem debugging_faithful (rate : UInt32) (dialect : Dialect) (seed : UInt64)
    (program : List UInt8) (script : List Scripted) (bare bare' paused : Bool)
    (breakpoint : Option UInt16) (console : List UInt8) (n : Nat) :
    let d := loadedWith rate dialect seed { script, bare }
      (some { paused, breakpoint, console }) program
    let p := loadedWith rate dialect seed
      { script := withIdles (d.polled n) script, bare := bare' } none program
    (∀ i < n, (d.afterCycles i).cycle.result = .ok .proceed) →
      (∀ i < n, (p.afterCycles i).cycle.result = .ok .proceed) ∧
      (p.afterCycles n).machine = (d.afterCycles n).machine ∧
      (p.afterCycles n).host.beeper = (d.afterCycles n).host.beeper ∧
      ∀ i < n, shownFrames (d.afterCycles i).cycle.events =
        if (d.afterCycles (i + 1)).consoleOpen then []
        else shownFrames (p.afterCycles i).cycle.events := by
  intro d p hd
  have hfollows : Follows d p :=
    follows_loadedWith rate dialect seed program _ (fun _ _ => rfl) (fun _ _ => rfl) rfl
  have hscript : p.host.script = withIdles (d.polled n) d.host.script := by
    have hpscript := congrArg Host.script (host_loadedWith rate dialect seed
      { script := withIdles (d.polled n) script, bare := bare' } none program)
    have hdscript := congrArg Host.script (host_loadedWith rate dialect seed
      { script, bare } (some { paused, breakpoint, console }) program)
    exact hpscript.trans (congrArg (withIdles (d.polled n)) hdscript.symm)
  obtain ⟨hresults, hall, hframes⟩ := hfollows.cycles hscript hd
  have hend := hall n (Nat.le_refl n)
  exact ⟨hresults, hend.machine, hend.beeper, hframes⟩

set_option maxRecDepth 20000 in
/-- Two instructions from the console, `n` and `c`, and then a third that hears the script. -/
theorem debugging_faithful_two :
    let program : List UInt8 := [0xF3, 0x0A]
    let console : List UInt8 := [110, 10, 99, 10]
    let d := loadedWith 60 .modern 0 { script := [.press 7] }
      (some { paused := true, console }) program
    let p := loadedWith 60 .modern 0 { script := [.idle, .idle, .press 7] } none program
    (∀ i < 3, (d.afterCycles i).cycle.result = .ok .proceed) ∧
      (p.afterCycles 3).machine = (d.afterCycles 3).machine ∧
      (d.afterCycles 3).machine.keyWait = some (.release 7) := by
  intro program console d p
  have hd : ∀ i < 3, (d.afterCycles i).cycle.result = .ok .proceed := by decide +kernel
  have hpolled : d.polled 3 = [false, false, true] := by decide +kernel
  have hwait : (d.afterCycles 3).machine.keyWait = some (.release 7) := by decide +kernel
  have hp := debugging_faithful 60 .modern 0 program [.press 7] false false true none console 3 hd
  rw [hpolled] at hp
  exact ⟨hd, hp.2.1, hwait⟩

end Chip8.Emulator
