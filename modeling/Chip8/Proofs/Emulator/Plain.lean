import Chip8.Proofs.Emulator.Debugging

/-!
# Emulators without a debugger

An emulator without a debugger never opens a console, so it stays as it is (`Plain.afterCycles`),
cycles that fail included. On a host that refuses nothing it polls the input in every cycle, and a
cycle that goes through has executed the instruction behind the entry (`Plain.executed`).
-/

namespace Chip8.Emulator

variable {e : Emulator} {α : Type}

/-- No debugger, no console, and no call that is refused. -/
structure Plain (e : Emulator) : Prop where
  debugger : e.debugger = none
  closed : e.consoleOpen = false
  obliging : e.host.Obliging

theorem plain_loadedWith (rate : UInt32) (dialect : Dialect) (seed : UInt64)
    (program : List UInt8) {host : Host} (h : host.Obliging) :
    (loadedWith rate dialect seed host none program).Plain := by
  rw [loadedWith_eq]
  exact ⟨rfl, rfl, h⟩

theorem Plain.debuggerPaused (h : e.Plain) : e.debuggerPaused = false := by
  rw [Emulator.debuggerPaused, h.debugger]
  rfl

theorem Plain.consoleHolds (h : e.Plain) : e.consoleHolds = false := by
  rw [Emulator.consoleHolds, h.closed, h.debuggerPaused]
  rfl

/-! ## Stage by stage -/

/-- The activity leaves the emulator plain. -/
def KeepsPlain (x : Act Emulator α) : Prop :=
  x.Within fun e _ t => e.Plain → t.Plain

theorem composes_keepsPlain : Act.Composes fun (e : Emulator) _ (t : Emulator) =>
    e.Plain → t.Plain where
  nothing _ := id
  after hfirst hlast h := hlast (hfirst h)

theorem keepsPlain_openConsole : KeepsPlain openConsole := by
  intro e h
  obtain ⟨t, events, -, hrefused, -⟩ | ⟨t, events, heq, hcore, hd, hopen, -⟩ := openConsole_cases e
  · exact absurd hrefused (by simp [grants_of_obliging h.obliging])
  · rw [heq]
    exact ⟨hd.trans h.debugger, hopen.trans h.consoleHolds,
      h.obliging.congr (congrArg Core.refuses hcore)⟩

theorem keepsPlain_pollInput : KeepsPlain pollInput := by
  intro e h
  rw [pollInput_eq, h.closed]
  obtain ⟨t, events, -, hrefused, -⟩ | ⟨t, events, heq, hcore, hd, hopen, -⟩ := poll_cases e
  · exact absurd hrefused (by simp [grants_of_obliging h.obliging])
  · rw [if_neg (by simp), heq]
    exact ⟨hd.trans h.debugger, hopen.trans h.closed,
      h.obliging.congr (congrArg Core.refuses hcore)⟩

theorem keepsPlain_advance : KeepsPlain advance := by
  intro e h
  obtain ⟨hpaused, -⟩ | ⟨t, before, after, heq, hcore, hopen, hplain, -⟩ := advance_cases e
  · exact absurd (h.debuggerPaused.symm.trans hpaused) (by simp)
  · rw [heq]
    exact ⟨hplain h.debugger, hopen.trans h.closed, h.obliging.congr (congrArg Core.refuses hcore)⟩

theorem keepsPlain_settle : KeepsPlain settle := by
  intro e h
  obtain ⟨t, events, heq, hsettled⟩ := settle_obliging h.obliging
  rw [heq]
  refine ⟨hsettled.debugger.trans h.debugger, ?_, h.obliging.congr hsettled.refuses⟩
  rw [hsettled.consoleOpen, h.closed]
  rfl

theorem keepsPlain_cycle : KeepsPlain cycle :=
  within_cycle composes_keepsPlain keepsPlain_openConsole keepsPlain_pollInput keepsPlain_advance
    keepsPlain_settle

theorem Plain.cycle (h : e.Plain) : e.cycle.state.Plain := keepsPlain_cycle e h

/-! ## Cycles -/

/-- The cycles from the last on. -/
theorem afterCycles_succ (e : Emulator) (n : Nat) :
    e.afterCycles (n + 1) = (e.afterCycles n).cycle.state := by
  induction n generalizing e with
  | zero => rfl
  | succ n ih => exact ih e.cycle.state

theorem calls_replicate (e : Emulator) (n : Nat) :
    e.calls (List.replicate n .cycle) = e.afterCycles n := by
  induction n generalizing e with
  | zero => rfl
  | succ n ih => exact ih e.cycle.state

theorem Plain.afterCycles (h : e.Plain) (n : Nat) : (e.afterCycles n).Plain := by
  induction n with
  | zero => exact h
  | succ n ih =>
    rw [afterCycles_succ]
    exact ih.cycle

/-- The machine behind the entry that the input plays next. -/
def heard (e : Emulator) : Machine := (e.machine.hear e.entry).state

/-- The machine right behind the coming instruction, before a frame ends. -/
def stepped (e : Emulator) : Machine := e.heard.step.state

/-- The input is polled in every cycle. -/
theorem Plain.takes {polled : Bool} {m : Machine} (h : e.Plain) (htakes : e.Takes polled m) :
    polled = true ∧ m = e.heard := by
  cases htakes with
  | nothing holds => exact absurd (h.consoleHolds.symm.trans holds) (by simp)
  | entry => exact ⟨rfl, rfl⟩

/-- A cycle that goes through has executed the instruction behind the entry. -/
theorem Plain.executed (h : e.Plain) (hgo : e.cycle.result = .ok .proceed) :
    ∃ i, e.heard.step.result = .ok i ∧ e.Executed true e.heard := by
  obtain ⟨polled, m, i, htakes, hstep, hexecuted⟩ := executed_of_proceed h.obliging hgo
  obtain ⟨rfl, rfl⟩ := h.takes htakes
  exact ⟨i, hstep, hexecuted⟩

end Chip8.Emulator
