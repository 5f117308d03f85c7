import Chip8.Proofs.Emulator.Cycle

/-!
# What comes before an instruction

A cycle is two parts: the intake, which opens the console or polls the input, and the instruction
with what comes behind it (`execute`). The intake ends the cycle or lets it go on
(`cycle_of_error`, `cycle_of_quit`, `cycle_of_proceed`), and it changes little (`takenIn_intake`).
-/

namespace Chip8

namespace Emulator

variable {e t : Emulator} {events : List Event} {stop : Stop}

/-- What comes before the instruction in a cycle. -/
def intake : Act Emulator Flow := do
  openConsole
  pollInput

theorem intake_eq (e : Emulator) :
    intake e =
      if e.consoleHolds then
        if e.consoleOpen then ⟨.ok .proceed, e, []⟩
        else if e.grants .suspend then ⟨.ok .proceed, e.opened, [.hostCall .suspend true]⟩
        else ⟨.error (refusal .suspend), e.called .suspend, [.hostCall .suspend false]⟩
      else poll e := by
  have hconsole := openConsole_eq e
  rw [consoleHolds]
  cases hopen : e.consoleOpen with
  | true =>
    rw [hopen, Bool.not_true, Bool.and_false] at hconsole
    rw [intake, Act.bind_of_ok hconsole, pollInput_eq, hopen]
    rfl
  | false =>
    rw [hopen, Bool.not_false, Bool.and_true] at hconsole
    cases hpaused : e.debuggerPaused with
    | false =>
      rw [hpaused] at hconsole
      rw [intake, Act.bind_of_ok hconsole, pollInput_eq, hopen]
      rfl
    | true =>
      rw [hpaused] at hconsole
      cases hg : e.grants .suspend with
      | true =>
        rw [hg] at hconsole
        rw [intake, Act.bind_of_ok hconsole, pollInput_eq]
        rfl
      | false =>
        rw [hg] at hconsole
        exact Act.bind_of_error hconsole

/-! ## The two parts -/

/-- The rest of a cycle, by what the intake says. -/
theorem cycle_eq_intake (e : Emulator) : e.cycle = (do
    match ← intake with
    | .quit => return .quit
    | .proceed => execute : Act Emulator Flow) e := by
  rcases h : openConsole e with ⟨stop | a, t, events⟩
  · have hintake : intake e = ⟨.error stop, t, events⟩ := Act.bind_of_error h
    rw [Act.bind_of_error hintake]
    exact Act.bind_of_error h
  · have hintake : intake e = (pollInput t).after events := Act.bind_of_ok h
    have hcycle : e.cycle = (listen t).after events := Act.bind_of_ok h
    rw [hcycle]
    rcases hpoll : pollInput t with ⟨stop | flow, u, events'⟩
    all_goals rw [hpoll] at hintake
    · have hlisten : listen t = ⟨.error stop, u, events'⟩ := Act.bind_of_error hpoll
      rw [hlisten, Act.bind_of_error hintake]
      rfl
    · rw [Act.bind_of_ok hintake, listen, Act.bind_of_ok hpoll]
      exact Outcome.after_after _ _ _

theorem cycle_of_error (h : intake e = ⟨.error stop, t, events⟩) :
    e.cycle = ⟨.error stop, t, events⟩ := by
  rw [cycle_eq_intake, Act.bind_of_error h]

theorem cycle_of_quit (h : intake e = ⟨.ok .quit, t, events⟩) :
    e.cycle = ⟨.ok .quit, t, events⟩ := by
  rw [cycle_eq_intake, Act.bind_of_ok h]
  simp [Outcome.after, Act.pure_apply]

theorem cycle_of_proceed (h : intake e = ⟨.ok .proceed, t, events⟩) :
    e.cycle = (execute t).after events := by
  rw [cycle_eq_intake, Act.bind_of_ok h]

/-! ## What an intake leaves -/

/-- What an intake leaves as it was: all of the machine but its keypad, where no mark is taken away,
and all of the host but what it counts and plays. -/
structure TakenIn (e t : Emulator) : Prop where
  machine : ∃ keypad, t.machine = { e.machine with keypad }
  marks : ∀ k, (e.machine.keypad.get k).justReleased = true →
    (t.machine.keypad.get k).justReleased = true
  clock : t.clock = e.clock
  debugger : t.debugger = e.debugger
  display : (t.host.frames, t.host.lastFrame, t.host.invalidations) =
    (e.host.frames, e.host.lastFrame, e.host.invalidations)
  beeper : t.host.beeper = e.host.beeper
  refuses : t.host.refuses = e.host.refuses

theorem takenIn_called (e : Emulator) (call : HostCall) : e.TakenIn (e.called call) := by
  obtain ⟨calls, hcalled⟩ := e.host.receive_eq call
  refine ⟨⟨_, rfl⟩, fun _ h => h, rfl, rfl, ?_, ?_, ?_⟩
  all_goals
    rw [called, hcalled]

theorem takenIn_opened (e : Emulator) : e.TakenIn e.opened := by
  have hcalled := e.takenIn_called .suspend
  refine ⟨⟨_, rfl⟩, fun _ h => h, rfl, rfl, ?_, ?_, ?_⟩
  · rw [← hcalled.display, opened, Host.setSuspended]
    split <;> rfl
  · rw [← hcalled.beeper, opened, Host.setSuspended]
    split <;> rfl
  · rw [← hcalled.refuses, opened, Host.setSuspended]
    split <;> rfl

/-- An entry takes no mark away from a key. -/
theorem takenIn_heard (e : Emulator) :
    e.TakenIn { e.played with machine := (e.machine.hear e.entry).state } := by
  have hcalled := e.takenIn_called .poll
  refine ⟨e.machine.state_hear e.entry, fun k hmarked => ?_, rfl, rfl, hcalled.display,
    hcalled.beeper, hcalled.refuses⟩
  dsimp only
  cases e.entry with
  | idle | quit => exact hmarked
  | press key => exact Machine.justReleased_act (a := .press key) hmarked nofun
  | release key => exact Machine.justReleased_act (a := .release key) hmarked nofun

/-- **An intake changes little**, however it ends. -/
theorem takenIn_intake (e : Emulator) : e.TakenIn (intake e).state := by
  rw [intake_eq]
  split
  · split
    · exact ⟨⟨_, rfl⟩, fun _ h => h, rfl, rfl, rfl, rfl, rfl⟩
    · split
      · exact e.takenIn_opened
      · exact e.takenIn_called .suspend
  · rw [poll_eq]
    split
    · exact e.takenIn_heard
    · exact e.takenIn_called .poll

/-- What takes nothing from the calls of an intake takes nothing from it. -/
theorem filterMap_intake {α : Type} {f : Event → Option α} (e : Emulator)
    (hsuspend : ∀ granted, f (.hostCall .suspend granted) = none)
    (hpoll : ∀ granted, f (.hostCall .poll granted) = none)
    (hquit : f (.notice .quitAsked) = none) : (intake e).events.filterMap f = [] := by
  rw [intake_eq]
  split
  · split
    · rfl
    · split <;> simp [hsuspend]
  · rw [poll_eq]
    split
    · cases e.entry <;> simp [Outcome.after, Outcome.onState, Machine.hear, hpoll, hquit]
    · simp [hpoll]

theorem shownFrames_intake (e : Emulator) : shownFrames (intake e).events = [] :=
  e.filterMap_intake (fun _ => rfl) (fun _ => rfl) rfl

/-! ## Around the instruction -/

/-- What comes behind an instruction goes through or fails. -/
theorem settle_ne_quit (e : Emulator) : (settle e).result ≠ .ok .quit := by
  intro hquit
  rcases hclose : closeConsole e with ⟨stop | _, t, events⟩
  · rw [settle, Act.bind_of_error hclose] at hquit
    cases hquit
  rcases hcount : countInstruction t with ⟨stop | _, u, events'⟩
  · rw [settle, Act.bind_of_ok hclose, Act.bind_of_error hcount] at hquit
    cases hquit
  · rw [settle, Act.bind_of_ok hclose, Act.bind_of_ok hcount] at hquit
    cases hquit

theorem execute_of_proceed (h : advance e = ⟨.ok .proceed, t, events⟩) :
    execute e = (settle t).after events :=
  Act.bind_of_ok h

/-- Nothing comes behind an instruction that is not executed. -/
theorem execute_of_ne (h : (advance e).result ≠ .ok .proceed) : execute e = advance e := by
  rcases hadvance : advance e with ⟨stop | (_ | _), t, events⟩
  · exact Act.bind_of_error hadvance
  · exact absurd (congrArg Outcome.result hadvance) h
  · have hexecute : execute e = (⟨.ok .quit, t, []⟩ : Outcome Emulator Flow).after events :=
      Act.bind_of_ok hadvance
    rw [hexecute, Outcome.after, List.append_nil]

/-- What goes through has executed an instruction, and what quits has not. -/
theorem advance_of_execute {flow : Flow} (h : (execute e).result = .ok flow) :
    (advance e).result = .ok .proceed ↔ flow = .proceed := by
  constructor
  · intro hgo
    rcases hadvance : advance e with ⟨result, t, events⟩
    rw [hadvance] at hgo
    obtain rfl : result = .ok .proceed := hgo
    rw [execute_of_proceed hadvance] at h
    cases flow with
    | proceed => rfl
    | quit => exact absurd h (settle_ne_quit t)
  · rintro rfl
    by_contra hne
    rw [execute_of_ne hne] at h
    exact hne h

end Emulator

end Chip8
