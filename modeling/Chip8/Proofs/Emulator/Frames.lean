import Chip8.Proofs.Emulator.Executions
import Chip8.Proofs.Emulator.Plain
import Chip8.Proofs.Timers

/-!
# Frames

A display counts the frames of the log and keeps the last of them (`onDisplay_calls`). Without a
debugger they come on time (`frames_on_time`): a cycle that goes through lets the outside see one
instruction and behind it at most one frame, and the clock counts with it.
-/

namespace Chip8

/-! ## Frames among instructions -/

/-- The frames shown among the events, each with the number of the instructions executed by then,
`done` of them before the events. -/
def framesAt (done : Nat) : List Event → List (Nat × Screen)
  | [] => []
  | event :: events =>
    (shownFrames [event]).map (done, ·) ++ framesAt (done + (executions [event]).length) events

theorem framesAt_append (done : Nat) (first last : List Event) :
    framesAt done (first ++ last) =
      framesAt done first ++ framesAt (done + (executions first).length) last := by
  induction first generalizing done with
  | nil => rfl
  | cons event first ih =>
    have hsplit : executions (event :: first) = executions [event] ++ executions first :=
      executions_append [event] first
    rw [List.cons_append, framesAt, framesAt, ih, hsplit, List.length_append, Nat.add_assoc,
      List.append_assoc]

theorem map_framesAt (done : Nat) (events : List Event) :
    (framesAt done events).map Prod.snd = shownFrames events := by
  induction events generalizing done with
  | nil => rfl
  | cons event events ih =>
    have hsplit : shownFrames (event :: events) = shownFrames [event] ++ shownFrames events :=
      shownFrames_append [event] events
    rw [framesAt, List.map_append, ih, hsplit, List.map_map]
    exact congrArg (· ++ _) (List.map_id _)

theorem framesAt_of_executions {events : List Event} (h : executions events = []) (done : Nat) :
    framesAt done events = (shownFrames events).map (done, ·) := by
  induction events with
  | nil => rfl
  | cons event events ih =>
    have hsplit : shownFrames (event :: events) = shownFrames [event] ++ shownFrames events :=
      shownFrames_append [event] events
    have hnone := (executions_append [event] events).symm.trans h
    obtain ⟨hfirst, hrest⟩ := List.append_eq_nil_iff.1 hnone
    rw [framesAt, hfirst, List.length_nil, Nat.add_zero, ih hrest, hsplit, List.map_append]

theorem framesAt_of_shownFrames {events : List Event} (h : shownFrames events = []) (done : Nat) :
    framesAt done events = [] :=
  List.map_eq_nil_iff.1 ((map_framesAt done events).trans h)

/-! ## What a display keeps -/

/-- What a display keeps of its frames: how many it was shown, and the last of them. -/
def Host.onDisplay (h : Host) : Nat × Option Screen := (h.frames, h.lastFrame)

/-- What is kept after more frames. -/
def keptAfter (kept : Nat × Option Screen) (frames : List Screen) : Nat × Option Screen :=
  (kept.1 + frames.length, frames.getLast?.or kept.2)

theorem keptAfter_nil (kept : Nat × Option Screen) : keptAfter kept [] = kept := rfl

theorem keptAfter_append (kept : Nat × Option Screen) (first last : List Screen) :
    keptAfter kept (first ++ last) = keptAfter (keptAfter kept first) last := by
  simp only [keptAfter, List.length_append, List.getLast?_append, Nat.add_assoc, Option.or_assoc]

namespace Emulator

variable {e : Emulator} {α : Type} {period n : Nat}

/-! ## What the display keeps -/

/-- The activity has the display keep the frames that are shown. -/
def KeepsFrames (x : Act Emulator α) : Prop :=
  x.Within fun e events t => t.host.onDisplay = keptAfter e.host.onDisplay (shownFrames events)

theorem composes_keepsFrames : Act.Composes fun (e : Emulator) events (t : Emulator) =>
    t.host.onDisplay = keptAfter e.host.onDisplay (shownFrames events) where
  nothing e := (keptAfter_nil e.host.onDisplay).symm
  after hfirst hlast := by rw [hlast, hfirst, shownFrames_append, keptAfter_append]

@[simp] theorem onDisplay_called (e : Emulator) (call : HostCall) :
    (e.called call).host.onDisplay = e.host.onDisplay := by
  obtain ⟨calls, h⟩ := e.host.receive_eq call
  rw [called, h]
  rfl

@[simp] theorem onDisplay_setSuspended (h : Host) (suspended : Bool) :
    (h.setSuspended suspended).onDisplay = h.onDisplay := by
  rw [Host.setSuspended]
  split <;> rfl

@[simp] theorem onDisplay_invalidate (h : Host) : h.invalidate.onDisplay = h.onDisplay := by
  rw [Host.invalidate]
  split <;> rfl

theorem keepsFrames_openConsole : KeepsFrames openConsole := by
  intro e
  rw [openConsole_eq]
  split
  · split
    · exact (onDisplay_setSuspended _ true).trans (e.onDisplay_called .suspend)
    · exact e.onDisplay_called .suspend
  · rfl

theorem keepsFrames_pollInput : KeepsFrames pollInput := by
  intro e
  rw [pollInput_eq]
  split
  · rfl
  · rw [poll_eq]
    split
    · have hdisplay : e.played.host.onDisplay = e.host.onDisplay := e.onDisplay_called .poll
      cases e.entry <;> exact hdisplay
    · exact e.onDisplay_called .poll

theorem keepsFrames_advance : KeepsFrames advance := by
  intro e
  rw [e.host_advance, e.shownFrames_advance]
  rfl

theorem keepsFrames_closeConsole : KeepsFrames closeConsole := by
  intro e
  have hresumed : e.resumed.host.onDisplay = e.host.onDisplay :=
    (onDisplay_setSuspended _ false).trans (e.onDisplay_called .resume)
  have hclosed : (e.resumed.called .invalidate).host.onDisplay = e.host.onDisplay :=
    (e.resumed.onDisplay_called .invalidate).trans hresumed
  rw [closeConsole_eq]
  split
  · split
    · split
      · exact (onDisplay_invalidate _).trans hclosed
      · exact hclosed
    · exact e.onDisplay_called .resume
  · rfl

theorem keepsFrames_switchBeeper : KeepsFrames switchBeeper := by
  intro e
  rw [switchBeeper_eq]
  split
  · rw [beeped, beepEvents]
    split <;> exact e.onDisplay_called e.beepCall
  · rfl

theorem keepsFrames_endFrame : KeepsFrames endFrame := by
  intro e
  rw [endFrame_eq]
  split
  · exact keepsFrames_switchBeeper e.ticked.forgot
  · split
    · have hdrawn : e.ticked.drawn.forgot.host.onDisplay = keptAfter e.host.onDisplay
          (shownFrames [.hostCall .draw true, .shown e.ticked.machine.screen]) :=
        congrArg (fun kept => (kept.1 + 1, some e.ticked.machine.screen))
          (e.ticked.onDisplay_called .draw)
      exact composes_keepsFrames.after hdrawn (keepsFrames_switchBeeper e.ticked.drawn.forgot)
    · exact e.ticked.onDisplay_called .draw

theorem keepsFrames_countInstruction : KeepsFrames countInstruction := by
  intro e
  rw [countInstruction_eq]
  split
  · exact keepsFrames_endFrame { e with clock := e.clock.advance.2 }
  · rfl

theorem keepsFrames_cycle : KeepsFrames cycle := by
  have hR := composes_keepsFrames
  exact within_cycle hR keepsFrames_openConsole keepsFrames_pollInput keepsFrames_advance
    (within_settle hR keepsFrames_closeConsole keepsFrames_countInstruction)

/-- **The display keeps the frames of the log**, whatever is refused. -/
theorem onDisplay_calls (e : Emulator) (run : List Call) :
    (e.calls run).host.onDisplay = keptAfter e.host.onDisplay (shownFrames (e.trace run)) := by
  induction run generalizing e with
  | nil => rfl
  | cons c run ih =>
    have hcall : (e.call c).host.onDisplay =
        keptAfter e.host.onDisplay (shownFrames (e.callEvents c)) := by
      cases c with
      | cycle => exact keepsFrames_cycle e
      | endFrame => exact keepsFrames_endFrame e
    exact composes_keepsFrames.after hcall (ih (e.call c))

/-! ## One cycle -/

/-- What a cycle does that goes through, as the `n + 1`st instruction. -/
structure OnTime (e : Emulator) (period n : Nat) : Prop where
  clock : e.cycle.state.clock.Counted period (n + 1)
  polls : e.cycle.state.host.polls = e.host.polls + 1
  executed : (executions e.cycle.events).length = 1
  screen : e.cycle.state.machine.screen = e.stepped.screen
  frames : framesAt n e.cycle.events =
    if period ∣ n + 1 then [(n + 1, e.cycle.state.machine.screen)] else []
  quiet : period ∣ n + 1 → ∀ key, (e.cycle.state.machine.keypad.get key).justReleased = false

theorem Plain.onTime (h : e.Plain) (hc : e.clock.Counted period n)
    (hgo : e.cycle.result = .ok .proceed) : e.OnTime period n := by
  obtain ⟨i, hstep, hexecuted⟩ := h.executed hgo
  have hdue : e.frameDue = true ↔ period ∣ n + 1 := hc.due
  have hscreen : e.cycle.state.machine.screen = e.stepped.screen := by
    obtain ⟨⟨timers, keypad, hend⟩, -⟩ := e.stepped.settles_endFrame
    rw [hexecuted.machine, ← stepped]
    split
    · rw [hend]
    · rfl
  -- Whatever the cycle shows comes behind its instruction.
  obtain ⟨before, behind, hevents, hbefore, honce, hbehind⟩ :=
    (executesOnce_cycle h.obliging).through hgo
  refine ⟨?_, hexecuted.polls, ?_, hscreen, ?_, ?_⟩
  · rw [hexecuted.clock]
    exact hc.advance
  · rw [executions_cycle h.obliging, if_pos hgo]
    rfl
  · have hframes := hexecuted.frames
    rw [hevents, shownFrames_append, hbefore, List.nil_append, h.cycle.closed] at hframes
    rw [hevents, framesAt_append, framesAt_of_shownFrames hbefore, honce,
      framesAt_of_executions hbehind, hframes, hscreen]
    simp only [Bool.not_false, Bool.and_true, hdue]
    split <;> rfl
  · intro hdvd key
    rw [hexecuted.machine, if_pos (hdue.2 hdvd), Machine.endFrame, Keypad.get_endFrame]

/-! ## Runs -/

/-- What the outside sees of the next cycles. -/
def traceCycles (e : Emulator) (n : Nat) : List Event := e.trace (List.replicate n .cycle)

theorem traceCycles_succ (e : Emulator) (n : Nat) :
    e.traceCycles (n + 1) = e.traceCycles n ++ (e.afterCycles n).cycle.events := by
  induction n generalizing e with
  | zero => exact List.append_nil _
  | succ n ih =>
    have hrest : e.traceCycles (n + 2) = e.cycle.events ++ e.cycle.state.traceCycles (n + 1) := rfl
    have hfirst : e.traceCycles (n + 1) = e.cycle.events ++ e.cycle.state.traceCycles n := rfl
    rw [hrest, ih, hfirst, List.append_assoc]
    rfl

/-- What a number of cycles do that all go through. -/
structure Paced (e : Emulator) (period n : Nat) : Prop where
  clock : (e.afterCycles n).clock.Counted period n
  polls : (e.afterCycles n).host.polls = e.host.polls + n
  executed : (executions (e.traceCycles n)).length = n
  frames : framesAt 0 (e.traceCycles n) = (List.range (n / period)).map fun k =>
    ((k + 1) * period, (e.afterCycles ((k + 1) * period)).machine.screen)

/-- One more cycle that goes through. -/
theorem Paced.succ (h : e.Paced period n) (hc : (e.afterCycles n).OnTime period n) :
    e.Paced period (n + 1) := by
  have hstate := e.afterCycles_succ n
  refine ⟨?_, ?_, ?_, ?_⟩
  · rw [hstate]
    exact hc.clock
  · rw [hstate, hc.polls, h.polls, Nat.add_assoc]
  · rw [traceCycles_succ, executions_append, List.length_append, h.executed, hc.executed]
  · rw [traceCycles_succ, framesAt_append, h.executed, Nat.zero_add, hc.frames, h.frames,
      Nat.succ_div]
    split
    · rename_i hdvd
      have hlast : (n / period + 1) * period = n + 1 := by
        have hmul := Nat.div_mul_cancel hdvd
        rwa [Nat.succ_div, if_pos hdvd] at hmul
      rw [List.range_succ, List.map_append, List.map_singleton, hlast, hstate]
    · rw [List.append_nil]
      rfl

theorem Plain.paced (h : e.Plain) (hc : e.clock.Counted period 0)
    (hgo : ∀ i < n, (e.afterCycles i).cycle.result = .ok .proceed) : e.Paced period n := by
  induction n with
  | zero => exact ⟨hc, rfl, rfl, by rw [Nat.zero_div]; rfl⟩
  | succ n ih =>
    have hbefore := ih fun i hi => hgo i (by omega)
    exact hbefore.succ ((h.afterCycles n).onTime hbefore.clock (hgo n (by omega)))

/-- The display keeps the frames of a run that is on time. -/
theorem Paced.onDisplay (h : e.Paced period n) : (e.afterCycles n).host.onDisplay =
    keptAfter e.host.onDisplay ((List.range (n / period)).map fun k =>
      (e.afterCycles ((k + 1) * period)).machine.screen) := by
  rw [← calls_replicate, onDisplay_calls, ← traceCycles, ← map_framesAt 0, h.frames, List.map_map]
  rfl

theorem Paced.frames_eq (h : e.Paced period n) (hzero : e.host.frames = 0) :
    (e.afterCycles n).host.frames = n / period := by
  have hcount := congrArg Prod.fst h.onDisplay
  rw [keptAfter, List.length_map, List.length_range] at hcount
  calc (e.afterCycles n).host.frames
      = e.host.frames + n / period := hcount
    _ = n / period := by rw [hzero, Nat.zero_add]

/-- The last of these frames is that of the last multiple of the period, if there is one. -/
theorem Paced.lastFrame (h : e.Paced period n) (hpos : 0 < period)
    (hnone : e.host.lastFrame = none) : (e.afterCycles n).host.lastFrame =
      if n < period then none else some (e.afterCycles (n / period * period)).machine.screen := by
  have hlast := congrArg Prod.snd h.onDisplay
  change (e.afterCycles n).host.lastFrame = _ at hlast
  rw [hlast]
  split
  · rename_i hlt
    rw [Nat.div_eq_of_lt hlt]
    exact hnone
  · rename_i hle
    obtain ⟨q, hq⟩ := Nat.exists_eq_add_one.2 (Nat.div_pos (Nat.not_lt.1 hle) hpos)
    rw [hq, List.range_succ, List.map_append, keptAfter_append]
    rfl

/-- No release outlasts its frame. -/
theorem justReleased_of_onTime (h : ∀ i < n, (e.afterCycles i).OnTime period i) {m : Nat}
    (hdvd : period ∣ m) (hpos : 0 < m) (hle : m ≤ n) (key : Fin 16) :
    ((e.afterCycles m).machine.keypad.get key).justReleased = false := by
  obtain ⟨i, rfl⟩ := Nat.exists_eq_add_one.2 hpos
  rw [afterCycles_succ]
  exact (h i hle).quiet hdvd key

/-- **Frames come on time.** If the first cycles of an emulator without a debugger all go through,
each polls the input once and executes one instruction. A frame is shown behind every instruction
whose number the period divides, and behind no other; it is the screen that this instruction left,
the display keeps it until the next one is shown, and the keypad keeps no release beyond it. -/
theorem frames_on_time (rate : UInt32) (dialect : Dialect) (seed : UInt64) (program : List UInt8)
    (script : List Scripted) (bare : Bool) (n : Nat) :
    let e := loadedWith rate dialect seed { script, bare } none program
    let period := max 1 (rate.toNat / 60)
    (∀ i < n, (e.afterCycles i).cycle.result = .ok .proceed) →
      (e.afterCycles n).host.polls = n ∧
      (e.afterCycles n).host.frames = n / period ∧
      (∀ i ≤ n, (executions (e.traceCycles i)).length = i) ∧
      (framesAt 0 (e.traceCycles n) = (List.range (n / period)).map fun k =>
        ((k + 1) * period, (e.afterCycles ((k + 1) * period)).machine.screen)) ∧
      (∀ i ≤ n, (e.afterCycles i).host.frames = i / period ∧ (e.afterCycles i).host.lastFrame =
        if i < period then none
        else some (e.afterCycles (i / period * period)).machine.screen) ∧
      (∀ i < n, (e.afterCycles (i + 1)).machine.screen = (e.afterCycles i).stepped.screen) ∧
      ∀ k ≤ n / period, ∀ key,
        ((e.afterCycles (k * period)).machine.keypad.get key).justReleased = false := by
  intro e period hgo
  have hhost : e.host = { script, bare } :=
    host_loadedWith rate dialect seed { script, bare } none program
  have hplain : e.Plain := plain_loadedWith rate dialect seed program fun _ _ => rfl
  have hclock : e.clock.Counted period 0 := by
    rw [clock_loadedWith]
    exact FrameClock.counted_ofRate rate
  have hpaced : ∀ i ≤ n, e.Paced period i :=
    fun i hi => hplain.paced hclock fun j hj => hgo j (by omega)
  have hontime : ∀ i < n, (e.afterCycles i).OnTime period i := fun i hi =>
    (hplain.afterCycles i).onTime (hpaced i (by omega)).clock (hgo i hi)
  have hend := hpaced n (Nat.le_refl n)
  have hcount : ∀ i ≤ n, (e.afterCycles i).host.frames = i / period :=
    fun i hi => (hpaced i hi).frames_eq (by rw [hhost])
  refine ⟨?_, hcount n (Nat.le_refl n), fun i hi => (hpaced i hi).executed, hend.frames, ?_, ?_, ?_⟩
  · rw [hend.polls, hhost, Nat.zero_add]
  · intro i hi
    exact ⟨hcount i hi, (hpaced i hi).lastFrame hclock.pos (by rw [hhost])⟩
  · intro i hi
    rw [afterCycles_succ]
    exact (hontime i hi).screen
  · intro k hk key
    cases k with
    | zero =>
      obtain ⟨memory, hmachine⟩ :=
        machine_loadedWith rate dialect seed { script, bare } none program
      rw [Nat.zero_mul, afterCycles, hmachine]
      exact congrArg KeyState.justReleased (Keypad.get_fresh key)
    | succ k =>
      have hle : (k + 1) * period ≤ n :=
        Nat.le_trans (Nat.mul_le_mul_right period hk) (Nat.div_mul_le_self n period)
      have hpos : 0 < (k + 1) * period := Nat.mul_pos (Nat.succ_pos k) hclock.pos
      exact justReleased_of_onTime hontime (Nat.dvd_mul_left period (k + 1)) hpos hle key

set_option maxRecDepth 20000 in
/-- Two frames of two instructions each: the first shows a glyph that is cleared behind it,
and key 7 went up in it. -/
theorem frames_on_time_two :
    let program : List UInt8 := [0xA0, 0x50, 0xD0, 0x05, 0x00, 0xE0, 0x12, 0x06]
    let e := loadedWith 120 .modern 0 { script := [.press 7, .release 7] } none program
    (∀ i < 4, (e.afterCycles i).cycle.result = .ok .proceed) ∧
      (e.afterCycles 4).host.polls = 4 ∧ (e.afterCycles 4).host.frames = 2 ∧
      framesAt 0 (e.traceCycles 4) =
        [(2, (e.afterCycles 2).machine.screen), (4, (e.afterCycles 4).machine.screen)] ∧
      (e.afterCycles 2).machine.screen.pixel 0 0 = 1 ∧
      (e.afterCycles 4).machine.screen.pixel 0 0 = 0 ∧
      (e.afterCycles 3).host.lastFrame = some (e.afterCycles 2).machine.screen ∧
      ((e.afterCycles 2).machine.keypad.get 7).justReleased = false := by
  intro program e
  have hgo : ∀ i < 4, (e.afterCycles i).cycle.result = .ok .proceed := by decide +kernel
  have ⟨hlit, hdark⟩ : (e.afterCycles 2).machine.screen.pixel 0 0 = 1 ∧
      (e.afterCycles 4).machine.screen.pixel 0 0 = 0 := by decide +kernel
  have hperiod : max 1 ((120 : UInt32).toNat / 60) = 2 := by decide
  have htime := frames_on_time 120 .modern 0 program [.press 7, .release 7] false 4 hgo
  simp only [hperiod] at htime
  obtain ⟨hpolls, hframes, -, hshown, hkept, -, hquiet⟩ := htime
  exact ⟨hgo, hpolls, hframes, hshown, hlit, hdark, (hkept 3 (by decide)).2,
    hquiet 1 (by decide) 7⟩

end Emulator

end Chip8
