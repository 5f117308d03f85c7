import Chip8.Proofs.Emulator.Beeper

/-!
# Cycles that are cut short

A cycle may end before its instruction is executed. It is then charged to nothing: the clock stands
still, no timer falls, no frame is shown, no mark is taken away from a key and the beeper is not
called (`chargesNothing_of_none`). If the host refused to suspend or to poll the input, the cycle
has done nothing but count the call, and can be made again as if nothing had been refused
(`cycle_again`).
-/

namespace Chip8

namespace Host

variable {call : HostCall} {plan : Nat → Bool}

/-- One more call of a kind was made, and those to come are refused by another plan. -/
def replan (call : HostCall) (plan : Nat → Bool) (h : Host) : Host :=
  { h with
    calls := h.calls.add call
    refuses := fun other n => if other = call then plan n else h.refuses other n }

/-- The next call of a kind is not refused. -/
def spare (call : HostCall) (h : Host) : Host :=
  { h with
    refuses := fun other n =>
      h.refuses other n && !(other = call && n = (h.calls.add call).get call) }

theorem passes_replan : Passes (replan call plan) (· != call) where
  receive h other hother := by
    have hne : other ≠ call := by simpa using hother
    have hadd : (h.calls.add call).add other = (h.calls.add other).add call := by
      cases call <;> cases other <;> rfl
    have hget : ((h.calls.add other).add call).get other = (h.calls.add other).get other := by
      cases call <;> cases other <;> first | rfl | exact absurd rfl hne
    have hignores : (h.replan call plan).ignores other = h.ignores other := rfl
    rw [receive, receive, hignores]
    split
    · rfl
    · simp [replan, hne, hadd, hget]
  setSuspended h suspended := by
    have hbare : (h.replan call plan).bare = h.bare := rfl
    rw [setSuspended, setSuspended, hbare]
    split <;> rfl
  invalidate h := by
    have hbare : (h.replan call plan).bare = h.bare := rfl
    rw [invalidate, invalidate, hbare]
    split <;> rfl
  poll _ := rfl
  display _ _ := rfl

theorem passesBeeper_replan : PassesBeeper (replan call plan) where
  beeper _ := rfl
  switch _ _ := rfl

/-- The call itself is counted all the same. -/
theorem receive_replan (h : Host) :
    ((h.replan call plan).receive call).2 = (h.receive call).2.replan call plan := by
  have hignores : (h.replan call plan).ignores call = h.ignores call := rfl
  rw [receive, receive, hignores]
  split <;> rfl

/-- A host that refuses a call is the one that was to be spared, but for the count and the plan. -/
theorem replan_spare (h : Host) :
    (h.spare call).replan call (h.refuses call) = { h with calls := h.calls.add call } := by
  rw [replan, spare]
  refine congrArg (fun refuses => { h with calls := h.calls.add call, refuses }) ?_
  funext other n
  by_cases hother : other = call <;> simp [hother]

theorem receive_of_refused {h : Host} (hrefused : (h.receive call).1 = false) :
    (h.receive call).2 = { h with calls := h.calls.add call } := by
  unfold receive at hrefused ⊢
  split at hrefused
  · cases hrefused
  · rename_i hignores
    rw [if_neg hignores]

theorem receive_spare (h : Host) : ((h.spare call).receive call).1 = true := by
  unfold receive
  split
  · rfl
  · simp [spare]

end Host

namespace Emulator

variable {e t : Emulator} {call : HostCall} {stop : Stop}

/-! ## Failures of the parts -/

theorem refusal_inj {other : HostCall} : refusal call = refusal other ↔ call = other := by
  simp [refusal]

/-- An instruction that is not executed moves the program counter and the debugger at most. It fails
as the machine's step does, or in the talk before it. -/
theorem advance_of_ne (h : (advance e).result ≠ .ok .proceed) :
    (∃ debugger pc, (advance e).state = { e with debugger, machine := { e.machine with pc } }) ∧
      ∀ stop, (advance e).result = .error stop →
        stop = Debugger.malformedLine ∨ e.machine.step.result = .error stop := by
  rw [advance] at h ⊢
  split
  · rename_i d hd
    rw [hd] at h
    dsimp only [Outcome.onState] at h ⊢
    cases d.step_course e.machine with
    | executed i step result => exact absurd result h
    | failed stop step result machine =>
      obtain ⟨pc, hstate⟩ := Machine.state_step_of_error step
      rw [machine, hstate, result]
      exact ⟨⟨_, pc, rfl⟩, fun stop' hstop => .inr (Except.error.inj hstop ▸ step)⟩
    | talked ends result machine =>
      rw [machine]
      exact ⟨⟨_, e.machine.pc, rfl⟩, fun stop hstop => .inl (hstop ▸ ends).stop_eq⟩
  · rename_i hd
    rw [hd] at h
    dsimp only [Outcome.onState] at h ⊢
    cases hstep : e.machine.step.result with
    | ok i => simp [hstep, Except.map] at h
    | error stop =>
      obtain ⟨pc, hstate⟩ := Machine.state_step_of_error hstep
      rw [hstate]
      exact ⟨⟨_, pc, rfl⟩, fun stop' hstop => .inr (congrArg _ (Except.error.inj hstop))⟩

theorem closeConsole_of_error (h : (closeConsole e).result = .error stop) :
    stop = refusal .resume ∨ stop = refusal .invalidate := by
  rw [closeConsole_eq] at h
  split at h
  · split at h
    · split at h
      · cases h
      · exact .inr (Except.error.inj h).symm
    · exact .inl (Except.error.inj h).symm
  · cases h

theorem countInstruction_of_error (h : (countInstruction e).result = .error stop) :
    stop = refusal .draw := by
  rw [countInstruction_eq] at h
  split at h
  · rcases result_endFrame { e with clock := e.clock.advance.2 } with hok | hdraw
    · rw [hok] at h
      cases h
    · exact Except.error.inj (h.symm.trans hdraw)
  · cases h

theorem settle_of_error (h : (settle e).result = .error stop) :
    stop = refusal .resume ∨ stop = refusal .invalidate ∨ stop = refusal .draw := by
  rcases hclose : closeConsole e with ⟨stop' | _, t, events⟩
  · rw [settle, Act.bind_of_error hclose] at h
    obtain rfl : stop' = stop := Except.error.inj h
    have hcause := closeConsole_of_error (congrArg Outcome.result hclose)
    exact hcause.imp_right .inl
  rcases hcount : countInstruction t with ⟨stop' | _, u, events'⟩
  · rw [settle, Act.bind_of_ok hclose, Act.bind_of_error hcount] at h
    obtain rfl : stop' = stop := Except.error.inj h
    exact .inr (.inr (countInstruction_of_error (congrArg Outcome.result hcount)))
  · rw [settle, Act.bind_of_ok hclose, Act.bind_of_ok hcount] at h
    cases h

/-- Behind the intake nothing fails because the input was not to be had. -/
theorem execute_ne_refusal (hcall : call = .suspend ∨ call = .poll) (e : Emulator) :
    (execute e).result ≠ .error (refusal call) := by
  intro hexecute
  rcases hadvance : advance e with ⟨stop | (_ | _), t, events⟩
  · rw [execute, Act.bind_of_error hadvance] at hexecute
    obtain rfl : stop = refusal call := Except.error.inj hexecute
    have herror : (advance e).result = .error (refusal call) := congrArg Outcome.result hadvance
    have hne : (advance e).result ≠ .ok .proceed := by simp [herror]
    rcases (advance_of_ne hne).2 _ herror with hline | hstep
    · cases hline
    · exact e.machine.step_ne_transfer _ hstep
  · rw [execute, Act.bind_of_ok hadvance] at hexecute
    have hsettle := settle_of_error (e := t) hexecute
    simp only [refusal_inj] at hsettle
    rcases hcall with rfl | rfl <;> simp at hsettle
  · rw [execute, Act.bind_of_ok hadvance] at hexecute
    cases hexecute

/-! ## Making a cycle again -/

/-- The host does not refuse the next call of a kind. -/
def spare (call : HostCall) (e : Emulator) : Emulator := e.withHost (Host.spare call)

/-- If the host answers a call the same before and behind the change of its plan, the intake is the
same. -/
theorem intake_replan {plan : Nat → Bool}
    (hgrants : (e.withHost (Host.replan call plan)).grants call = e.grants call) :
    intake (e.withHost (Host.replan call plan)) =
      (intake e).onState (withHost (Host.replan call plan)) := by
  have hpasses : Host.Passes (Host.replan call plan) (· != call) := Host.passes_replan
  have hall : ∀ other, (e.withHost (Host.replan call plan)).grants other = e.grants other := by
    intro other
    by_cases hother : other = call
    · exact hother ▸ hgrants
    · exact grants_withHost hpasses e (by simpa using hother)
  -- The call itself is counted by either plan.
  have hcalled : ∀ other, (e.withHost (Host.replan call plan)).called other =
      (e.called other).withHost (Host.replan call plan) := by
    intro other
    by_cases hother : other = call
    · subst hother
      exact congrArg (fun host => { e with host }) e.host.receive_replan
    · exact called_withHost hpasses e (by simpa using hother)
  have hholds : (e.withHost (Host.replan call plan)).consoleHolds = e.consoleHolds := rfl
  have hopen : (e.withHost (Host.replan call plan)).consoleOpen = e.consoleOpen := rfl
  rw [intake_eq, intake_eq, poll_eq, poll_eq, hall, hall, opened_of_called hpasses e (hcalled _),
    played_of_called hpasses e (hcalled _), hcalled, hcalled, entry_withHost hpasses e, hholds,
    hopen]
  split
  · split
    · rfl
    · split <;> rfl
  · split <;> rfl

/-- The same for the whole cycle: behind the intake the call is not made again. -/
theorem cycle_replan (plan : Nat → Bool) (hcall : call = .suspend ∨ call = .poll)
    (hgrants : (e.withHost (Host.replan call plan)).grants call = e.grants call) :
    (e.withHost (Host.replan call plan)).cycle =
      e.cycle.onState (withHost (Host.replan call plan)) := by
  have hcalls : ∀ other, other ≠ .suspend → other ≠ .poll → (other != call) = true := by
    intro other hsuspend hpoll
    rcases hcall with rfl | rfl
    · simpa using hsuspend
    · simpa using hpoll
  rw [cycle_eq_intake, cycle_eq_intake]
  refine Act.Carries.after (intake_replan hgrants) fun flow => ?_
  cases flow with
  | quit => exact .pure _
  | proceed => exact carries_execute Host.passes_replan Host.passesBeeper_replan hcalls

/-- What a cycle leaves that fails because the host refused to suspend or to poll the input. -/
theorem cycle_of_refused (hcall : call = .suspend ∨ call = .poll)
    (h : e.cycle.result = .error (refusal call)) :
    e.grants call = false ∧
      e.cycle = ⟨.error (refusal call), e.called call, [.hostCall call false]⟩ := by
  rcases hintake : intake e with ⟨stop | (_ | _), t, events⟩
  · rw [cycle_of_error hintake] at h ⊢
    obtain rfl : stop = refusal call := Except.error.inj h
    rw [intake_eq] at hintake
    split at hintake
    · split at hintake
      · cases hintake
      · split at hintake
        · cases hintake
        · rename_i hrefused
          injection hintake with hresult hstate hevents
          obtain rfl := refusal_inj.1 (Except.error.inj hresult)
          subst hstate hevents
          exact ⟨Bool.eq_false_iff.2 hrefused, rfl⟩
    · rw [poll_eq] at hintake
      split at hintake
      · injection hintake with hresult
        exact absurd hresult (hear_ne_transfer _ _ _)
      · rename_i hrefused
        injection hintake with hresult hstate hevents
        obtain rfl := refusal_inj.1 (Except.error.inj hresult)
        subst hstate hevents
        exact ⟨Bool.eq_false_iff.2 hrefused, rfl⟩
  · rw [cycle_of_proceed hintake] at h
    exact absurd h (execute_ne_refusal hcall t)
  · rw [cycle_of_quit hintake] at h
    cases h

/-- **A cycle whose call was refused can be made again**: the next one does what this one would have
done if the call had not been refused, as long as it is not refused itself. -/
theorem cycle_again (hcall : call = .suspend ∨ call = .poll)
    (h : e.cycle.result = .error (refusal call)) :
    e.cycle.state = { e with host.calls := e.host.calls.add call } ∧
      (e.cycle.state.grants call = true →
        e.cycle.state.cycle =
          (e.spare call).cycle.onState (withHost (Host.replan call (e.host.refuses call)))) := by
  obtain ⟨hrefused, hcycle⟩ := cycle_of_refused hcall h
  have hstate : e.cycle.state = { e with host.calls := e.host.calls.add call } := by
    rw [hcycle]
    exact congrArg (fun host => { e with host }) (Host.receive_of_refused hrefused)
  have hspared :
      e.cycle.state = (e.spare call).withHost (Host.replan call (e.host.refuses call)) := by
    rw [hstate]
    exact congrArg (fun host => { e with host }) e.host.replan_spare.symm
  refine ⟨hstate, fun hgranted => ?_⟩
  rw [hspared] at hgranted ⊢
  exact cycle_replan _ hcall (hgranted.trans e.host.receive_spare.symm)

/-! ## Cycles that charge nothing -/

/-- Nothing is charged to what was done: no instruction was executed, the clock stands still, no
timer fell, no frame was shown, no mark was taken away from a key and the beeper was not called. -/
structure ChargesNothing (e : Emulator) (o : Outcome Emulator Flow) : Prop where
  executed : executions o.events = []
  clock : o.state.clock = e.clock
  timers : o.state.machine.timers = e.machine.timers
  display : (o.state.host.frames, o.state.host.lastFrame, o.state.host.invalidations) =
    (e.host.frames, e.host.lastFrame, e.host.invalidations)
  shown : shownFrames o.events = []
  marks : ∀ k, (e.machine.keypad.get k).justReleased = true →
    (o.state.machine.keypad.get k).justReleased = true
  beeper : o.state.host.beeper = e.host.beeper
  calls : beeperCalls o.events = []

theorem beeperCalls_intake (e : Emulator) : beeperCalls (intake e).events = [] :=
  e.filterMap_intake (fun _ => rfl) (fun _ => rfl) rfl

theorem chargesNothing_intake (e : Emulator) (r : Result Flow) :
    ChargesNothing e ⟨r, (intake e).state, (intake e).events⟩ where
  executed := executesNothing_intake e
  clock := e.takenIn_intake.clock
  timers := by
    obtain ⟨keypad, h⟩ := e.takenIn_intake.machine
    rw [h]
  display := e.takenIn_intake.display
  shown := e.shownFrames_intake
  marks := e.takenIn_intake.marks
  beeper := e.takenIn_intake.beeper
  calls := e.beeperCalls_intake

/-- A part that moves the program counter and the debugger at most charges nothing more. -/
theorem ChargesNothing.after {r r' : Result Flow} {events events' : List Event}
    (h : ChargesNothing e ⟨r, t, events⟩) {debugger : Option Debugger} {pc : UInt16}
    (hexecuted : executions events' = []) (hshown : shownFrames events' = [])
    (hcalls : beeperCalls events' = []) :
    ChargesNothing e
      ⟨r', { t with debugger, machine := { t.machine with pc } }, events ++ events'⟩ where
  executed := by
    rw [executions_append, h.executed, hexecuted]
    rfl
  clock := h.clock
  timers := h.timers
  display := h.display
  shown := by
    rw [shownFrames_append, h.shown, hshown]
    rfl
  marks := h.marks
  beeper := h.beeper
  calls := by
    rw [beeperCalls_append, h.calls, hcalls]
    rfl

/-- **A cycle that executes no instruction charges nothing.** -/
theorem chargesNothing_of_none (h : executions e.cycle.events = []) : ChargesNothing e e.cycle := by
  have hnothing := chargesNothing_intake e
  rcases hintake : intake e with ⟨stop | (_ | _), t, events⟩
  all_goals rw [hintake] at hnothing
  · rw [cycle_of_error hintake]
    exact hnothing _
  · rw [cycle_of_proceed hintake] at h ⊢
    have hne : (advance t).result ≠ .ok .proceed := by
      intro hgo
      rw [Outcome.after, executions_append, executions_execute, if_pos hgo] at h
      simp at h
    obtain ⟨⟨debugger, pc, hstate⟩, -⟩ := advance_of_ne hne
    rw [execute_of_ne hne, Outcome.after, hstate]
    exact (hnothing (.ok .proceed)).after ((executions_advance t).2 hne) (shownFrames_advance t)
      (quiet_advance t).calls
  · rw [cycle_of_quit hintake]
    exact hnothing _

/-! ## Entries that the machine does not go on from -/

/-- An entry fails if it is for a key that does not exist. -/
theorem hear_of_error {m : Machine} {entry : Scripted} (h : (m.hear entry).result = .error stop) :
    ∃ key, (entry = .press key ∨ entry = .release key) ∧ 16 ≤ key.toNat ∧
      stop = .fault (.invalidKey key) := by
  have hkey : ∀ key, (∃ k, Keypad.keyOf key = .ok k) ∨
      16 ≤ key.toNat ∧ Keypad.keyOf key = .error (.fault (.invalidKey key)) := by
    intro key
    rcases Nat.lt_or_ge key.toNat 16 with hlt | hle
    · exact .inl (Keypad.keyOf_of_lt hlt)
    · exact .inr ⟨hle, Keypad.keyOf_of_le hle⟩
  cases entry with
  | idle | quit => cases h
  | press key =>
    rcases hkey key with ⟨k, hk⟩ | ⟨hle, hk⟩
    · simp [Machine.hear, Machine.act_press hk, Except.map] at h
    · rw [Machine.hear, Machine.act_press_error hk] at h
      exact ⟨key, .inl rfl, hle, (Except.error.inj h).symm⟩
  | release key =>
    rcases hkey key with ⟨k, hk⟩ | ⟨hle, hk⟩
    · simp [Machine.hear, Machine.act_release hk, Except.map] at h
    · rw [Machine.hear, Machine.act_release_error hk] at h
      exact ⟨key, .inr rfl, hle, (Except.error.inj h).symm⟩

theorem hear_of_quit {m : Machine} {entry : Scripted} (h : (m.hear entry).result = .ok .quit) :
    entry = .quit := by
  cases entry with
  | quit => rfl
  | idle => cases h
  | press key =>
    cases hact : (m.act (.press key)).result <;> simp [Machine.hear, hact, Except.map] at h
  | release key =>
    cases hact : (m.act (.release key)).result <;> simp [Machine.hear, hact, Except.map] at h

theorem played_eq (e : Emulator) :
    e.played =
      { e with host := { e.host with
          script := e.host.script.tail
          polls := e.host.polls + 1
          calls := e.host.calls.add .poll } } := by
  have hreceive : (e.host.receive .poll).2 = { e.host with calls := e.host.calls.add .poll } := by
    simp [Host.receive, Host.ignores]
  rw [played, called, hreceive]
  rfl

/-- An intake that ends the cycle, but not at a refusal, has played an entry, and that is all. -/
theorem cycle_of_unheard (hne : (intake e).result ≠ .ok .proceed)
    (hnot : ∀ call, (intake e).result ≠ .error (refusal call)) :
    (e.machine.hear e.entry).result = (intake e).result ∧ e.cycle.result = (intake e).result ∧
      e.cycle.state = e.played := by
  have hplayed : (e.machine.hear e.entry).result = (intake e).result ∧
      (intake e).state = e.played := by
    rw [intake_eq] at hne hnot ⊢
    split at hne
    · split at hne
      · exact absurd rfl hne
      · split at hne
        · exact absurd rfl hne
        · rename_i hholds hopen hrefused
          rw [if_pos hholds, if_neg hopen, if_neg hrefused] at hnot
          exact absurd rfl (hnot .suspend)
    · rename_i hholds
      rw [if_neg hholds] at hnot ⊢
      rw [poll_eq] at hne hnot ⊢
      split at hne
      · rename_i hgranted
        rw [if_pos hgranted]
        refine ⟨rfl, ?_⟩
        have hsame : (e.machine.hear e.entry).state = e.machine := Machine.state_hear_of_ne hne
        exact congrArg (fun machine => { e.played with machine }) hsame
      · rename_i hrefused
        rw [if_neg hrefused] at hnot
        exact absurd rfl (hnot .poll)
  refine ⟨hplayed.1, ?_⟩
  rcases hintake : intake e with ⟨stop | (_ | _), t, events⟩
  all_goals rw [hintake] at hne hplayed
  · rw [cycle_of_error hintake]
    exact ⟨rfl, hplayed.2⟩
  · exact absurd rfl hne
  · rw [cycle_of_quit hintake]
    exact ⟨rfl, hplayed.2⟩

/-! ## The whole cycle -/

/-- **A cycle that ends before its instruction can be made again, or is charged to nothing.**

* If the host refuses to suspend or to poll the input, all that is left of the cycle is the count of
  the call. If the call is granted the next time, the next cycle comes to what this one would have
  come to, but for that count and the plan of what the host refuses.
* If the input plays a key that does not exist, the cycle fails, and the entry and the poll are
  gone; all else is as it was.
* If the instruction fails, be it the machine's step or the talk before it, the cycle fails for the
  same cause and charges nothing.
* If the input or the console quits, the cycle charges nothing and the machine is as it was; if it
  is the input, only its entry and the poll are gone. -/
theorem cut_short (e : Emulator) :
    (∀ call, call = .suspend ∨ call = .poll → e.cycle.result = .error (refusal call) →
      e.cycle.state = { e with host.calls := e.host.calls.add call } ∧
      (e.cycle.state.grants call = true →
        e.cycle.state.cycle =
          (e.spare call).cycle.onState (withHost (Host.replan call (e.host.refuses call))))) ∧
    (∀ key, (intake e).result = .error (.fault (.invalidKey key)) →
      16 ≤ key.toNat ∧ (e.entry = .press key ∨ e.entry = .release key) ∧
      e.cycle.result = .error (.fault (.invalidKey key)) ∧
      e.cycle.state =
        { e with host := { e.host with
            script := e.host.script.tail
            polls := e.host.polls + 1
            calls := e.host.calls.add .poll } }) ∧
    (∀ t events stop, intake e = ⟨.ok .proceed, t, events⟩ → (advance t).result = .error stop →
      (stop = Debugger.malformedLine ∨ t.machine.step.result = .error stop) ∧
      e.cycle.result = .error stop ∧ ChargesNothing e e.cycle) ∧
    (e.cycle.result = .ok .quit → ChargesNothing e e.cycle ∧ e.cycle.state.machine = e.machine) ∧
    ((intake e).result = .ok .quit → e.entry = .quit ∧ e.cycle.result = .ok .quit ∧
      e.cycle.state =
        { e with host := { e.host with
            script := e.host.script.tail
            polls := e.host.polls + 1
            calls := e.host.calls.add .poll } }) := by
  refine ⟨fun call hcall hrefused => cycle_again hcall hrefused, ?key, ?step, ?quit, ?host⟩
  case key =>
    intro key hkey
    obtain ⟨hheard, hresult, hstate⟩ := cycle_of_unheard (e := e) (by simp [hkey])
      (by simp [hkey, refusal])
    rw [hkey] at hheard hresult
    obtain ⟨key', hentry, hle, hcause⟩ := hear_of_error hheard
    injection hcause with hcause
    injection hcause with hsame
    subst hsame
    exact ⟨hle, hentry, hresult, hstate.trans e.played_eq⟩
  case step =>
    intro t events stop hintake herror
    have hne : (advance t).result ≠ .ok .proceed := by simp [herror]
    have hcycle := cycle_of_proceed hintake
    rw [execute_of_ne hne] at hcycle
    refine ⟨(advance_of_ne hne).2 stop herror, ?_, ?_⟩
    · rw [hcycle]
      exact herror
    · apply chargesNothing_of_none
      have hnone := executesNothing_intake e
      rw [hintake] at hnone
      rw [hcycle, Outcome.after, executions_append, hnone, (executions_advance t).2 hne]
      rfl
  case quit =>
    intro hquit
    refine ⟨chargesNothing_of_none (executions_of_quit hquit), ?_⟩
    cases e.cycle_course with
    | unplayed _ _ hcore | unheard _ _ _ hcore => exact congrArg Core.machine hcore
    | failed _ _ hresult => simp [hquit] at hresult
    | @advanced _ _ _ u _ _ _ _ _ _ _ _ heq =>
      rw [heq] at hquit
      exact absurd hquit (settle_ne_quit u)
  case host =>
    intro hquit
    obtain ⟨hheard, hresult, hstate⟩ := cycle_of_unheard (e := e) (by simp [hquit])
      (by simp [hquit])
    exact ⟨hear_of_quit (hheard.trans hquit), hresult.trans hquit, hstate.trans e.played_eq⟩

set_option maxRecDepth 20000 in
/-- A poll that is refused once, a key that does not exist, a return from no subroutine and a host
that quits. -/
theorem cut_short_four :
    let starting := fun (host : Host) (program : List UInt8) =>
      loadedWith 60 .modern 0 host none program
    let e₁ := starting { script := [.press 5], refuses := fun call n => call = .poll && n = 1 }
      [0xE0, 0x9E]
    let e₂ := starting { script := [.press 16, .idle] } [0x00, 0xE0]
    let e₃ := starting { script := [.press 5] } [0x00, 0xEE]
    let e₄ := starting { script := [.quit] } [0x00, 0xE0]
    e₁.cycle.result = .error (refusal .poll) ∧
      e₁.cycle.state.cycle =
        (e₁.spare .poll).cycle.onState (withHost (Host.replan .poll (e₁.host.refuses .poll))) ∧
      e₂.cycle.result = .error (.fault (.invalidKey 16)) ∧
      e₂.cycle.state.machine.keypad = e₂.machine.keypad ∧
      e₃.cycle.result = .error (.fault .stackUnderflow) ∧ ChargesNothing e₃ e₃.cycle ∧
      e₄.cycle.result = .ok .quit ∧ ChargesNothing e₄ e₄.cycle := by
  intro starting e₁ e₂ e₃ e₄
  have hfacts : e₁.cycle.result = .error (refusal .poll) ∧
      e₁.cycle.state.grants .poll = true ∧
      (intake e₂).result = .error (.fault (.invalidKey 16)) ∧
      (intake e₃).result = .ok .proceed ∧
      (advance (intake e₃).state).result = .error (.fault .stackUnderflow) ∧
      (intake e₄).result = .ok .quit := by decide +kernel
  obtain ⟨hrefused, hgranted, hkey, hgoes, hfails, hquits⟩ := hfacts
  obtain ⟨-, hagain⟩ := (cut_short e₁).1 .poll (.inr rfl) hrefused
  obtain ⟨-, -, hresult₂, hstate₂⟩ := (cut_short e₂).2.1 16 hkey
  have hintake : intake e₃ = ⟨.ok .proceed, (intake e₃).state, (intake e₃).events⟩ :=
    congrArg (Outcome.mk · (intake e₃).state (intake e₃).events) hgoes
  obtain ⟨-, hresult₃, hnothing₃⟩ := (cut_short e₃).2.2.1 _ _ _ hintake hfails
  obtain ⟨-, hresult₄, -⟩ := (cut_short e₄).2.2.2.2 hquits
  obtain ⟨hnothing₄, -⟩ := (cut_short e₄).2.2.2.1 hresult₄
  exact ⟨hrefused, hagain hgranted, hresult₂, by rw [hstate₂], hresult₃, hnothing₃, hresult₄,
    hnothing₄⟩

end Emulator

end Chip8
