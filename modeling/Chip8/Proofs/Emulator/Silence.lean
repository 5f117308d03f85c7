import Chip8.Proofs.Emulator.Calls
import Chip8.Proofs.Emulator.Hosts

/-!
# Emulators without their beepers

What a host refuses of its beeper, and what the beeper does, makes no difference to anything else.
`silent` takes the beeper away from an emulator and `silence` from an outcome, with the calls of the
beeper, and an activity is `Deaf` if it does the same in a silent emulator. Each stage of a cycle
is, and so two emulators that differ in their beepers alone go on to do so (`silent_calls`).
-/

namespace Chip8

/-- The call is one of the beeper. -/
def HostCall.sounds : HostCall → Bool
  | .beep | .stop => true
  | _ => false

/-- The event is a call of the beeper, or the notice that it was refused. -/
def Event.sounds : Event → Bool
  | .hostCall call _ => call.sounds
  | .notice (.beeperFailed _) => true
  | _ => false

/-- The host with a new beeper that was never called and is never refused. -/
def Host.silent (h : Host) : Host :=
  { h with
    beeper := {}
    calls := { h.calls with beep := 0, stop := 0 }
    refuses := fun call n => !call.sounds && h.refuses call n }

namespace Host

variable {call : HostCall}

theorem silent_silent (h : Host) : h.silent.silent = h.silent := by
  simp [silent]

theorem receive_silent (h : Host) (hcall : call.sounds = false) :
    h.silent.receive call = ((h.receive call).1, (h.receive call).2.silent) := by
  unfold receive
  have hignores : h.silent.ignores call = h.ignores call := rfl
  rw [hignores]
  split
  · rfl
  · cases call <;> first | rfl | cases hcall

/-- A call of the beeper only counts. -/
theorem silent_receive (h : Host) (hcall : call.sounds = true) :
    (h.receive call).2.silent = h.silent := by
  unfold receive
  split
  · rfl
  · cases call <;> first | rfl | cases hcall

/-- All but the beeper's calls come to the same. -/
theorem passes_silent : Passes silent (!·.sounds) where
  receive h call hcall := receive_silent h (by simpa using hcall)
  setSuspended h suspended := by
    have hbare : h.silent.bare = h.bare := rfl
    rw [setSuspended, setSuspended, hbare]
    split <;> rfl
  invalidate h := by
    have hbare : h.silent.bare = h.bare := rfl
    rw [invalidate, invalidate, hbare]
    split <;> rfl
  poll _ := rfl
  display _ _ := rfl

end Host

namespace Emulator

variable {e e' : Emulator} {call : HostCall} {α β : Type}

/-- The emulator without its beeper. -/
def silent (e : Emulator) : Emulator := { e with host := e.host.silent }

/-- The outcome without the beeper and what it was called for. -/
def silence (o : Outcome Emulator α) : Outcome Emulator α :=
  ⟨o.result, o.state.silent, o.events.filter (!·.sounds)⟩

theorem silent_silent (e : Emulator) : e.silent.silent = e.silent := by
  rw [silent, silent, Host.silent_silent]

theorem silence_eq_iff {o o' : Outcome Emulator α} : silence o = silence o' ↔
    o.result = o'.result ∧ o.state.silent = o'.state.silent ∧
      o.events.filter (!·.sounds) = o'.events.filter (!·.sounds) := by
  rw [silence, silence, Outcome.mk.injEq]

theorem silence_after (earlier : List Event) (o : Outcome Emulator α) :
    silence (o.after earlier) = (silence o).after (earlier.filter (!·.sounds)) := by
  rw [silence, silence, Outcome.after, Outcome.after, List.filter_append]

/-! ## Deaf activities -/

/-- The activity does the same without the beeper. -/
def Deaf (x : Act Emulator α) : Prop := ∀ e, silence (x e.silent) = silence (x e)

theorem Deaf.pure (a : α) : Deaf (Pure.pure a) := fun e => by
  rw [Act.pure_apply, Act.pure_apply, silence, silence, silent_silent]

theorem Deaf.bind {x : Act Emulator α} {f : α → Act Emulator β} (hx : Deaf x)
    (hf : ∀ a, Deaf (f a)) : Deaf (x >>= f) := by
  intro e
  have hfirst := hx e
  rcases h : x e with ⟨r, t, events⟩
  rcases h' : x e.silent with ⟨r', t', events'⟩
  rw [h, h'] at hfirst
  obtain ⟨rfl, hstate, hevents⟩ := silence_eq_iff.1 hfirst
  cases r' with
  | error stop => rw [Act.bind_of_error h, Act.bind_of_error h', silence, silence, hstate, hevents]
  | ok a =>
    rw [Act.bind_of_ok h, Act.bind_of_ok h', silence_after, silence_after, hevents, ← hf a t',
      hstate, hf a t]

/-- An activity that leaves the beeper alone is deaf. -/
theorem Deaf.of_carries {x : Act Emulator α} (h : Act.Carries (withHost Host.silent) x) :
    Deaf x := by
  intro e
  have hcarried : x e.silent = (x e).onState silent := h e
  rw [hcarried, silence, Outcome.onState, silence, silent_silent]

/-- Two emulators that differ in their beepers alone do the same. -/
theorem Deaf.congr {x : Act Emulator α} (hx : Deaf x) (h : e'.silent = e.silent) :
    silence (x e') = silence (x e) := by
  rw [← hx e', h, hx e]

/-! ## Stage by stage -/

theorem silent_called (e : Emulator) (hcall : call.sounds = true) :
    (e.called call).silent = e.silent :=
  congrArg (fun host => { e with host }) (e.host.silent_receive hcall)

theorem deaf_openConsole : Deaf openConsole :=
  .of_carries (carries_openConsole Host.passes_silent rfl)

theorem deaf_closeConsole : Deaf closeConsole :=
  .of_carries (carries_closeConsole Host.passes_silent rfl rfl)

theorem deaf_pollInput : Deaf pollInput := .of_carries (carries_pollInput Host.passes_silent rfl)

theorem deaf_advance : Deaf advance := .of_carries (carries_advance Host.silent)

/-- All that the switch of the beeper changes is the beeper. -/
theorem silence_switchBeeper (e : Emulator) :
    silence (switchBeeper e) = ⟨.ok (), e.silent, []⟩ := by
  have hcall : e.beepCall.sounds = true := by
    rw [beepCall]
    split <;> rfl
  rw [switchBeeper_eq]
  split
  · have hstate : e.beeped.silent = e.silent := by
      rw [← silent_called e hcall, beeped]
      split <;> rfl
    have hevents : e.beepEvents.filter (!·.sounds) = [] := by
      rw [beepEvents]
      split <;> simp [Event.sounds, hcall]
    rw [silence, hstate, hevents]
  · rfl

theorem deaf_switchBeeper : Deaf switchBeeper := by
  intro e
  rw [silence_switchBeeper, silence_switchBeeper, silent_silent]

theorem deaf_endFrame : Deaf endFrame := by
  intro e
  have hticked : e.silent.ticked = e.ticked.silent := rfl
  have hforgot : ∀ t : Emulator, t.silent.forgot = t.forgot.silent := fun _ => rfl
  have hopen : e.silent.consoleOpen = e.consoleOpen := rfl
  have hscreen : e.ticked.silent.machine = e.ticked.machine := rfl
  have hgrants : e.ticked.silent.grants .draw = e.ticked.grants .draw :=
    grants_withHost Host.passes_silent e.ticked rfl
  have hdrawn : e.ticked.silent.drawn = e.ticked.drawn.silent :=
    drawn_withHost Host.passes_silent e.ticked rfl
  have hcalled : e.ticked.silent.called .draw = (e.ticked.called .draw).silent :=
    called_withHost Host.passes_silent e.ticked rfl
  rw [endFrame_eq, endFrame_eq, hticked, hgrants, hdrawn, hforgot, hforgot, hcalled, hopen, hscreen]
  split
  · exact deaf_switchBeeper e.ticked.forgot
  · split
    · rw [silence_after, silence_after, deaf_switchBeeper]
    · rw [silence, silence, silent_silent]

theorem deaf_countInstruction : Deaf countInstruction := by
  intro e
  have hclock : e.silent.clock = e.clock := rfl
  rw [countInstruction_eq, countInstruction_eq, hclock]
  split
  · exact deaf_endFrame { e with clock := e.clock.advance.2 }
  · exact congrArg (Outcome.mk (.ok ()) · [])
      (silent_silent { e with clock := e.clock.advance.2 })

theorem deaf_settle : Deaf settle :=
  deaf_closeConsole.bind fun _ => deaf_countInstruction.bind fun _ => .pure _

theorem deaf_cycle : Deaf cycle :=
  cycle_elim Deaf .bind (.pure _) deaf_openConsole deaf_pollInput deaf_advance deaf_settle

/-! ## Runs -/

/-- How a call ended. The end of a frame has nothing to say but whether it got through. -/
def callResult (e : Emulator) : Call → Result Flow
  | .cycle => (cycle e).result
  | .endFrame => (endFrame e).result.map fun _ => .proceed

/-- What a call comes to. -/
def outcome (e : Emulator) (c : Call) : Outcome Emulator Flow :=
  ⟨e.callResult c, e.call c, e.callEvents c⟩

theorem silence_outcome (h : e'.silent = e.silent) (c : Call) :
    silence (e'.outcome c) = silence (e.outcome c) := by
  cases c with
  | cycle => exact deaf_cycle.congr h
  | endFrame =>
    obtain ⟨hresult, hstate, hevents⟩ := silence_eq_iff.1 (deaf_endFrame.congr h)
    exact silence_eq_iff.2 ⟨congrArg (·.map fun _ => Flow.proceed) hresult, hstate, hevents⟩

/-- **Two emulators that differ in their beepers alone go on to do so.** -/
theorem silent_calls (h : e'.silent = e.silent) (run : List Call) :
    (e'.calls run).silent = (e.calls run).silent ∧
      (e'.trace run).filter (!·.sounds) = (e.trace run).filter (!·.sounds) := by
  induction run generalizing e e' with
  | nil => exact ⟨h, rfl⟩
  | cons c run ih =>
    obtain ⟨-, hstate, hevents⟩ := silence_eq_iff.1 (silence_outcome h c)
    obtain ⟨hlast, hrest⟩ := ih hstate
    refine ⟨hlast, ?_⟩
    rw [trace, trace, List.filter_append, List.filter_append]
    exact congrArg₂ (· ++ ·) hevents hrest

end Emulator

end Chip8
