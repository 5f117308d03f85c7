import Chip8.Proofs.Emulator.Debugging
import Chip8.Proofs.Emulator.Executions
import Chip8.Proofs.Emulator.Silence

/-!
# The beeper

At the end of a frame the beeper is made to follow the sound timer, and at no other time is it
called (`Beeps`). A host that refuses this is asked again at the next frame's end, and nothing else
comes of it.

* `beeps_switchBeeper`, `beeps_endFrame`, `beepsOnTime_cycle`: how the beeper fares in its own
  stage, at one frame's end and in one cycle;
* `switches_calls`: if nothing is refused, it is switched as often as the sound timer starts or
  stops to sound;
* `beeper_follows`: all of this behind any run.
-/

namespace Chip8

/-- The calls of the beeper among the events, and whether they were granted. -/
def beeperCalls (events : List Event) : List (HostCall × Bool) :=
  events.filterMap fun
    | .hostCall call granted => if call.sounds then some (call, granted) else none
    | _ => none

theorem beeperCalls_append (first last : List Event) :
    beeperCalls (first ++ last) = beeperCalls first ++ beeperCalls last :=
  List.filterMap_append

/-- How often a sequence changes that starts from a value. -/
def changes : Bool → List Bool → Nat
  | _, [] => 0
  | last, on :: rest => (if on = last then 0 else 1) + changes on rest

namespace Emulator

variable {e e' : Emulator} {c : Call} {α : Type} {ends : Prop}

/-! ## What becomes of the beeper -/

/-- What becomes of the beeper in a part of a run, which may end a frame. -/
structure Beeps (ends : Prop) (e : Emulator) (o : Outcome Emulator α) : Prop where
  /-- Where a frame ends and the beeper is not what the sound timer wants it to be, the call that
  makes it so is made once, and the beeper is switched if it is granted. -/
  called : ends → e.host.beeper.sounding ≠ decide (0 < o.state.machine.timers.sound) →
    ∃ granted, beeperCalls o.events =
        [(if 0 < o.state.machine.timers.sound then .beep else .stop, granted)] ∧
      o.state.host.beeper =
        if granted then e.host.beeper.switch (0 < o.state.machine.timers.sound)
        else e.host.beeper
  /-- Else the beeper is not called and stays as it is. -/
  left : ¬(ends ∧ e.host.beeper.sounding ≠ decide (0 < o.state.machine.timers.sound)) →
    beeperCalls o.events = [] ∧ o.state.host.beeper = e.host.beeper
  /-- Nothing fails because of the beeper. -/
  result : ∀ call, call.sounds = true → o.result ≠ .error (refusal call)
  /-- What the host refuses does not change. -/
  refuses : o.state.host.refuses = e.host.refuses
  obliging : e.host.Obliging → ∀ call granted, (call, granted) ∈ beeperCalls o.events →
    granted = true

/-- What a stage keeps that leaves the beeper alone. -/
def Core.kept (c : Core) : Beeper × (HostCall → Nat → Bool) × FrameClock :=
  (c.beeper, c.refuses, c.clock)

/-- The beeper is left alone, and so is the clock. -/
structure Quiet (e : Emulator) (o : Outcome Emulator α) : Prop where
  kept : o.state.core.kept = e.core.kept
  calls : beeperCalls o.events = []
  result : ∀ call, call.sounds = true → o.result ≠ .error (refusal call)

/-- The activity ends a frame if it goes through and the clock says that one is due, and has the
beeper fare as it does there. -/
def BeepsOnTime (x : Act Emulator Flow) : Prop :=
  ∀ e, Beeps ((x e).result = .ok .proceed ∧ e.frameDue = true) e (x e)

theorem Quiet.beeper {o : Outcome Emulator α} (h : Quiet e o) :
    o.state.host.beeper = e.host.beeper :=
  congrArg Prod.fst h.kept

theorem Quiet.refuses {o : Outcome Emulator α} (h : Quiet e o) :
    o.state.host.refuses = e.host.refuses :=
  congrArg (·.2.1) h.kept

theorem Quiet.frameDue {o : Outcome Emulator α} (h : Quiet e o) :
    o.state.frameDue = e.frameDue :=
  congrArg (·.2.2.advance.1) h.kept

theorem Quiet.beeps {o : Outcome Emulator α} (h : Quiet e o) (hends : ¬ends) : Beeps ends e o where
  called h := absurd h hends
  left _ := ⟨h.calls, h.beeper⟩
  result := h.result
  refuses := h.refuses
  obliging _ call granted hcall := by
    rw [h.calls] at hcall
    cases hcall

/-- The beeper fares the same behind events that leave it alone. -/
theorem Beeps.after {o : Outcome Emulator α} {earlier : List Event} (h : Beeps ends e' o)
    (hearlier : beeperCalls earlier = []) (hbeeper : e'.host.beeper = e.host.beeper)
    (hrefuses : e'.host.refuses = e.host.refuses) : Beeps ends e (o.after earlier) := by
  have hcalls : beeperCalls (o.after earlier).events = beeperCalls o.events := by
    rw [Outcome.after, beeperCalls_append, hearlier]
    rfl
  refine ⟨?_, ?_, h.result, h.refuses.trans hrefuses, ?_⟩
  · rw [hcalls, ← hbeeper]
    exact h.called
  · rw [hcalls, ← hbeeper]
    exact h.left
  · rw [hcalls]
    exact fun ho => h.obliging (ho.congr hrefuses)

theorem Beeps.congr {o : Outcome Emulator α} (h : Beeps ends e' o)
    (hbeeper : e'.host.beeper = e.host.beeper) (hrefuses : e'.host.refuses = e.host.refuses) :
    Beeps ends e o := by
  have hafter : Beeps ends e (o.after []) := h.after rfl hbeeper hrefuses
  exact hafter

theorem map_ne_error {β : Type} {r : Result α} {stop : Stop} (f : α → β)
    (h : r ≠ .error stop) : r.map f ≠ .error stop := by
  cases r with
  | ok a => simp [Except.map]
  | error other =>
    intro heq
    exact h (congrArg Except.error (Except.error.inj heq))

theorem BeepsOnTime.bind {x : Act Emulator α} {f : α → Act Emulator Flow} (hx : ∀ e, Quiet e (x e))
    (hf : ∀ a, BeepsOnTime (f a)) : BeepsOnTime (x >>= f) := by
  intro e
  have hfirst := hx e
  rcases h : x e with ⟨stop | a, t, events⟩
  all_goals rw [h] at hfirst
  · have hquiet : Quiet e (⟨.error stop, t, events⟩ : Outcome Emulator Flow) :=
      ⟨hfirst.kept, hfirst.calls, fun call hcall =>
        map_ne_error (fun _ => Flow.quit) (hfirst.result call hcall)⟩
    rw [Act.bind_of_error h]
    refine hquiet.beeps ?_
    rintro ⟨hgo, -⟩
    cases hgo
  · rw [Act.bind_of_ok h, ← hfirst.frameDue]
    exact (hf a t).after hfirst.calls hfirst.beeper hfirst.refuses

theorem BeepsOnTime.quit : BeepsOnTime (Pure.pure Flow.quit) := by
  intro e
  have hquiet : Quiet e ((Pure.pure Flow.quit : Act Emulator Flow) e) :=
    ⟨rfl, rfl, fun _ _ h => by cases h⟩
  refine hquiet.beeps ?_
  rintro ⟨hgo, -⟩
  cases hgo

/-! ## Stages that leave the beeper alone -/

theorem ok_ne_refusal (a : α) (call : HostCall) (_ : call.sounds = true) :
    (.ok a : Result α) ≠ .error (refusal call) := by
  simp

theorem refusal_ne_refusal {other : HostCall} (hother : other.sounds = false) (call : HostCall)
    (hcall : call.sounds = true) : (.error (refusal other) : Result α) ≠ .error (refusal call) := by
  intro h
  simp only [refusal, Except.error.injEq, Stop.fault.injEq, Fault.transfer.injEq,
    TransferFailure.refused.injEq] at h
  rw [h, hcall] at hother
  cases hother

theorem quiet_openConsole (e : Emulator) : Quiet e (openConsole e) := by
  rw [openConsole_eq]
  split
  · split
    · exact ⟨congrArg Core.kept e.core_opened, rfl, ok_ne_refusal _⟩
    · exact ⟨congrArg Core.kept (e.core_called .suspend), rfl, refusal_ne_refusal rfl⟩
  · exact ⟨rfl, rfl, ok_ne_refusal _⟩

theorem hear_ne_transfer (m : Machine) (entry : Scripted) (failure : TransferFailure) :
    (m.hear entry).result ≠ .error (.fault (.transfer failure)) := by
  cases entry with
  | idle | quit => simp [Machine.hear]
  | press key | release key =>
    -- An entry fails where its key does not exist.
    refine map_ne_error _ (Machine.change_ne_error ?_)
    simp only [Keypad.press, Keypad.release, Keypad.keyOf]
    split <;> simp [ok_bind, error_bind, pure, Except.pure]

theorem quiet_pollInput (e : Emulator) : Quiet e (pollInput e) := by
  rw [pollInput_eq]
  split
  · exact ⟨rfl, rfl, ok_ne_refusal _⟩
  · rw [poll_eq]
    split
    · have hkept := congrArg Core.kept e.core_played
      refine ⟨hkept, ?_, fun call _ => hear_ne_transfer _ _ _⟩
      cases e.entry <;> rfl
    · exact ⟨congrArg Core.kept (e.core_called .poll), rfl, refusal_ne_refusal rfl⟩

theorem quiet_closeConsole (e : Emulator) : Quiet e (closeConsole e) := by
  rw [closeConsole_eq]
  split
  · split
    · split
      · exact ⟨congrArg Core.kept e.core_closed, rfl, ok_ne_refusal _⟩
      · refine ⟨congrArg Core.kept ?_, rfl, refusal_ne_refusal rfl⟩
        exact (e.resumed.core_called .invalidate).trans e.core_resumed
    · exact ⟨congrArg Core.kept (e.core_called .resume), rfl, refusal_ne_refusal rfl⟩
  · exact ⟨rfl, rfl, ok_ne_refusal _⟩

theorem beeperCalls_eq_nil {events : List Event}
    (h : ∀ event ∈ events, (∃ notice, event = .notice notice) ∨ event.OnConsole) :
    beeperCalls events = [] := by
  refine List.filterMap_eq_nil_iff.2 fun event hevent => ?_
  obtain ⟨notice, rfl⟩ | hconsole := h event hevent
  · rfl
  · cases event with
    | printed | consoleRead => rfl
    | notice | hostCall | shown => exact hconsole.elim

theorem quiet_advance (e : Emulator) : Quiet e (advance e) := by
  rw [advance]
  split
  · rename_i d _
    refine ⟨rfl, beeperCalls_eq_nil fun event hevent => ?_, fun call _ hstop => ?_⟩
    · exact (d.seen_step e.machine event hevent).imp_right And.right
    · have hstop : (d.step e.machine).result = .error (refusal call) := hstop
      cases d.step_course e.machine with
      | executed i step result =>
        rw [result] at hstop
        cases hstop
      | failed stop step result =>
        rw [result] at hstop
        cases hstop
        exact e.machine.step_ne_transfer _ step
      | talked ends =>
        rw [hstop] at ends
        cases ends.stop_eq
  · refine ⟨rfl, beeperCalls_eq_nil fun event hevent => ?_, fun call _ hstop => ?_⟩
    · exact .inl (e.machine.notice_of_step event hevent)
    · exact map_ne_error _ (e.machine.step_ne_transfer _) hstop

/-! ## The end of a frame -/

theorem beepCall_eq (e : Emulator) :
    e.beepCall = if 0 < e.machine.timers.sound then .beep else .stop := by
  rw [beepCall, Timers.sounding]
  simp only [decide_eq_true_eq]

theorem beepCall_sounds (e : Emulator) : e.beepCall.sounds = true := by
  rw [beepCall]
  split <;> rfl

theorem machine_beeped (e : Emulator) : e.beeped.machine = e.machine := by
  rw [beeped]
  split <;> rfl

theorem refuses_beeped (e : Emulator) : e.beeped.host.refuses = e.host.refuses := by
  obtain ⟨calls, hcall⟩ := e.host.receive_eq e.beepCall
  rw [beeped, called, hcall]
  split <;> rfl

theorem beeper_beeped (e : Emulator) : e.beeped.host.beeper =
    if e.grants e.beepCall then e.host.beeper.switch e.machine.timers.sounding
    else e.host.beeper := by
  obtain ⟨calls, hcall⟩ := e.host.receive_eq e.beepCall
  rw [beeped, called, hcall]
  split <;> rfl

theorem beeperCalls_beepEvents (e : Emulator) :
    beeperCalls e.beepEvents = [(e.beepCall, e.grants e.beepCall)] := by
  rw [beepEvents]
  split <;> simp_all [beeperCalls, e.beepCall_sounds]

/-- **The beeper is made to follow the sound timer.** -/
theorem beeps_switchBeeper (e : Emulator) : Beeps True e (switchBeeper e) := by
  rw [switchBeeper_eq]
  split
  · rename_i hdiffer
    have hdiffer : e.machine.timers.sounding ≠ e.host.beeper.sounding := by simpa using hdiffer
    refine ⟨fun _ _ => ⟨e.grants e.beepCall, ?_, ?_⟩, fun hnot => ?_, ok_ne_refusal _,
      e.refuses_beeped, ?_⟩
    · dsimp only
      rw [machine_beeped, ← beepCall_eq]
      exact e.beeperCalls_beepEvents
    · rw [machine_beeped]
      exact e.beeper_beeped
    · refine absurd ⟨trivial, ?_⟩ hnot
      rw [machine_beeped]
      exact hdiffer.symm
    · intro ho call granted hmem
      rw [beeperCalls_beepEvents, grants_of_obliging ho, List.mem_singleton] at hmem
      exact congrArg Prod.snd hmem
  · rename_i hsame
    have hsame : e.machine.timers.sounding = e.host.beeper.sounding := by simpa using hsame
    refine ⟨fun _ hdiffer => absurd hsame.symm hdiffer, fun _ => ⟨rfl, rfl⟩, ok_ne_refusal _, rfl,
      fun _ _ _ hmem => ?_⟩
    cases hmem

theorem Beeps.iff {ends' : Prop} {o : Outcome Emulator α} (h : Beeps ends e o)
    (hiff : ends ↔ ends') : Beeps ends' e o :=
  propext hiff ▸ h

theorem result_switchBeeper (e : Emulator) : (switchBeeper e).result = .ok () := by
  rw [switchBeeper_eq]
  split <;> rfl

/-- The end of a frame is cut short only where the host refuses the frame. -/
theorem result_endFrame (e : Emulator) :
    (endFrame e).result = .ok () ∨ (endFrame e).result = .error (refusal .draw) := by
  rw [endFrame_eq]
  split
  · exact .inl (result_switchBeeper _)
  · split
    · exact .inl (result_switchBeeper _)
    · exact .inr rfl

/-- **At the end of a frame that is not cut short the beeper follows the sound timer.** -/
theorem beeps_endFrame (e : Emulator) : Beeps ((endFrame e).result = .ok ()) e (endFrame e) := by
  have hgoes : ∀ t, True ↔ (switchBeeper t).result = .ok () :=
    fun t => (iff_true_intro t.result_switchBeeper).symm
  rw [endFrame_eq]
  split
  · have hbeeps := (beeps_switchBeeper e.ticked.forgot).iff (hgoes e.ticked.forgot)
    exact hbeeps.congr rfl rfl
  · split
    · have hkept := congrArg Core.kept e.ticked.core_drawn
      have hdrawn : Quiet e (⟨.ok (), e.ticked.drawn.forgot, []⟩ : Outcome Emulator Unit) :=
        ⟨hkept, rfl, ok_ne_refusal _⟩
      have hbeeps := (beeps_switchBeeper e.ticked.drawn.forgot).iff (hgoes e.ticked.drawn.forgot)
      exact hbeeps.after rfl hdrawn.beeper hdrawn.refuses
    · have hkept := congrArg Core.kept (e.ticked.core_called .draw)
      have hquiet : Quiet e (⟨.error (refusal .draw), e.ticked.called .draw,
          [.hostCall .draw false]⟩ : Outcome Emulator Unit) :=
        ⟨hkept, rfl, refusal_ne_refusal rfl⟩
      exact hquiet.beeps (by simp)

theorem beeps_countInstruction (e : Emulator) :
    Beeps ((countInstruction e).result = .ok () ∧ e.frameDue = true) e (countInstruction e) := by
  rw [countInstruction_eq, frameDue]
  cases e.clock.advance.1 with
  | true =>
    have hbeeps := beeps_endFrame { e with clock := e.clock.advance.2 }
    exact (hbeeps.iff (and_iff_left rfl).symm).congr rfl rfl
  | false =>
    have hquiet : Quiet { e with clock := e.clock.advance.2 }
        (⟨.ok (), { e with clock := e.clock.advance.2 }, []⟩ : Outcome Emulator Unit) :=
      ⟨rfl, rfl, ok_ne_refusal _⟩
    exact (hquiet.beeps (by simp)).congr rfl rfl

/-- The same for the result that a cycle makes of it. -/
theorem Beeps.proceeds {o : Outcome Emulator Unit} {also : Prop}
    (h : Beeps (o.result = .ok () ∧ also) e o) {o' : Outcome Emulator Flow}
    (heq : o' = ⟨o.result.map fun _ => .proceed, o.state, o.events⟩) :
    Beeps (o'.result = .ok .proceed ∧ also) e o' := by
  have hiff : o.result = .ok () ↔ o'.result = .ok .proceed := by
    rw [heq]
    cases o.result <;> simp [Except.map]
  rw [← hiff]
  subst heq
  exact ⟨h.called, h.left, fun call hcall => map_ne_error _ (h.result call hcall), h.refuses,
    h.obliging⟩

theorem beepsOnTime_count : BeepsOnTime (do countInstruction; return .proceed) := by
  intro e
  refine (beeps_countInstruction e).proceeds ?_
  rcases h : countInstruction e with ⟨stop | _, t, events⟩
  · exact Act.bind_of_error h
  · rw [Act.bind_of_ok h, Outcome.after, Act.pure_apply, List.append_nil]
    rfl

theorem beepsOnTime_cycle : BeepsOnTime cycle :=
  cycle_elim (fun x => ∀ e, Quiet e (x e)) .bind .quit quiet_openConsole quiet_pollInput
    quiet_advance (.bind quiet_closeConsole fun _ => beepsOnTime_count)

/-! ## Runs -/

/-- The call ends a frame: it goes through, and it is one for the end of a frame or the clock says
that a frame ends. -/
def EndsFrame (e : Emulator) (c : Call) : Prop :=
  e.callResult c = .ok .proceed ∧ (c = .cycle → e.frameDue = true)

instance (e : Emulator) (c : Call) : Decidable (e.EndsFrame c) :=
  inferInstanceAs (Decidable (_ ∧ (_ → _)))

/-- **The beeper is called at the end of a frame and at no other time.** -/
theorem beeps_call (e : Emulator) (c : Call) : Beeps (e.EndsFrame c) e (e.outcome c) := by
  cases c with
  | cycle =>
    exact (beepsOnTime_cycle e).iff (and_congr_right fun _ => ⟨fun h _ => h, fun h => h rfl⟩)
  | endFrame =>
    have hends : (endFrame e).result = .ok () ∧ (Call.endFrame = .cycle → e.frameDue = true) ↔
        (endFrame e).result = .ok () := and_iff_left nofun
    exact ((beeps_endFrame e).iff hends.symm).proceeds rfl

/-- Whether the sound timer is above zero, at the end of each frame of a run. -/
def soundings (e : Emulator) : List Call → List Bool
  | [] => []
  | c :: run =>
    (if e.EndsFrame c then [decide (0 < (e.call c).machine.timers.sound)] else []) ++
      (e.call c).soundings run

/-- At the end of a frame the beeper sounds just when the sound timer is above zero, unless the host
refuses to switch it. -/
theorem Beeps.sounding_iff {o : Outcome Emulator α} (h : Beeps ends e o) (hends : ends)
    (hgranted : ∀ call, (call, false) ∉ beeperCalls o.events) :
    o.state.host.beeper.sounding = true ↔ 0 < o.state.machine.timers.sound := by
  by_cases hsame : e.host.beeper.sounding = decide (0 < o.state.machine.timers.sound)
  · obtain ⟨-, hbeeper⟩ := h.left fun hnot => hnot.2 hsame
    rw [hbeeper, hsame, decide_eq_true_eq]
  · obtain ⟨granted, hcalls, hbeeper⟩ := h.called hends hsame
    cases granted with
    | false => exact absurd (hcalls ▸ List.mem_singleton_self _) (hgranted _)
    | true => rw [hbeeper, if_pos rfl, Beeper.switch, decide_eq_true_eq]

/-- A call in which the beeper is refused goes through, and leaves the beeper as it was. -/
theorem proceeds_of_refused {c : Call} {call : HostCall}
    (h : (call, false) ∈ beeperCalls (e.callEvents c)) :
    e.callResult c = .ok .proceed ∧ (e.call c).host.beeper = e.host.beeper := by
  have hbeeps := beeps_call e c
  by_cases hcalled : e.EndsFrame c ∧
      e.host.beeper.sounding ≠ decide (0 < (e.call c).machine.timers.sound)
  · obtain ⟨hends, hdiffer⟩ := hcalled
    obtain ⟨granted, hcalls, hbeeper⟩ := hbeeps.called hends hdiffer
    change (call, false) ∈ beeperCalls (e.outcome c).events at h
    rw [hcalls, List.mem_singleton] at h
    obtain rfl := congrArg Prod.snd h
    exact ⟨hends.1, hbeeper⟩
  · have hnone : beeperCalls (e.callEvents c) = [] := (hbeeps.left hcalled).1
    rw [hnone] at h
    cases h

theorem Beeps.switches {o : Outcome Emulator α} (h : Beeps ends e o) [Decidable ends]
    (ho : e.host.Obliging) (rest : List Bool) :
    o.state.host.beeper.switches + changes o.state.host.beeper.sounding rest =
      e.host.beeper.switches + changes e.host.beeper.sounding
        ((if ends then [decide (0 < o.state.machine.timers.sound)] else []) ++ rest) := by
  by_cases hcalled : ends ∧ e.host.beeper.sounding ≠ decide (0 < o.state.machine.timers.sound)
  · obtain ⟨hends, hdiffer⟩ := hcalled
    obtain ⟨granted, hcalls, hbeeper⟩ := h.called hends hdiffer
    obtain rfl : granted = true := h.obliging ho _ granted (hcalls ▸ List.mem_singleton_self _)
    rw [hbeeper, if_pos hends, if_pos rfl, List.singleton_append, changes, if_neg hdiffer.symm,
      Beeper.switch, Nat.add_assoc]
  · obtain ⟨-, hbeeper⟩ := h.left hcalled
    rw [hbeeper]
    split
    · rename_i hends
      have hsame := not_not.1 fun hdiffer => hcalled ⟨hends, hdiffer⟩
      rw [List.singleton_append, changes, if_pos hsame.symm, Nat.zero_add, hsame]
    · rfl

/-- **If nothing is refused, the beeper is switched as often as the sound timer starts or stops to
sound.** -/
theorem switches_calls (ho : e.host.Obliging) (run : List Call) :
    (e.calls run).host.beeper.switches =
      e.host.beeper.switches + changes e.host.beeper.sounding (e.soundings run) := by
  induction run generalizing e with
  | nil => rfl
  | cons c run ih =>
    have hbeeps := beeps_call e c
    have hobliging : (e.call c).host.Obliging := ho.congr hbeeps.refuses
    rw [calls_cons, ih hobliging, soundings]
    exact hbeeps.switches ho _

/-- Another plan of refusals, which differs in the calls of the beeper only. -/
theorem silent_withRefuses {refuses : HostCall → Nat → Bool}
    (h : ∀ call n, call.sounds = false → refuses call n = e.host.refuses call n) :
    ({ e with host.refuses := refuses } : Emulator).silent = e.silent := by
  have hrefuses : (fun call n => !call.sounds && refuses call n) =
      fun call n => !call.sounds && e.host.refuses call n := by
    funext call n
    cases hcall : call.sounds with
    | true => rfl
    | false => rw [h call n hcall]
  simp only [silent, Host.silent, hrefuses]

/-- **The beeper follows the sound timer and disturbs nothing.** Behind any run of any emulator:

* a call that ends a frame leaves the beeper sounding just when the sound timer is above zero,
  unless the host refuses to switch it;
* if the host refuses nothing, the beeper was switched as often as the sound timer started or
  stopped to sound from one frame's end to the next;
* where the host refuses to switch it, the call goes through all the same and the beeper is as it
  was, and so the host is asked again at the next frame's end at which the two differ; only where
  it refuses the frame is the end of a frame cut short;
* under any other plan of refusals of the beeper, all that is not the beeper comes out the same: the
  machine, the display, the input and the debugger, how the next call ends, and what the outside
  sees. -/
theorem beeper_follows (e : Emulator) (run : List Call) :
    let t := e.calls run
    (∀ c, t.EndsFrame c → (∀ call, (call, false) ∉ beeperCalls (t.callEvents c)) →
      ((t.call c).host.beeper.sounding = true ↔ 0 < (t.call c).machine.timers.sound)) ∧
    (e.host.Obliging → t.host.beeper.switches =
      e.host.beeper.switches + changes e.host.beeper.sounding (e.soundings run)) ∧
    (∀ c call, (call, false) ∈ beeperCalls (t.callEvents c) →
      t.callResult c = .ok .proceed ∧ (t.call c).host.beeper = t.host.beeper) ∧
    (∀ c, Beeps (t.EndsFrame c) t (t.outcome c)) ∧
    (t.callResult .endFrame = .ok .proceed ∨ t.callResult .endFrame = .error (refusal .draw)) ∧
    ∀ refuses, (∀ call n, call.sounds = false → refuses call n = e.host.refuses call n) →
      let t' := ({ e with host.refuses := refuses } : Emulator).calls run
      t'.silent = t.silent ∧ (∀ c, t'.callResult c = t.callResult c) ∧
        (({ e with host.refuses := refuses } : Emulator).trace run).filter (!·.sounds) =
          (e.trace run).filter (!·.sounds) := by
  intro t
  refine ⟨fun c hends hgranted => ?_, fun ho => switches_calls ho run, fun c call hrefused => ?_,
    t.beeps_call, ?_, fun refuses hrefuses => ?_⟩
  · exact (t.beeps_call c).sounding_iff hends hgranted
  · exact proceeds_of_refused hrefused
  · rw [callResult]
    rcases t.result_endFrame with hresult | hresult
    · exact .inl (by rw [hresult]; rfl)
    · exact .inr (by rw [hresult]; rfl)
  · obtain ⟨hsilent, hevents⟩ := silent_calls (silent_withRefuses hrefuses) run
    refine ⟨hsilent, fun c => ?_, hevents⟩
    exact (silence_eq_iff.1 (silence_outcome hsilent c)).1

set_option maxRecDepth 20000 in
/-- The first beep is refused, and the next frame's end asks for it again. -/
theorem beeper_follows_refused :
    let program : List UInt8 := [0x6A, 0x05, 0xFA, 0x18, 0x12, 0x04]
    let host : Host := { refuses := fun call n => call = .beep && n = 1 }
    let e := loadedWith 60 .modern 0 host none program
    let run : List Call := [.cycle, .cycle]
    let t := e.calls run
    let t' := ({ e with host.refuses := fun _ _ => false } : Emulator).calls run
    beeperCalls (e.trace run) = [(.beep, false)] ∧ t.EndsFrame .cycle ∧
      beeperCalls (t.callEvents .cycle) = [(.beep, true)] ∧
      (t.call .cycle).host.beeper.sounding = true ∧ t'.host.beeper.sounding = true ∧
      t'.silent = t.silent := by
  intro program host e run t t'
  have hfacts : beeperCalls (e.trace run) = [(.beep, false)] ∧ t.EndsFrame .cycle ∧
      beeperCalls (t.callEvents .cycle) = [(.beep, true)] ∧
      0 < (t.call .cycle).machine.timers.sound ∧ t'.host.beeper.sounding = true := by
    decide +kernel
  obtain ⟨hrefused, hends, hagain, hsounds, hother⟩ := hfacts
  obtain ⟨hfollows, -, -, -, -, hsame⟩ := beeper_follows e run
  have hgranted : ∀ call, (call, false) ∉ beeperCalls (t.callEvents .cycle) := by
    intro call
    rw [hagain]
    simp
  have hrefuses : ∀ call n, call.sounds = false → false = e.host.refuses call n := by
    intro call n hcall
    rw [show e.host = host from host_loadedWith ..]
    cases call <;> first | rfl | cases hcall
  obtain ⟨hsilent, -⟩ := hsame (fun _ _ => false) hrefuses
  exact ⟨hrefused, hends, hagain, (hfollows .cycle hends hgranted).2 hsounds, hother, hsilent⟩

end Emulator

end Chip8
