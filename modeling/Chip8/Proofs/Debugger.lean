import Chip8.Debugger
import Chip8.Proofs.Machine.Step

/-!
# The debugger and the machine

A debugger's step is a talk with the console and then one step of the machine, or a talk alone
(`step_cases`). The talk lets the outside see nothing but the console; in particular no frame is
shown (`shownFrames`).
-/

namespace Chip8

/-! ## Events -/

/-- The frames shown among the events. -/
def shownFrames (events : List Event) : List Screen :=
  events.filterMap fun
    | .shown frame => some frame
    | _ => none

@[simp] theorem shownFrames_append (first last : List Event) :
    shownFrames (first ++ last) = shownFrames first ++ shownFrames last :=
  List.filterMap_append

/-- The event belongs to a talk with the console. -/
def Event.OnConsole : Event → Prop
  | .printed _ | .consoleRead => True
  | _ => False

/-- What takes nothing from the two events of a talk takes nothing from a talk. -/
theorem filterMap_of_onConsole {α : Type} {f : Event → Option α} {events : List Event}
    (hprinted : ∀ text, f (.printed text) = none) (hread : f .consoleRead = none)
    (h : ∀ event ∈ events, event.OnConsole) : events.filterMap f = [] := by
  refine List.filterMap_eq_nil_iff.2 ?_
  intro event hevent
  have hconsole := h event hevent
  cases event with
  | printed text => exact hprinted text
  | consoleRead => exact hread
  | notice | hostCall | shown => exact hconsole.elim

theorem shownFrames_of_onConsole {events : List Event} (h : ∀ event ∈ events, event.OnConsole) :
    shownFrames events = [] :=
  filterMap_of_onConsole (fun _ => rfl) rfl h

/-- A step of the machine shows no frame. -/
theorem shownFrames_step (m : Machine) : shownFrames m.step.events = [] := by
  rw [m.events_step]
  split <;> rfl

namespace Debugger

/-! ## The talk -/

/-- **A talk lets the outside see nothing but the console.** -/
theorem onConsole_converse (m : Machine) (d : Debugger) (announced : Bool) :
    ∀ event ∈ (d.converse m announced).events, event.OnConsole := by
  have after : ∀ {o : Outcome Debugger Flow} {earlier : List Event},
      (∀ event ∈ earlier, event.OnConsole) → (∀ event ∈ o.events, event.OnConsole) →
      ∀ event ∈ (o.after earlier).events, event.OnConsole := by
    intro o earlier he ho event hevent
    exact (List.mem_append.1 hevent).elim (he event) (ho event)
  fun_induction converse m d announced with
  | case1 d announced ihRefused ihShown ihAsked =>
    refine after (by split <;> simp [Event.OnConsole]) ?_
    split
    · simp [Event.OnConsole]
    rename_i hleft
    refine after (by simp [Event.OnConsole]) ?_
    split
    · simp
    split
    case h_1 => exact after (by simp [Event.OnConsole]) (ihRefused hleft)
    case h_2 | h_3 => exact after (by simp [Event.OnConsole]) (ihShown hleft)
    case h_4 | h_5 | h_6 | h_7 => simp
    -- The address of a breakpoint is asked for.
    refine after (by simp [Event.OnConsole]) ?_
    split
    · simp
    split
    · simp
    · exact after (by simp [Event.OnConsole]) (ihAsked hleft)

/-! ## Steps -/

/-- Behind the step of the machine there is nothing but a look at the breakpoint. -/
theorem advance_eq (d : Debugger) (m : Machine) :
    ∃ d' after, d.advance m =
        ⟨m.step.result.map fun _ => .proceed, (d', m.step.state), m.step.events ++ after⟩ ∧
      shownFrames after = [] := by
  unfold advance
  rcases m.step with ⟨stop | instruction, after, events⟩
  · exact ⟨d, [], by simp [Except.map], rfl⟩
  · dsimp only
    split
    · exact ⟨_, [.notice (.paused after.pc)], rfl, rfl⟩
    · exact ⟨{ d with last := some instruction }, [], by simp [Except.map], rfl⟩

/-- **A step of the debugger is a talk that goes no further, or one step of the machine**, with a
talk before it if the debugger is paused. -/
theorem step_cases (d : Debugger) (m : Machine) :
    (d.paused = true ∧ ∃ r d' events, d.step m = ⟨r, (d', m), events⟩ ∧ r ≠ .ok .proceed ∧
      shownFrames events = []) ∨
    ∃ d' before after, d.step m = ⟨m.step.result.map fun _ => .proceed, (d', m.step.state),
        before ++ m.step.events ++ after⟩ ∧
      shownFrames before = [] ∧ shownFrames after = [] := by
  unfold step
  cases hp : d.paused with
  | false =>
    obtain ⟨d', after, heq, hafter⟩ := d.advance_eq m
    exact .inr ⟨d', [], after, heq, rfl, hafter⟩
  | true =>
    have htalk := shownFrames_of_onConsole (d.onConsole_converse m false)
    rcases hc : d.converse m false with ⟨stop | flow, d', events⟩
    · rw [hc] at htalk
      exact .inl ⟨rfl, .error stop, d', events, rfl, by simp, htalk⟩
    · rw [hc] at htalk
      cases flow with
      | quit => exact .inl ⟨rfl, .ok .quit, d', events, rfl, by simp, htalk⟩
      | proceed =>
        obtain ⟨d'', after, heq, hafter⟩ := d'.advance_eq m
        refine .inr ⟨d'', events, after, ?_, htalk, hafter⟩
        simp [heq, Outcome.after]

/-- What holds of each way that a step can go holds of the step. -/
theorem step_elim (d : Debugger) (m : Machine) {P : Outcome (Debugger × Machine) Flow → Prop}
    (running : d.paused = false → P (d.advance m))
    (letGo : ∀ d' events, d.paused = true → d.converse m false = ⟨.ok .proceed, d', events⟩ →
      P ((d'.advance m).after events))
    (kept : ∀ r d' events, d.paused = true → d.converse m false = ⟨r, d', events⟩ →
      r ≠ .ok .proceed → P ⟨r, (d', m), events⟩) : P (d.step m) := by
  unfold step
  cases hp : d.paused with
  | false => exact running hp
  | true =>
    rcases hc : d.converse m false with ⟨stop | flow, d', events⟩
    · exact kept _ d' events hp hc (by simp)
    · cases flow with
      | proceed => exact letGo d' events hp hc
      | quit => exact kept _ d' events hp hc (by simp)

/-- Letting the machine go is seen in the log alone. -/
theorem notice_of_advance (d : Debugger) (m : Machine) :
    ∀ event ∈ (d.advance m).events, ∃ notice, event = .notice notice := by
  have hstep := m.notice_of_step
  rw [advance]
  generalize m.step = o at hstep ⊢
  rcases o with ⟨stop | i, after, events⟩
  · exact hstep
  · dsimp only
    split
    · intro event hevent
      rcases List.mem_append.1 hevent with hlog | hpause
      · exact hstep event hlog
      · exact ⟨_, List.mem_singleton.1 hpause⟩
    · exact hstep

/-- **The outside sees of a step** the log and, while the debugger is paused, the console. -/
theorem seen_step (d : Debugger) (m : Machine) : ∀ event ∈ (d.step m).events,
    (∃ notice, event = .notice notice) ∨ d.paused = true ∧ event.OnConsole := by
  have htalk := d.onConsole_converse m false
  refine d.step_elim m (P := fun o => ∀ event ∈ o.events,
    (∃ notice, event = .notice notice) ∨ d.paused = true ∧ event.OnConsole) ?_ ?_ ?_
  · exact fun _ event hevent => .inl (d.notice_of_advance m event hevent)
  · intro d' events hp hc event hevent
    rw [hc] at htalk
    rcases List.mem_append.1 hevent with hbefore | hstep
    · exact .inr ⟨hp, htalk event hbefore⟩
    · exact .inl (d'.notice_of_advance m event hstep)
  · intro r d' events hp hc _ event hevent
    rw [hc] at htalk
    exact .inr ⟨hp, htalk event hevent⟩

end Debugger

end Chip8
