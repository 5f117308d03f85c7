import Chip8.Event
import Mathlib.Data.List.Induction

/-!
# Who has the terminal

The terminal goes to and fro between the host and the debugger's console by the host's own calls.
`Terminal.next` says which events are in order for the one who has it, and who has it behind them;
`Terminal.follow` goes through a list of events.

* `Terminal.handedBack`: the host gets the terminal back from the console by a resumption and an
  invalidation that are both granted;
* `Terminal.inputSuspended_eq`: the input is suspended exactly while the console has the terminal
  for itself;
* `Terminal.ne_shared`: only a refused invalidation makes them share it.
-/

namespace Chip8

/-- Who has the terminal. -/
inductive Terminal
  /-- The host, which shows frames and polls its input. -/
  | host
  /-- The console, for itself: the input is suspended. -/
  | console
  /-- The input has resumed, and the display is still to forget what it shows. -/
  | returning
  /-- The console still has it although the input has resumed. -/
  | shared
  deriving DecidableEq, Repr

namespace Terminal

/-- Who has the terminal behind an event, if the event is in order. -/
def next : Terminal → Event → Option Terminal
  | .host, .hostCall .suspend true => some .console
  | .host, .hostCall .suspend false | .host, .hostCall .poll _ | .host, .hostCall .draw _
  | .host, .shown _ => some .host
  | .console, .hostCall .resume true | .shared, .hostCall .resume true => some .returning
  | .console, .hostCall .resume false | .console, .printed _ | .console, .consoleRead =>
    some .console
  | .shared, .hostCall .resume false | .shared, .printed _ | .shared, .consoleRead => some .shared
  | .returning, .hostCall .invalidate true => some .host
  | .returning, .hostCall .invalidate false => some .shared
  | .returning, _ => none
  | t, .notice _ | t, .hostCall .beep _ | t, .hostCall .stop _ => some t
  | _, _ => none

/-- Who has the terminal behind some events, if they are in order. -/
def follow (t : Terminal) (events : List Event) : Option Terminal := events.foldlM next t

variable {t t' : Terminal} {event : Event} {events : List Event}

@[simp] theorem follow_nil (t : Terminal) : t.follow [] = some t := rfl

theorem follow_append {first last : List Event} : t.follow (first ++ last) = some t' ↔
    ∃ between, t.follow first = some between ∧ between.follow last = some t' := by
  rw [follow, List.foldlM_append]
  exact Option.bind_eq_some_iff

theorem follow_cons : t.follow (event :: events) = some t' ↔
    ∃ between, t.next event = some between ∧ between.follow events = some t' := by
  rw [follow, List.foldlM_cons]
  exact Option.bind_eq_some_iff

theorem follow_concat : t.follow (events ++ [event]) = some t' ↔
    ∃ before, t.follow events = some before ∧ before.next event = some t' := by
  simp [follow_append, follow_cons]

/-- Events that leave the terminal where it is. -/
theorem follow_of_stays (h : ∀ event ∈ events, t.next event = some t) :
    t.follow events = some t := by
  induction events with
  | nil => rfl
  | cons event events ih =>
    obtain ⟨hfirst, hrest⟩ := List.forall_mem_cons.1 h
    exact follow_cons.2 ⟨t, hfirst, ih hrest⟩

/-! ## One event -/

/-- What an event in order does to the terminal. -/
inductive Passes : Terminal → Event → Terminal → Prop
  | suspended : Passes .host (.hostCall .suspend true) .console
  | resumed (t : Terminal) : Passes t (.hostCall .resume true) .returning
  | invalidated : Passes .returning (.hostCall .invalidate true) .host
  | notInvalidated : Passes .returning (.hostCall .invalidate false) .shared
  /-- Any other event leaves it where it is, unless it is on its way. -/
  | stays (t : Terminal) (event : Event) (settled : t ≠ .returning)
    (unsuspended : event ≠ .hostCall .suspend true) (unresumed : event ≠ .hostCall .resume true) :
    Passes t event t

theorem passes_of_next (h : t.next event = some t') : Passes t event t' := by
  -- One case for each event, each call of the host and each who may have the terminal.
  rcases event with _ | _ | _ | ⟨call, _ | _⟩ | _ <;> cases t
  all_goals try cases call
  all_goals cases h
  all_goals constructor <;> simp

/-- A notice is in order unless the terminal is on its way back. -/
theorem next_notice (h : t ≠ .returning) (notice : Notice) :
    t.next (.notice notice) = some t := by
  cases t <;> first | rfl | exact absurd rfl h

/-- So is a call for the beeper. -/
theorem next_beeper (h : t ≠ .returning) {call : HostCall}
    (hcall : call = .beep ∨ call = .stop) (granted : Bool) :
    t.next (.hostCall call granted) = some t := by
  rcases hcall with rfl | rfl
  all_goals cases t <;> first | rfl | exact absurd rfl h

/-- Whether the input is suspended behind an event. -/
def suspendedBy (suspended : Bool) : Event → Bool
  | .hostCall .suspend true => true
  | .hostCall .resume true => false
  | _ => suspended

theorem Passes.suspendedBy (h : Passes t event t') :
    suspendedBy (decide (t = .console)) event = decide (t' = .console) := by
  cases h with
  | suspended | resumed | invalidated | notInvalidated => rfl
  | stays _ _ _ hs hr =>
    unfold Terminal.suspendedBy
    split
    · exact absurd rfl hs
    · exact absurd rfl hr
    · rfl

/-- The display is called, the input polled and the terminal given away only by the host. -/
theorem eq_host_of_next {call : HostCall} {granted : Bool}
    (h : t.next (.hostCall call granted) = some t') (hcall : call ∈ [.poll, .draw, .suspend]) :
    t = .host := by
  cases t <;> cases granted <;> cases call <;> simp_all [next]

/-- The console is read only while it has the terminal, for itself or not. -/
theorem of_next_consoleRead (h : t.next .consoleRead = some t') : t = .console ∨ t = .shared := by
  cases t <;> simp_all [next]

/-! ## Many events -/

/-- By these calls the host gets the terminal back. -/
def handBack : List Event := [.hostCall .resume true, .hostCall .invalidate true]

/-- What has happened since the console got the terminal. -/
theorem follow_console (h : Terminal.console.follow events = some t) :
    (t = .host → handBack <:+: events) ∧
      (t = .returning → [.hostCall .resume true] <:+ events) := by
  induction events using List.reverseRecOn generalizing t with
  | nil =>
    cases h
    simp
  | append_singleton events event ih =>
    obtain ⟨before, hbefore, hnext⟩ := follow_concat.1 h
    have ⟨hback, hresumed⟩ := ih hbefore
    cases passes_of_next hnext with
    | suspended | notInvalidated => simp
    | resumed => exact ⟨by simp, fun _ => List.suffix_append _ _⟩
    | invalidated =>
      obtain ⟨first, rfl⟩ := hresumed rfl
      refine ⟨fun _ => ⟨first, [], ?_⟩, by simp⟩
      simp [handBack]
    | stays _ _ settled =>
      refine ⟨fun hhost => ?_, fun hreturning => absurd hreturning settled⟩
      exact (hback hhost).trans (List.prefix_append _ _).isInfix

/-- **The host gets the terminal back from the console by a resumption and an invalidation**, both
granted, before it uses or gives away the terminal again. -/
theorem handedBack {before between behind : List Event} {call : HostCall} {granted : Bool}
    (h : t.follow (before ++ .hostCall .suspend true :: between ++
      .hostCall call granted :: behind) = some t')
    (hcall : call ∈ [.poll, .draw, .suspend]) : handBack <:+: between := by
  obtain ⟨t₂, hfirst, hlast⟩ := follow_append.1 h
  obtain ⟨t₁, -, hmiddle⟩ := follow_append.1 hfirst
  obtain ⟨t₁', hsuspend, hbetween⟩ := follow_cons.1 hmiddle
  obtain ⟨t₂', hagain, -⟩ := follow_cons.1 hlast
  obtain rfl := eq_host_of_next hsuspend (by simp)
  cases hsuspend
  exact (follow_console hbetween).1 (eq_host_of_next hagain hcall)

/-- Whether the input is suspended behind some events that begin without that. -/
def inputSuspended (events : List Event) : Bool := events.foldl suspendedBy false

/-- **The input is suspended while the console has the terminal for itself.** -/
theorem inputSuspended_eq (h : Terminal.host.follow events = some t) :
    inputSuspended events = decide (t = .console) := by
  induction events using List.reverseRecOn generalizing t with
  | nil =>
    cases h
    rfl
  | append_singleton events event ih =>
    obtain ⟨before, hbefore, hnext⟩ := follow_concat.1 h
    rw [inputSuspended, List.foldl_append, ← inputSuspended, ih hbefore]
    exact (passes_of_next hnext).suspendedBy

/-- **Only a refused invalidation makes host and console share the terminal.** -/
theorem ne_shared (h : t.follow events = some t') (ht : t ≠ .shared)
    (hnever : .hostCall .invalidate false ∉ events) : t' ≠ .shared := by
  induction events generalizing t with
  | nil =>
    cases h
    exact ht
  | cons event events ih =>
    obtain ⟨between, hnext, hrest⟩ := follow_cons.1 h
    refine ih hrest ?_ fun hlater => hnever (List.mem_cons_of_mem _ hlater)
    cases passes_of_next hnext with
    | suspended | resumed | invalidated => simp
    | notInvalidated => exact absurd List.mem_cons_self hnever
    | stays => exact ht

end Terminal

end Chip8
