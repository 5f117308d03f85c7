import Chip8.Event
import Chip8.Word

/-!
# Activities

An activity starts from a state and ends in a state, whether it succeeds or not, and events happen
on the way. `Act` sequences activities: the state and the events of the first are kept also where
its failure ends the whole.

* `bind_of_ok`, `bind_of_error`: how a sequence runs, by the outcome of its first activity.
-/

namespace Chip8

/-- How an activity ended: its result, the state it left, and what happened. -/
structure Outcome (σ α : Type) where
  result : Result α
  state : σ
  events : List Event := []

namespace Outcome

variable {σ τ α β : Type}

/-- A failure without events. -/
def failed (state : σ) (stop : Stop) : Outcome σ α := ⟨.error stop, state, []⟩

/-- The outcome with further events in front. -/
def after (earlier : List Event) (o : Outcome σ α) : Outcome σ α :=
  { o with events := earlier ++ o.events }

@[simp] theorem after_after (first second : List Event) (o : Outcome σ α) :
    (o.after second).after first = o.after (first ++ second) := by
  simp [after]

/-- The outcome with its state put into a larger one. -/
def onState (f : σ → τ) (o : Outcome σ α) : Outcome τ α := ⟨o.result, f o.state, o.events⟩

end Outcome

/-- An activity on states `σ` with a result in `α`. -/
def Act (σ α : Type) : Type := σ → Outcome σ α

namespace Act

variable {σ α β : Type}

/-- Does nothing. -/
def pure (a : α) : Act σ α := fun s => ⟨.ok a, s, []⟩

/-- One activity after another, unless the first fails. -/
def bind (x : Act σ α) (f : α → Act σ β) : Act σ β := fun s =>
  match x s with
  | ⟨.ok a, s, events⟩ => (f a s).after events
  | ⟨.error stop, s, events⟩ => ⟨.error stop, s, events⟩

instance : Monad (Act σ) where
  pure := pure
  bind := bind

/-- The state. -/
def state : Act σ σ := fun s => ⟨.ok s, s, []⟩

/-- Changes the state. -/
def modify (f : σ → σ) : Act σ Unit := fun s => ⟨.ok (), f s, []⟩

/-- Changes the state, unless the change fails. -/
def update (f : σ → Result σ) : Act σ Unit := fun s =>
  match f s with
  | .ok after => ⟨.ok (), after, []⟩
  | .error stop => .failed s stop

/-- Lets an event happen. -/
def emit (event : Event) : Act σ Unit := fun s => ⟨.ok (), s, [event]⟩

/-- Fails. -/
def fail (stop : Stop) : Act σ α := fun s => .failed s stop

/-- A result that needs no state. -/
def ofResult : Result α → Act σ α
  | .ok a => pure a
  | .error stop => fail stop

/-- The result of an activity as a value, be it a failure. -/
def observe (x : Act σ α) : Act σ (Result α) := fun s =>
  let o := x s
  ⟨.ok o.result, o.state, o.events⟩

/-! ## How activities run -/

theorem pure_apply (a : α) (s : σ) : (Pure.pure a : Act σ α) s = ⟨.ok a, s, []⟩ := rfl

theorem bind_of_ok {x : Act σ α} {f : α → Act σ β} {s t : σ} {a : α} {events : List Event}
    (h : x s = ⟨.ok a, t, events⟩) : (x >>= f) s = (f a t).after events := by
  simp [Bind.bind, bind, h]

theorem bind_of_error {x : Act σ α} {f : α → Act σ β} {s t : σ} {stop : Stop}
    {events : List Event} (h : x s = ⟨.error stop, t, events⟩) :
    (x >>= f) s = ⟨.error stop, t, events⟩ := by
  simp [Bind.bind, bind, h]

end Act

end Chip8
