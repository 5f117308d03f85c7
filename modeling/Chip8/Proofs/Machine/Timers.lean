import Mathlib.Data.List.DropRight
import Chip8.Proofs.Machine.Writes
import Chip8.Proofs.Timers

/-!
# What happens to a timer

Only two instructions set a timer, `FX15` and `FX18`, each its own (`count_step`). Else a timer
falls when a frame ends, unless the machine waits for a key to come up. So its history tells what a
timer stands at (`Accounted`): it is what it was set to last, less the frames since then in which it
fell.
-/

namespace Chip8

/-- The two timers. -/
inductive Timer
  | delay
  | sound
  deriving DecidableEq, Repr

namespace Timer

variable {timer : Timer} {m after : Machine} {op : Operation} {i : Instruction}

/-- What the timer stands at. -/
def count : Timer → Timers → UInt8
  | .delay, timers => timers.delay
  | .sound, timers => timers.sound

/-- The instruction sets the timer: it is `FX15` for the one and `FX18` for the other. -/
def setBy (timer : Timer) (i : Instruction) : Bool :=
  i.family.val == 0xF && i.nn == match timer with
    | .delay => 0x15
    | .sound => 0x18

/-- The operation that sets the timer. -/
def setter : Timer → Register → Operation
  | .delay => .setDelay
  | .sound => .setSound

theorem count_tick (timer : Timer) (timers : Timers) :
    (timer.count timers.tick).toNat = (timer.count timers).toNat - 1 := by
  cases timer with
  | delay => exact Timers.toNat_fall timers.delay
  | sound => exact Timers.toNat_fall timers.sound

theorem operation?_eq_setter {x : Register} :
    i.operation? = some (timer.setter x) ↔ timer.setBy i = true ∧ x = i.x := by
  rw [Instruction.operation?_eq_some_iff]
  cases timer <;> simp [setter, setBy, Instruction.Encodes, Instruction.Encodes.one, and_assoc]

/-! ## Steps -/

theorem count_execute (timer : Timer) (h : m.execute op = .ok after) :
    (∃ x, op = timer.setter x ∧ timer.count after.timers = m.get x) ∨
      (∀ x, op ≠ timer.setter x) ∧ timer.count after.timers = timer.count m.timers := by
  cases op with
  | setDelay x =>
    cases h
    cases timer with
    | delay => exact .inl ⟨x, rfl, rfl⟩
    | sound => exact .inr ⟨by simp [setter], rfl⟩
  | setSound x =>
    cases h
    cases timer with
    | delay => exact .inr ⟨by simp [setter], rfl⟩
    | sound => exact .inl ⟨x, rfl, rfl⟩
  | _ =>
    have htimers := Machine.execute_same (p := .timers) h (by simp [Operation.writes])
    exact .inr ⟨by cases timer <;> simp [setter], congrArg timer.count htimers⟩

/-- **A step sets the timer if its instruction does**, to what the register holds, and else leaves
it alone. -/
theorem count_step (h : m.step.result = .ok i) :
    timer.count m.step.state.timers =
      if timer.setBy i then m.get i.x else timer.count m.timers := by
  revert h
  refine m.step_cases (P := fun o => o.result = .ok i → timer.count o.state.timers =
    if timer.setBy i then m.get i.x else timer.count m.timers) ?_ ?_ ?_ ?_
  · exact fun _ h => by cases h
  · exact fun _ _ h => by cases h
  · exact fun _ _ _ _ _ h => by cases h
  · intro op after _ hop hexecute h
    obtain rfl := Except.ok.inj h
    obtain ⟨x, rfl, hcount⟩ | ⟨hother, hcount⟩ := timer.count_execute hexecute
    · obtain ⟨hset, rfl⟩ := operation?_eq_setter.1 hop
      rw [if_pos hset]
      exact hcount
    · have hnot : ¬timer.setBy m.instruction = true := by
        intro hset
        have hsetter := operation?_eq_setter.2 ⟨hset, rfl⟩
        exact hother _ (Option.some.inj (hop.symm.trans hsetter))
      rw [if_neg hnot]
      exact hcount

end Timer

/-! ## Histories -/

/-- What can happen to a timer: an instruction sets it, or a frame ends while the machine waits for
a key or does not. -/
inductive TimerEvent
  | set (value : UInt8)
  | frameEnded (wait : Option KeyWait)
  deriving DecidableEq, Repr

namespace TimerEvent

/-- The value to which the timer is set. -/
def value? : TimerEvent → Option UInt8
  | .set value => some value
  | .frameEnded _ => none

/-- The timer falls, unless it is zero: a frame ends, and the machine does not wait for a key to
come up. -/
def falls : TimerEvent → Bool
  | .set _ => false
  | .frameEnded (some (.release _)) => false
  | .frameEnded _ => true

/-- The value to which the timer was set last, and at first zero. -/
def lastValue (history : List TimerEvent) : UInt8 := (history.filterMap value?).getLastD 0

/-- How often a frame ended since the timer was set that made it fall. -/
def fallsSince (history : List TimerEvent) : Nat :=
  (history.rtakeWhile fun event => event.value?.isNone).countP falls

/-- The timer stands where its history says. -/
def Accounted (history : List TimerEvent) (count : UInt8) : Prop :=
  count.toNat = (lastValue history).toNat - fallsSince history

theorem Accounted.set (history : List TimerEvent) (value : UInt8) :
    Accounted (history ++ [.set value]) value := by
  have hlast : lastValue (history ++ [.set value]) = value := by
    simp [lastValue, value?]
  have hfalls : fallsSince (history ++ [.set value]) = 0 := by
    rw [fallsSince, List.rtakeWhile_concat_neg _ _ _ (by simp [value?])]
    rfl
  rw [Accounted, hlast, hfalls, Nat.sub_zero]

theorem lastValue_frameEnded (history : List TimerEvent) (wait : Option KeyWait) :
    lastValue (history ++ [.frameEnded wait]) = lastValue history := by
  simp [lastValue, value?]

theorem fallsSince_frameEnded (history : List TimerEvent) (wait : Option KeyWait) :
    fallsSince (history ++ [.frameEnded wait]) =
      fallsSince history + if (frameEnded wait).falls then 1 else 0 := by
  rw [fallsSince, List.rtakeWhile_concat_pos _ _ _ rfl, List.countP_append, List.countP_singleton]
  rfl

theorem falls_frameEnded (m : Machine) : (frameEnded m.keyWait).falls = !m.timersHeld := by
  rw [Machine.timersHeld]
  rcases m.keyWait with _ | _ | key <;> rfl

end TimerEvent

end Chip8
