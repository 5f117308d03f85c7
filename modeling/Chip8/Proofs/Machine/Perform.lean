import Chip8.Machine.Perform
import Chip8.Proofs.Act
import Chip8.Proofs.Machine.Parts

/-!
# What execution in place comes to

An operation done in place comes to what `execute` makes of the machine (`perform_amounts`). In
particular one that fails for a cause has changed nothing yet: it uses the call stack or asks for
the key before it changes any part of the machine.
-/

namespace Chip8

theorem Keypad.isHeld_eq_bind (p : Keypad) (key : KeyNumber) {β : Type} (f : Bool → Result β) :
    (p.isHeld key >>= f) = (do
      let down ← p.isPressed key
      let wentUp ← p.wasReleased key
      f (down && !wentUp)) := by
  unfold isHeld isPressed wasReleased
  cases keyOf key with
  | error stop => rfl
  | ok k =>
    simp only [ok_bind, pure_bind]
    cases (p.get k).pressed <;> rfl

namespace Machine

variable {m : Machine} {α : Type}

/-- What was done to the machine amounts to a result: it left the machine that the result holds, or
the machine as it was where there is a cause that the result holds none. -/
inductive Amounts (m : Machine) : Outcome Machine Unit → Result Machine → Prop
  | done (after : Machine) : Amounts m ⟨.ok (), after, []⟩ (.ok after)
  | refused (cause : Fault) : Amounts m (.failed m (.fault cause)) (.error (.fault cause))
  | stuck (after : Machine) : Amounts m (.failed after .stuck) (.error .stuck)

theorem amounts_update (m : Machine) (f : Machine → Result Machine) :
    m.Amounts (Act.update f m) (f m) := by
  unfold Act.update
  rcases f m with (cause | -) | after
  · exact .refused cause
  · exact .stuck m
  · exact .done after

/-- What is looked up first changes nothing. -/
theorem amounts_bind {r : Result α} {g : α → Act Machine Unit} {f : α → Result Machine}
    (h : ∀ a, m.Amounts (g a m) (f a)) : m.Amounts ((Act.ofResult r >>= g) m) (r >>= f) := by
  rcases r with (cause | -) | a
  · exact .refused cause
  · exact .stuck m
  · exact h a

/-- A machine that is changed before it moves back to the instruction can no longer fail for a
cause. -/
theorem amounts_rewind (m changed : Machine) :
    m.Amounts (Act.update rewind changed) changed.rewind := by
  unfold Act.update
  rcases h : changed.rewind with (cause | -) | after
  · exact absurd h (changed.faultless_rewind cause)
  · exact .stuck changed
  · exact .done after

theorem amounts_awaitKey (m : Machine) (x : Register) :
    m.Amounts (awaitKey x m) (m.waitKey x) := by
  unfold awaitKey waitKey
  rw [Act.state_bind]
  rcases m.keyWait with _ | _ | key
  · exact amounts_rewind m _
  · exact amounts_rewind m _
  · dsimp only
    rw [← m.keypad.isHeld_eq_bind key fun held =>
      if held then m.rewind else return ({ m with keyWait := none } : Machine).set x key]
    refine amounts_bind fun held => ?_
    cases held with
    | true => exact amounts_rewind m m
    | false => exact .done _

/-- **An operation done in place comes to what `execute` makes of the machine.** -/
theorem perform_amounts (m : Machine) (op : Operation) :
    m.Amounts (perform op m) (m.execute op) := by
  cases op
  case ret => exact amounts_bind fun _ => .done _
  case call => exact amounts_bind fun _ => .done _
  case skipIfKey | skipUnlessKey => exact amounts_bind fun down => amounts_update m _
  case waitKey x => exact amounts_awaitKey m x
  all_goals
    unfold perform
    exact amounts_update m _

theorem perform_of_ok {op : Operation} {after : Machine} (h : m.execute op = .ok after) :
    perform op m = ⟨.ok (), after, []⟩ := by
  have hdone := m.perform_amounts op
  rw [h] at hdone
  generalize perform op m = o at hdone
  cases hdone
  rfl

end Machine

end Chip8
