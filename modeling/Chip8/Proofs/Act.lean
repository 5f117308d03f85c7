import Chip8.Outcome

/-!
# Running activities

How the activities that only look at the state or change it run in a sequence, and how a choice
between two activities does. What holds of each activity of a sequence, step by step, holds of the
sequence wherever it ends (`Within.bind`).
-/

namespace Chip8.Act

variable {σ α β : Type}

theorem state_bind (f : σ → Act σ β) (s : σ) : (state >>= f) s = f s s := rfl

theorem modify_bind (g : σ → σ) (f : Unit → Act σ β) (s : σ) :
    (modify g >>= f) s = f () (g s) := rfl

theorem ite_apply (c : Prop) [Decidable c] (x y : Act σ α) (s : σ) :
    (if c then x else y) s = if c then x s else y s := by
  split <;> rfl

/-! ## What every part of a sequence keeps to -/

/-- What the activity makes of the state, and what it lets be seen, keeps to a relation. -/
def Within (R : σ → List Event → σ → Prop) (x : Act σ α) : Prop :=
  ∀ s, R s (x s).events (x s).state

/-- To do nothing keeps to the relation, and so does one thing after another. -/
structure Composes (R : σ → List Event → σ → Prop) : Prop where
  nothing : ∀ s, R s [] s
  after : ∀ {s t u first last}, R s first t → R t last u → R s (first ++ last) u

variable {R : σ → List Event → σ → Prop}

theorem Within.pure (hR : Composes R) (a : α) : (Pure.pure a : Act σ α).Within R :=
  fun s => hR.nothing s

theorem Within.bind (hR : Composes R) {x : Act σ α} {f : α → Act σ β} (hx : x.Within R)
    (hf : ∀ a, (f a).Within R) : (x >>= f).Within R := by
  intro s
  have hfirst := hx s
  rcases h : x s with ⟨stop | a, t, events⟩
  · rw [h] at hfirst
    rw [bind_of_error h]
    exact hfirst
  · rw [h] at hfirst
    rw [bind_of_ok h]
    exact hR.after hfirst (hf a t)

end Chip8.Act
