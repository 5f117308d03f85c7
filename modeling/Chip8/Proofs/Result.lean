import Chip8.Word

/-!
# Sequences of results

How a sequence of results runs, forward (`ok_bind`, `error_bind`) and backward (`bind_eq_ok`,
`bind_eq_error`). There are two ways for a result to be none, and one predicate for the absence of
each:

* `Safely p r`: the result `r` is a value with the property `p` or has a cause to be none, so
  nothing got stuck;
* `Faultless r`: the result `r` is a value unless something got stuck.
-/

namespace Chip8

variable {α β : Type}

theorem ok_bind (a : α) (f : α → Result β) : ((Except.ok a : Result α) >>= f) = f a := rfl

theorem error_bind (stop : Stop) (f : α → Result β) :
    ((Except.error stop : Result α) >>= f) = .error stop := rfl

theorem bind_eq_ok {r : Result α} {f : α → Result β} {b : β} :
    (r >>= f) = .ok b ↔ ∃ a, r = .ok a ∧ f a = .ok b := by
  cases r with
  | ok a => simp [ok_bind]
  | error stop => simp [error_bind]

theorem bind_eq_error {r : Result α} {f : α → Result β} {stop : Stop} :
    (r >>= f) = .error stop ↔ r = .error stop ∨ ∃ a, r = .ok a ∧ f a = .error stop := by
  cases r with
  | ok a => simp [ok_bind]
  | error stop' => simp [error_bind]

/-- The result is a value with the property `p`, or none for a cause. -/
def Safely (p : α → Prop) : Result α → Prop
  | .ok a => p a
  | .error (.fault _) => True
  | .error .stuck => False

theorem Safely.ne_stuck {p : α → Prop} {r : Result α} (h : Safely p r) : r ≠ .error .stuck := by
  rintro rfl
  exact h

theorem Safely.of_ok {p : α → Prop} {r : Result α} {a : α} (h : Safely p r) (hr : r = .ok a) :
    p a := by
  subst hr
  exact h

/-! ## Results that are none without a cause -/

/-- If the result is none, then without a cause. -/
def Faultless (r : Result α) : Prop := ∀ cause, r ≠ .error (.fault cause)

theorem faultless_ok (a : α) : Faultless (.ok a) := fun _ h => by cases h

theorem faultless_stuck : Faultless (.error .stuck : Result α) := fun _ h => by cases h

theorem Faultless.bind {r : Result α} {f : α → Result β} (h : Faultless r)
    (hf : ∀ a, Faultless (f a)) : Faultless (r >>= f) := by
  intro cause hbind
  rcases bind_eq_error.1 hbind with hr | ⟨a, -, hfa⟩
  · exact h cause hr
  · exact hf a cause hfa

theorem faultless_foldlM {f : β → α → Result β} (hf : ∀ b a, Faultless (f b a)) (l : List α)
    (b : β) : Faultless (l.foldlM f b) := by
  induction l generalizing b with
  | nil => exact faultless_ok b
  | cons a l ih =>
    rw [List.foldlM_cons]
    exact (hf b a).bind ih

theorem faultless_mapM {f : α → Result β} (hf : ∀ a, Faultless (f a)) (l : List α) :
    Faultless (l.mapM f) := by
  induction l with
  | nil => exact faultless_ok []
  | cons a l ih =>
    rw [List.mapM_cons]
    exact (hf a).bind fun b => ih.bind fun bs => faultless_ok (b :: bs)

end Chip8
