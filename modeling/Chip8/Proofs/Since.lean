import Mathlib.Data.List.Induction

/-!
# Since

What a history tells of the time since something happened. `Since P Q history` says that `P` held of
an event, and of the events before it, and that every event behind it keeps to `Q`. One more event
either makes it so or keeps it so (`since_concat`), and so what a state remembers of its history is
compared with the history event by event.
-/

namespace Chip8

variable {α : Type} {P : List α → α → Prop} {Q p : α → Prop} {history : List α} {event : α}

/-- Something happened, and since then there was nothing but what keeps to `Q`. -/
def Since (P : List α → α → Prop) (Q : α → Prop) (history : List α) : Prop :=
  ∃ before event behind, history = before ++ event :: behind ∧ P before event ∧
    ∀ later ∈ behind, Q later

theorem not_since_nil : ¬Since P Q [] := by
  rintro ⟨before, event, behind, heq, -⟩
  simp at heq

theorem since_concat :
    Since P Q (history ++ [event]) ↔ P history event ∨ Q event ∧ Since P Q history := by
  constructor
  · rintro ⟨before, first, behind, heq, hfirst, hbehind⟩
    rcases List.eq_nil_or_concat behind with rfl | ⟨behind, last, rfl⟩
    · obtain ⟨rfl, hlast⟩ := List.append_inj' heq rfl
      obtain rfl := List.singleton_inj.1 hlast
      exact .inl hfirst
    · rw [List.concat_eq_append, ← List.cons_append, ← List.append_assoc] at heq
      obtain ⟨rfl, hlast⟩ := List.append_inj' heq rfl
      obtain rfl := List.singleton_inj.1 hlast
      exact .inr ⟨hbehind event (by simp), before, first, behind, rfl, hfirst,
        fun later hlater => hbehind later (by simp [hlater])⟩
  · rintro (hevent | ⟨hevent, before, first, behind, rfl, hfirst, hbehind⟩)
    · exact ⟨history, event, [], rfl, hevent, by simp⟩
    · refine ⟨before, first, behind ++ [event], by simp, hfirst, ?_⟩
      intro later hlater
      rcases List.mem_append.1 hlater with hlater | hlater
      · exact hbehind later hlater
      · exact List.mem_singleton.1 hlater ▸ hevent

/-- What happened at all has a last time. -/
theorem since_last (h : ∃ event ∈ history, p event) :
    Since (fun _ event => p event) (fun event => ¬p event) history := by
  induction history using List.reverseRecOn with
  | nil =>
    obtain ⟨event, hevent, -⟩ := h
    cases hevent
  | append_singleton history last ih =>
    rw [since_concat]
    by_cases hlast : p last
    · exact .inl hlast
    · obtain ⟨event, hevent, hp⟩ := h
      rcases List.mem_append.1 hevent with hevent | hevent
      · exact .inr ⟨hlast, ih ⟨event, hevent, hp⟩⟩
      · exact absurd (List.mem_singleton.1 hevent ▸ hp) hlast

end Chip8
