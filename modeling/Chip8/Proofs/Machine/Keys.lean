import Mathlib.Data.List.Induction
import Chip8.Proofs.Keypad.History
import Chip8.Proofs.Machine.Run
import Chip8.Proofs.Machine.Writes

/-!
# Keys in a run

Each key goes through a run by itself (`get_act`): steps do not touch it, and what an action from
outside does to it depends on nothing but its own flags. Only a release of that very key ends that a
key is held, and a release that took effect leaves its mark until the frame ends.
-/

namespace Chip8

/-! ## One key -/

/-- What an action does to the flags of a key. -/
def Action.onKey (k : Fin 16) (s : KeyState) : Action → KeyState
  | .press key => if key.toNat = k.val then { s with pressed := true } else s
  | .release key =>
    if key.toNat = k.val then if s.pressed then ⟨false, true⟩ else s else s
  | .endFrame => { s with justReleased := false }
  | .step | .tick | .setTimers _ | .load _ => s

namespace Machine

/-- The action releases a key that is down. -/
def Releases (m : Machine) (k : Fin 16) (a : Action) : Prop :=
  ∃ key : UInt8, a = .release key ∧ key.toNat = k.val ∧ (m.keypad.get k).pressed = true

variable {m : Machine} {k : Fin 16}

theorem keypad_act_press (m : Machine) (key : UInt8) :
    (m.act (.press key)).state.keypad = (m.keypad.handle (.press key)).state := by
  simp only [act, Keypad.handle, Act.update]
  cases m.keypad.press key <;> rfl

theorem keypad_act_release (m : Machine) (key : UInt8) :
    (m.act (.release key)).state.keypad = (m.keypad.handle (.release key)).state := by
  simp only [act, Keypad.handle, Act.update]
  cases m.keypad.release key <;> rfl

/-- **An action does to a key what it does to the key's flags.** -/
theorem get_act (m : Machine) (a : Action) (k : Fin 16) :
    (m.act a).state.keypad.get k = a.onKey k (m.keypad.get k) := by
  cases a with
  | step => exact congrArg (·.get k) (keypad_step m)
  | press key =>
    rw [keypad_act_press]
    exact m.keypad.get_handle (.press key) k
  | release key =>
    rw [keypad_act_release]
    exact m.keypad.get_handle (.release key) k
  | endFrame => exact Keypad.get_endFrame m.keypad k
  | tick | setTimers => rfl
  | load program =>
    obtain ⟨memory, heq⟩ := eq_of_load m program
    rw [heq]
    rfl

/-! ## Held keys -/

theorem held_act {a : Action} (h : m.keypad.Held k) (ha : ¬m.Releases k a) :
    (m.act a).state.keypad.Held k := by
  obtain ⟨hpressed, hnot⟩ := h
  have hflags : a.onKey k (m.keypad.get k) = m.keypad.get k := by
    rcases hs : m.keypad.get k with ⟨pressed, released⟩
    rw [hs] at hpressed hnot
    cases a with
    | release key =>
      have hkey : key.toNat ≠ k.val := fun h => ha ⟨key, rfl, h, by rw [hs]; exact hpressed⟩
      rw [Action.onKey, if_neg hkey]
    | press key => simp_all [Action.onKey]
    | endFrame => simp_all [Action.onKey]
    | step | tick | setTimers | load => rfl
  rw [← get_act] at hflags
  exact ⟨hflags ▸ hpressed, hflags ▸ hnot⟩

/-- A release of a key takes effect in the course of a run. -/
def ReleasesIn (m : Machine) (k : Fin 16) (actions : List Action) : Prop :=
  ∃ p a q, actions = p ++ a :: q ∧ (m.run p).Releases k a

theorem releasesIn_cons {a : Action} {actions : List Action} :
    m.ReleasesIn k (a :: actions) ↔
      m.Releases k a ∨ (m.act a).state.ReleasesIn k actions := by
  constructor
  · rintro ⟨p, b, q, heq, hb⟩
    cases p with
    | nil =>
      obtain ⟨rfl, -⟩ := List.cons.inj heq
      exact .inl hb
    | cons c p =>
      obtain ⟨rfl, hrest⟩ := List.cons.inj heq
      exact .inr ⟨p, b, q, hrest, hb⟩
  · rintro (ha | ⟨p, b, q, heq, hb⟩)
    · exact ⟨[], a, actions, rfl, ha⟩
    · exact ⟨a :: p, b, q, congrArg (a :: ·) heq, hb⟩

/-- **A held key stays held until a release of it takes effect.** -/
theorem held_run {actions : List Action} (h : m.keypad.Held k)
    (hr : ¬m.ReleasesIn k actions) : (m.run actions).keypad.Held k := by
  induction actions generalizing m with
  | nil => exact h
  | cons a actions ih =>
    rw [releasesIn_cons, not_or] at hr
    exact ih (held_act h hr.1) hr.2

/-! ## Releases in the frame -/

theorem justReleased_act {a : Action} (h : (m.keypad.get k).justReleased = true)
    (ha : a ≠ .endFrame) : ((m.act a).state.keypad.get k).justReleased = true := by
  rw [get_act]
  cases a with
  | endFrame => exact absurd rfl ha
  | press key | release key =>
    simp only [Action.onKey]
    repeat' split
    all_goals first | exact h | rfl
  | step | tick | setTimers | load => exact h

theorem justReleased_of_releases {a : Action} (h : m.Releases k a) :
    ((m.act a).state.keypad.get k).justReleased = true := by
  obtain ⟨key, rfl, hkey, hpressed⟩ := h
  rw [get_act, Action.onKey, if_pos hkey, if_pos hpressed]

theorem justReleased_run {actions : List Action} (h : (m.keypad.get k).justReleased = true)
    (ha : Action.endFrame ∉ actions) : ((m.run actions).keypad.get k).justReleased = true := by
  refine run_induction (P := fun m => (m.keypad.get k).justReleased = true) h ?_
  intro m hm a hmem
  exact justReleased_act hm fun h => ha (h ▸ hmem)

/-- **A key that is not marked as released has seen its frame end since its last release.** -/
theorem endFrame_of_not_justReleased {p q : List Action} {a : Action}
    (h : ((m.run (p ++ a :: q)).keypad.get k).justReleased = false)
    (ha : (m.run p).Releases k a) : Action.endFrame ∈ q := by
  by_contra hq
  have hmark := justReleased_run (justReleased_of_releases ha) hq
  rw [run_append, run_cons, hmark] at h
  exact absurd h (by simp)

end Machine

end Chip8
