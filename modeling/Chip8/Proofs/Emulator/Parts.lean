import Chip8.Emulator
import Chip8.Proofs.Machine.Keys

/-!
# The parties of a cycle

What the input and the end of a frame do to the machine, what a call does to the host, and what the
sound timer does to the beeper.
-/

namespace Chip8

/-! ## The machine -/

namespace Machine

/-- What a machine takes from an entry of the input's script; the result says whether to go on. -/
def hear (m : Machine) : Scripted → Outcome Machine Flow
  | .idle => ⟨.ok .proceed, m, []⟩
  | .press key =>
    ⟨(m.act (.press key)).result.map fun _ => .proceed, (m.act (.press key)).state, []⟩
  | .release key =>
    ⟨(m.act (.release key)).result.map fun _ => .proceed, (m.act (.release key)).state, []⟩
  | .quit => ⟨.ok .quit, m, [.notice .quitAsked]⟩

/-- The machine after its timers fell, unless they are held. -/
def ticked (m : Machine) : Machine :=
  if m.timersHeld then m else { m with timers := m.timers.tick }

/-- The machine after the end of a frame. -/
def endFrame (m : Machine) : Machine :=
  { m.ticked with keypad := m.ticked.keypad.endFrame }

variable {m : Machine}

theorem ticked_eq (m : Machine) : ∃ timers, m.ticked = { m with timers } := by
  unfold ticked
  split
  · exact ⟨_, rfl⟩
  · exact ⟨_, rfl⟩

/-- An entry changes the keypad only. -/
theorem state_hear (m : Machine) (entry : Scripted) :
    ∃ keypad, (m.hear entry).state = { m with keypad } := by
  cases entry with
  | idle | quit => exact ⟨_, rfl⟩
  | press key =>
    cases hkey : Keypad.keyOf key with
    | ok k => exact ⟨_, congrArg Outcome.state (act_press hkey)⟩
    | error stop => exact ⟨_, congrArg Outcome.state (act_press_error hkey)⟩
  | release key =>
    cases hkey : Keypad.keyOf key with
    | ok k => exact ⟨_, congrArg Outcome.state (act_release hkey)⟩
    | error stop => exact ⟨_, congrArg Outcome.state (act_release_error hkey)⟩

theorem hear_release {key : UInt8} {k : Fin 16} (h : key.toNat = k.val) :
    m.hear (.release key) = ⟨.ok .proceed, { m with keypad := m.keypad.releaseKey k }, []⟩ := by
  rw [hear, act_release (Keypad.keyOf_eq_ok.2 h)]
  rfl

/-- A machine that does not go on from an entry is what it was. -/
theorem state_hear_of_ne {entry : Scripted} (h : (m.hear entry).result ≠ .ok .proceed) :
    (m.hear entry).state = m := by
  cases entry with
  | idle | quit => rfl
  | press key =>
    cases hkey : Keypad.keyOf key with
    | ok k => simp [hear, act_press hkey, Except.map] at h
    | error stop => exact congrArg Outcome.state (act_press_error hkey)
  | release key =>
    cases hkey : Keypad.keyOf key with
    | ok k => simp [hear, act_release hkey, Except.map] at h
    | error stop => exact congrArg Outcome.state (act_release_error hkey)

/-- What the rest of a cycle may do to the machine: the timers fall, and then the keypad forgets the
frame's releases. -/
structure Settles (m m' : Machine) : Prop where
  eq : ∃ timers keypad, m' = { m with timers, keypad }
  keypad : m'.keypad = m.keypad ∨ m'.keypad = m.keypad.endFrame

theorem Settles.refl (m : Machine) : m.Settles m := ⟨⟨_, _, rfl⟩, .inl rfl⟩

theorem settles_ticked (m : Machine) : m.Settles m.ticked := by
  obtain ⟨timers, h⟩ := m.ticked_eq
  rw [h]
  exact ⟨⟨_, _, rfl⟩, .inl rfl⟩

theorem settles_endFrame (m : Machine) : m.Settles m.endFrame := by
  obtain ⟨timers, h⟩ := m.ticked_eq
  rw [endFrame, h]
  exact ⟨⟨_, _, rfl⟩, .inr rfl⟩

end Machine

/-! ## The host -/

namespace Host

/-- The host refuses no call. -/
def Obliging (h : Host) : Prop := ∀ call n, h.refuses call n = false

theorem receive_eq (h : Host) (call : HostCall) :
    ∃ calls, (h.receive call).2 = { h with calls } := by
  unfold receive
  split
  · exact ⟨h.calls, rfl⟩
  · exact ⟨_, rfl⟩

theorem Obliging.congr {h h' : Host} (hh : h.Obliging) (heq : h'.refuses = h.refuses) :
    h'.Obliging := by
  intro call n
  rw [heq]
  exact hh call n

theorem Obliging.receive {h : Host} (hh : h.Obliging) (call : HostCall) :
    (h.receive call).1 = true := by
  unfold Host.receive
  split
  · rfl
  · simp [hh call]

end Host

/-- The beeper after it was made to follow the sound timer. -/
def Beeper.follow (b : Beeper) (on : Bool) : Beeper :=
  if on != b.sounding then b.switch on else b

end Chip8
