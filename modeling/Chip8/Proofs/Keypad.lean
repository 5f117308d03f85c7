import Chip8.Machine
import Chip8.Proofs.Result

/-!
# Keys and their numbers

A number below sixteen names a key: the questions about it are answered by the key's flags, and a
question about any other number is refused. A key that is down and did not go up in the frame is
`Held`.
-/

namespace Chip8

theorem KeyNumber.toNat_of (k : Fin 16) : (KeyNumber.of k).toNat = k.val := by
  rw [of, UInt8.toNat_ofNat']
  omega

theorem KeyNumber.eq_of_iff {key : KeyNumber} {k : Fin 16} : key = .of k ↔ key.toNat = k.val := by
  rw [← UInt8.toNat_inj, toNat_of]

theorem KeyNumber.eq_of {key : KeyNumber} {k : Fin 16} (h : key.toNat = k.val) : key = .of k :=
  eq_of_iff.2 h

namespace Keypad

variable {p : Keypad} {key : KeyNumber} {k : Fin 16}

theorem get_fresh (k : Fin 16) : fresh.get k = {} := by
  simp [get, fresh]

theorem keyOf_eq_ok : keyOf key = .ok k ↔ key.toNat = k.val := by
  unfold keyOf
  split
  · rw [Except.ok.injEq, Fin.ext_iff]
  · have hk := k.isLt
    simp only [reduceCtorEq, false_iff]
    omega

theorem keyOf_of_le (h : 16 ≤ key.toNat) : keyOf key = .error (.fault (.invalidKey key)) :=
  dif_neg (Nat.not_lt.2 h)

theorem isPressed_eq (h : key.toNat = k.val) : p.isPressed key = .ok (p.get k).pressed := by
  rw [isPressed, keyOf_eq_ok.2 h]
  rfl

theorem isPressed_of_le (h : 16 ≤ key.toNat) :
    p.isPressed key = .error (.fault (.invalidKey key)) := by
  rw [isPressed, keyOf_of_le h]
  rfl

theorem wasReleased_eq (h : key.toNat = k.val) :
    p.wasReleased key = .ok (p.get k).justReleased := by
  rw [wasReleased, keyOf_eq_ok.2 h]
  rfl

theorem wasReleased_of_le (h : 16 ≤ key.toNat) :
    p.wasReleased key = .error (.fault (.invalidKey key)) := by
  rw [wasReleased, keyOf_of_le h]
  rfl

theorem state?_eq (h : key.toNat = k.val) : p.state? key = some (p.get k) := by
  rw [state?, h, Vector.getElem?_eq_getElem k.isLt]
  rfl

theorem state?_of_le (h : 16 ≤ key.toNat) : p.state? key = none :=
  Vector.getElem?_eq_none h

theorem isPressed_ne_stuck (p : Keypad) (key : KeyNumber) : p.isPressed key ≠ .error .stuck := by
  unfold isPressed keyOf
  split <;> simp [ok_bind, error_bind, pure, Except.pure]

/-- A key is down and did not go up since the last frame ended. -/
structure Held (p : Keypad) (k : Fin 16) : Prop where
  pressed : (p.get k).pressed = true
  notReleased : (p.get k).justReleased = false

theorem held_iff : ((p.get k).pressed && !(p.get k).justReleased) = true ↔ p.Held k := by
  rw [Bool.and_eq_true, Bool.not_eq_true']
  exact ⟨fun h => ⟨h.1, h.2⟩, fun h => ⟨h.pressed, h.notReleased⟩⟩

theorem held_of_firstFresh (h : p.firstFresh = some k) : p.Held k := by
  have hk := List.find?_some h
  exact held_iff.1 hk

theorem not_held_releaseKey (p : Keypad) (k : Fin 16) : ¬(p.releaseKey k).Held k := by
  intro h
  have hpressed := h.pressed
  rw [releaseKey, get_update, if_pos rfl] at hpressed
  split at hpressed
  · exact absurd hpressed (by simp)
  · rename_i hup
    exact hup hpressed

end Keypad

namespace KeyWait

variable {key : KeyNumber} {j k : Fin 16}

theorem untilUp_eq_release : untilUp k = .release key ↔ key.toNat = k.val := by
  rw [untilUp, release.injEq, ← UInt8.toNat_inj, KeyNumber.toNat_of]
  exact eq_comm

theorem untilUp_inj : untilUp j = untilUp k ↔ j = k := by
  refine Iff.trans untilUp_eq_release ?_
  rw [KeyNumber.toNat_of, Fin.ext_iff]
  exact eq_comm

end KeyWait

end Chip8
