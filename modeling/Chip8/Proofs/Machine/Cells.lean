import Chip8.Proofs.Machine.Run

/-!
# The memory of a machine

What the cells of a machine's memory hold once a program is loaded: the program with zeros behind
it, and in front of it what they hold in every new machine.
-/

namespace Chip8

namespace Machine

variable {m : Machine} {image : List UInt8}

/-- What a load does that succeeds. -/
theorem act_load_of_le (h : image.length ≤ 0xC90) :
    m.act (.load image) =
      ⟨.ok (), { m with memory := m.memory.place Memory.programStart.toNat image }, []⟩ := by
  have hfits : image.length ≤ Memory.programCapacity := h
  have hload := m.memory.load_eq image
  rw [if_pos hfits] at hload
  simp only [act, load, hload]
  rfl

/-- A program that fits lies in a new machine, with zeros behind it. -/
theorem byteAt_loadedWith (dialect : Dialect) (seed : UInt64) (h : image.length ≤ 0xC90) {k : Nat}
    (hk : 0x200 + k < 4096) :
    (loadedWith dialect seed image).memory.byteAt (0x200 + k) = image[k]?.getD 0 := by
  have hstart : Memory.programStart.toNat = 0x200 := by decide
  rw [loadedWith, act_load_of_le h]
  dsimp only [fresh]
  rw [Memory.byteAt_place _ _ _ hk, hstart, if_pos (by omega), Nat.add_sub_cancel_left,
    Memory.byteAt_fresh_of_le (by omega) hk]

/-- Only a step changes the cells in front of the program. -/
theorem byteAt_act_of_lt {a : Action} (ha : a ≠ .step) {cell : Nat} (hcell : cell < 0x200) :
    (m.act a).state.memory.byteAt cell = m.memory.byteAt cell := by
  cases hload : a.isLoad with
  | false =>
    obtain ⟨memory, keypad, timers, heq, hmemory⟩ := m.act_outside ha
    rw [heq, hmemory hload]
  | true =>
    obtain ⟨image, rfl⟩ : ∃ image, a = .load image := by
      cases a <;> simp_all [Action.isLoad]
    simp only [act, load]
    cases hmemory : m.memory.load image with
    | ok loaded => exact Memory.byteAt_load_of_lt hmemory hcell
    | error stop => rfl

/-- The cells in front of the program hold what they hold in every new machine. -/
theorem byteAt_loadedWith_of_lt (dialect : Dialect) (seed : UInt64) (image : List UInt8)
    {cell : Nat} (hcell : cell < 0x200) :
    (loadedWith dialect seed image).memory.byteAt cell = Memory.fresh.byteAt cell :=
  byteAt_act_of_lt (m := fresh dialect seed) (a := .load image) (by simp) hcell

end Machine

end Chip8
