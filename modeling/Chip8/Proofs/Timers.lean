import Chip8.Timers

/-!
# Counting instructions

The clock that counts instructions ends a frame with every instruction whose number the period
divides (`FrameClock.Counted.due`), and goes on counting from there. A timer that falls is one less,
or stays zero.
-/

namespace Chip8

namespace FrameClock

variable {c : FrameClock} {period n : Nat}

/-- The clock counts in a period, and has counted a number of instructions. -/
structure Counted (c : FrameClock) (period n : Nat) : Prop where
  pos : 0 < period
  period_eq : c.period = period
  count_eq : c.count = n % period

theorem counted_ofRate (rate : UInt32) :
    (ofRate rate).Counted (max 1 (rate.toNat / 60)) 0 :=
  ⟨by omega, rfl, (Nat.zero_mod _).symm⟩

theorem mod_succ (h : 0 < period) (n : Nat) :
    (n + 1) % period = if period ≤ n % period + 1 then 0 else n % period + 1 := by
  have hlt := Nat.mod_lt n h
  rw [← Nat.mod_add_mod]
  split
  · have hlast : n % period + 1 = period := by omega
    rw [hlast, Nat.mod_self]
  · exact Nat.mod_eq_of_lt (by omega)

/-- **The instructions that end a frame are those whose number the period divides.** -/
theorem Counted.due (h : c.Counted period n) : c.advance.1 = true ↔ period ∣ n + 1 := by
  rw [FrameClock.advance, h.period_eq, h.count_eq, Nat.dvd_iff_mod_eq_zero, mod_succ h.pos]
  split <;> simp

theorem Counted.advance (h : c.Counted period n) : c.advance.2.Counted period (n + 1) := by
  have hsucc := mod_succ h.pos n
  rw [← h.count_eq] at hsucc
  rw [FrameClock.advance, h.period_eq]
  split
  · rename_i hdue
    rw [if_pos hdue] at hsucc
    exact ⟨h.pos, rfl, hsucc.symm⟩
  · rename_i hdue
    rw [if_neg hdue] at hsucc
    exact ⟨h.pos, rfl, hsucc.symm⟩

end FrameClock

theorem Timers.toNat_fall (count : UInt8) : (fall count).toNat = count.toNat - 1 := by
  unfold fall
  split
  · rename_i hzero
    rw [hzero]
    rfl
  · rename_i hne
    have hpos : count.toNat ≠ 0 := fun h => hne (UInt8.toNat_inj.1 h)
    have hle : (1 : UInt8) ≤ count := UInt8.le_iff_toNat_le.2 (Nat.one_le_iff_ne_zero.2 hpos)
    rw [UInt8.toNat_sub_of_le _ _ hle]
    rfl

end Chip8
