import Chip8.Text.Rounded

/-!
# Rounding keeps the order

Of two whole numbers the greater one is held as the greater number or as the same (`rounded_mono`).
Within the numbers of one length it is the nearest multiple of one unit that is held
(`nearest_mono`); between two lengths there is a power of two, which is held as it is.
-/

namespace Chip8.Text

variable {unit m n : Nat}

/-- The multiple of `unit` that is nearest to `n`, and of two that are equally near the even one. -/
def nearest (unit n : Nat) : Nat :=
  (if unit < 2 * (n % unit) ∨ (2 * (n % unit) = unit ∧ n / unit % 2 = 1) then n / unit + 1
    else n / unit) * unit

theorem rounded_eq_nearest (n : Nat) : rounded n = nearest (1 <<< (Nat.log2 n - 52)) n := rfl

theorem nearest_of_dvd (hunit : 0 < unit) (h : unit ∣ n) : nearest unit n = n := by
  have hrest : n % unit = 0 := Nat.mod_eq_zero_of_dvd h
  rw [nearest, hrest, if_neg (by omega), Nat.div_mul_cancel h]

theorem nearest_mono (unit : Nat) (h : m ≤ n) : nearest unit m ≤ nearest unit n := by
  refine Nat.mul_le_mul_right unit ?_
  rcases Nat.lt_or_eq_of_le (Nat.div_le_div_right (c := unit) h) with hlow | hlow
  · split <;> split <;> omega
  · -- Both lie between the same two multiples, the smaller one nearer to the lower.
    have hm := Nat.div_add_mod m unit
    have hn := Nat.div_add_mod n unit
    rw [hlow] at hm
    have hrest : m % unit ≤ n % unit := by omega
    rw [hlow]
    split <;> split <;> omega

theorem log2_mono (h : m ≤ n) : Nat.log2 m ≤ Nat.log2 n := by
  by_cases hm : m = 0
  · simp [hm]
  · have hn : n ≠ 0 := by omega
    exact (Nat.le_log2 hn).2 (Nat.le_trans (Nat.log2_self_le hm) h)

/-- **Rounding keeps the order.** -/
theorem rounded_mono (h : m ≤ n) : rounded m ≤ rounded n := by
  rw [rounded_eq_nearest, rounded_eq_nearest]
  rcases Nat.lt_or_eq_of_le (log2_mono h) with hlog | hlog
  · -- The power of two at the longer number's length is a multiple of both units.
    have hn : n ≠ 0 := by
      rintro rfl
      simp at hlog
    have hm : m ≤ 1 <<< Nat.log2 n := by
      rw [Nat.one_shiftLeft]
      exact Nat.le_of_lt (Nat.lt_of_lt_of_le Nat.lt_log2_self
        (Nat.pow_le_pow_right (by omega) hlog))
    have hn : 1 <<< Nat.log2 n ≤ n := by
      rw [Nat.one_shiftLeft]
      exact Nat.log2_self_le hn
    have held : ∀ k ≤ Nat.log2 n, nearest (1 <<< k) (1 <<< Nat.log2 n) = 1 <<< Nat.log2 n := by
      intro k hk
      rw [Nat.one_shiftLeft, Nat.one_shiftLeft]
      exact nearest_of_dvd (Nat.two_pow_pos k) (Nat.pow_dvd_pow 2 hk)
    calc nearest (1 <<< (Nat.log2 m - 52)) m
        ≤ nearest (1 <<< (Nat.log2 m - 52)) (1 <<< Nat.log2 n) := nearest_mono _ hm
      _ = 1 <<< Nat.log2 n := held _ (by omega)
      _ = nearest (1 <<< (Nat.log2 n - 52)) (1 <<< Nat.log2 n) := (held _ (by omega)).symm
      _ ≤ nearest (1 <<< (Nat.log2 n - 52)) n := nearest_mono _ hn
  · rw [hlog]
    exact nearest_mono _ h

/-- A number of at most 53 bits is held as it is. -/
theorem rounded_of_lt (h : n < Nat.pow 2 53) : rounded n = n := by
  refine rounded_of_log2_lt ?_
  by_cases hn : n = 0
  · simp [hn]
  · exact (Nat.log2_lt hn).2 h

end Chip8.Text
