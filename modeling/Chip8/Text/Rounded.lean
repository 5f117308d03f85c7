import Chip8.Text.Numeral

/-!
# Whole numbers held in 53 bits

A real coordinate is held to 53 significant bits, and is written with the fewest digits that stand
for what is held.

* `rounded`: the number held for a whole number, the nearest there is, and of two that are equally
  near the one with an even significand;
* `shortest`: the number with the fewest significant digits that is held the same way;
* `roundedText`: the written form, with one place after the point below `10 ^ 16` and with an
  exponent from there on.
-/

namespace Chip8.Text

/-- The number held for `n`. -/
def rounded (n : Nat) : Nat :=
  let unit := 1 <<< (Nat.log2 n - 52)
  let low := n / unit
  let rest := n % unit
  (if unit < 2 * rest ∨ (2 * rest = unit ∧ low % 2 = 1) then low + 1 else low) * unit

/-- The multiple of `step` that is held as `held` and is nearest to it, if there is one. -/
def nearestMultiple (held step : Nat) : Option Nat :=
  let below := held / step * step
  let above := below + step
  if held - below ≤ above - held then
    if rounded below = held then some below else if rounded above = held then some above else none
  else
    if rounded above = held then some above else if rounded below = held then some below else none

/-- The number with the fewest significant digits that is held as `held`; seventeen are enough. -/
def shortest (held : Nat) : Nat :=
  let digits := (Nat.toDigits 10 held).length
  ((List.range 17).findSome? fun k =>
    nearestMultiple held (Nat.pow 10 (digits - (k + 1)))).getD held

/-- The digits in front of the zeros at the end. -/
def withoutZeros (digits : List Char) : List Char :=
  (digits.reverse.dropWhile (· == '0')).reverse

/-- A number of at least one digit as a significand between one and ten, and an exponent. -/
def exponentText (n : Nat) : String :=
  match Nat.toDigits 10 n with
  | [] => ""
  | first :: rest =>
    let fraction := withoutZeros rest
    let point := if fraction = [] then [] else ['.']
    String.ofList (first :: point ++ fraction) ++ "e" ++ decimal rest.length

/-- The number held for `n`, in text. -/
def roundedText (n : Nat) : String :=
  let held := rounded n
  if held < Nat.pow 10 16 then decimal held ++ ".0" else exponentText (shortest held)

theorem rounded_of_log2_lt {n : Nat} (h : Nat.log2 n < 53) : rounded n = n := by
  have hlog : Nat.log2 n - 52 = 0 := by omega
  simp [rounded, hlog, Nat.mod_one]

end Chip8.Text
