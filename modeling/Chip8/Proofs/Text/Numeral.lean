import Mathlib.Data.List.Forall2
import Mathlib.Data.Nat.Digits.Defs
import Mathlib.Tactic.Ring
import Chip8.Text.Numeral

/-!
# Which texts are numerals

A numeral of base sixteen is an optional plus sign and at least one digit, the most significant one
first, with letters of either case and as many zeros in front as one likes (`IsHexNumeral`). Exactly
these are read, if their value is below the limit (`readNumeral_eq_ok_iff`): a value that comes to
the limit on the way does not go back under it.

* `readDigits_eq_ok_iff`: the digits that are read behind a value already read;
* `readNumeral_hexUpper_four`: the four digits in which a word is printed.
-/

namespace Chip8.Text

variable {limit n : Nat} {text digits : List Char} {c : Char}

/-! ## Digits -/

/-- A digit of a word in print. -/
def upperDigit (d : Nat) : Char := (Nat.digitChar d).toUpper

theorem digitValue?_upperDigit : ∀ d < 16, digitValue? 16 (upperDigit d) = some d := by decide

theorem digitValue?_digitChar : ∀ d < 16, digitValue? 16 (Nat.digitChar d) = some d := by decide

/-- The character is the digit of a value below sixteen, a letter in either case. -/
def IsHexDigit (c : Char) (d : Nat) : Prop :=
  d < 16 ∧ (c = Nat.digitChar d ∨ c = upperDigit d)

instance (c : Char) (d : Nat) : Decidable (IsHexDigit c d) := inferInstanceAs (Decidable (_ ∧ _))

/-- Only characters of ASCII have a value. -/
theorem digitValue?_of_le (h : 128 ≤ c.toNat) : digitValue? 16 c = none := by
  have above : ∀ last : Char, last.toNat < 128 → ¬c ≤ last := by
    intro last hlast hle
    have hle : c.toNat ≤ last.toNat := hle
    omega
  simp [digitValue?, above]

theorem isHexDigit_ofNat : ∀ n < 128, ∀ d ∈ digitValue? 16 (Char.ofNat n),
    IsHexDigit (Char.ofNat n) d := by decide

/-- **A character has the value of the digit that it is.** -/
theorem digitValue?_eq_some_iff {d : Nat} : digitValue? 16 c = some d ↔ IsHexDigit c d := by
  constructor
  · intro h
    by_cases hc : c.toNat < 128
    · have hdigit := isHexDigit_ofNat c.toNat hc d
      rw [Char.ofNat_toNat] at hdigit
      exact hdigit h
    · rw [digitValue?_of_le (by omega)] at h
      cases h
  · rintro ⟨hd, rfl | rfl⟩
    · exact digitValue?_digitChar d hd
    · exact digitValue?_upperDigit d hd

/-- The characters are digits of base sixteen, the most significant one first, of the number `n`. -/
def SpellsHex (digits : List Char) (n : Nat) : Prop :=
  ∃ values, List.Forall₂ IsHexDigit digits values ∧ Nat.ofDigits 16 values.reverse = n

theorem ofDigits_reverse_cons (d : Nat) (values : List Nat) :
    Nat.ofDigits 16 (d :: values).reverse =
      d * 16 ^ values.length + Nat.ofDigits 16 values.reverse := by
  rw [List.reverse_cons, Nat.ofDigits_append, Nat.ofDigits_singleton, List.length_reverse]
  ring

/-! ## Reading -/

/-- **Digits are read behind a value** as the digits of a number that is added to as many shifts of
the value, if the sum is below the limit. -/
theorem readDigits_eq_ok_iff {value : Nat} (h : value < limit) :
    readDigits 16 limit value digits = .ok n ↔ n < limit ∧ ∃ values,
      List.Forall₂ IsHexDigit digits values ∧
        n = value * 16 ^ values.length + Nat.ofDigits 16 values.reverse := by
  induction digits generalizing value with
  | nil =>
    rw [readDigits, Except.ok.injEq]
    constructor
    · rintro rfl
      exact ⟨h, [], .nil, by simp⟩
    · rintro ⟨-, values, hvalues, heq⟩
      obtain rfl := List.forall₂_nil_left_iff.1 hvalues
      simpa using heq.symm
  | cons c digits ih =>
    rw [readDigits]
    constructor
    · intro hread
      cases hdigit : digitValue? 16 c with
      | none => simp [hdigit] at hread
      | some d =>
        simp only [hdigit] at hread
        split at hread
        case isFalse => cases hread
        case isTrue hlt =>
          obtain ⟨hn, values, hvalues, heq⟩ := (ih hlt).1 hread
          refine ⟨hn, d :: values, .cons (digitValue?_eq_some_iff.1 hdigit) hvalues, ?_⟩
          rw [heq, ofDigits_reverse_cons, List.length_cons]
          ring
    · rintro ⟨hn, values, hvalues, heq⟩
      obtain ⟨d, rest, hdigit, hrest, rfl⟩ := List.forall₂_cons_left_iff.1 hvalues
      have hsum : n = (value * 16 + d) * 16 ^ rest.length + Nat.ofDigits 16 rest.reverse := by
        rw [heq, ofDigits_reverse_cons, List.length_cons]
        ring
      -- The value read so far is at most the whole.
      have hle : value * 16 + d ≤ (value * 16 + d) * 16 ^ rest.length :=
        Nat.le_mul_of_pos_right _ (Nat.pow_pos (by omega))
      have hlt : value * 16 + d < limit := by omega
      simp only [digitValue?_eq_some_iff.2 hdigit, if_pos hlt]
      exact (ih hlt).2 ⟨hn, rest, hrest, hsum⟩

theorem readDigits_zero_eq_ok_iff (h : 0 < limit) :
    readDigits 16 limit 0 digits = .ok n ↔ n < limit ∧ SpellsHex digits n := by
  rw [readDigits_eq_ok_iff h]
  simp only [Nat.zero_mul, Nat.zero_add, SpellsHex, eq_comm]

/-- What holds of the sixteen digits, in either case, holds of all characters of a spelling. -/
theorem SpellsHex.forall_mem {P : Char → Prop} (h : SpellsHex digits n)
    (hP : ∀ d < 16, P (Nat.digitChar d) ∧ P (upperDigit d)) : ∀ c ∈ digits, P c := by
  obtain ⟨values, hvalues, -⟩ := h
  induction hvalues with
  | nil => simp
  | cons hdigit _ ih =>
    obtain ⟨hd, rfl | rfl⟩ := hdigit
    · exact List.forall_mem_cons.2 ⟨(hP _ hd).1, ih⟩
    · exact List.forall_mem_cons.2 ⟨(hP _ hd).2, ih⟩

theorem SpellsHex.plus_notMem (h : SpellsHex digits n) : '+' ∉ digits := by
  intro hmem
  have hdigit := h.forall_mem (P := (· ≠ '+')) (by decide) '+' hmem
  exact hdigit rfl

/-- A numeral of base sixteen: digits, behind a plus sign or not. -/
def IsHexNumeral (text : List Char) (n : Nat) : Prop :=
  ∃ digits, digits ≠ [] ∧ SpellsHex digits n ∧ (text = digits ∨ text = '+' :: digits)

/-- What holds of the plus sign and of the sixteen digits, in either case, holds of all characters
of a numeral. -/
theorem IsHexNumeral.forall_mem {P : Char → Prop} (h : IsHexNumeral text n) (hplus : P '+')
    (hP : ∀ d < 16, P (Nat.digitChar d) ∧ P (upperDigit d)) : ∀ c ∈ text, P c := by
  obtain ⟨digits, -, hdigits, rfl | rfl⟩ := h
  · exact hdigits.forall_mem hP
  · exact List.forall_mem_cons.2 ⟨hplus, hdigits.forall_mem hP⟩

/-- **Exactly the numerals with a value below the limit are read.** -/
theorem readNumeral_eq_ok_iff (h : 0 < limit) :
    readNumeral 16 limit text = .ok n ↔ n < limit ∧ IsHexNumeral text n := by
  -- Behind a plus sign there are digits, and none of them is a plus sign.
  have hsigned : ∀ digits, IsHexNumeral ('+' :: digits) n ↔ digits ≠ [] ∧ SpellsHex digits n := by
    intro digits
    constructor
    · rintro ⟨digits', hne, hdigits, rfl | heq⟩
      · exact absurd (List.mem_cons_self ..) hdigits.plus_notMem
      · obtain rfl := (List.cons.inj heq).2
        exact ⟨hne, hdigits⟩
    · rintro ⟨hne, hdigits⟩
      exact ⟨digits, hne, hdigits, .inr rfl⟩
  fun_cases readNumeral 16 limit text with
  | case1 =>
    refine iff_of_false (by simp) ?_
    rintro ⟨-, digits, hne, -, rfl | heq⟩
    · exact hne rfl
    · cases heq
  | case2 =>
    refine iff_of_false (by simp) ?_
    rintro ⟨-, hnumeral⟩
    exact ((hsigned []).1 hnumeral).1 rfl
  | case3 digits hne =>
    have hne : digits ≠ [] := by simpa using hne
    rw [readDigits_zero_eq_ok_iff h, hsigned, and_iff_right hne]
  | case4 _ hne _ hsign =>
    rw [readDigits_zero_eq_ok_iff h, and_congr_right_iff]
    intro _
    constructor
    · exact fun hdigits => ⟨text, hne, hdigits, .inl rfl⟩
    · rintro ⟨digits, -, hdigits, rfl | rfl⟩
      · exact hdigits
      · exact (hsign digits rfl).elim

/-! ## Words in print -/

theorem toList_hexUpper_four (h : n < 65536) : (hexUpper 4 n).toList =
    [upperDigit (n / 4096), upperDigit (n / 256 % 16), upperDigit (n / 16 % 16),
      upperDigit (n % 16)] := by
  have hlength : hexLength n ≤ 4 := by
    by_cases hn : n = 0
    · simp [hn, hexLength]
    · have hlog := (Nat.log2_lt hn).2 (show n < 2 ^ 16 from h)
      unfold hexLength
      omega
  have hfirst : n / 16 / 16 / 16 % 16 = n / 4096 := by omega
  have hsecond : n / 16 / 16 % 16 = n / 256 % 16 := by omega
  rw [hexUpper, Nat.max_eq_left hlength, String.toList_ofList]
  simp [hexDigits, upperDigit, hfirst, hsecond]

theorem isHexNumeral_hexUpper_four (h : n < 65536) : IsHexNumeral (hexUpper 4 n).toList n := by
  have hdigit : ∀ d < 16, IsHexDigit (upperDigit d) d := fun d hd => ⟨hd, .inr rfl⟩
  rw [toList_hexUpper_four h]
  refine ⟨_, List.cons_ne_nil _ _,
    ⟨[n / 4096, n / 256 % 16, n / 16 % 16, n % 16], ?_, ?_⟩, .inl rfl⟩
  · exact .cons (hdigit _ (by omega)) (.cons (hdigit _ (by omega)) (.cons (hdigit _ (by omega))
      (.cons (hdigit _ (by omega)) .nil)))
  · simp only [List.reverse_cons, List.reverse_nil, List.nil_append, List.cons_append,
      Nat.ofDigits_cons, Nat.ofDigits_nil]
    omega

/-- **The four digits of a word are read as the word.** -/
theorem readNumeral_hexUpper_four (h : n < 65536) :
    readNumeral 16 65536 (hexUpper 4 n).toList = .ok n :=
  (readNumeral_eq_ok_iff (by omega)).2 ⟨h, isHexNumeral_hexUpper_four h⟩

end Chip8.Text
