/-!
# Numerals

Writing numbers in base ten and sixteen, and reading them.

* `decimal`, `hex`, `hexUpper`: written forms, the last two padded with zeros to a least width;
* `readNumeral`: an optional plus sign and at least one digit, with a value below a limit. Digits
  are taken from the left, and the first one that is no digit or carries the value to the limit
  decides the error.
-/

namespace Chip8.Text

/-! ## Writing -/

/-- The number in base ten. -/
def decimal (n : Nat) : String :=
  String.ofList (Nat.toDigits 10 n)

/-- The last `width` digits of `n` in base sixteen, most significant first. -/
def hexDigits : (width n : Nat) → List Char
  | 0, _ => []
  | width + 1, n => hexDigits width (n / 16) ++ [Nat.digitChar (n % 16)]

/-- How many digits `n` takes in base sixteen, at least one. -/
def hexLength (n : Nat) : Nat :=
  Nat.log2 n / 4 + 1

/-- The number in base sixteen with small letters, in at least `width` digits. -/
def hex (width n : Nat) : String :=
  String.ofList (hexDigits (max width (hexLength n)) n)

/-- The number in base sixteen with capital letters, in at least `width` digits. -/
def hexUpper (width n : Nat) : String :=
  String.ofList ((hexDigits (max width (hexLength n)) n).map Char.toUpper)

/-! ## Reading -/

/-- Why a text is not a numeral. -/
inductive NumeralError
  | empty
  | invalidDigit
  | tooLarge
  deriving DecidableEq, Repr

/-- The error in words. -/
def NumeralError.message : NumeralError → String
  | .empty => "cannot parse integer from empty string"
  | .invalidDigit => "invalid digit found in string"
  | .tooLarge => "number too large to fit in target type"

/-- The value of a digit in base `base`, which is at most sixteen; letters of either case. -/
def digitValue? (base : Nat) (c : Char) : Option Nat :=
  let value? :=
    if '0' ≤ c ∧ c ≤ '9' then some (c.toNat - '0'.toNat)
    else if 'a' ≤ c ∧ c ≤ 'f' then some (c.toNat - 'a'.toNat + 10)
    else if 'A' ≤ c ∧ c ≤ 'F' then some (c.toNat - 'A'.toNat + 10)
    else none
  value?.filter (· < base)

/-- Reads the digits that follow a value already read; the value stays below `limit`. -/
def readDigits (base limit : Nat) : (value : Nat) → List Char → Except NumeralError Nat
  | value, [] => .ok value
  | value, c :: rest =>
    match digitValue? base c with
    | none => .error .invalidDigit
    | some digit =>
      if value * base + digit < limit then readDigits base limit (value * base + digit) rest
      else .error .tooLarge

/-- Reads a numeral of base `base` with a value below `limit`. -/
def readNumeral (base limit : Nat) : List Char → Except NumeralError Nat
  | [] => .error .empty
  | ['+'] => .error .invalidDigit
  | '+' :: digits => readDigits base limit 0 digits
  | digits => readDigits base limit 0 digits

end Chip8.Text
