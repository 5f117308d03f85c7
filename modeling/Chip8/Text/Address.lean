import Chip8.Text.Blank
import Chip8.Text.Numeral

/-!
# Addresses in text

A sixteen-bit address is a hexadecimal numeral behind an optional mark. There are two readers:

* `readMarkedAddress`, for arguments: any number of `0x` marks and then any number of `0X` marks
  are skipped;
* `readAddress?`, for the debugger's console: the text is trimmed and one mark of either case is
  skipped.
-/

namespace Chip8.Text

/-- The text behind all the leading marks `0` `letter`. -/
def skipMarks (letter : Char) : List Char → List Char
  | '0' :: c :: rest => if c = letter then skipMarks letter rest else '0' :: c :: rest
  | text => text

/-- The text behind one leading mark, if it has one. -/
def skipMark : List Char → List Char
  | '0' :: 'x' :: rest => rest
  | '0' :: 'X' :: rest => rest
  | text => text

/-- Reads an address of an argument. -/
def readMarkedAddress (text : List Char) : Except NumeralError UInt16 :=
  (readNumeral 16 65536 (skipMarks 'X' (skipMarks 'x' text))).map UInt16.ofNat

/-- What is wrong with the text `text` of an argument, in words. -/
def addressComplaint (text : String) (error : NumeralError) : String :=
  text ++ ": " ++ error.message

/-- Reads an address typed at the console. -/
def readAddress? (text : List Char) : Option UInt16 :=
  match readNumeral 16 65536 (skipMark (trim text)) with
  | .ok value => some (UInt16.ofNat value)
  | .error _ => none

end Chip8.Text
