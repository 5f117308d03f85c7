import Chip8.Instruction
import Chip8.Word

/-!
# Listings

A program image read word by word and printed as instructions. Data between the instructions is
read the same way; a last odd byte is taken with a zero behind it.

Offsets into the image are counted in sixteen bits. The address of an entry is its offset added to
the origin modulo `2 ^ 16`, but the offset itself does not wrap: a listing ends, incomplete, in
front of the first word whose offset does not fit.
-/

namespace Chip8

open Text (hex)

/-- One line of a listing. -/
structure Entry where
  addr : UInt16
  instruction : Instruction
  deriving DecidableEq, Repr

/-- The line in print. -/
def Entry.text (entry : Entry) : String :=
  hex 3 entry.addr.toNat ++ "  " ++ entry.instruction.text

/-- The lines of a program image, and whether they reach its end. -/
structure Listing where
  entries : List Entry
  complete : Bool
  deriving DecidableEq, Repr

namespace Listing

/-- The listing of the bytes that start `offset` bytes into an image placed at `origin`. -/
def startingAt (origin : UInt16) : (offset : Nat) → List UInt8 → Listing
  | _, [] => ⟨[], true⟩
  | offset, [last] => add offset last 0 ⟨[], true⟩
  | offset, high :: low :: rest =>
    if offset < 65536 then add offset high low (startingAt origin (offset + 2) rest)
    else ⟨[], false⟩
where
  add (offset : Nat) (high low : UInt8) (rest : Listing) : Listing :=
    if offset < 65536 then
      ⟨⟨origin + UInt16.ofNat offset, ⟨Word.ofBytes high low⟩⟩ :: rest.entries, rest.complete⟩
    else ⟨[], false⟩

end Listing

/-- The listing of a whole image placed at `origin`. -/
def disassemble (origin : UInt16) (image : List UInt8) : Listing :=
  .startingAt origin 0 image

end Chip8
