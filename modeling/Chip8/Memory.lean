import Chip8.Word

/-!
# Memory

Sixteen pages of 256 cells:

```text
  000-04F  unused
  050-09F  the font
  0A0-1FF  unused
  200-E8F  the program
  E90-FFF  free for the program's data, never loaded into
```

The stack, the registers and the screen lie outside it. Reading or writing past the last cell gets
stuck; a program that is too long and a write that wants more bytes than it is given fail and change
nothing.

* `place`: a run of bytes stored from a cell on, by `getElem_place`; loading and writing go through
  it.
-/

namespace Chip8

/-- The memory's cells. -/
structure Memory where
  cells : Vector UInt8 4096
  deriving DecidableEq

namespace Memory

/-! ## The map -/

/-- Where programs are loaded. -/
def programStart : UInt16 := 0x200

/-- How many bytes of program fit. -/
def programCapacity : Nat := 0xE90 - 0x200

/-- Where the font lies. -/
def fontStart : UInt16 := 0x050

/-- How many bytes a glyph takes. -/
def glyphHeight : Nat := 5

/-- The glyphs of the sixteen hexadecimal digits, one row of eight pixels a byte. -/
def font : List UInt8 :=
  [0xF0, 0x90, 0x90, 0x90, 0xF0, -- 0
    0x20, 0x60, 0x20, 0x20, 0x70, -- 1
    0xF0, 0x10, 0xF0, 0x80, 0xF0, -- 2
    0xF0, 0x10, 0xF0, 0x10, 0xF0, -- 3
    0x90, 0x90, 0xF0, 0x10, 0x10, -- 4
    0xF0, 0x80, 0xF0, 0x10, 0xF0, -- 5
    0xF0, 0x80, 0xF0, 0x90, 0xF0, -- 6
    0xF0, 0x10, 0x20, 0x40, 0x40, -- 7
    0xF0, 0x90, 0xF0, 0x90, 0xF0, -- 8
    0xF0, 0x90, 0xF0, 0x10, 0xF0, -- 9
    0xF0, 0x90, 0xF0, 0x90, 0x90, -- A
    0xE0, 0x90, 0xE0, 0x90, 0xE0, -- B
    0xF0, 0x80, 0x80, 0x80, 0xF0, -- C
    0xE0, 0x90, 0x90, 0x90, 0xE0, -- D
    0xF0, 0x80, 0xF0, 0x80, 0xF0, -- E
    0xF0, 0x80, 0xF0, 0x80, 0x80] -- F

/-- The address of a digit's glyph; only the low four bits of the digit count. -/
def glyphAddr (digit : UInt8) : UInt16 :=
  UInt16.ofNat (fontStart.toNat + digit.toNat % 16 * glyphHeight)

/-! ## Cells -/

/-- The byte in a cell. -/
def read (m : Memory) (addr : UInt16) : Result UInt8 :=
  match m.cells[addr.toNat]? with
  | some byte => .ok byte
  | none => .error .stuck

/-- The big-endian word in a cell and the next one. -/
def word (m : Memory) (addr : UInt16) : Result UInt16 :=
  match m.cells[addr.toNat]?, m.cells[addr.toNat + 1]? with
  | some high, some low => .ok (Word.ofBytes high low)
  | _, _ => .error .stuck

/-- The memory with `byte` in a cell. -/
def set (m : Memory) (addr : UInt16) (byte : UInt8) : Result Memory :=
  if addr.toNat < 4096 then .ok ⟨m.cells.setIfInBounds addr.toNat byte⟩ else .error .stuck

/-! ## Runs of cells -/

/-- The memory with the bytes in the cells from `start` on; bytes past the last cell are dropped. -/
def place (m : Memory) (start : Nat) : List UInt8 → Memory
  | [] => m
  | byte :: rest => place ⟨m.cells.setIfInBounds start byte⟩ (start + 1) rest

/-- The byte in a cell after bytes are placed. -/
theorem getElem_place (m : Memory) (start : Nat) (bytes : List UInt8) (i : Nat) (hi : i < 4096) :
    (m.place start bytes).cells[i] =
      if h : start ≤ i ∧ i - start < bytes.length then bytes[i - start] else m.cells[i] := by
  induction bytes generalizing m start with
  | nil => simp [place]
  | cons byte rest ih =>
    rw [place, ih]
    by_cases hs : start = i
    · subst hs
      simp only [List.length_cons, Nat.sub_self, Nat.le_refl, Vector.getElem_setIfInBounds_self]
      rw [dif_neg (by omega)]
      simp
    · by_cases hlt : start < i
      · have hsub : i - start = i - (start + 1) + 1 := by omega
        simp [hs, Nat.le_of_lt hlt, Nat.succ_le_of_lt hlt, hsub]
      · simp [hs, show ¬start ≤ i by omega, show ¬start + 1 ≤ i by omega]

/-- The bytes in `length` cells. -/
def slice (m : Memory) (addr : UInt16) (length : Nat) : Result (List UInt8) :=
  if addr.toNat + length ≤ 4096 then .ok ((m.cells.toList.drop addr.toNat).take length)
  else .error .stuck

/-- The memory with `byte` in `length` cells. -/
def fill (m : Memory) (addr : UInt16) (length : Nat) (byte : UInt8) : Result Memory :=
  if addr.toNat + length ≤ 4096 then .ok (m.place addr.toNat (List.replicate length byte))
  else .error .stuck

/-- The memory with the first `length` bytes of `bytes` in the cells from `addr` on. -/
def write (m : Memory) (bytes : List UInt8) (addr : UInt16) (length : Nat) : Result Memory :=
  if addr.toNat + length ≤ 4096 then
    if length ≤ bytes.length then .ok (m.place addr.toNat (bytes.take length))
    else .error (.fault (.transfer .shortData))
  else .error .stuck

/-! ## Programs -/

/-- Zeros but for the font. -/
def fresh : Memory :=
  place ⟨Vector.replicate 4096 0⟩ fontStart.toNat font

/-- Loads a program; the result is its length and the memory that holds it. -/
def load (m : Memory) (program : List UInt8) : Result (Nat × Memory) :=
  if program.length ≤ programCapacity then do
    let loaded ← m.write program programStart program.length
    return (program.length, loaded)
  else .error (.fault (.programTooLarge program.length programCapacity))

end Memory

end Chip8
