import Chip8.Text.Numeral

/-!
# Instructions

A word of the program splits into fields by bit position:

```text
  15..12  11..8  7..4  3..0
  family  x      y     n
                 nn--------
          nnn---------------
```

Every word has these fields. `Operation` lists what a word can ask for, and
`Instruction.operation?` finds out, for the machine, what a word asks for. The printed form
`Instruction.text` has a table of its own, `Instruction.mnemonic?`, which also leaves the words
nameless that ask for nothing.
-/

namespace Chip8

open Text (hexUpper)

/-- The number of one of the registers `V0` to `VF`. -/
abbrev Register := Fin 16

/-- There are registers, so that any number names one of them modulo sixteen. -/
@[instance] theorem Register.neZero : @NeZero Nat .ofOfNat0 16 := ⟨by decide⟩

/-- A word of the program. -/
structure Instruction where
  word : UInt16
  deriving DecidableEq, Repr

namespace Instruction

/-! ## Fields -/

/-- Bits 15 to 12. -/
def family (i : Instruction) : Fin 16 := Fin.ofNat 16 (i.word.toNat / 4096)

/-- Bits 11 to 8. -/
def x (i : Instruction) : Register := Fin.ofNat 16 (i.word.toNat / 256)

/-- Bits 7 to 4. -/
def y (i : Instruction) : Register := Fin.ofNat 16 (i.word.toNat / 16)

/-- Bits 3 to 0. -/
def n (i : Instruction) : Fin 16 := Fin.ofNat 16 i.word.toNat

/-- Bits 7 to 0. -/
def nn (i : Instruction) : UInt8 := i.word.toUInt8

/-- Bits 11 to 0. -/
def nnn (i : Instruction) : UInt16 := UInt16.ofNat (i.word.toNat % 4096)

end Instruction

/-! ## Operations -/

/-- What an instruction asks for. -/
inductive Operation
  /-- `00E0` -/
  | clear
  /-- `00EE` -/
  | ret
  /-- `1NNN` -/
  | jump (target : UInt16)
  /-- `2NNN` -/
  | call (target : UInt16)
  /-- `3XNN` -/
  | skipIfValue (x : Register) (value : UInt8)
  /-- `4XNN` -/
  | skipUnlessValue (x : Register) (value : UInt8)
  /-- `5XY_` -/
  | skipIfSame (x y : Register)
  /-- `6XNN` -/
  | setValue (x : Register) (value : UInt8)
  /-- `7XNN` -/
  | addValue (x : Register) (value : UInt8)
  /-- `8XY0` -/
  | move (x y : Register)
  /-- `8XY1` -/
  | or (x y : Register)
  /-- `8XY2` -/
  | and (x y : Register)
  /-- `8XY3` -/
  | xor (x y : Register)
  /-- `8XY4` -/
  | add (x y : Register)
  /-- `8XY5` -/
  | sub (x y : Register)
  /-- `8XY6` -/
  | shiftRight (x y : Register)
  /-- `8XY7` -/
  | subReversed (x y : Register)
  /-- `8XYE` -/
  | shiftLeft (x y : Register)
  /-- `9XY_` -/
  | skipUnlessSame (x y : Register)
  /-- `ANNN` -/
  | setIndex (addr : UInt16)
  /-- `BNNN`, whose second digit also names the register `x` -/
  | jumpOffset (x : Register) (target : UInt16)
  /-- `CXNN` -/
  | random (x : Register) (mask : UInt8)
  /-- `DXYN` -/
  | draw (x y : Register) (rows : Fin 16)
  /-- `EX9E` -/
  | skipIfKey (x : Register)
  /-- `EXA1` -/
  | skipUnlessKey (x : Register)
  /-- `FX07` -/
  | readDelay (x : Register)
  /-- `FX0A` -/
  | waitKey (x : Register)
  /-- `FX15` -/
  | setDelay (x : Register)
  /-- `FX18` -/
  | setSound (x : Register)
  /-- `FX1E` -/
  | addIndex (x : Register)
  /-- `FX29` -/
  | glyph (x : Register)
  /-- `FX33` -/
  | decimalDigits (x : Register)
  /-- `FX55` -/
  | store (x : Register)
  /-- `FX65` -/
  | load (x : Register)
  deriving DecidableEq, Repr

/-- The operation of an instruction; `none` for a word that has none. -/
def Instruction.operation? (i : Instruction) : Option Operation :=
  match i.family.val with
  | 0x0 => match i.nn, i.x.val with
    | 0xE0, 0 => some .clear
    | 0xEE, 0 => some .ret
    | _, _ => none
  | 0x1 => some (.jump i.nnn)
  | 0x2 => some (.call i.nnn)
  | 0x3 => some (.skipIfValue i.x i.nn)
  | 0x4 => some (.skipUnlessValue i.x i.nn)
  | 0x5 => some (.skipIfSame i.x i.y)
  | 0x6 => some (.setValue i.x i.nn)
  | 0x7 => some (.addValue i.x i.nn)
  | 0x8 => match i.n.val with
    | 0x0 => some (.move i.x i.y)
    | 0x1 => some (.or i.x i.y)
    | 0x2 => some (.and i.x i.y)
    | 0x3 => some (.xor i.x i.y)
    | 0x4 => some (.add i.x i.y)
    | 0x5 => some (.sub i.x i.y)
    | 0x6 => some (.shiftRight i.x i.y)
    | 0x7 => some (.subReversed i.x i.y)
    | 0xE => some (.shiftLeft i.x i.y)
    | _ => none
  | 0x9 => some (.skipUnlessSame i.x i.y)
  | 0xA => some (.setIndex i.nnn)
  | 0xB => some (.jumpOffset i.x i.nnn)
  | 0xC => some (.random i.x i.nn)
  | 0xD => some (.draw i.x i.y i.n)
  | 0xE => match i.nn with
    | 0x9E => some (.skipIfKey i.x)
    | 0xA1 => some (.skipUnlessKey i.x)
    | _ => none
  | 0xF => match i.nn with
    | 0x07 => some (.readDelay i.x)
    | 0x0A => some (.waitKey i.x)
    | 0x15 => some (.setDelay i.x)
    | 0x18 => some (.setSound i.x)
    | 0x1E => some (.addIndex i.x)
    | 0x29 => some (.glyph i.x)
    | 0x33 => some (.decimalDigits i.x)
    | 0x55 => some (.store i.x)
    | 0x65 => some (.load i.x)
    | _ => none
  | _ => none

/-! ## Printed form -/

/-- A register's name. -/
def registerName (x : Register) : String := "V" ++ hexUpper 1 x.val

/-- Which operands are printed. -/
inductive Layout
  | full
  | x
  | xy
  | xyn
  | xnn
  | nnn
  deriving DecidableEq, Repr

namespace Instruction

/-- The name of an instruction that asks for something, and the layout of its operands. -/
def mnemonic? (i : Instruction) : Option (String × Layout) :=
  match i.family.val with
  | 0x0 =>
    if i.word = 0x00E0 then some ("clear", .full)
    else if i.word = 0x00EE then some ("return", .full)
    else none
  | 0x1 => some ("jump", .nnn)
  | 0x2 => some ("call", .nnn)
  | 0x3 => some ("skipe", .xnn)
  | 0x4 => some ("skipne", .xnn)
  | 0x5 => some ("skipre", .xy)
  | 0x6 => some ("set", .xnn)
  | 0x7 => some ("add", .xnn)
  | 0x8 => match i.n.val with
    | 0x0 => some ("move", .xy)
    | 0x1 => some ("or", .xy)
    | 0x2 => some ("and", .xy)
    | 0x3 => some ("xor", .xy)
    | 0x4 => some ("addr", .xy)
    | 0x5 => some ("sub", .xy)
    | 0x6 => some ("shiftr", .xy)
    | 0x7 => some ("subr", .xy)
    | 0xE => some ("shiftl", .xy)
    | _ => none
  | 0x9 => some ("skiprne", .xy)
  | 0xA => some ("seti", .nnn)
  | 0xB => some ("jump0", .nnn)
  | 0xC => some ("rand", .xnn)
  | 0xD => some ("sprite", .xyn)
  | 0xE => match i.nn with
    | 0x9E => some ("skipkey", .x)
    | 0xA1 => some ("skipnkey", .x)
    | _ => none
  | 0xF => match i.nn with
    | 0x07 => some ("setfromdelay", .x)
    | 0x0A => some ("key", .x)
    | 0x15 => some ("settodelay", .x)
    | 0x18 => some ("settosound", .x)
    | 0x1E => some ("addi", .x)
    | 0x29 => some ("font", .x)
    | 0x33 => some ("bcd", .x)
    | 0x55 => some ("save", .x)
    | 0x65 => some ("load", .x)
    | _ => none
  | _ => none

/-- The operands of a layout in print, each with a blank in front. -/
def operandText (i : Instruction) : Layout → String
  | .full => ""
  | .x => " " ++ registerName i.x
  | .xy => " " ++ registerName i.x ++ " " ++ registerName i.y
  | .xyn => " " ++ registerName i.x ++ " " ++ registerName i.y ++ " " ++ hexUpper 1 i.n.val
  | .xnn => " " ++ registerName i.x ++ " " ++ hexUpper 2 i.nn.toNat
  | .nnn => " " ++ hexUpper 4 i.nnn.toNat

/-- The printed form of an instruction, which ends in its word. -/
def text (i : Instruction) : String :=
  (match i.mnemonic? with
    | some (name, layout) => name ++ i.operandText layout
    | none => "unknown") ++ " # " ++ hexUpper 4 i.word.toNat

end Instruction

end Chip8
