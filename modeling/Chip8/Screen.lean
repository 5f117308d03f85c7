import Chip8.Word

/-!
# The screen

Thirty-two rows of sixty-four pixels, each a byte: one if the pixel is lit, zero if it is dark. The
screen changes in two ways only: it is cleared, or a sprite is drawn on it by exclusive or.

* `drawSprite` flips one pixel after the other, and gets stuck at a place that is off the screen;
* `draw` and `hits` tell what the screen is after that, and whether a lit pixel was turned off.

A sprite is drawn from the top-left corner that its coordinates name modulo the screen's size.
What then runs off the right or the bottom edge is dropped.
-/

namespace Chip8

/-- The pixels row by row, from the left within a row. -/
structure Screen where
  pixels : Vector UInt8 2048
  deriving DecidableEq

namespace Screen

/-- All pixels dark. -/
def blank : Screen := ⟨Vector.replicate 2048 0⟩

/-- The pixel in column `x` of row `y`. -/
def pixel (s : Screen) (x : Fin 64) (y : Fin 32) : UInt8 :=
  s.pixels[y.val * 64 + x.val]

/-- Whether the pixel at place `y * 64 + x` is lit, if there is such a place. -/
def pixelAt? (s : Screen) (x y : Nat) : Option Bool :=
  s.pixels[y * 64 + x]?.map (· == 1)

/-- How many pixels are lit. -/
def litCount (s : Screen) : Nat :=
  s.pixels.count 1

/-- The rows, each as a word whose most significant bit is the leftmost pixel. -/
def rows (s : Screen) : Vector (BitVec 64) 32 :=
  Vector.ofFn fun y =>
    (List.finRange 64).foldl (fun word x => word.shiftConcat (s.pixel x y == 1)) 0

/-! ## Drawing pixel by pixel -/

/-- The places of the pixels that a sprite drawn at `(x, y)` flips, one for each of its bits that
is set and does not run off an edge. -/
def places (x y : UInt8) (sprite : List UInt8) : List Nat :=
  (sprite.zipIdx (y.toNat % 32)).flatMap fun (byte, row) =>
    ((List.range' (x.toNat % 64) 8).filter fun col =>
      row < 32 && col < 64 && byte.toBitVec.getMsbD (col - x.toNat % 64)).map fun col =>
        row * 64 + col

/-- Flips the pixel at a place. The flag rises if the pixel was lit. -/
def flip (drawn : Screen × Bool) (place : Nat) : Result (Screen × Bool) :=
  if h : place < 2048 then
    .ok (⟨drawn.1.pixels.set place (drawn.1.pixels[place] ^^^ 1)⟩,
      drawn.2 || drawn.1.pixels[place] == 1)
  else .error .stuck

/-- Draws a sprite at `(x, y)`; the flag tells whether this turned a lit pixel off. -/
def drawSprite (s : Screen) (x y : UInt8) (sprite : List UInt8) : Result (Screen × Bool) :=
  (places x y sprite).foldlM flip (s, false)

/-! ## Drawing at once -/

/-- A sprite drawn at `(x, y)` has a set bit that lands in column `col` of row `row`. -/
def covers (x y : UInt8) (sprite : List UInt8) (col row : Nat) : Bool :=
  y.toNat % 32 ≤ row && x.toNat % 64 ≤ col && col < x.toNat % 64 + 8 &&
    match sprite[row - y.toNat % 32]? with
    | some byte => byte.toBitVec.getMsbD (col - x.toNat % 64)
    | none => false

/-- The screen after a sprite is drawn at `(x, y)`. -/
def draw (s : Screen) (x y : UInt8) (sprite : List UInt8) : Screen :=
  ⟨Vector.ofFn fun place => s.pixels.get place ^^^
    if covers x y sprite (place.val % 64) (place.val / 64) then 1 else 0⟩

/-- Whether a sprite drawn at `(x, y)` turns a lit pixel off. -/
def hits (s : Screen) (x y : UInt8) (sprite : List UInt8) : Bool :=
  (List.finRange 2048).any fun place =>
    covers x y sprite (place.val % 64) (place.val / 64) && s.pixels.get place == 1

/-! ## Text -/

/-- A row in text: `#` for a lit pixel, `.` for a dark one, and a newline. -/
def rowText (s : Screen) (y : Fin 32) : List Char :=
  (List.finRange 64).map (fun x => if s.pixel x y == 1 then '#' else '.') ++ ['\n']

/-- The rows in text, from the top. -/
def text (s : Screen) : String :=
  String.ofList ((List.finRange 32).flatMap s.rowText)

end Screen

end Chip8
