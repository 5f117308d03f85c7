import Chip8.Text.Rounded

/-!
# Canvas coordinates

How a front end with a plane of real coordinates places pixels: row by row, `x` growing to the right
from zero and `y` falling from zero. `Canvas.points` lists the places of all pixels with a given
value, for any data and any size; data past the last place is left out.

Coordinates are whole, so a point is held as its column and its row. The `y` coordinate is the
negated row, and is written with a minus sign in row zero too. The lower left and the upper right
corner bound all points.
-/

namespace Chip8

open Text (roundedText)

/-- The size of a canvas, in pixels. -/
structure Canvas where
  width : Nat
  height : Nat
  deriving DecidableEq, Repr

namespace Canvas

/-- A place on a canvas. -/
structure Point where
  column : Nat
  row : Nat
  deriving DecidableEq, Repr

/-- The point's horizontal coordinate. -/
def Point.x (p : Point) : Int := p.column

/-- The point's vertical coordinate. -/
def Point.y (p : Point) : Int := -p.row

/-- The number of places, if it is below `2 ^ 64`. -/
def count? (c : Canvas) : Option Nat :=
  if c.width * c.height < UInt64.size then some (c.width * c.height) else none

/-- The place with the least coordinates. -/
def bottomLeft (c : Canvas) : Point := ⟨0, c.height - 1⟩

/-- The place with the greatest coordinates. -/
def topRight (c : Canvas) : Point := ⟨c.width - 1, 0⟩

/-- The place of index `i`. -/
def place (c : Canvas) (i : Nat) : Point := ⟨i % c.width, i / c.width⟩

/-- The places whose pixel has the value `value`, in the order of the data. -/
def points {α : Type} [DecidableEq α] (c : Canvas) (data : List α) (value : α) : List Point :=
  ((data.take (c.width * c.height)).zipIdx.filter fun (p, _) => p = value).map fun (_, i) =>
    c.place i

/-! ## Text -/

/-- A horizontal coordinate in text. -/
def xText (column : Nat) : String := roundedText column

/-- The vertical coordinate of a row in text. -/
def yText (row : Nat) : String := "-" ++ roundedText row

end Canvas

end Chip8
