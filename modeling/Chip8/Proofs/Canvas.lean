import Mathlib.Data.List.Nodup
import Chip8.Canvas
import Chip8.Proofs.Screen.Overlay
import Chip8.Proofs.Text.Rounded

/-!
# The screen on a canvas and in text

A canvas places the pixels of a value at the points that division and remainder make of their
indices: row by row, none twice and all in bounds (`points_eq`, `nodup_points`, `mem_points`). The
pixels of a screen are zero or one, so that each position is among the points of the dark ones or
those of the lit ones, and the text of the screen shows the same (`renderings_agree`).
-/

namespace Chip8

namespace Canvas

open Text (rounded rounded_mono)

variable {α : Type} [DecidableEq α] {c : Canvas} {data : List α} {value : α} {p : Point} {i : Nat}

/-! ## Places -/

/-- The coordinates of a point, `x` first. -/
def Point.coordinates (p : Point) : Int × Int := (p.x, p.y)

theorem Point.coordinates_injective : Point.coordinates.Injective := by
  rintro ⟨column, row⟩ ⟨column', row'⟩ h
  obtain ⟨hcolumn, hrow⟩ := Prod.mk.inj h
  simp only [x, y, Int.natCast_inj, Int.neg_inj] at hcolumn hrow
  rw [hcolumn, hrow]

/-- An index is told by its place. -/
theorem place_injective (c : Canvas) : c.place.Injective := by
  intro i j h
  obtain ⟨hcolumn, hrow⟩ := Point.mk.inj h
  rw [← Nat.div_add_mod i c.width, ← Nat.div_add_mod j c.width, hcolumn, hrow]

theorem column_place_lt (hwidth : 1 ≤ c.width) (i : Nat) : (c.place i).column < c.width :=
  Nat.mod_lt i hwidth

theorem row_place_lt (h : i < c.width * c.height) : (c.place i).row < c.height :=
  Nat.div_lt_of_lt_mul h

/-! ## Points -/

/-- **The points are the places of the indices with the value, in order**, as far as both the data
and the canvas go. -/
theorem points_eq (c : Canvas) (data : List α) (value : α) : c.points data value =
    ((List.range (min data.length (c.width * c.height))).filter fun i =>
      data[i]? = some value).map c.place := by
  have hvalue : ∀ pixel ∈ (data.take (c.width * c.height)).zipIdx,
      decide (pixel.1 = value) = decide (data[pixel.2]? = some value) := by
    rintro ⟨a, i⟩ hpixel
    have ha := List.mk_mem_zipIdx_iff_getElem?.1 hpixel
    obtain ⟨hi, -⟩ := List.getElem?_eq_some_iff.1 ha
    rw [List.getElem?_take_of_lt (by rw [List.length_take] at hi; omega)] at ha
    simp only [ha, Option.some.injEq]
  have hindices : (data.take (c.width * c.height)).zipIdx.map Prod.snd =
      List.range (min data.length (c.width * c.height)) := by
    rw [List.zipIdx_map_snd, List.length_take, Nat.min_comm, List.range_eq_range']
  rw [points, List.filter_congr hvalue, ← hindices, List.filter_map, List.map_map]
  rfl

theorem nodup_points (c : Canvas) (data : List α) (value : α) : (c.points data value).Nodup := by
  rw [points_eq]
  exact (List.nodup_range.filter _).map c.place_injective

theorem mem_points : p ∈ c.points data value ↔
    ∃ i < c.width * c.height, data[i]? = some value ∧ c.place i = p := by
  rw [points_eq]
  simp only [List.mem_map, List.mem_filter, List.mem_range, decide_eq_true_eq, and_assoc]
  constructor
  · rintro ⟨i, hi, hvalue, hplace⟩
    exact ⟨i, by omega, hvalue, hplace⟩
  · rintro ⟨i, hi, hvalue, hplace⟩
    obtain ⟨hlength, -⟩ := List.getElem?_eq_some_iff.1 hvalue
    exact ⟨i, by omega, hvalue, hplace⟩

/-- The coordinates of the points. -/
def coordinates (c : Canvas) (data : List α) (value : α) : List (Int × Int) :=
  (c.points data value).map Point.coordinates

theorem coordinates_eq {count : Nat} (h : c.count? = some count) (data : List α) (value : α) :
    c.coordinates data value =
      ((List.range (min data.length count)).filter fun i => data[i]? = some value).map
        fun i => (((i % c.width : Nat) : Int), -((i / c.width : Nat) : Int)) := by
  have hcount : c.width * c.height = count := by
    rw [count?] at h
    split at h
    · exact Option.some.inj h
    · cases h
  rw [coordinates, points_eq, hcount, List.map_map]
  rfl

theorem nodup_coordinates (c : Canvas) (data : List α) (value : α) :
    (c.coordinates data value).Nodup :=
  (c.nodup_points data value).map Point.coordinates_injective

/-! ## Bounds -/

/-- A point lies between the corners of a canvas, and so do its coordinates as they are held. -/
structure InBounds (c : Canvas) (p : Point) : Prop where
  left : c.bottomLeft.x ≤ p.x
  right : p.x ≤ c.topRight.x
  bottom : c.bottomLeft.y ≤ p.y
  top : p.y ≤ c.topRight.y
  heldColumn : rounded p.column ≤ rounded c.topRight.column
  heldRow : rounded p.row ≤ rounded c.bottomLeft.row

theorem inBounds_of_lt (hcolumn : p.column < c.width) (hrow : p.row < c.height) :
    c.InBounds p where
  left := by
    simp only [bottomLeft, Point.x]
    omega
  right := by
    simp only [topRight, Point.x]
    omega
  bottom := by
    simp only [bottomLeft, Point.y]
    omega
  top := by
    simp only [topRight, Point.y]
    omega
  heldColumn := rounded_mono (Nat.le_sub_one_of_lt hcolumn)
  heldRow := rounded_mono (Nat.le_sub_one_of_lt hrow)

theorem inBounds_of_mem (hwidth : 1 ≤ c.width) (h : p ∈ c.points data value) : c.InBounds p := by
  obtain ⟨i, hi, -, rfl⟩ := mem_points.1 h
  exact inBounds_of_lt (column_place_lt hwidth i) (row_place_lt hi)

end Canvas

/-! ## Lines -/

/-- A text consists of the lines, each with a newline behind it and none in it. -/
def Text.AreLines (lines : List (List Char)) (text : List Char) : Prop :=
  text = lines.flatMap (· ++ ['\n']) ∧ ∀ line ∈ lines, '\n' ∉ line

namespace Screen

open Canvas

variable {s : Screen} {value : UInt8}

/-- A row in text, without the newline. -/
def line (s : Screen) (y : Fin 32) : List Char :=
  (List.finRange 64).map fun x => if s.pixel x y == 1 then '#' else '.'

theorem areLines_text (s : Screen) :
    Text.AreLines ((List.finRange 32).map s.line) s.text.toList := by
  constructor
  · rw [text, String.toList_ofList, List.flatMap_map]
    rfl
  · intro line hline hnewline
    obtain ⟨y, -, rfl⟩ := List.mem_map.1 hline
    obtain ⟨x, -, hx⟩ := List.mem_map.1 hnewline
    split at hx <;> cases hx

theorem getElem?_lines (s : Screen) (x : Fin 64) (y : Fin 32) :
    (((List.finRange 32).map s.line)[y.val]?.bind (·[x.val]?)) =
      some (if s.pixel x y == 1 then '#' else '.') := by
  simp [line]

/-! ## The points of a screen -/

/-- The coordinates of the pixels with a value, on a canvas of the screen's size. -/
def pointsOf (s : Screen) (value : UInt8) : List (Int × Int) :=
  (⟨64, 32⟩ : Canvas).coordinates s.pixels.toList value

theorem mem_pointsOf (s : Screen) (value : UInt8) (x : Fin 64) (y : Fin 32) :
    ((x.val : Int), -(y.val : Int)) ∈ s.pointsOf value ↔ s.pixel x y = value := by
  have hpoint : ((x.val : Int), -(y.val : Int)) = Point.coordinates ⟨x.val, y.val⟩ := rfl
  rw [pointsOf, coordinates, hpoint, List.mem_map_of_injective Point.coordinates_injective,
    mem_points]
  constructor
  · rintro ⟨i, hi, hvalue, hplace⟩
    obtain ⟨hcolumn, hrow⟩ := Point.mk.inj hplace
    obtain ⟨hlt, rfl⟩ := List.getElem?_eq_some_iff.1 hvalue
    have hindex : y.val * 64 + x.val = i := by
      dsimp only at hcolumn hrow
      omega
    simp only [pixel, hindex, Vector.getElem_toList]
  · intro hvalue
    refine ⟨y.val * 64 + x.val, by dsimp only; omega, ?_, ?_⟩
    · rw [List.getElem?_eq_getElem (by simp; omega), Vector.getElem_toList]
      exact congrArg some hvalue
    · have hcolumn : (y.val * 64 + x.val) % 64 = x.val := by omega
      have hrow : (y.val * 64 + x.val) / 64 = y.val := by omega
      exact congrArg₂ Point.mk hcolumn hrow

/-- Only positions of the screen are points. -/
theorem exists_of_mem_pointsOf {p : Int × Int} (h : p ∈ s.pointsOf value) :
    ∃ (x : Fin 64) (y : Fin 32), p = ((x.val : Int), -(y.val : Int)) := by
  obtain ⟨point, hpoint, rfl⟩ := List.mem_map.1 h
  obtain ⟨i, hi, -, rfl⟩ := mem_points.1 hpoint
  exact ⟨⟨_, column_place_lt (by decide) i⟩, ⟨_, row_place_lt hi⟩, rfl⟩

theorem monochrome_of_afterChanges {changes : List Change}
    (h : blank.afterChanges changes = .ok s) : s.Monochrome := by
  obtain ⟨s', hs', hpixel⟩ := pixel_afterChanges changes
  obtain rfl : s' = s := Except.ok.inj (hs'.symm.trans h)
  intro x y
  rw [hpixel]
  split
  · exact .inr rfl
  · exact .inl rfl

theorem pointsOf_disjoint (s : Screen) : (s.pointsOf 1).Disjoint (s.pointsOf 0) := by
  intro p hlit hdark
  obtain ⟨x, y, rfl⟩ := exists_of_mem_pointsOf hlit
  rw [mem_pointsOf] at hlit hdark
  rw [hlit] at hdark
  exact absurd hdark (by decide)

/-- **The lit and the dark pixels are all pixels** of a monochrome screen. -/
theorem Monochrome.mem_pointsOf_iff (h : s.Monochrome) (p : Int × Int) :
    p ∈ s.pointsOf 1 ∨ p ∈ s.pointsOf 0 ↔
      ∃ (x : Fin 64) (y : Fin 32), p = ((x.val : Int), -(y.val : Int)) := by
  constructor
  · rintro (hp | hp) <;> exact exists_of_mem_pointsOf hp
  · rintro ⟨x, y, rfl⟩
    rw [mem_pointsOf, mem_pointsOf]
    exact (h x y).symm

/-- **The text shows the points**: `#` for a lit pixel of a monochrome screen and `.` for a dark
one. -/
theorem Monochrome.getElem?_lines (h : s.Monochrome) (x : Fin 64) (y : Fin 32) :
    ((((List.finRange 32).map s.line)[y.val]?.bind (·[x.val]?)) = some '#' ↔
      ((x.val : Int), -(y.val : Int)) ∈ s.pointsOf 1) ∧
    ((((List.finRange 32).map s.line)[y.val]?.bind (·[x.val]?)) = some '.' ↔
      ((x.val : Int), -(y.val : Int)) ∈ s.pointsOf 0) := by
  rw [s.getElem?_lines, mem_pointsOf, mem_pointsOf]
  rcases h x y with hpixel | hpixel <;> simp [hpixel]

/-- **The points of a screen and its text agree.**

* On a canvas of any size, for any data and any value, the points are those of the indices with the
  value, in order and none twice, as far as both the data and the canvas go, and they are in bounds;
  a coordinate below `2 ^ 53` is held as it is.
* On a screen that was drawn on and cleared, each position is a point either of the lit or of the
  dark pixels, and in the text of the screen it is `#` or `.` accordingly. -/
theorem renderings_agree :
    (∀ (c : Canvas) (count : Nat) (data : List UInt8) (value : UInt8),
      1 ≤ c.width → 1 ≤ c.height → c.count? = some count →
        c.coordinates data value =
          ((List.range (min data.length count)).filter fun i => data[i]? = some value).map
            (fun i => (((i % c.width : Nat) : Int), -((i / c.width : Nat) : Int))) ∧
        (c.coordinates data value).Nodup ∧ ∀ p ∈ c.points data value, c.InBounds p) ∧
    (∀ n < Nat.pow 2 53, Text.rounded n = n) ∧
    ∀ changes, ∃ s, blank.afterChanges changes = .ok s ∧
      (s.pointsOf 1).Disjoint (s.pointsOf 0) ∧
      (∀ p, p ∈ s.pointsOf 1 ∨ p ∈ s.pointsOf 0 ↔
        ∃ (x : Fin 64) (y : Fin 32), p = ((x.val : Int), -(y.val : Int))) ∧
      ∃ lines, Text.AreLines lines s.text.toList ∧ lines.length = 32 ∧
        (∀ line ∈ lines, line.length = 64) ∧
        ∀ (x : Fin 64) (y : Fin 32),
          ((lines[y.val]?.bind (·[x.val]?)) = some '#' ↔
            ((x.val : Int), -(y.val : Int)) ∈ s.pointsOf 1) ∧
          ((lines[y.val]?.bind (·[x.val]?)) = some '.' ↔
            ((x.val : Int), -(y.val : Int)) ∈ s.pointsOf 0) := by
  refine ⟨fun c count data value hwidth _ hcount => ⟨coordinates_eq hcount data value,
    c.nodup_coordinates data value, fun p hp => inBounds_of_mem hwidth hp⟩,
    fun n hn => Text.rounded_of_lt hn, fun changes => ?_⟩
  obtain ⟨s, hs, -⟩ := pixel_afterChanges changes
  have hmono := monochrome_of_afterChanges hs
  refine ⟨s, hs, s.pointsOf_disjoint, hmono.mem_pointsOf_iff, (List.finRange 32).map s.line,
    s.areLines_text, by simp, ?_, hmono.getElem?_lines⟩
  intro line hline
  obtain ⟨y, -, rfl⟩ := List.mem_map.1 hline
  simp [Screen.line]

/-- Two rows of three and seven bytes of data, the last of which has no place. -/
theorem renderings_agree_seven :
    let c : Canvas := ⟨3, 2⟩
    let data : List UInt8 := [1, 0, 1, 1, 0, 0, 1]
    1 ≤ c.width ∧ 1 ≤ c.height ∧ c.count? = some 6 ∧
      c.coordinates data 1 = [(0, 0), (2, 0), (0, -1)] ∧ (c.coordinates data 1).Nodup ∧
      ∀ p ∈ c.points data 1, c.InBounds p := by
  intro c data
  obtain ⟨hcoordinates, hnodup, hbounds⟩ :=
    renderings_agree.1 c 6 data 1 (by decide) (by decide) rfl
  exact ⟨by decide, by decide, rfl, hcoordinates.trans (by decide), hnodup, hbounds⟩

end Screen

end Chip8
