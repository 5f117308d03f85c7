import Mathlib.Data.Fintype.Fin
import Mathlib.Data.Fintype.Prod
import Chip8.Proofs.Screen.Overlay

/-!
# How many pixels are lit

Where some pixels of a screen are flipped, the lit ones among them go dark and the others light up.
So of the flipped pixels each counts once more, less twice for those that were turned off
(`litCount_flipped`).
-/

namespace Chip8.Screen

/-- The lit pixels, each by its column and its row. -/
@[irreducible]
def lit (s : Screen) : Finset (Fin 64 × Fin 32) :=
  Finset.univ.filter fun p => s.pixel p.1 p.2 = 1

/-- The pixels that are lit on the one screen and dark on the other. -/
@[irreducible]
def turnedOff (s t : Screen) : Finset (Fin 64 × Fin 32) :=
  Finset.univ.filter fun p => s.pixel p.1 p.2 = 1 ∧ t.pixel p.1 p.2 = 0

/-- The one screen is the other with some pixels flipped. -/
def Flipped (s t : Screen) (flipped : Finset (Fin 64 × Fin 32)) : Prop :=
  ∀ p, t.pixel p.1 p.2 = s.pixel p.1 p.2 ^^^ if p ∈ flipped then 1 else 0

variable {s t : Screen} {flipped : Finset (Fin 64 × Fin 32)} {p : Fin 64 × Fin 32}

theorem mem_lit : p ∈ s.lit ↔ s.pixel p.1 p.2 = 1 := by
  unfold lit
  exact Finset.mem_filter_univ p

theorem mem_turnedOff : p ∈ s.turnedOff t ↔ s.pixel p.1 p.2 = 1 ∧ t.pixel p.1 p.2 = 0 := by
  unfold turnedOff
  exact Finset.mem_filter_univ p

theorem count_eq_card {n : Nat} (pixels : Vector UInt8 n) (value : UInt8) :
    pixels.count value =
      (Finset.univ.filter fun place : Fin n => pixels.get place = value).card := by
  have hpixels : List.ofFn pixels.get = pixels.toList :=
    List.ext_getElem (by simp) (by simp [Vector.get])
  have hcount := Fin.card_filter_univ_eq_vector_get_eq_count value
    (List.Vector.ofFn pixels.get)
  rw [List.Vector.toList_ofFn, hpixels, Vector.count_toList] at hcount
  simp only [List.Vector.get_ofFn] at hcount
  exact hcount.symm

/-- The column and the row of a place. -/
def pixelOf (place : Fin 2048) : Fin 64 × Fin 32 :=
  (Fin.ofNat 64 place.val, Fin.ofNat 32 (place.val / 64))

theorem pixelOf_bijective : pixelOf.Bijective := by
  refine ⟨fun place place' h => ?_, fun ⟨col, row⟩ => ?_⟩
  · obtain ⟨hcol, hrow⟩ := Prod.mk.inj h
    have hcol := Fin.val_eq_of_eq hcol
    have hrow := Fin.val_eq_of_eq hrow
    rw [Fin.val_ofNat, Fin.val_ofNat] at hcol hrow
    exact Fin.ext (by omega)
  · refine ⟨⟨row.val * 64 + col.val, by omega⟩, Prod.ext (Fin.ext ?_) (Fin.ext ?_)⟩
    · have hcol : (row.val * 64 + col.val) % 64 = col.val := by omega
      exact hcol
    · have hrow : (row.val * 64 + col.val) / 64 % 32 = row.val := by omega
      exact hrow

theorem pixel_pixelOf (s : Screen) (place : Fin 2048) :
    s.pixel (pixelOf place).1 (pixelOf place).2 = s.pixels.get place := by
  have hplace : place.val / 64 % 32 * 64 + place.val % 64 = place.val := by omega
  simp only [pixel, pixelOf, Fin.val_ofNat, hplace]
  rfl

theorem litCount_eq (s : Screen) : s.litCount = s.lit.card := by
  rw [litCount, count_eq_card]
  refine Finset.card_bijective pixelOf pixelOf_bijective fun place => ?_
  rw [Finset.mem_filter_univ, mem_lit, pixel_pixelOf]

theorem Flipped.lit_eq (hs : s.Monochrome) (h : s.Flipped t flipped) :
    t.lit = s.lit \ flipped ∪ flipped \ s.lit := by
  ext p
  rw [mem_lit, h p, Finset.mem_union, Finset.mem_sdiff, Finset.mem_sdiff, mem_lit]
  by_cases hp : p ∈ flipped
  · rcases hs p.1 p.2 with hpixel | hpixel <;> simp [hp, hpixel]
  · simp [hp]

theorem Flipped.turnedOff_eq (h : s.Flipped t flipped) : s.turnedOff t = s.lit ∩ flipped := by
  ext p
  rw [mem_turnedOff, h p, Finset.mem_inter, mem_lit]
  refine and_congr_right fun hpixel => ?_
  by_cases hp : p ∈ flipped <;> simp [hp, hpixel]

/-- **Each flipped pixel counts once more, less twice for those that were turned off.** -/
theorem litCount_flipped (hs : s.Monochrome) (h : s.Flipped t flipped) :
    t.litCount + 2 * (s.turnedOff t).card = s.litCount + flipped.card := by
  have hdisjoint : Disjoint (s.lit \ flipped) (flipped \ s.lit) := disjoint_sdiff_sdiff
  have hlit := Finset.card_sdiff_add_card_inter s.lit flipped
  have hflipped := Finset.card_sdiff_add_card_inter flipped s.lit
  rw [Finset.inter_comm] at hflipped
  rw [litCount_eq, litCount_eq, h.lit_eq hs, h.turnedOff_eq,
    Finset.card_union_of_disjoint hdisjoint]
  omega

end Chip8.Screen
