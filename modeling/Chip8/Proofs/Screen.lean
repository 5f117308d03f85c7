import Mathlib.Data.List.Nodup
import Chip8.Screen
import Chip8.Proofs.Result

/-!
# Drawing on the screen

A sprite is drawn pixel by pixel. No place that it reaches is off the screen and it reaches none
twice, so that this comes to one exclusive or with the pixels it covers (`drawSprite_eq`). A byte
that is zero or one is so ever after (`Monochrome`).
-/

namespace Chip8.Screen

variable {s : Screen} {x y : UInt8} {sprite : List UInt8} {place : Nat}

/-! ## The places of a sprite -/

theorem mem_places : place ∈ places x y sprite ↔ ∃ byte row col,
    y.toNat % 32 ≤ row ∧ sprite[row - y.toNat % 32]? = some byte ∧ row < 32 ∧
      x.toNat % 64 ≤ col ∧ col < x.toNat % 64 + 8 ∧ col < 64 ∧
      byte.toBitVec.getMsbD (col - x.toNat % 64) = true ∧ row * 64 + col = place := by
  simp only [places, List.mem_flatMap, List.mem_map, List.mem_filter, Prod.exists,
    List.mk_mem_zipIdx_iff_le_and_getElem?_sub, List.mem_range'_1, Bool.and_eq_true,
    decide_eq_true_eq]
  constructor
  · rintro ⟨byte, row, ⟨hrow, hbyte⟩, col, ⟨⟨hcol, hcol8⟩, ⟨hrow32, hcol64⟩, hbit⟩, hplace⟩
    exact ⟨byte, row, col, hrow, hbyte, hrow32, hcol, hcol8, hcol64, hbit, hplace⟩
  · rintro ⟨byte, row, col, hrow, hbyte, hrow32, hcol, hcol8, hcol64, hbit, hplace⟩
    exact ⟨byte, row, ⟨hrow, hbyte⟩, col, ⟨⟨hcol, hcol8⟩, ⟨hrow32, hcol64⟩, hbit⟩, hplace⟩

theorem covers_iff {col row : Nat} : covers x y sprite col row = true ↔
    y.toNat % 32 ≤ row ∧ x.toNat % 64 ≤ col ∧ col < x.toNat % 64 + 8 ∧
      ∃ byte, sprite[row - y.toNat % 32]? = some byte ∧
        byte.toBitVec.getMsbD (col - x.toNat % 64) = true := by
  simp only [covers, Bool.and_eq_true, decide_eq_true_eq, and_assoc]
  cases sprite[row - y.toNat % 32]? <;> simp

/-- A sprite reaches the places on the screen that it covers, and no others. -/
theorem mem_places_iff : place ∈ places x y sprite ↔
    place < 2048 ∧ covers x y sprite (place % 64) (place / 64) = true := by
  rw [mem_places, covers_iff]
  constructor
  · rintro ⟨byte, row, col, hrow, hbyte, hrow32, hcol, hcol8, hcol64, hbit, rfl⟩
    have hr : (row * 64 + col) / 64 = row := by omega
    have hc : (row * 64 + col) % 64 = col := by omega
    rw [hr, hc]
    exact ⟨by omega, hrow, hcol, hcol8, byte, hbyte, hbit⟩
  · rintro ⟨hlt, hrow, hcol, hcol8, byte, hbyte, hbit⟩
    exact ⟨byte, place / 64, place % 64, hrow, hbyte, by omega, hcol, hcol8, by omega, hbit,
      by omega⟩

theorem nodup_places (x y : UInt8) (sprite : List UInt8) : (places x y sprite).Nodup := by
  refine List.nodup_flatMap.2 ⟨?_, ?_⟩
  · rintro ⟨byte, row⟩ -
    refine List.Nodup.map ?_ (List.Nodup.filter _ (List.nodup_range' ..))
    intro col col' h
    dsimp only at h
    omega
  · have hrows : ((sprite.zipIdx (y.toNat % 32)).map Prod.snd).Nodup := by
      rw [List.zipIdx_map_snd]
      exact List.nodup_range' ..
    refine (List.pairwise_map.1 hrows).imp ?_
    rintro ⟨byte, row⟩ ⟨byte', row'⟩ hne place hplace hplace'
    -- The row of a place is its quotient by the length of a row.
    obtain ⟨col, hcol, rfl⟩ := List.mem_map.1 hplace
    obtain ⟨col', hcol', heq⟩ := List.mem_map.1 hplace'
    have hlt := (List.mem_filter.1 hcol).2
    have hlt' := (List.mem_filter.1 hcol').2
    simp only [Bool.and_eq_true, decide_eq_true_eq] at hlt hlt'
    exact hne (by dsimp only at heq ⊢; omega)

/-! ## Drawing -/

/-- The screen with the pixels at some places flipped. -/
def flipAll (s : Screen) (l : List Nat) : Screen :=
  ⟨Vector.ofFn fun place : Fin 2048 => s.pixels[place] ^^^ if place.val ∈ l then 1 else 0⟩

/-- Whether a pixel at one of the places is lit. -/
def anyLit (s : Screen) (l : List Nat) : Bool :=
  (List.finRange 2048).any fun place => place.val ∈ l && s.pixels[place] == 1

theorem ext_pixels {s t : Screen} (h : ∀ place : Fin 2048, s.pixels[place] = t.pixels[place]) :
    s = t := by
  obtain ⟨pixels⟩ := s
  obtain ⟨pixels'⟩ := t
  congr 1
  exact Vector.ext fun i hi => h ⟨i, hi⟩

theorem getElem_flipAll (s : Screen) (l : List Nat) (place : Fin 2048) :
    (s.flipAll l).pixels[place] = s.pixels[place] ^^^ if place.val ∈ l then 1 else 0 := by
  rw [flipAll, Fin.getElem_fin, Vector.getElem_ofFn]

theorem flipAll_nil (s : Screen) : s.flipAll [] = s := by
  refine ext_pixels fun place => ?_
  rw [getElem_flipAll, if_neg List.not_mem_nil, UInt8.xor_zero]

theorem flipAll_flipAll {l l' : List Nat} (h : l.Disjoint l') (s : Screen) :
    (s.flipAll l).flipAll l' = s.flipAll (l ++ l') := by
  refine ext_pixels fun place => ?_
  simp only [getElem_flipAll, List.mem_append]
  by_cases hl : place.val ∈ l
  · have hl' : place.val ∉ l' := fun hl' => h hl hl'
    simp [hl, hl']
  · simp [hl]

theorem anyLit_iff {l : List Nat} :
    s.anyLit l = true ↔ ∃ place : Fin 2048, place.val ∈ l ∧ s.pixels[place] = 1 := by
  simp [anyLit]

theorem anyLit_append {l l' : List Nat} (h : l.Disjoint l') (s : Screen) :
    s.anyLit (l ++ l') = (s.anyLit l || (s.flipAll l).anyLit l') := by
  -- Where a place of the second list lies nothing was flipped before.
  have hsame : ∀ place : Fin 2048, place.val ∈ l' →
      (s.flipAll l).pixels[place] = s.pixels[place] := by
    intro place hplace
    rw [getElem_flipAll, if_neg fun hl => h hl hplace, UInt8.xor_zero]
  rw [Bool.eq_iff_iff, Bool.or_eq_true, anyLit_iff, anyLit_iff, anyLit_iff, ← exists_or]
  refine exists_congr fun place => ?_
  rw [List.mem_append, or_and_right]
  refine or_congr_right (and_congr_right fun hplace => ?_)
  rw [hsame place hplace]

theorem flip_eq {lost : Bool} {a : Nat} (h : a < 2048) :
    flip (s, lost) a = .ok (s.flipAll [a], lost || s.anyLit [a]) := by
  have hscreen : (⟨s.pixels.set a (s.pixels[a] ^^^ 1)⟩ : Screen) = s.flipAll [a] := by
    refine ext_pixels fun place => ?_
    rw [getElem_flipAll, Fin.getElem_fin, Vector.getElem_set, Fin.getElem_fin]
    by_cases hplace : a = place.val
    · simp [hplace]
    · simp [hplace, Ne.symm hplace]
  have hlit : s.anyLit [a] = (s.pixels[a] == 1) := by
    rw [Bool.eq_iff_iff, anyLit_iff, beq_iff_eq]
    constructor
    · rintro ⟨place, hplace, hone⟩
      obtain rfl := List.mem_singleton.1 hplace
      exact hone
    · intro hone
      exact ⟨⟨a, h⟩, List.mem_singleton.2 rfl, hone⟩
  rw [flip, dif_pos h, hlit, hscreen]

/-- Flipping one place after the other comes to flipping all of them, if none comes twice. -/
theorem foldlM_flip (s : Screen) (lost : Bool) {l : List Nat} (hnodup : l.Nodup)
    (hlt : ∀ place ∈ l, place < 2048) :
    l.foldlM flip (s, lost) =
      (.ok (s.flipAll l, lost || s.anyLit l) : Result (Screen × Bool)) := by
  induction l generalizing s lost with
  | nil => simp [flipAll_nil, anyLit, pure, Except.pure]
  | cons a l ih =>
    obtain ⟨hfresh, hrest⟩ := List.nodup_cons.1 hnodup
    have hdisjoint : [a].Disjoint l := List.singleton_disjoint.2 hfresh
    rw [List.foldlM_cons, flip_eq (hlt a (by simp)), ok_bind,
      ih _ _ hrest fun place hplace => hlt place (by simp [hplace]), flipAll_flipAll hdisjoint,
      Bool.or_assoc, ← anyLit_append hdisjoint, List.singleton_append]

/-- **Drawing a sprite pixel by pixel never leaves the screen**, and comes to one exclusive or with
the pixels that the sprite covers. -/
theorem drawSprite_eq (s : Screen) (x y : UInt8) (sprite : List UInt8) :
    s.drawSprite x y sprite = .ok (s.draw x y sprite, s.hits x y sprite) := by
  rw [drawSprite, foldlM_flip s false (nodup_places x y sprite) fun place hplace =>
    (mem_places_iff.1 hplace).1, Bool.false_or, flipAll, anyLit, draw, hits]
  have hcovers : ∀ place : Fin 2048, (place.val ∈ places x y sprite) =
      (covers x y sprite (place.val % 64) (place.val / 64) = true) := by
    intro place
    rw [mem_places_iff, eq_iff_iff]
    exact and_iff_right place.isLt
  simp only [hcovers, Bool.decide_eq_true]
  rfl

/-- A sprite flips the pixels it covers. -/
theorem pixel_draw (s : Screen) (x y : UInt8) (sprite : List UInt8) (c : Fin 64) (r : Fin 32) :
    (s.draw x y sprite).pixel c r =
      s.pixel c r ^^^ if covers x y sprite c.val r.val then 1 else 0 := by
  have hc : (r.val * 64 + c.val) % 64 = c.val := by omega
  have hr : (r.val * 64 + c.val) / 64 = r.val := by omega
  simp only [pixel, draw, Vector.getElem_ofFn, hc, hr]
  rfl

/-! ## Dark and lit -/

/-- Each pixel is dark or lit: its byte is zero or one. -/
def Monochrome (s : Screen) : Prop :=
  ∀ (x : Fin 64) (y : Fin 32), s.pixel x y = 0 ∨ s.pixel x y = 1

theorem monochrome_blank : blank.Monochrome :=
  fun x y => .inl (by simp [blank, pixel])

theorem Monochrome.draw (h : s.Monochrome) (x y : UInt8) (sprite : List UInt8) :
    (s.draw x y sprite).Monochrome := by
  intro c r
  rw [pixel_draw]
  rcases h c r with hpixel | hpixel <;> rw [hpixel] <;> split <;> decide

end Chip8.Screen
