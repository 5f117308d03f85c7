import Mathlib.Data.List.DropRight
import Mathlib.Data.List.Induction
import Chip8.Proofs.Screen

/-!
# Sprites on top of each other

A screen is what its sprites come to, by exclusive or, since it was last cleared: a pixel is lit
when an odd number of them have a set bit there (`screen_overlay`). So their order does not matter,
and a sprite that is drawn twice in a row is gone.

* `Change`: what can happen to a screen;
* `pixel_afterChanges`: how often a pixel was hit since the last clearing decides whether it is lit;
* `draw_draw`, `hits_draw`: a sprite drawn twice in a row.
-/

namespace Chip8.Screen

variable {s t : Screen} {x y : UInt8} {sprite : List UInt8} {changes : List Change}

/-! ## Changes -/

/-- What can happen to a screen. -/
inductive Change
  | clear
  | draw (x y : UInt8) (sprite : List UInt8)
  deriving DecidableEq, Repr

/-- The screen after a change. -/
def change (s : Screen) : Change → Result Screen
  | .clear => .ok .blank
  | .draw x y sprite => do return (← s.drawSprite x y sprite).1

/-- The screen after changes, one after the other. -/
def afterChanges (s : Screen) (changes : List Change) : Result Screen := changes.foldlM change s

/-- The change is no clearing. -/
def Change.isDraw : Change → Bool
  | .clear => false
  | .draw .. => true

/-- The sprites drawn since the last clearing. -/
def sinceClear (changes : List Change) : List Change := changes.rtakeWhile Change.isDraw

/-- The change draws a sprite that has a set bit on the pixel in column `col` of row `row`. The most
significant bit of a byte is its leftmost pixel. -/
def Change.landsOn (col row : Nat) : Change → Bool
  | .clear => false
  | .draw x y sprite =>
    y.toNat % 32 ≤ row && x.toNat % 64 ≤ col && col - x.toNat % 64 < 8 &&
      sprite[row - y.toNat % 32]?.any fun byte => byte.toNat.testBit (7 - (col - x.toNat % 64))

theorem landsOn_draw (x y : UInt8) (sprite : List UInt8) (col row : Nat) :
    (Change.draw x y sprite).landsOn col row = covers x y sprite col row := by
  have hbit : col - x.toNat % 64 < 8 → ∀ byte : UInt8,
      byte.toBitVec.getMsbD (col - x.toNat % 64) =
        byte.toNat.testBit (7 - (col - x.toNat % 64)) := by
    intro hoff byte
    rw [BitVec.getMsbD, decide_eq_true hoff, Bool.true_and]
    rfl
  rw [Bool.eq_iff_iff, covers_iff]
  simp only [Change.landsOn, Bool.and_eq_true, decide_eq_true_eq, Option.any_eq_true, and_assoc]
  refine and_congr_right fun _ => and_congr_right fun hle => ?_
  constructor
  · rintro ⟨hoff, byte, hbyte, htest⟩
    exact ⟨by omega, byte, hbyte, (hbit hoff byte).trans htest⟩
  · rintro ⟨hlt, byte, hbyte, hset⟩
    have hoff : col - x.toNat % 64 < 8 := by omega
    exact ⟨hoff, byte, hbyte, (hbit hoff byte).symm.trans hset⟩

/-! ## Pixels -/

theorem ext_pixel (h : ∀ col row, s.pixel col row = t.pixel col row) : s = t := by
  refine ext_pixels fun place => ?_
  have hplace : place.val / 64 * 64 + place.val % 64 = place.val := by omega
  have hpixel := h ⟨place.val % 64, by omega⟩ ⟨place.val / 64, by omega⟩
  simpa only [pixel, Fin.getElem_fin, hplace] using hpixel

theorem pixel_blank (col : Fin 64) (row : Fin 32) : blank.pixel col row = 0 := by
  simp [blank, pixel]

theorem change_draw (s : Screen) (x y : UInt8) (sprite : List UInt8) :
    s.change (.draw x y sprite) = .ok (s.draw x y sprite) := by
  rw [change, drawSprite_eq]
  rfl

/-- **A pixel is lit when an odd number of the sprites since the last clearing have a set bit
there.** -/
theorem pixel_afterChanges (changes : List Change) :
    ∃ s, blank.afterChanges changes = .ok s ∧ ∀ col row, s.pixel col row =
      if (sinceClear changes).countP (·.landsOn col.val row.val) % 2 = 1 then 1 else 0 := by
  induction changes using List.reverseRecOn with
  | nil => exact ⟨blank, rfl, fun col row => pixel_blank col row⟩
  | append_singleton changes last ih =>
    obtain ⟨s, hs, hpixel⟩ := ih
    rw [afterChanges] at hs
    rw [afterChanges, List.foldlM_append, hs, ok_bind]
    cases last with
    | clear =>
      refine ⟨blank, rfl, fun col row => ?_⟩
      rw [sinceClear, List.rtakeWhile_concat_neg _ _ _ (by simp [Change.isDraw])]
      exact pixel_blank col row
    | draw x y sprite =>
      refine ⟨s.draw x y sprite, ?_, fun col row => ?_⟩
      · rw [List.foldlM_cons, change_draw]
        rfl
      have hsince : sinceClear (changes ++ [.draw x y sprite]) =
          sinceClear changes ++ [.draw x y sprite] := List.rtakeWhile_concat_pos _ _ _ rfl
      rw [pixel_draw, hpixel, hsince, List.countP_append, List.countP_singleton, landsOn_draw]
      generalize (sinceClear changes).countP _ = count
      -- One more bit on the pixel changes whether their number is odd.
      cases covers x y sprite col.val row.val with
      | false => simp
      | true =>
        have hodd : (count + 1) % 2 = 1 ↔ ¬count % 2 = 1 := by omega
        simp only [if_true, hodd]
        split <;> rfl

/-! ## The same sprite twice -/

theorem draw_draw (s : Screen) (x y : UInt8) (sprite : List UInt8) :
    (s.draw x y sprite).draw x y sprite = s := by
  refine ext_pixel fun col row => ?_
  rw [pixel_draw, pixel_draw, UInt8.xor_assoc, UInt8.xor_self, UInt8.xor_zero]

theorem hits_iff : s.hits x y sprite = true ↔ ∃ (col : Fin 64) (row : Fin 32),
    (Change.draw x y sprite).landsOn col.val row.val = true ∧ s.pixel col row = 1 := by
  simp only [hits, List.any_eq_true, List.mem_finRange, true_and, Bool.and_eq_true, beq_iff_eq,
    landsOn_draw]
  constructor
  · rintro ⟨place, hcovers, hlit⟩
    refine ⟨⟨place.val % 64, by omega⟩, ⟨place.val / 64, by omega⟩, hcovers, ?_⟩
    have hplace : place.val / 64 * 64 + place.val % 64 = place.val := by omega
    simp only [pixel, hplace]
    exact hlit
  · rintro ⟨col, row, hcovers, hlit⟩
    have hcol : (row.val * 64 + col.val) % 64 = col.val := by omega
    have hrow : (row.val * 64 + col.val) / 64 = row.val := by omega
    exact ⟨⟨row.val * 64 + col.val, by omega⟩, by rw [hcol, hrow]; exact hcovers, hlit⟩

/-- Drawn a second time, a sprite hits the pixels that were dark before the first. -/
theorem hits_draw : (s.draw x y sprite).hits x y sprite = true ↔
    ∃ (col : Fin 64) (row : Fin 32),
      (Change.draw x y sprite).landsOn col.val row.val = true ∧ s.pixel col row = 0 := by
  rw [hits_iff]
  refine exists_congr fun col => exists_congr fun row => and_congr_right fun hlands => ?_
  rw [landsOn_draw] at hlands
  rw [pixel_draw, hlands, if_pos rfl]
  exact UInt8.xor_left_inj (a := s.pixel col row) (b := 0) 1

/-! ## The overlay -/

/-- **The screen is the exclusive or of the sprites drawn since it was last cleared**, whatever was
drawn and wherever. A pixel is lit when an odd number of them have a set bit there, and dark
otherwise; what matters is which sprites they are and not their order. A sprite that is then drawn
twice in a row leaves the screen as it was: the first time it turns a lit pixel off if one of its
bits meets one, and the second time if one of its bits met a dark one. -/
theorem screen_overlay (changes : List Change) :
    ∃ s, blank.afterChanges changes = .ok s ∧
      (∀ col row, s.pixel col row =
        if (sinceClear changes).countP (·.landsOn col.val row.val) % 2 = 1 then 1 else 0) ∧
      (∀ changes', (sinceClear changes').Perm (sinceClear changes) →
        blank.afterChanges changes' = .ok s) ∧
      ∀ x y sprite, ∃ t first second, s.drawSprite x y sprite = .ok (t, first) ∧
        t.drawSprite x y sprite = .ok (s, second) ∧
        (first = true ↔ ∃ col row, (Change.draw x y sprite).landsOn (col : Fin 64).val
          (row : Fin 32).val = true ∧ s.pixel col row = 1) ∧
        (second = true ↔ ∃ col row, (Change.draw x y sprite).landsOn (col : Fin 64).val
          (row : Fin 32).val = true ∧ s.pixel col row = 0) := by
  obtain ⟨s, hs, hpixel⟩ := pixel_afterChanges changes
  refine ⟨s, hs, hpixel, ?_, ?_⟩
  · intro changes' hperm
    obtain ⟨s', hs', hpixel'⟩ := pixel_afterChanges changes'
    have hsame : s' = s := by
      refine ext_pixel fun col row => ?_
      rw [hpixel', hpixel, hperm.countP_eq]
    rw [hs', hsame]
  · intro x y sprite
    refine ⟨s.draw x y sprite, s.hits x y sprite, (s.draw x y sprite).hits x y sprite,
      s.drawSprite_eq x y sprite, ?_, hits_iff, hits_draw⟩
    rw [drawSprite_eq, draw_draw]

end Chip8.Screen
