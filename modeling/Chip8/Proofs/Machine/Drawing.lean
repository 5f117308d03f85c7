import Chip8.Proofs.Machine.Arithmetic
import Chip8.Proofs.Machine.Font
import Chip8.Proofs.Screen.Count

/-!
# Drawing a sprite from memory

`DXYN` draws the `N` cells from `I` on, round the end of memory, at the column and the row that `VX`
and `VY` name modulo the screen's size. The coordinates are read before the flag is written, so that
either of them may be `VF`.

* `mem_covered`, `card_visibleBits`: the pixels under the sprite's set bits, and how many they are;
* `execute_draws`: `DXYN` flips those pixels, counts them and tells in `VF` whether one went dark;
* `sprite_drawn`: so it does in every machine that a run can reach.
-/

namespace Chip8.Machine

open Screen (Change)

/-- The column in which a sprite drawn at `VX` begins. -/
def left (m : Machine) (x : Register) : Nat := (m.get x).toNat % 64

/-- The row in which a sprite drawn at `VY` begins. -/
def top (m : Machine) (y : Register) : Nat := (m.get y).toNat % 32

/-- Whether a bit of the sprite at `I` is set: the one that is `col` bits right of the most
significant bit in the byte `row` cells behind `I`, round the end of memory. -/
def spriteBit (m : Machine) (row col : Nat) : Bool :=
  (m.memory.byteAt ((m.index.toNat + row) % 4096)).toNat.testBit (7 - col)

/-- The pixels on which `DXYN` puts a set bit of the sprite. -/
@[irreducible]
def covered (m : Machine) (x y : Register) (rows : Nat) : Finset (Fin 64 × Fin 32) :=
  Finset.univ.filter fun p =>
    m.top y ≤ p.2.val ∧ p.2.val < m.top y + rows ∧ m.left x ≤ p.1.val ∧ p.1.val < m.left x + 8 ∧
      m.spriteBit (p.2.val - m.top y) (p.1.val - m.left x) = true

/-- The set bits of the sprite that `DXYN` puts on the screen and not past its edges, each by its
row and its column in the sprite. -/
def visibleBits (m : Machine) (x y : Register) (rows : Nat) : Finset (Nat × Nat) :=
  (Finset.range rows ×ˢ Finset.range 8).filter fun bit =>
    m.top y + bit.1 < 32 ∧ m.left x + bit.2 < 64 ∧ m.spriteBit bit.1 bit.2 = true

/-- What `DXYN` makes of a machine. All that it does not name is as it was. -/
structure Draws (m : Machine) (x y : Register) (rows : Nat) (after : Machine) : Prop where
  /-- The pixels under the sprite's set bits are flipped, and no others. -/
  pixels : m.screen.Flipped after.screen (m.covered x y rows)
  /-- `VF` tells whether a pixel was turned off. -/
  flag : after.get 0xF = if (m.screen.turnedOff after.screen).Nonempty then 1 else 0
  /-- Each visible set bit lights one pixel more, but for those that turn one off instead. -/
  lit : after.screen.litCount + 2 * (m.screen.turnedOff after.screen).card =
    m.screen.litCount + (m.visibleBits x y rows).card
  other : ∀ z, z ≠ 0xF → after.get z = m.get z
  rest : ∃ screen registers, after = { m with screen, registers }

variable {m : Machine} {x y : Register} {rows : Nat} {p : Fin 64 × Fin 32}

/-! ## Pixels under a sprite -/

theorem getElem?_bytesAtIndex (m : Machine) (rows k : Nat) :
    (m.bytesAtIndex rows)[k]? =
      if k < rows then some (m.memory.byteAt ((m.index.toNat + k) % 4096)) else none := by
  have hwrap : m.memory.byteAt ((m.index.toNat + k) % 4096) =
      m.memory.byteAt (m.index.toNat + k) := by
    simp only [Memory.byteAt, Nat.mod_mod]
  rw [hwrap, bytesAtIndex, List.getElem?_map]
  split
  · rename_i hk
    rw [List.getElem?_range hk]
    rfl
  · rename_i hk
    rw [List.getElem?_eq_none (by rw [List.length_range]; omega)]
    rfl

theorem mem_covered : p ∈ m.covered x y rows ↔
    m.top y ≤ p.2.val ∧ p.2.val < m.top y + rows ∧ m.left x ≤ p.1.val ∧ p.1.val < m.left x + 8 ∧
      m.spriteBit (p.2.val - m.top y) (p.1.val - m.left x) = true := by
  unfold covered
  exact Finset.mem_filter_univ p

theorem mem_covered_iff_landsOn : p ∈ m.covered x y rows ↔
    (Change.draw (m.get x) (m.get y) (m.bytesAtIndex rows)).landsOn p.1.val p.2.val = true := by
  rw [mem_covered]
  simp only [Change.landsOn, Bool.and_eq_true, decide_eq_true_eq, getElem?_bytesAtIndex,
    spriteBit, left, top]
  by_cases hrow : p.2.val - (m.get y).toNat % 32 < rows
  · rw [if_pos hrow, Option.any_some]
    constructor
    · rintro ⟨hle, -, hle', hlt', hbit⟩
      exact ⟨⟨⟨hle, hle'⟩, by omega⟩, hbit⟩
    · rintro ⟨⟨⟨hle, hle'⟩, hlt'⟩, hbit⟩
      exact ⟨hle, by omega, hle', by omega, hbit⟩
  · rw [if_neg hrow, Option.any_none]
    constructor
    · rintro ⟨hle, hlt, -⟩
      omega
    · rintro ⟨-, h⟩
      cases h

/-- There is one pixel under each visible set bit. -/
theorem card_visibleBits (m : Machine) (x y : Register) (rows : Nat) :
    (m.visibleBits x y rows).card = (m.covered x y rows).card := by
  symm
  refine Finset.card_bij (fun p _ => (p.2.val - m.top y, p.1.val - m.left x)) ?_ ?_ ?_
  · intro p hp
    obtain ⟨htop, hrow, hleft, hcol, hbit⟩ := mem_covered.1 hp
    refine Finset.mem_filter.2 ⟨Finset.mem_product.2 ⟨?_, ?_⟩, ?_, ?_, hbit⟩
    · exact Finset.mem_range.2 (by omega)
    · exact Finset.mem_range.2 (by omega)
    · have hlt := p.2.isLt
      dsimp only
      omega
    · have hlt := p.1.isLt
      dsimp only
      omega
  · intro p hp q hq h
    obtain ⟨htop, -, hleft, -⟩ := mem_covered.1 hp
    obtain ⟨htop', -, hleft', -⟩ := mem_covered.1 hq
    obtain ⟨hrow, hcol⟩ := Prod.mk.inj h
    exact Prod.ext (Fin.ext (by omega)) (Fin.ext (by omega))
  · rintro ⟨row, col⟩ hbit
    obtain ⟨hin, htop, hleft, hset⟩ := Finset.mem_filter.1 hbit
    obtain ⟨hrow, hcol⟩ := Finset.mem_product.1 hin
    rw [Finset.mem_range] at hrow hcol
    refine ⟨(⟨m.left x + col, hleft⟩, ⟨m.top y + row, htop⟩), ?_, ?_⟩
    · refine mem_covered.2 ?_
      dsimp only at hrow hcol ⊢
      rw [Nat.add_sub_cancel_left, Nat.add_sub_cancel_left]
      exact ⟨by omega, by omega, by omega, by omega, hset⟩
    · exact Prod.ext (Nat.add_sub_cancel_left ..) (Nat.add_sub_cancel_left ..)

/-! ## Drawing -/

/-- **`DXYN` flips the pixels under the sprite's set bits**, and `VF` tells whether one went
dark. -/
theorem execute_draws (hm : m.index.toNat ≤ 0xFFF) (hs : m.screen.Monochrome) (x y : Register)
    (rows : Fin 16) :
    ∃ after, m.execute (.draw x y rows) = .ok after ∧ m.Draws x y rows.val after := by
  have hpixels : m.screen.Flipped (m.screen.draw (m.get x) (m.get y) (m.bytesAtIndex rows.val))
      (m.covered x y rows.val) := by
    intro p
    rw [Screen.pixel_draw, ← Screen.landsOn_draw]
    simp only [mem_covered_iff_landsOn]
  have hhits : m.screen.hits (m.get x) (m.get y) (m.bytesAtIndex rows.val) = true ↔
      (m.screen.turnedOff (m.screen.draw (m.get x) (m.get y)
        (m.bytesAtIndex rows.val))).Nonempty := by
    rw [Screen.hits_iff, hpixels.turnedOff_eq]
    constructor
    · rintro ⟨col, row, hlands, hlit⟩
      have hcovered : (col, row) ∈ m.covered x y rows.val := mem_covered_iff_landsOn.2 hlands
      exact ⟨(col, row), Finset.mem_inter.2 ⟨Screen.mem_lit.2 hlit, hcovered⟩⟩
    · rintro ⟨p, hp⟩
      obtain ⟨hlit, hcovered⟩ := Finset.mem_inter.1 hp
      exact ⟨p.1, p.2, mem_covered_iff_landsOn.1 hcovered, Screen.mem_lit.1 hlit⟩
  refine ⟨_, execute_draw hm x y rows, hpixels, ?_, ?_, ?_, ?_⟩
  · rw [get_setFlag, flagByte]
    exact if_congr hhits rfl rfl
  · rw [card_visibleBits]
    exact Screen.litCount_flipped hs hpixels
  · intro z hz
    have hget : ∀ screen : Screen, ({ m with screen } : Machine).get z = m.get z := fun _ => rfl
    rw [get_setFlag_of_ne _ _ hz, hget]
  · exact ⟨_, _, rfl⟩

/-- **`DXYN` draws the sprite at `I`**, in both dialects, for any two registers and any number of
rows. In every machine that a run can reach it goes through; it flips the pixels under the set bits
of the cells from `I` on, drawn where `VX` and `VY` name, and no others; `VF` then tells whether one
of them was turned off; the lit pixels become more by the visible set bits, less twice those that
were turned off; and besides the screen and `VF` nothing changes. A step at such a word does the
same. -/
theorem sprite_drawn (dialect : Dialect) (seed : UInt64) (actions : List Action) :
    let m := (fresh dialect seed).run actions
    (∀ (x y : Register) (rows : Fin 16), ∃ after,
      perform (.draw x y rows) m = ⟨.ok (), after, []⟩ ∧ m.Draws x y rows.val after) ∧
    (fetchable m.pc = true → m.instruction.family.val = 0xD →
      m.step.result = .ok m.instruction ∧
        m.fetched.Draws m.instruction.x m.instruction.y m.instruction.n.val m.step.state) := by
  intro m
  have hm : m.Bounded := bounded_run dialect seed actions
  refine ⟨fun x y rows => ?_, fun hf hfamily => ?_⟩
  · obtain ⟨after, hexecute, hdraws⟩ := execute_draws hm.index_le hm.monochrome x y rows
    exact ⟨after, perform_of_ok hexecute, hdraws⟩
  · have hop : m.instruction.operation? =
        some (.draw m.instruction.x m.instruction.y m.instruction.n) :=
      Instruction.operation?_eq_some_iff.2 ⟨hfamily, rfl, rfl, rfl⟩
    obtain ⟨after, hexecute, hdraws⟩ := execute_draws (m := m.fetched) hm.index_le hm.monochrome
      m.instruction.x m.instruction.y m.instruction.n
    rw [step_of_ok hf hop hexecute]
    exact ⟨rfl, hdraws⟩

end Chip8.Machine
