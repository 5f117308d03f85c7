import Chip8.Proofs.Machine.Effects
import Chip8.Proofs.Screen.Overlay

/-!
# The font in memory

Nothing keeps a program from storing to the cells of the font, and one that does so spoils a glyph
(`font_unprotected`). But a cell in front of the program changes only where a step of the run stores
to it (`StoredIn`), so that the rest of the font stays as it was made (`font_kept`): a digit that is
looked up and then drawn looks as the font has it, unless a step stored to one of its five cells.
-/

namespace Chip8

/-- The rows of a digit's glyph. -/
def Memory.glyph (digit : Nat) : List UInt8 := (font.drop (digit * glyphHeight)).take glyphHeight

theorem Memory.glyph_eq {digit : Nat} (h : digit < 16) :
    glyph digit = (List.range 5).map fun k => font[digit * 5 + k]?.getD 0 := by
  decide +revert

namespace Machine

open Screen (Change)

variable {m : Machine} {actions : List Action} {cell : Nat}

/-! ## Stores in a run -/

/-- A step of the run stores to the cell. -/
def StoredIn (m : Machine) (actions : List Action) (cell : Nat) : Prop :=
  ∃ first last, actions = first ++ .step :: last ∧ (m.run first).StoresTo cell

theorem not_storedIn_nil (m : Machine) (cell : Nat) : ¬m.StoredIn [] cell := by
  rintro ⟨first, last, h, -⟩
  simp at h

theorem storedIn_cons {a : Action} : m.StoredIn (a :: actions) cell ↔
    a = .step ∧ m.StoresTo cell ∨ (m.act a).state.StoredIn actions cell := by
  constructor
  · rintro ⟨_ | ⟨b, first⟩, last, h, hstores⟩
    · cases h
      exact .inl ⟨rfl, hstores⟩
    · cases h
      exact .inr ⟨first, last, rfl, hstores⟩
  · rintro (⟨rfl, hstores⟩ | ⟨first, last, rfl, hstores⟩)
    · exact ⟨[], actions, rfl, hstores⟩
    · exact ⟨a :: first, last, rfl, hstores⟩

/-- A run keeps the cells in front of the program that none of its steps stores to. -/
theorem byteAt_run_of_not_storedIn (hm : m.Bounded) (hcell : cell < 0x200)
    (h : ¬m.StoredIn actions cell) :
    (m.run actions).memory.byteAt cell = m.memory.byteAt cell := by
  induction actions generalizing m with
  | nil => rfl
  | cons a actions ih =>
    obtain ⟨hfirst, hrest⟩ := not_or.1 (mt storedIn_cons.2 h)
    rw [run_cons, ih (act_safely hm a).1 hrest]
    by_cases ha : a = .step
    · subst ha
      by_contra hne
      exact hfirst ⟨rfl, hm.confined.memory cell (by omega) hne⟩
    · exact byteAt_act_of_lt ha hcell

/-- A cell of the font to which no step of a run stores is as it was made. -/
theorem byteAt_font (dialect : Dialect) (seed : UInt64) (program : List UInt8) {k : Nat}
    (hk : k < 80) (h : ¬(loadedWith dialect seed program).StoredIn actions (0x50 + k)) :
    ((loadedWith dialect seed program).run actions).memory.byteAt (0x50 + k) =
      Memory.font[k]?.getD 0 := by
  rw [byteAt_run_of_not_storedIn (bounded_loadedWith dialect seed program) (by omega) h,
    byteAt_loadedWith_of_lt _ _ _ (by omega), Memory.byteAt_fresh_font hk]

/-! ## Looking a glyph up and drawing it -/

/-- The bytes in the cells from `I` on, round the end of memory. -/
def bytesAtIndex (m : Machine) (count : Nat) : List UInt8 :=
  (List.range count).map fun k => m.memory.byteAt (m.index.toNat + k)

theorem execute_draw (hm : m.index.toNat ≤ 0xFFF) (x y : Register) (rows : Fin 16) :
    m.execute (.draw x y rows) =
      let sprite := m.bytesAtIndex rows.val
      .ok (({ m with screen := m.screen.draw (m.get x) (m.get y) sprite } : Machine).setFlag
        (m.screen.hits (m.get x) (m.get y) sprite)) := by
  have hrows := rows.isLt
  rw [execute, sprite_eq (by omega), ok_bind, Screen.drawSprite_eq, ok_bind]
  rfl

theorem bytesAtIndex_of_glyph {digit : UInt8} (hindex : m.index = Memory.glyphAddr digit)
    (h : ∀ k < 5, m.memory.byteAt (0x50 + (digit.toNat % 16 * 5 + k)) =
      Memory.font[digit.toNat % 16 * 5 + k]?.getD 0) :
    m.bytesAtIndex 5 = Memory.glyph (digit.toNat % 16) := by
  rw [Memory.glyph_eq (Nat.mod_lt _ (by omega)), bytesAtIndex, hindex, Memory.toNat_glyphAddr]
  refine List.map_congr_left fun k hk => ?_
  rw [Nat.add_assoc, h k (List.mem_range.1 hk)]

/-- Where `I` points at a digit's glyph, and the font's bytes are in its five cells, drawing five
rows flips the pixels of the glyph and no others. -/
theorem step_of_draw_glyph {digit : UInt8} {left top : Register} (hm : m.Bounded)
    (hindex : m.index = Memory.glyphAddr digit)
    (hfont : ∀ k < 5, m.memory.byteAt (0x50 + (digit.toNat % 16 * 5 + k)) =
      Memory.font[digit.toNat % 16 * 5 + k]?.getD 0)
    (hf : fetchable m.pc = true) (hop : m.instruction.operation? = some (.draw left top 5)) :
    m.step.result = .ok m.instruction ∧ ∀ col row,
      m.step.state.screen.pixel col row = m.screen.pixel col row ^^^
        if (Change.draw (m.get left) (m.get top) (Memory.glyph (digit.toNat % 16))).landsOn col.val
          row.val then 1 else 0 := by
  have hstep := step_of_ok hf hop (execute_draw (m := m.fetched) hm.index_le left top 5)
  have hscreen : m.step.state.screen =
      m.screen.draw (m.get left) (m.get top) (Memory.glyph (digit.toNat % 16)) := by
    rw [hstep, ← bytesAtIndex_of_glyph hindex hfont]
    rfl
  refine ⟨by rw [hstep], fun col row => ?_⟩
  rw [hscreen, Screen.pixel_draw, Screen.landsOn_draw]

/-- **The font stays as it was made but where the program stores to it.** Whatever happens to a
machine that was just loaded, a cell of the font holds its byte unless a step stored to it. If the
machine then looks up a digit's glyph, later draws five rows with `I` as the look-up left it, and no
step before that stored to one of the glyph's five cells, then the pixels of the font's glyph are
flipped and no others. -/
theorem font_kept (dialect : Dialect) (seed : UInt64) (program : List UInt8)
    (actions : List Action) :
    let loaded := loadedWith dialect seed program
    let m := loaded.run actions
    (∀ k < 80, ¬loaded.StoredIn actions (0x50 + k) →
      m.memory.cells[0x50 + k]? = Memory.font[k]?) ∧
      ∀ x, fetchable m.pc = true → m.instruction.operation? = some (.glyph x) →
        let digit := (m.get x).toNat % 16
        m.step.result = .ok m.instruction ∧ ∀ between : List Action,
          let m' := m.step.state.run between
          (∀ k < 5, ¬loaded.StoredIn (actions ++ .step :: between) (0x50 + (digit * 5 + k))) →
          m'.index = m.step.state.index → ∀ left top, fetchable m'.pc = true →
            m'.instruction.operation? = some (.draw left top 5) →
            m'.step.result = .ok m'.instruction ∧ ∀ col row,
              m'.step.state.screen.pixel col row = m'.screen.pixel col row ^^^
                if (Change.draw (m'.get left) (m'.get top) (Memory.glyph digit)).landsOn col.val
                  row.val then 1 else 0 := by
  intro loaded m
  have hlength : Memory.font.length = 80 := by decide
  refine ⟨fun k hk hstored => ?_, fun x hf hop => ?_⟩
  · have hbyte : m.memory.byteAt (0x50 + k) = Memory.font[k]?.getD 0 :=
      byteAt_font dialect seed program hk hstored
    rw [Memory.byteAt_of_lt (by omega)] at hbyte
    rw [Vector.getElem?_eq_getElem (by omega), hbyte, List.getElem?_eq_getElem (by omega)]
    rfl
  have hstep := step_of_ok hf hop rfl
  have hm : m.Bounded := (bounded_loadedWith dialect seed program).run actions
  refine ⟨by rw [hstep], ?_⟩
  intro between m' hstored hindex left top hf' hop'
  have hrun : m' = loaded.run (actions ++ .step :: between) := by
    rw [run_append]
    rfl
  have hglyph : m'.index = Memory.glyphAddr (m.get x) := by
    rw [hindex, hstep]
    rfl
  refine step_of_draw_glyph ((step_safely hm).1.run between) hglyph (fun k hk => ?_) hf' hop'
  rw [hrun]
  exact byteAt_font dialect seed program (by omega) (hstored k hk)

/-- A program that looks up the digit ten and draws it in the corner. -/
theorem font_kept_ten :
    let loaded := loadedWith .legacy 0 [0x60, 0x0A, 0xF0, 0x29, 0xD1, 0x15]
    let m := loaded.run [.step]
    let m' := m.step.state.run [.press 3, .tick]
    (∀ k < 5, ¬loaded.StoredIn [.step, .step, .press 3, .tick] (0x50 + (10 * 5 + k))) ∧
      m.instruction.operation? = some (.glyph 0) ∧ m.step.result = .ok m.instruction ∧
      m'.instruction.operation? = some (.draw 1 1 5) ∧ m'.step.result = .ok m'.instruction ∧
      ∀ col row, m'.step.state.screen.pixel col row = m'.screen.pixel col row ^^^
        if (Change.draw 0 0 [0xF0, 0x90, 0xF0, 0x90, 0x90]).landsOn col.val row.val then 1
        else 0 := by
  intro loaded m m'
  have hfacts : loaded.instruction.operation? = some (.setValue 0 10) ∧
      fetchable m.pc = true ∧ m.instruction.operation? = some (.glyph 0) ∧ m.get 0 = 10 ∧
      m'.index = m.step.state.index ∧ fetchable m'.pc = true ∧
      m'.instruction.operation? = some (.draw 1 1 5) ∧ m'.get 1 = 0 := by
    decide +kernel
  obtain ⟨hset, hf, hop, hdigit, hindex, hf', hop', hcorner⟩ := hfacts
  have hkept := font_kept .legacy 0 [0x60, 0x0A, 0xF0, 0x29, 0xD1, 0x15] [.step]
  have hloaded : loadedWith .legacy 0 [0x60, 0x0A, 0xF0, 0x29, 0xD1, 0x15] = loaded := rfl
  have hm : loaded.run [.step] = m := rfl
  have hm' : m.step.state.run [.press 3, .tick] = m' := rfl
  -- From here on the machines are mere names, as running them again would take long.
  clear_value m' m loaded
  simp only [hloaded, hm] at hkept
  have hstored : ∀ k < 5,
      ¬loaded.StoredIn [.step, .step, .press 3, .tick] (0x50 + (10 * 5 + k)) := by
    intro k _ h
    rw [storedIn_cons, storedIn_cons] at h
    rcases h with ⟨-, h⟩ | ⟨-, h⟩ | h
    · obtain ⟨x, h | h⟩ := h.operation? <;> simp [hset] at h
    · have hstep : (loaded.act .step).state = m := hm
      obtain ⟨x, h | h⟩ := h.operation? <;> simp [hstep, hop] at h
    · simp [storedIn_cons, not_storedIn_nil] at h
  obtain ⟨-, hlook⟩ := hkept
  obtain ⟨hstep, hshow⟩ := hlook 0 hf hop
  rw [hdigit] at hshow
  have hshown := hshow [.press 3, .tick] hstored
  rw [hm'] at hshown
  obtain ⟨hdrawn, hpixels⟩ := hshown hindex 1 1 hf' hop'
  rw [hcorner] at hpixels
  exact ⟨hstored, hop, hstep, hop', hdrawn, hpixels⟩

/-- A program that stores a zero over the first row of the digit zero, looks the digit up and draws
it: the row is missing. -/
theorem font_unprotected :
    let program : List UInt8 := [0xA0, 0x50, 0xF0, 0x55, 0xF0, 0x29, 0xD0, 0x05]
    let m := (loadedWith .modern 0 program).run [.step, .step]
    let drawn := m.run [.step, .step]
    program.length ≤ 0xC90 ∧ (¬∀ k < 80, m.memory.cells[0x50 + k]? = Memory.font[k]?) ∧
      m.instruction.operation? = some (.glyph 0) ∧
      m.step.state.instruction.operation? = some (.draw 0 0 5) ∧
      ¬∀ col row, drawn.screen.pixel col row = m.screen.pixel col row ^^^
        if (Change.draw (m.get 0) (m.get 0) (Memory.glyph ((m.get 0).toNat % 16))).landsOn col.val
          row.val then 1 else 0 := by
  intro program m drawn
  have hfacts : program.length ≤ 0xC90 ∧ m.memory.cells[0x50]? = some 0x00 ∧
      m.instruction.operation? = some (.glyph 0) ∧
      m.step.state.instruction.operation? = some (.draw 0 0 5) ∧
      m.get 0 = 0 ∧ m.screen.pixel 0 0 = 0 ∧ drawn.screen.pixel 0 0 = 0 := by
    decide +kernel
  obtain ⟨hlength, hcell, hlook, hdraw, hdigit, hbefore, hafter⟩ := hfacts
  refine ⟨hlength, fun hkept => ?_, hlook, hdraw, fun hshown => ?_⟩
  · have hfirst := hkept 0 (by omega)
    rw [Nat.add_zero, hcell] at hfirst
    exact absurd hfirst (by decide)
  · have hfirst := hshown 0 0
    rw [hdigit, hbefore, hafter] at hfirst
    exact absurd hfirst (by decide)

end Machine

end Chip8
