import Chip8.Memory
import Chip8.Proofs.Result

/-!
# What the cells hold

The byte in each cell, after bytes are stored or a program is loaded and in a new memory: the font,
and zeros elsewhere. Cells are named by numbers, round the end of memory.

* `byteAt`, `setAt`, `setRun`: reading and storing round the end of memory;
* `byteAt_setRun`, `byteAt_place`: runs of bytes, round the end and up to it;
* `load_eq`: a load places the program or fails.
-/

namespace Chip8

namespace Memory

variable {m m' : Memory} {addr : UInt16} {bytes : List UInt8} {start cell k : Nat}

/-! ## Single cells -/

/-- The byte in the cell that a number names, round the end of memory. -/
def byteAt (m : Memory) (n : Nat) : UInt8 := m.cells[n % 4096]

/-- The memory with a byte in the cell that a number names, round the end of memory. -/
def setAt (m : Memory) (n : Nat) (byte : UInt8) : Memory := ⟨m.cells.set (n % 4096) byte⟩

theorem byteAt_mod (m : Memory) (n : Nat) : m.byteAt (n % 4096) = m.byteAt n := by
  simp [byteAt]

theorem setAt_mod (m : Memory) (n : Nat) (byte : UInt8) :
    m.setAt (n % 4096) byte = m.setAt n byte := by
  simp [setAt]

theorem byteAt_of_lt (h : cell < 4096) : m.byteAt cell = m.cells[cell] := by
  simp only [byteAt, Nat.mod_eq_of_lt h]

theorem byteAt_setAt (m : Memory) (n cell : Nat) (byte : UInt8) :
    (m.setAt n byte).byteAt cell = if n % 4096 = cell % 4096 then byte else m.byteAt cell := by
  simp only [byteAt, setAt, Vector.getElem_set]

theorem eq_of_byteAt (h : ∀ cell < 4096, m.byteAt cell = m'.byteAt cell) : m = m' := by
  have hcells : m.cells = m'.cells := by
    ext cell hcell
    rw [← byteAt_of_lt hcell, ← byteAt_of_lt hcell, h cell hcell]
  cases m
  cases m'
  exact congrArg Memory.mk hcells

theorem read_of_lt (h : addr.toNat < 4096) : m.read addr = .ok (m.byteAt addr.toNat) := by
  simp only [read, Vector.getElem?_eq_getElem h, byteAt, Nat.mod_eq_of_lt h]

theorem word_of_lt (h : addr.toNat + 1 < 4096) :
    m.word addr = .ok (Word.ofBytes (m.byteAt addr.toNat) (m.byteAt (addr.toNat + 1))) := by
  have h₀ : addr.toNat < 4096 := by omega
  simp only [word, Vector.getElem?_eq_getElem h, Vector.getElem?_eq_getElem h₀, byteAt,
    Nat.mod_eq_of_lt h, Nat.mod_eq_of_lt h₀]

theorem set_of_lt {byte : UInt8} (h : addr.toNat < 4096) :
    m.set addr byte = .ok (m.setAt addr.toNat byte) := by
  have hset : m.cells.setIfInBounds addr.toNat byte = m.cells.set addr.toNat byte := by
    ext i hi
    rw [Vector.getElem_setIfInBounds, Vector.getElem_set]
  simp only [set, if_pos h, setAt, Nat.mod_eq_of_lt h, hset]

/-! ## Runs of cells -/

/-- The memory with bytes in the cells from `start` on, round the end of memory. -/
def setRun (m : Memory) (start : Nat) : List UInt8 → Memory
  | [] => m
  | byte :: rest => (m.setAt start byte).setRun (start + 1) rest

/-- Bytes that are stored leave the other cells alone. -/
theorem byteAt_setRun_of_ne (h : ∀ k < bytes.length, (start + k) % 4096 ≠ cell % 4096) :
    (m.setRun start bytes).byteAt cell = m.byteAt cell := by
  induction bytes generalizing m start with
  | nil => rfl
  | cons byte rest ih =>
    rw [List.length_cons] at h
    have hfirst : start % 4096 ≠ cell % 4096 := h 0 (by omega)
    rw [setRun, ih, byteAt_setAt, if_neg hfirst]
    intro k hk
    have hnext := h (k + 1) (by omega)
    rwa [← Nat.add_assoc, Nat.add_right_comm] at hnext

/-- Bytes that are stored can be read back, as long as the run does not come round to itself. -/
theorem byteAt_setRun (h : bytes.length ≤ 4096) (hk : k < bytes.length) :
    (m.setRun start bytes).byteAt (start + k) = bytes[k] := by
  induction bytes generalizing m start k with
  | nil => exact absurd hk (Nat.not_lt_zero k)
  | cons byte rest ih =>
    rw [List.length_cons] at h hk
    cases k with
    | zero =>
      have hother : ∀ j < rest.length, (start + 1 + j) % 4096 ≠ start % 4096 := by
        intro j hj
        omega
      change ((m.setAt start byte).setRun (start + 1) rest).byteAt start = byte
      rw [byteAt_setRun_of_ne hother, byteAt_setAt, if_pos rfl]
    | succ k =>
      have hnext : start + (k + 1) = start + 1 + k := by omega
      rw [setRun, hnext, ih (by omega) (by omega)]
      rfl

theorem byteAt_place (m : Memory) (start : Nat) (bytes : List UInt8) (h : cell < 4096) :
    (m.place start bytes).byteAt cell =
      if start ≤ cell then bytes[cell - start]?.getD (m.byteAt cell) else m.byteAt cell := by
  rw [byteAt_of_lt h, getElem_place, byteAt_of_lt h]
  split
  · rename_i hin
    rw [if_pos hin.1, List.getElem?_eq_getElem hin.2]
    rfl
  · rename_i hout
    split
    · rw [List.getElem?_eq_none (by omega)]
      rfl
    · rfl

/-! ## A new memory -/

theorem byteAt_fresh_font (h : k < 80) : fresh.byteAt (0x50 + k) = font[k]?.getD 0 := by
  have hstart : fontStart.toNat = 0x50 := by decide
  have hlength : font.length = 80 := by decide
  rw [fresh, byteAt_place _ _ _ (by omega), hstart, if_pos (by omega), Nat.add_sub_cancel_left,
    List.getElem?_eq_getElem (by omega)]
  rfl

theorem byteAt_fresh_of_le (hle : 0xA0 ≤ cell) (hlt : cell < 4096) : fresh.byteAt cell = 0 := by
  have hstart : fontStart.toNat = 0x50 := by decide
  have hlength : font.length = 80 := by decide
  rw [fresh, byteAt_place _ _ _ hlt, hstart, if_pos (by omega),
    List.getElem?_eq_none (by omega), byteAt_of_lt hlt]
  simp

/-! ## The map -/

/-- The address of a glyph is a sum and a product that stay in sixteen bits. -/
theorem toNat_glyphAddr (digit : UInt8) :
    (glyphAddr digit).toNat = 0x50 + digit.toNat % 16 * 5 := by
  have hstart : fontStart.toNat = 0x50 := by decide
  rw [glyphAddr, UInt16.toNat_ofNat', hstart, glyphHeight]
  omega

/-- A program that fits lies in memory after the load. -/
theorem load_eq (m : Memory) (program : List UInt8) :
    m.load program =
      if program.length ≤ programCapacity then
        .ok (program.length, m.place programStart.toNat program)
      else .error (.fault (.programTooLarge program.length programCapacity)) := by
  unfold load
  split
  · rename_i h
    have hend : programStart.toNat + program.length ≤ 4096 := by
      have hstart : programStart.toNat + programCapacity = 0xE90 := by decide
      omega
    rw [write, if_pos hend, if_pos (Nat.le_refl _), List.take_length, ok_bind]
    rfl
  · rfl

/-- A load leaves the cells in front of the program alone. -/
theorem byteAt_load_of_lt {program : List UInt8} {loaded : Nat × Memory}
    (h : m.load program = .ok loaded) (hcell : cell < 0x200) :
    loaded.2.byteAt cell = m.byteAt cell := by
  have hstart : programStart.toNat = 0x200 := by decide
  rw [load_eq] at h
  split at h
  · cases h
    rw [byteAt_place _ _ _ (by omega), hstart, if_neg (by omega)]
  · cases h

end Memory

end Chip8
