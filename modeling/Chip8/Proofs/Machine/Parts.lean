import Chip8.Machine.Execute
import Chip8.Proofs.Memory

/-!
# The parts of operations

What each part that operations are made of comes to. The parts are written so that leaving the range
of a word or of a table shows; here each gets the condition under which it does not, and its value
then, in cells that go round the end of memory (`Memory.byteAt`, `Memory.setRun`).
-/

namespace Chip8

namespace Machine

variable {m : Machine}

/-! ## The program counter -/

theorem skip_of_lt (h : m.pc.toNat + 2 < 65536) : m.skip = .ok { m with pc := m.pc + 2 } := by
  have hpc : UInt16.ofNat (m.pc.toNat + 2) = m.pc + 2 := by
    apply UInt16.toNat_inj.1
    simp
  rw [skip, Word.add_of_lt h, ok_bind, hpc]
  rfl

theorem rewind_of_le (h : 2 ≤ m.pc.toNat) : m.rewind = .ok { m with pc := m.pc - 2 } := by
  have hpc : UInt16.ofNat (m.pc.toNat - 2) = m.pc - 2 := by
    apply UInt16.toNat_inj.1
    have hle : (2 : UInt16) ≤ m.pc := UInt16.le_iff_toNat_le.2 (by simpa using h)
    have hlt := m.pc.toNat_lt
    rw [UInt16.toNat_sub_of_le _ _ hle, UInt16.toNat_ofNat', Nat.mod_eq_of_lt (by omega)]
    rfl
  rw [rewind, Word.sub_of_le h, ok_bind, hpc]
  rfl

theorem faultless_sub (a : UInt16) (b : Nat) : Faultless (Word.sub a b) := by
  unfold Word.sub
  split
  · exact faultless_ok _
  · exact faultless_stuck

theorem faultless_rewind (m : Machine) : Faultless m.rewind :=
  (faultless_sub _ _).bind fun _ => faultless_ok _

/-! ## Cells from `I` on -/

theorem toNat_ofNat_mod (n : Nat) : (UInt16.ofNat (n % 4096)).toNat = n % 4096 := by
  rw [UInt16.toNat_ofNat']
  omega

theorem cell_of_lt {offset : Nat} (h : m.index.toNat + offset < 65536) :
    m.cell offset = .ok (UInt16.ofNat ((m.index.toNat + offset) % 4096)) := by
  rw [cell, Word.add_of_lt h, ok_bind, Word.wrap, UInt16.toNat_ofNat', Nat.mod_eq_of_lt h]
  rfl

theorem read_cell {offset : Nat} (h : m.index.toNat + offset < 65536) :
    (do m.memory.read (← m.cell offset)) = .ok (m.memory.byteAt (m.index.toNat + offset)) := by
  rw [cell_of_lt h, ok_bind, Memory.read_of_lt (by rw [toNat_ofNat_mod]; omega), toNat_ofNat_mod,
    Memory.byteAt_mod]

theorem set_cell {memory : Memory} {offset : Nat} {byte : UInt8}
    (h : m.index.toNat + offset < 65536) :
    (do memory.set (← m.cell offset) byte) =
      .ok (memory.setAt (m.index.toNat + offset) byte) := by
  rw [cell_of_lt h, ok_bind, Memory.set_of_lt (by rw [toNat_ofNat_mod]; omega), toNat_ofNat_mod,
    Memory.setAt_mod]

theorem sprite_eq {rows : Nat} (h : m.index.toNat + rows ≤ 65536) :
    m.sprite rows =
      .ok ((List.range rows).map fun row => m.memory.byteAt (m.index.toNat + row)) := by
  -- For any list of rows below the bound, as the rows of a tail do not start at zero.
  have key : ∀ l : List Nat, (∀ row ∈ l, row < rows) →
      l.mapM (fun row => do m.memory.read (← m.cell row)) =
        (.ok (l.map fun row => m.memory.byteAt (m.index.toNat + row)) : Result _) := by
    intro l
    induction l with
    | nil => intro _; rfl
    | cons row l ih =>
      intro hl
      have hrow : row < rows := hl row (by simp)
      rw [List.mapM_cons, read_cell (by omega), ok_bind, ih fun r hr => hl r (by simp [hr])]
      rfl
  exact key _ (by simp)

theorem storeBytes_eq {bytes : List UInt8} (h : m.index.toNat + bytes.length ≤ 65536) :
    m.storeBytes bytes = .ok { m with memory := m.memory.setRun m.index.toNat bytes } := by
  have key : ∀ (l : List UInt8) (n : Nat) (memory : Memory),
      m.index.toNat + n + l.length ≤ 65536 →
      (l.zipIdx n).foldlM (fun memory (p : UInt8 × Nat) => do
          Memory.set memory (← m.cell p.2) p.1) memory =
        (.ok (memory.setRun (m.index.toNat + n) l) : Result Memory) := by
    intro l
    induction l with
    | nil => intro n memory _; rfl
    | cons byte l ih =>
      intro n memory hl
      rw [List.length_cons] at hl
      rw [List.zipIdx_cons, List.foldlM_cons, set_cell (by omega), ok_bind, ih _ _ (by omega)]
      rfl
  rw [storeBytes, key bytes 0 m.memory (by omega)]
  rfl

/-- The registers after those named in a list are loaded from the cells from `I` on. -/
def loaded (m : Machine) (targets : List Register) : Vector UInt8 16 :=
  targets.foldl (fun registers x =>
    ({ m with registers }.set x (m.memory.byteAt (m.index.toNat + x.val))).registers) m.registers

theorem loadRegisters_eq {targets : List Register} (h : m.index.toNat + 16 ≤ 65536) :
    m.loadRegisters targets = .ok { m with registers := m.loaded targets } := by
  have key : ∀ (l : List Register) (registers : Vector UInt8 16),
      l.foldlM (fun after x => do
          return Machine.set after x (← m.memory.read (← m.cell x.val))) { m with registers } =
        (.ok { m with registers := l.foldl (fun registers (x : Register) =>
          registers.set x (m.memory.byteAt (m.index.toNat + x.val))) registers } :
            Result Machine) := by
    intro l
    induction l with
    | nil => intro _; rfl
    | cons x l ih =>
      intro registers
      rw [List.foldlM_cons, ← bind_assoc, read_cell (by omega), ok_bind]
      exact ih _
  exact key targets m.registers

theorem passCells_eq {x : Register} (h : m.index.toNat + 16 < 65536) :
    m.passCells x = .ok (match m.dialect with
      | .legacy => { m with index := UInt16.ofNat ((m.index.toNat + (x.val + 1)) % 4096) }
      | .modern => m) := by
  unfold passCells
  cases m.dialect with
  | legacy =>
    rw [cell_of_lt (by omega), ok_bind]
    rfl
  | modern => rfl

end Machine

end Chip8
