import Chip8.Proofs.Instruction
import Chip8.Proofs.Machine.Bounds
import Chip8.Proofs.Machine.Cells
import Chip8.Proofs.Machine.Timers

/-!
# What an instruction changes

Each instruction changes its own part of the machine and nothing else (`Machine.Confined`): of the
registers those that it sets (`Operation.sets`), of the memory the cells that it stores to
(`Machine.StoresTo`), and `I` only where the dialect has it so.

* `get_execute_of_notMem`, `byteAt_execute_of_ne`, `index_of_transfer`: register by register, cell
  by cell, and `I`;
* `execute_confined`: an operation keeps to the part of its instruction;
* `step_confined`: so does every step, be it one that fails.
-/

namespace Chip8

/-- The registers that an operation may set. -/
def Operation.sets (dialect : Dialect) : Operation → List Register
  | .setValue x _ | .addValue x _ | .move x _ | .random x _ | .readDelay x | .waitKey x => [x]
  | .or x _ | .and x _ | .xor x _ => if dialect = .legacy then [x, 0xF] else [x]
  | .add x _ | .sub x _ | .subReversed x _ | .shiftRight x _ | .shiftLeft x _ => [x, 0xF]
  | .draw .. | .addIndex _ => [0xF]
  | .load x => Machine.upTo x
  | _ => []

/-- How many of the cells from `I` on an operation stores to. -/
def Operation.stores : Operation → Nat
  | .decimalDigits _ => 3
  | .store x => x.val + 1
  | _ => 0

theorem Machine.mem_upTo {r x : Register} : r ∈ upTo x ↔ r ≤ x := by
  simp [upTo]

theorem Machine.length_upTo (x : Register) : (upTo x).length = x.val + 1 := by
  revert x
  decide

namespace Instruction

open Encodes (pair one)

variable {i : Instruction} {op : Operation} {dialect : Dialect} {r : Register}

/-- Of the registers that are neither `VX` nor `VF`, only `FX65` sets any. -/
theorem Encodes.load_of_mem_sets (hop : i.Encodes op) (hr : r ∈ op.sets dialect) (hx : r ≠ i.x)
    (hflag : r ≠ 0xF) : i.family.val = 0xF ∧ i.nn = 0x65 := by
  cases op
  case load => exact ⟨hop.1, hop.2.1⟩
  case or | and | xor => cases dialect <;> simp_all [Operation.sets, Encodes, pair]
  all_goals simp_all [Operation.sets, Encodes, pair, one]

/-- The instructions that set `VF` where it is not `VX`. -/
theorem Encodes.flag_of_mem_sets (hop : i.Encodes op) (hr : 0xF ∈ op.sets dialect)
    (hx : i.x ≠ 0xF) :
    i.family.val = 0xD ∨ i.family.val = 0xF ∧ i.nn = 0x1E ∨
      i.family.val = 0x8 ∧ (i.n.val ∈ [0x4, 0x5, 0x6, 0x7, 0xE] ∨
        dialect = .legacy ∧ i.n.val ∈ [0x1, 0x2, 0x3]) := by
  cases op
  case load =>
    -- The last of the registers up to `VX` is `VX`.
    obtain ⟨-, -, rfl⟩ := hop
    have hle : 0xF ≤ i.x := Machine.mem_upTo.1 hr
    exact absurd (Fin.last_le_iff.1 hle) hx
  case or | and | xor => cases dialect <;> simp_all [Operation.sets, Encodes, pair]
  all_goals simp_all [Operation.sets, Encodes, pair, one]

end Instruction

namespace Machine

variable {m after : Machine} {op : Operation} {r x : Register} {cell : Nat}

/-- The instruction in front of the machine stores to the cell: it is `FX33` and the cell is one of
the three from `I` on, or it is `FX55` and the cell is one of the `X + 1` from `I` on, in both cases
round the end of memory. -/
def StoresTo (m : Machine) (cell : Nat) : Prop :=
  fetchable m.pc = true ∧ m.instruction.family.val = 0xF ∧
    (m.instruction.nn = 0x33 ∧ (∃ k, k < 3 ∧ cell = (m.index.toNat + k) % 4096) ∨
      m.instruction.nn = 0x55 ∧
        ∃ k, k ≤ m.instruction.x.val ∧ cell = (m.index.toNat + k) % 4096)

/-- A machine differs from the one before it only in what the instruction in front of that one may
change, and in the program counter. -/
structure Confined (m after : Machine) : Prop where
  /-- The screen changes on `00E0` and `DXYN`. -/
  screen : after.screen ≠ m.screen →
    m.instruction.word = 0x00E0 ∨ m.instruction.family.val = 0xD
  /-- A cell changes on `FX33` and `FX55`, if it is one of those they store to. -/
  memory : ∀ cell < 4096, after.memory.byteAt cell ≠ m.memory.byteAt cell → m.StoresTo cell
  /-- The call stack changes on `2NNN` and `00EE`. -/
  stack : after.stack ≠ m.stack →
    m.instruction.family.val = 0x2 ∨ m.instruction.word = 0x00EE
  /-- The delay timer changes on `FX15`. -/
  delay : after.timers.delay ≠ m.timers.delay →
    m.instruction.family.val = 0xF ∧ m.instruction.nn = 0x15
  /-- The sound timer changes on `FX18`. -/
  sound : after.timers.sound ≠ m.timers.sound →
    m.instruction.family.val = 0xF ∧ m.instruction.nn = 0x18
  /-- The wait for a key changes on `FX0A`. -/
  keyWait : after.keyWait ≠ m.keyWait →
    m.instruction.family.val = 0xF ∧ m.instruction.nn = 0x0A
  /-- The random generator changes on `CXNN`. -/
  random : after.random ≠ m.random → m.instruction.family.val = 0xC
  /-- `I` changes on `ANNN`, `FX1E` and `FX29`, and in the legacy dialect on `FX55` and `FX65`. -/
  index : after.index ≠ m.index →
    m.instruction.family.val = 0xA ∨ m.instruction.family.val = 0xF ∧
      (m.instruction.nn = 0x1E ∨ m.instruction.nn = 0x29 ∨
        m.dialect = .legacy ∧ (m.instruction.nn = 0x55 ∨ m.instruction.nn = 0x65))
  /-- A register that is neither `VX` nor `VF` changes on `FX65`. -/
  register : ∀ r, r ≠ m.instruction.x → r ≠ 0xF → after.get r ≠ m.get r →
    m.instruction.family.val = 0xF ∧ m.instruction.nn = 0x65
  /-- `VF`, if it is not `VX`, changes on `DXYN`, on `FX1E`, on `8XY4` to `8XY7` and on `8XYE`, and
  in the legacy dialect on `8XY1` to `8XY3`. -/
  flag : m.instruction.x ≠ 0xF → after.get 0xF ≠ m.get 0xF →
    m.instruction.family.val = 0xD ∨
      m.instruction.family.val = 0xF ∧ m.instruction.nn = 0x1E ∨
      m.instruction.family.val = 0x8 ∧ (m.instruction.n.val ∈ [0x4, 0x5, 0x6, 0x7, 0xE] ∨
        m.dialect = .legacy ∧ m.instruction.n.val ∈ [0x1, 0x2, 0x3])
  /-- The keypad never changes. -/
  keypad : after.keypad = m.keypad
  /-- The dialect never changes. -/
  dialect : after.dialect = m.dialect

/-! ## Registers -/

theorem get_setFlag_of_ne (m : Machine) (up : Bool) (hr : r ≠ 0xF) :
    (m.setFlag up).get r = m.get r := by
  rw [setFlag, get_set, if_neg hr.symm]

theorem get_setWithFlag_of_ne (m : Machine) (value : UInt8) (up : Bool) (hx : r ≠ x)
    (hr : r ≠ 0xF) : (m.setWithFlag x value up).get r = m.get r := by
  rw [setWithFlag, get_setFlag_of_ne _ _ hr, get_set, if_neg hx.symm]

theorem get_setBitwise_of_ne (m : Machine) (value : UInt8) (hx : r ≠ x)
    (hr : m.dialect = .legacy → r ≠ 0xF) : (m.setBitwise x value).get r = m.get r := by
  unfold setBitwise
  split
  · rename_i hdialect
    exact get_setWithFlag_of_ne m value false hx (hr hdialect)
  · rw [get_set, if_neg hx.symm]

/-- What is loaded into other registers leaves a register alone. -/
theorem get_loadRegisters_of_notMem {targets : List Register}
    (h : m.loadRegisters targets = .ok after) (hr : r ∉ targets) : after.get r = m.get r := by
  -- The cells are those of the machine at the start, while the machine that is loaded changes.
  have hfold : ∀ loaded : Machine,
      targets.foldlM (fun loaded x => do
        return loaded.set x (← m.memory.read (← m.cell x.val))) loaded =
          (.ok after : Result Machine) →
      after.get r = loaded.get r := by
    clear h
    induction targets with
    | nil =>
      intro loaded hloaded
      cases hloaded
      rfl
    | cons x targets ih =>
      intro loaded hloaded
      obtain ⟨hx, htargets⟩ := not_or.1 (mt List.mem_cons.2 hr)
      rw [List.foldlM_cons] at hloaded
      obtain ⟨next, hnext, hrest⟩ := bind_eq_ok.1 hloaded
      obtain ⟨addr, -, hread⟩ := bind_eq_ok.1 hnext
      obtain ⟨byte, -, hset⟩ := bind_eq_ok.1 hread
      cases hset
      rw [ih htargets _ hrest, get_set, if_neg (Ne.symm hx)]
  exact hfold m h

theorem get_waitKey_of_ne (h : m.waitKey x = .ok after) (hr : r ≠ x) :
    after.get r = m.get r := by
  unfold waitKey at h
  split at h
  · obtain ⟨down, -, h⟩ := bind_eq_ok.1 h
    obtain ⟨wentUp, -, h⟩ := bind_eq_ok.1 h
    split at h
    · obtain ⟨pc, rfl⟩ := eq_of_rewind h
      rfl
    · cases h
      rw [get_set, if_neg hr.symm]
      rfl
  · obtain ⟨pc, rfl⟩ := eq_of_rewind h
    rfl

/-- **An operation leaves the registers alone that it does not set.** -/
theorem get_execute_of_notMem (h : m.execute op = .ok after) (hr : r ∉ op.sets m.dialect) :
    after.get r = m.get r := by
  cases op
  case setValue | addValue | move | readDelay =>
    have hx := List.ne_of_not_mem_cons hr
    cases h
    rw [get_set, if_neg hx.symm]
  case or x y | and x y | xor x y =>
    have hx : r ≠ x := by
      rintro rfl
      exact hr (by simp only [Operation.sets]; split <;> simp)
    have hflag : m.dialect = .legacy → r ≠ 0xF := by
      rintro hdialect rfl
      exact hr (by simp [Operation.sets, hdialect])
    cases h
    exact get_setBitwise_of_ne m _ hx hflag
  case add | sub | subReversed | shiftRight | shiftLeft =>
    have hx := List.ne_of_not_mem_cons hr
    have hflag := List.ne_of_not_mem_cons (List.not_mem_of_not_mem_cons hr)
    cases h
    exact get_setWithFlag_of_ne m _ _ hx hflag
  case random x mask =>
    -- Named before it is looked at: evaluating it would run the generator.
    rcases hnext : m.random.next with ⟨byte, random⟩
    have hx := List.ne_of_not_mem_cons hr
    simp only [execute, hnext] at h
    cases h
    rw [get_set, if_neg hx.symm]
    rfl
  case draw =>
    obtain ⟨sprite, -, hdraw⟩ := bind_eq_ok.1 h
    obtain ⟨⟨screen, hit⟩, -, hflag⟩ := bind_eq_ok.1 hdraw
    cases hflag
    exact get_setFlag_of_ne _ _ (List.ne_of_not_mem_cons hr)
  case addIndex =>
    obtain ⟨sum, -, hflag⟩ := bind_eq_ok.1 h
    cases hflag
    exact get_setFlag_of_ne _ _ (List.ne_of_not_mem_cons hr)
  case waitKey => exact get_waitKey_of_ne h (List.ne_of_not_mem_cons hr)
  case load =>
    obtain ⟨loaded, hload, hpass⟩ := bind_eq_ok.1 h
    obtain ⟨index, rfl⟩ := eq_of_passCells hpass
    have hloaded : loaded.get r = m.get r := get_loadRegisters_of_notMem hload hr
    exact hloaded
  all_goals
    exact congrArg (fun registers => registers[r])
      (execute_same (p := .registers) h (by simp [Operation.writes]))

/-! ## Cells and `I` -/

/-- **An operation leaves the cells alone that it does not store to.** -/
theorem byteAt_execute_of_ne (h : m.execute op = .ok after) (hm : m.index.toNat ≤ 0xFFF)
    (hcell : ∀ k < op.stores, (m.index.toNat + k) % 4096 ≠ cell % 4096) :
    after.memory.byteAt cell = m.memory.byteAt cell := by
  cases op with
  | decimalDigits x =>
    rw [execute, storeBytes_eq (by simp; omega)] at h
    cases h
    exact Memory.byteAt_setRun_of_ne hcell
  | store x =>
    have hlength : ((upTo x).map m.get).length = x.val + 1 := by
      rw [List.length_map, length_upTo]
    have hx := x.isLt
    rw [execute, storeBytes_eq (by omega), ok_bind] at h
    obtain ⟨index, rfl⟩ := eq_of_passCells h
    exact Memory.byteAt_setRun_of_ne (hlength ▸ hcell)
  | _ =>
    exact congrArg (fun memory => memory.byteAt cell)
      (execute_same (p := .memory) h (by simp [Operation.writes]))

theorem eq_of_passCells_modern (h : m.passCells x = .ok after) (hm : m.dialect = .modern) :
    after = m := by
  rw [passCells, hm] at h
  exact (Except.ok.inj h).symm

/-- **A bulk transfer leaves `I` alone in the modern dialect.** -/
theorem index_of_transfer (hop : op = .store x ∨ op = .load x) (h : m.execute op = .ok after)
    (hm : m.dialect = .modern) : after.index = m.index := by
  rcases hop with rfl | rfl
  · obtain ⟨stored, hstore, hpass⟩ := bind_eq_ok.1 h
    obtain ⟨memory, rfl⟩ := eq_of_storeBytes hstore
    rw [eq_of_passCells_modern hpass hm]
  · obtain ⟨loaded, hload, hpass⟩ := bind_eq_ok.1 h
    obtain ⟨registers, rfl⟩ := eq_of_loadRegisters hload
    rw [eq_of_passCells_modern hpass hm]

/-! ## Steps -/

theorem Confined.withPc (m : Machine) (pc : UInt16) : m.Confined { m with pc } where
  screen h := absurd rfl h
  memory _ _ h := absurd rfl h
  stack h := absurd rfl h
  delay h := absurd rfl h
  sound h := absurd rfl h
  keyWait h := absurd rfl h
  random h := absurd rfl h
  index h := absurd rfl h
  register _ _ _ h := absurd rfl h
  flag _ h := absurd rfl h
  keypad := rfl
  dialect := rfl

theorem storesTo_of_stores (hf : fetchable m.pc = true) (hop : m.instruction.Encodes op)
    {k : Nat} (hk : k < op.stores) (hcell : cell = (m.index.toNat + k) % 4096) :
    m.StoresTo cell := by
  cases op with
  | decimalDigits x => exact ⟨hf, hop.1, .inl ⟨hop.2.1, k, hk, hcell⟩⟩
  | store x =>
    obtain ⟨hfamily, hnn, rfl⟩ := hop
    exact ⟨hf, hfamily, .inr ⟨hnn, k, Nat.le_of_lt_succ hk, hcell⟩⟩
  | _ => exact absurd hk (Nat.not_lt_zero k)

theorem mem_sets_of_get_ne (h : m.fetched.execute op = .ok after) (hne : after.get r ≠ m.get r) :
    r ∈ op.sets m.dialect := by
  by_contra hnot
  have hsame : after.get r = m.fetched.get r := get_execute_of_notMem h hnot
  exact hne hsame

/-- Only an operation that stores, stores. -/
theorem StoresTo.operation? (h : m.StoresTo cell) :
    ∃ x, m.instruction.operation? = some (.decimalDigits x) ∨
      m.instruction.operation? = some (.store x) := by
  refine ⟨m.instruction.x, ?_⟩
  rw [Instruction.operation?_eq_some_iff, Instruction.operation?_eq_some_iff]
  obtain ⟨-, hfamily, ⟨hnn, -⟩ | ⟨hnn, -⟩⟩ := h
  · exact .inl ⟨hfamily, hnn, rfl⟩
  · exact .inr ⟨hfamily, hnn, rfl⟩

/-- **An operation keeps to the part of its instruction.** -/
theorem execute_confined (hm : m.index.toNat ≤ 0xFFF) (hf : fetchable m.pc = true)
    (hop : m.instruction.Encodes op) (h : m.fetched.execute op = .ok after) :
    m.Confined after where
  screen hne := by
    cases op with
    | clear => exact .inl hop
    | draw => exact .inr hop.1
    | _ => exact absurd (execute_same (p := .screen) h (by simp [Operation.writes])) hne
  memory cell hcell hne := by
    by_contra hnot
    have hsame : after.memory.byteAt cell = m.fetched.memory.byteAt cell :=
      byteAt_execute_of_ne h hm fun k hk heq =>
        hnot (storesTo_of_stores hf hop hk ((Nat.mod_eq_of_lt hcell).symm.trans heq.symm))
    exact hne hsame
  stack hne := by
    cases op with
    | call => exact .inl hop.1
    | ret => exact .inr hop
    | _ => exact absurd (execute_same (p := .stack) h (by simp [Operation.writes])) hne
  delay hne := by
    obtain ⟨x, rfl, -⟩ | ⟨-, hsame⟩ := Timer.count_execute .delay h
    · exact ⟨hop.1, hop.2.1⟩
    · exact absurd hsame hne
  sound hne := by
    obtain ⟨x, rfl, -⟩ | ⟨-, hsame⟩ := Timer.count_execute .sound h
    · exact ⟨hop.1, hop.2.1⟩
    · exact absurd hsame hne
  keyWait hne := by
    cases op with
    | waitKey => exact ⟨hop.1, hop.2.1⟩
    | _ => exact absurd (execute_same (p := .keyWait) h (by simp [Operation.writes])) hne
  random hne := by
    cases op with
    | random => exact hop.1
    | _ => exact absurd (execute_same (p := .random) h (by simp [Operation.writes])) hne
  index hne := by
    have hlegacy : ∀ x, op = .store x ∨ op = .load x → m.dialect = .legacy := by
      intro x htransfer
      cases hdialect : m.dialect with
      | legacy => rfl
      | modern => exact absurd (index_of_transfer htransfer h hdialect) hne
    cases op with
    | setIndex => exact .inl hop.1
    | addIndex => exact .inr ⟨hop.1, .inl hop.2.1⟩
    | glyph => exact .inr ⟨hop.1, .inr (.inl hop.2.1)⟩
    | store x => exact .inr ⟨hop.1, .inr (.inr ⟨hlegacy x (.inl rfl), .inl hop.2.1⟩)⟩
    | load x => exact .inr ⟨hop.1, .inr (.inr ⟨hlegacy x (.inr rfl), .inr hop.2.1⟩)⟩
    | _ => exact absurd (execute_same (p := .index) h (by simp [Operation.writes])) hne
  register r hx hflag hne := hop.load_of_mem_sets (mem_sets_of_get_ne h hne) hx hflag
  flag hx hne := hop.flag_of_mem_sets (mem_sets_of_get_ne h hne) hx
  keypad := execute_same (p := .keypad) h (keypad_notMem_writes op)
  dialect := execute_same (p := .dialect) h (by cases op <;> simp [Operation.writes])

/-- A step keeps to the part of its instruction, be it one that fails. -/
theorem Bounded.confined (hm : m.Bounded) : m.Confined m.step.state := by
  refine m.step_cases (P := fun o => m.Confined o.state) ?_ ?_ ?_ ?_
  · exact fun _ => .withPc m m.pc
  · exact fun _ _ => .withPc m (m.pc + 2)
  · exact fun _ _ _ _ _ => .withPc m (m.pc + 2)
  · exact fun op after hf hop hx =>
      execute_confined hm.index_le hf (Instruction.operation?_eq_some_iff.1 hop) hx

/-- **A step changes only what its instruction may change**, whatever a run has made of a new
machine and whether or not the step succeeds; one that cannot fetch changes nothing. -/
theorem step_confined (dialect : Dialect) (seed : UInt64) (actions : List Action) :
    let m := (fresh dialect seed).run actions
    (fetchable m.pc = true → m.memory.word m.pc = .ok m.instruction.word) ∧
      (fetchable m.pc = false → m.step.state = m) ∧ m.Confined m.step.state := by
  intro m
  refine ⟨word_pc, fun hf => ?_, (bounded_run dialect seed actions).confined⟩
  rw [step_of_not_fetchable hf]
  rfl

end Machine

end Chip8
