import Chip8.Proofs.Machine.Effects

/-!
# Bulk transfers

`FX55` stores registers in the cells from `I` on and `FX65` loads registers from there, a cell for
each register, round the end of memory; `FX33` stores the decimal digits of a register. No two of
the cells are the same, as there are fewer of them than memory has, so that what is stored can be
read back cell by cell.

* `get_loaded`: registers loaded from cells;
* `execute_stores`, `execute_loads`, `execute_digits`: what the three operations make of a machine;
* `transfers_round_trip`: stores and loads undo each other, wherever `I` stands.
-/

namespace Chip8

namespace Machine

variable {m after : Machine} {r x : Register}

/-- Where `I` stands after a bulk transfer of the registers up to `VX`: behind the cells in the
legacy dialect, and where it was in the modern one. -/
def indexBehind (m : Machine) (x : Register) : Nat :=
  match m.dialect with
  | .legacy => (m.index.toNat + x.val + 1) % 4096
  | .modern => m.index.toNat

/-- What `FX55` makes of a machine: each register up to `VX` lies in its cell, and besides these
cells and `I` all is as it was. -/
structure Stores (m : Machine) (x : Register) (after : Machine) : Prop where
  cells : ∀ r ≤ x, after.memory.byteAt ((m.index.toNat + r.val) % 4096) = m.get r
  others : ∀ cell < 4096, (∀ r ≤ x, cell ≠ (m.index.toNat + r.val) % 4096) →
    after.memory.byteAt cell = m.memory.byteAt cell
  index : after.index.toNat = m.indexBehind x
  rest : ∃ memory index, after = { m with memory, index }

/-- What `FX65` makes of a machine: each register up to `VX` holds what lies in its cell, and
besides these registers and `I` all is as it was. -/
structure Loads (m : Machine) (x : Register) (after : Machine) : Prop where
  registers : ∀ r ≤ x, after.get r = m.memory.byteAt ((m.index.toNat + r.val) % 4096)
  others : ∀ r, x < r → after.get r = m.get r
  index : after.index.toNat = m.indexBehind x
  rest : ∃ registers index, after = { m with registers, index }

/-- What `FX33` makes of a machine: three cells from `I` on hold decimal digits, the first one that
of the hundreds, which make up the value of `VX`, and besides these cells all is as it was. -/
structure StoresDigits (m : Machine) (x : Register) (after : Machine) : Prop where
  digits : ∀ k < 3, (after.memory.byteAt ((m.index.toNat + k) % 4096)).toNat ≤ 9
  value : 100 * (after.memory.byteAt (m.index.toNat % 4096)).toNat +
    10 * (after.memory.byteAt ((m.index.toNat + 1) % 4096)).toNat +
    (after.memory.byteAt ((m.index.toNat + 2) % 4096)).toNat = (m.get x).toNat
  others : ∀ cell < 4096, (∀ k < 3, cell ≠ (m.index.toNat + k) % 4096) →
    after.memory.byteAt cell = m.memory.byteAt cell
  rest : ∃ memory, after = { m with memory }

/-! ## Registers and cells -/

theorem getElem?_upTo (h : r ≤ x) : (upTo x)[r.val]? = some r := by
  revert r x
  decide

/-- **A register that is loaded holds its cell**, and every other one what it held before. -/
theorem get_loaded (m : Machine) (targets : List Register) (r : Register) :
    (r ∈ targets → { m with registers := m.loaded targets }.get r =
      m.memory.byteAt (m.index.toNat + r.val)) ∧
    (r ∉ targets → { m with registers := m.loaded targets }.get r = m.get r) := by
  -- For any registers to begin with, as those of a tail have been loaded in part.
  have key : ∀ registers : Vector UInt8 16,
      let after := { m with registers := (targets.foldl (fun registers (x : Register) =>
        ({ m with registers }.set x (m.memory.byteAt (m.index.toNat + x.val))).registers)
          registers) }
      (r ∈ targets → after.get r = m.memory.byteAt (m.index.toNat + r.val)) ∧
        (r ∉ targets → after.get r = { m with registers }.get r) := by
    induction targets with
    | nil => exact fun _ => ⟨fun hr => absurd hr List.not_mem_nil, fun _ => rfl⟩
    | cons x targets ih =>
      intro registers
      have hset := get_set { m with registers } x r (m.memory.byteAt (m.index.toNat + x.val))
      obtain ⟨hloaded, hkept⟩ :=
        ih ({ m with registers }.set x (m.memory.byteAt (m.index.toNat + x.val))).registers
      constructor
      · intro hr
        by_cases htail : r ∈ targets
        · exact hloaded htail
        · obtain rfl : r = x := (List.mem_cons.1 hr).resolve_right htail
          exact (hkept htail).trans (hset.trans (if_pos rfl))
      · intro hr
        obtain ⟨hne, htail⟩ := List.ne_and_not_mem_of_not_mem_cons hr
        exact (hkept htail).trans (hset.trans (if_neg (Ne.symm hne)))
  exact key m.registers

/-- `I` moves behind the cells in twelve bits, if at all. -/
theorem exists_passCells (hm : m.index.toNat ≤ 0xFFF) (x : Register) :
    ∃ index, m.passCells x = .ok { m with index } ∧ index.toNat = m.indexBehind x := by
  rw [passCells_eq (by omega)]
  split
  · rename_i hdialect
    exact ⟨_, rfl, by rw [indexBehind, hdialect, toNat_ofNat_mod, Nat.add_assoc]⟩
  · rename_i hdialect
    exact ⟨m.index, rfl, by rw [indexBehind, hdialect]⟩

/-! ## Operations -/

/-- **`FX55` stores the registers up to `VX`.** -/
theorem execute_stores (hm : m.index.toNat ≤ 0xFFF) (x : Register) :
    ∃ after, m.execute (.store x) = .ok after ∧ m.Stores x after := by
  have hx := x.isLt
  have hlength : ((upTo x).map m.get).length = x.val + 1 := by
    rw [List.length_map, length_upTo]
  obtain ⟨index, hpass, hindex⟩ := exists_passCells
    (m := { m with memory := m.memory.setRun m.index.toNat ((upTo x).map m.get) }) hm x
  refine ⟨_, by rw [execute, storeBytes_eq (by omega), ok_bind, hpass], ?_, ?_, hindex, _, _, rfl⟩
  · intro r hr
    have hlt : r.val < ((upTo x).map m.get).length := by
      rw [hlength]
      exact Nat.lt_succ_of_le hr
    have hget : ((upTo x).map m.get)[r.val]? = some (m.get r) := by
      rw [List.getElem?_map, getElem?_upTo hr]
      rfl
    rw [Memory.byteAt_mod, Memory.byteAt_setRun (by omega) hlt]
    exact (List.getElem?_eq_some_iff.1 hget).2
  · intro cell hcell hother
    refine Memory.byteAt_setRun_of_ne fun k hk heq => ?_
    rw [Nat.mod_eq_of_lt hcell] at heq
    rw [hlength] at hk
    exact hother ⟨k, by omega⟩ (Fin.le_def.2 (Nat.le_of_lt_succ hk)) heq.symm

/-- **`FX65` loads the registers up to `VX`.** -/
theorem execute_loads (hm : m.index.toNat ≤ 0xFFF) (x : Register) :
    ∃ after, m.execute (.load x) = .ok after ∧ m.Loads x after := by
  obtain ⟨index, hpass, hindex⟩ := exists_passCells
    (m := { m with registers := m.loaded (upTo x) }) hm x
  refine ⟨_, by rw [execute, loadRegisters_eq (by omega), ok_bind, hpass], ?_, ?_, hindex, _, _,
    rfl⟩
  · intro r hr
    rw [Memory.byteAt_mod]
    exact (m.get_loaded (upTo x) r).1 (mem_upTo.2 hr)
  · intro r hr
    exact (m.get_loaded (upTo x) r).2 fun h => absurd (mem_upTo.1 h) (Fin.not_le.2 hr)

/-- **`FX33` stores the decimal digits of `VX`.** -/
theorem execute_digits (hm : m.index.toNat ≤ 0xFFF) (x : Register) :
    ∃ after, m.execute (.decimalDigits x) = .ok after ∧ m.StoresDigits x after := by
  have hvalue := (m.get x).toNat_lt
  have hhundreds : (m.get x / 100).toNat = (m.get x).toNat / 100 := UInt8.toNat_div _ _
  have htens : (m.get x / 10 % 10).toNat = (m.get x).toNat / 10 % 10 := by
    rw [UInt8.toNat_mod, UInt8.toNat_div]
    rfl
  have hones : (m.get x % 10).toNat = (m.get x).toNat % 10 := UInt8.toNat_mod _ _
  have hcell : ∀ k (hk : k < 3),
      (m.memory.setRun m.index.toNat [m.get x / 100, m.get x / 10 % 10, m.get x % 10]).byteAt
        ((m.index.toNat + k) % 4096) = [m.get x / 100, m.get x / 10 % 10, m.get x % 10][k] := by
    intro k hk
    rw [Memory.byteAt_mod, Memory.byteAt_setRun (by simp) hk]
  refine ⟨_, by rw [execute, storeBytes_eq (by simp; omega)], ?_, ?_, ?_, _, rfl⟩
  · intro k hk
    rw [hcell k hk]
    obtain rfl | rfl | rfl : k = 0 ∨ k = 1 ∨ k = 2 := by omega
    · exact hhundreds ▸ (by omega)
    · exact htens ▸ (by omega)
    · exact hones ▸ (by omega)
  · have hfirst := hcell 0 (by omega)
    rw [Nat.add_zero] at hfirst
    rw [hfirst, hcell 1 (by omega), hcell 2 (by omega)]
    simp only [List.getElem_cons_zero, List.getElem_cons_succ, hhundreds, htens, hones]
    omega
  · intro cell hlt hother
    refine Memory.byteAt_setRun_of_ne fun k hk heq => ?_
    rw [Nat.mod_eq_of_lt hlt] at heq
    exact hother k hk heq.symm

/-! ## There and back -/

/-- Registers that were stored are loaded back, whatever they became in between. -/
theorem Stores.get_of_loads {stored loaded : Machine} {registers : Vector UInt8 16}
    (hstored : m.Stores x stored)
    (hloaded : { stored with registers, index := m.index }.Loads x loaded) (r : Register) :
    loaded.get r =
      if r ≤ x then m.get r else { stored with registers, index := m.index }.get r := by
  by_cases hr : r ≤ x
  · rw [if_pos hr, hloaded.registers r hr]
    exact hstored.cells r hr
  · rw [if_neg hr, hloaded.others r (Fin.not_le.1 hr)]

/-- What was loaded from the cells changes nothing when it is stored there. -/
theorem Loads.memory_of_stores {loaded stored : Machine} (hloaded : m.Loads x loaded)
    (hstored : { loaded with index := m.index }.Stores x stored) : stored.memory = m.memory := by
  have hmemory : loaded.memory = m.memory := by
    obtain ⟨registers, index, rfl⟩ := hloaded.rest
    rfl
  refine Memory.eq_of_byteAt fun cell hcell => ?_
  by_cases hin : ∃ r ≤ x, cell = (m.index.toNat + r.val) % 4096
  · obtain ⟨r, hr, rfl⟩ := hin
    exact (hstored.cells r hr).trans (hloaded.registers r hr)
  · rw [← hmemory]
    exact hstored.others cell hcell fun r hr heq => hin ⟨r, hr, heq⟩

/-- **Bulk transfers undo each other**, in both dialects, wherever `I` stands and up to any
register, `VF` among them. In every machine that a run can reach, `FX55` goes through, and if `I` is
set back after it, `FX65` gives the registers up to `VX` the values that they had, whatever all
registers were changed to in between. Also `FX65` goes through, and if `I` is set back after it,
`FX55` leaves the memory as it was. `FX33` goes through and leaves the decimal digits of `VX`. A
step at such a word does what the operation does. -/
theorem transfers_round_trip (dialect : Dialect) (seed : UInt64) (actions : List Action) :
    let m := (fresh dialect seed).run actions
    (∀ x, ∃ stored, perform (.store x) m = ⟨.ok (), stored, []⟩ ∧ m.Stores x stored ∧
      ∀ registers : Vector UInt8 16,
        let between := { stored with registers, index := m.index }
        ∃ loaded, perform (.load x) between = ⟨.ok (), loaded, []⟩ ∧ between.Loads x loaded ∧
          ∀ r, loaded.get r = if r ≤ x then m.get r else between.get r) ∧
    (∀ x, ∃ loaded, perform (.load x) m = ⟨.ok (), loaded, []⟩ ∧ m.Loads x loaded ∧
      let between := { loaded with index := m.index }
      ∃ stored, perform (.store x) between = ⟨.ok (), stored, []⟩ ∧ between.Stores x stored ∧
        stored.memory = m.memory) ∧
    (∀ x, ∃ after, perform (.decimalDigits x) m = ⟨.ok (), after, []⟩ ∧ m.StoresDigits x after) ∧
    (fetchable m.pc = true → m.instruction.family.val = 0xF →
      (m.instruction.nn = 0x55 → m.step.result = .ok m.instruction ∧
        m.fetched.Stores m.instruction.x m.step.state) ∧
      (m.instruction.nn = 0x65 → m.step.result = .ok m.instruction ∧
        m.fetched.Loads m.instruction.x m.step.state) ∧
      (m.instruction.nn = 0x33 → m.step.result = .ok m.instruction ∧
        m.fetched.StoresDigits m.instruction.x m.step.state)) := by
  intro m
  have hm : m.index.toNat ≤ 0xFFF := (bounded_run dialect seed actions).index_le
  refine ⟨fun x => ?_, fun x => ?_, fun x => ?_, fun hf hfamily => ⟨fun hnn => ?_, fun hnn => ?_,
    fun hnn => ?_⟩⟩
  · obtain ⟨stored, hstore, hstored⟩ := execute_stores hm x
    refine ⟨stored, perform_of_ok hstore, hstored, fun registers => ?_⟩
    obtain ⟨loaded, hload, hloaded⟩ :=
      execute_loads (m := { stored with registers, index := m.index }) hm x
    exact ⟨loaded, perform_of_ok hload, hloaded, hstored.get_of_loads hloaded⟩
  · obtain ⟨loaded, hload, hloaded⟩ := execute_loads hm x
    refine ⟨loaded, perform_of_ok hload, hloaded, ?_⟩
    obtain ⟨stored, hstore, hstored⟩ :=
      execute_stores (m := { loaded with index := m.index }) hm x
    exact ⟨stored, perform_of_ok hstore, hstored, hloaded.memory_of_stores hstored⟩
  · obtain ⟨after, hexecute, hdigits⟩ := execute_digits hm x
    exact ⟨after, perform_of_ok hexecute, hdigits⟩
  · have hop : m.instruction.operation? = some (.store m.instruction.x) :=
      Instruction.operation?_eq_some_iff.2 ⟨hfamily, hnn, rfl⟩
    obtain ⟨after, hexecute, hstored⟩ := execute_stores (m := m.fetched) hm m.instruction.x
    rw [step_of_ok hf hop hexecute]
    exact ⟨rfl, hstored⟩
  · have hop : m.instruction.operation? = some (.load m.instruction.x) :=
      Instruction.operation?_eq_some_iff.2 ⟨hfamily, hnn, rfl⟩
    obtain ⟨after, hexecute, hloaded⟩ := execute_loads (m := m.fetched) hm m.instruction.x
    rw [step_of_ok hf hop hexecute]
    exact ⟨rfl, hloaded⟩
  · have hop : m.instruction.operation? = some (.decimalDigits m.instruction.x) :=
      Instruction.operation?_eq_some_iff.2 ⟨hfamily, hnn, rfl⟩
    obtain ⟨after, hexecute, hdigits⟩ := execute_digits (m := m.fetched) hm m.instruction.x
    rw [step_of_ok hf hop hexecute]
    exact ⟨rfl, hdigits⟩

/-- A program that stores all registers from `FF8` on: `VF` comes to lie in cell `007`, and `I`
behind it. -/
theorem transfers_round_trip_wrapped :
    let m := (loadedWith .legacy 0 [0x6F, 0x2A, 0xAF, 0xF8, 0xFF, 0x55]).run [.step, .step]
    m.step.result = .ok m.instruction ∧ m.fetched.Stores 0xF m.step.state ∧
      m.step.state.memory.byteAt 0x007 = 0x2A ∧ m.step.state.index.toNat = 0x008 := by
  intro m
  have hfacts : fetchable m.pc = true ∧ m.instruction.family.val = 0xF ∧
      m.instruction.nn = 0x55 ∧ m.instruction.x = 0xF ∧ m.get 0xF = 0x2A ∧
      m.index.toNat = 0xFF8 ∧ m.dialect = .legacy := by
    decide +kernel
  obtain ⟨hf, hfamily, hnn, hx, hflag, hindex, hdialect⟩ := hfacts
  have htransfers := transfers_round_trip .legacy 0
    [.load [0x6F, 0x2A, 0xAF, 0xF8, 0xFF, 0x55], .step, .step]
  have hm : (fresh .legacy 0).run
      [.load [0x6F, 0x2A, 0xAF, 0xF8, 0xFF, 0x55], .step, .step] = m := run_cons _ _ _
  -- From here on the machine is a mere name, as running it again would take long.
  clear_value m
  rw [hm] at htransfers
  obtain ⟨-, -, -, hsteps⟩ := htransfers
  obtain ⟨hresult, hstored⟩ := (hsteps hf hfamily).1 hnn
  rw [hx] at hstored
  have hcell := hstored.cells 0xF (Fin.le_refl _)
  have hbehind := hstored.index
  have hindex' : m.fetched.index.toNat = 0xFF8 := hindex
  have hdialect' : m.fetched.dialect = .legacy := hdialect
  rw [hindex'] at hcell
  rw [indexBehind, hdialect', hindex'] at hbehind
  exact ⟨hresult, hstored, hcell.trans hflag, hbehind⟩

end Machine

end Chip8
