import Chip8.Proofs.Machine.Effects

/-!
# Arithmetic and its flag

Five operations on two registers leave a result in `VX` and a flag in `VF`, and `FX1E` leaves one
behind the sum in `I`. Each reads its operands before it writes anything and writes the flag last,
so that one law holds between the values from before and the result and the flag, whichever
registers coincide.

* `execute_arithmetic`: result and flag of an operation obey its law (`Arithmetic.Law`);
* `arithmetic_flags`: so they do in every machine that a run can reach, where the flag wins in `VF`.
-/

namespace Chip8

/-- The operations on two registers that have a result and a flag. -/
inductive Arithmetic
  | add
  | sub
  | shiftRight
  | subReversed
  | shiftLeft
  deriving DecidableEq, Repr

namespace Arithmetic

/-- The operation on two registers. -/
def operation (x y : Register) : Arithmetic → Operation
  | .add => .add x y
  | .sub => .sub x y
  | .shiftRight => .shiftRight x y
  | .subReversed => .subReversed x y
  | .shiftLeft => .shiftLeft x y

/-- The last digit of its words, the first of which is eight. -/
def digit : Arithmetic → Nat
  | .add => 0x4
  | .sub => 0x5
  | .shiftRight => 0x6
  | .subReversed => 0x7
  | .shiftLeft => 0xE

/-- Which of the two operands a shift shifts. -/
def shifted (dialect : Dialect) (a b : Nat) : Nat :=
  match dialect with
  | .legacy => b
  | .modern => a

/-- What the result `r` and the flag `f` are to the values `a` of `VX` and `b` of `VY`: a sum and
its carry, a difference and whether it is above zero, a half and the bit below it, a double and the
bit above it. -/
def Law (dialect : Dialect) (a b r f : Nat) : Arithmetic → Prop
  | .add => a + b = r + 256 * f
  | .sub => (r : Int) = ((a : Int) - b) % 256 ∧ (f = 1 ↔ b < a)
  | .shiftRight => shifted dialect a b = 2 * r + f
  | .subReversed => (r : Int) = ((b : Int) - a) % 256 ∧ (f = 1 ↔ a < b)
  | .shiftLeft => 2 * shifted dialect a b = 256 * f + r

/-- What an operation makes of a machine: the result and the flag obey its law with the values that
`VX` and `VY` had before; `VF` holds the flag, and `VX` holds the result unless it is `VF`. All else
is as it was. -/
structure Computes (kind : Arithmetic) (m : Machine) (x y : Register) (after : Machine) : Prop where
  law : ∃ r f : UInt8, f.toNat ≤ 1 ∧
    kind.Law m.dialect (m.get x).toNat (m.get y).toNat r.toNat f.toNat ∧
    after.get 0xF = f ∧ (x ≠ 0xF → after.get x = r)
  other : ∀ z, z ≠ x → z ≠ 0xF → after.get z = m.get z
  rest : ∃ registers, after = { m with registers }

end Arithmetic

/-- What `FX1E` makes of a machine: `I` in twelve bits and the flag above it are the sum of what `I`
and `VX` were before. All else is as it was. -/
structure Machine.AddsToIndex (m : Machine) (x : Register) (after : Machine) : Prop where
  law : m.index.toNat + (m.get x).toNat = after.index.toNat + 4096 * (after.get 0xF).toNat
  index_le : after.index.toNat ≤ 0xFFF
  other : ∀ z, z ≠ 0xF → after.get z = m.get z
  rest : ∃ registers index, after = { m with registers, index }

/-! ## Bytes -/

theorem toNat_decide (p : Prop) [Decidable p] : (decide p).toNat = if p then 1 else 0 := by
  by_cases h : p
  · rw [decide_eq_true h, if_pos h, Bool.toNat_true]
  · rw [decide_eq_false h, if_neg h, Bool.toNat_false]

section Bytes

variable (a b s : UInt8)

theorem add_carry :
    a.toNat + b.toNat =
      (a + b).toNat + 256 * (decide (256 ≤ a.toNat + b.toNat)).toNat := by
  have ha := a.toNat_lt
  have hb := b.toNat_lt
  rw [UInt8.toNat_add, toNat_decide]
  split <;> omega

theorem sub_emod : ((a - b).toNat : Int) = ((a.toNat : Int) - b.toNat) % 256 := by
  have ha := a.toNat_lt
  have hb := b.toNat_lt
  rw [UInt8.toNat_sub]
  omega

theorem toNat_decide_lt : (decide (b < a)).toNat = 1 ↔ b.toNat < a.toNat := by
  rw [Bool.toNat_eq_one, decide_eq_true_eq, UInt8.lt_iff_toNat_lt]

theorem shiftRight_lost : s.toNat = 2 * (s >>> 1).toNat + (s % 2 == 1).toNat := by
  have hhalf : (s >>> 1).toNat = s.toNat / 2 := by
    rw [UInt8.toNat_shiftRight]
    rfl
  have hmod : (s % 2).toNat = s.toNat % 2 := UInt8.toNat_mod s 2
  have hbit : (s % 2 == 1) = decide (s.toNat % 2 = 1) := by
    rw [Bool.eq_iff_iff, beq_iff_eq, decide_eq_true_eq, ← hmod, ← UInt8.toNat_inj]
    rfl
  rw [hhalf, hbit, toNat_decide]
  split <;> omega

theorem shiftLeft_lost : 2 * s.toNat = 256 * (decide (128 ≤ s)).toNat + (s <<< 1).toNat := by
  have hs := s.toNat_lt
  have hdouble : (s <<< 1).toNat = s.toNat * 2 % 256 := by
    rw [UInt8.toNat_shiftLeft]
    exact congrArg (· % 256) (Nat.shiftLeft_eq s.toNat 1)
  have hbit : decide (128 ≤ s) = decide (128 ≤ s.toNat) :=
    decide_eq_decide.2 UInt8.le_iff_toNat_le
  rw [hdouble, hbit, toNat_decide]
  split <;> omega

end Bytes

namespace Machine

variable {m after : Machine} {x y : Register}

/-! ## Registers -/

/-- The flag in a register. -/
def flagByte (up : Bool) : UInt8 := if up then 1 else 0

theorem toNat_flagByte (up : Bool) : (flagByte up).toNat = up.toNat := by
  cases up <;> rfl

theorem get_setFlag (m : Machine) (up : Bool) : (m.setFlag up).get 0xF = flagByte up := by
  rw [setFlag, get_set, if_pos rfl]
  rfl

theorem get_setWithFlag (m : Machine) (value : UInt8) (up : Bool) (hx : x ≠ 0xF) :
    (m.setWithFlag x value up).get x = value := by
  rw [setWithFlag, get_setFlag_of_ne _ _ hx, get_set, if_pos rfl]

/-! ## Operations -/

/-- **Result and flag obey the operation's law.** -/
theorem execute_arithmetic (m : Machine) (kind : Arithmetic) (x y : Register) :
    ∃ r up, m.execute (kind.operation x y) = .ok (m.setWithFlag x r up) ∧
      kind.Law m.dialect (m.get x).toNat (m.get y).toNat r.toNat up.toNat := by
  have hshifted : Arithmetic.shifted m.dialect (m.get x).toNat (m.get y).toNat =
      (m.shifted x y).toNat := by
    unfold Arithmetic.shifted shifted
    cases m.dialect <;> rfl
  cases kind with
  | add => exact ⟨_, _, rfl, add_carry _ _⟩
  | sub => exact ⟨_, _, rfl, sub_emod _ _, toNat_decide_lt _ _⟩
  | subReversed => exact ⟨_, _, rfl, sub_emod _ _, toNat_decide_lt _ _⟩
  | shiftRight => exact ⟨_, _, rfl, hshifted.trans (shiftRight_lost _)⟩
  | shiftLeft => exact ⟨_, _, rfl, (congrArg (2 * ·) hshifted).trans (shiftLeft_lost _)⟩

theorem execute_computes (m : Machine) (kind : Arithmetic) (x y : Register) :
    ∃ after, m.execute (kind.operation x y) = .ok after ∧ kind.Computes m x y after := by
  obtain ⟨r, up, hexecute, hlaw⟩ := m.execute_arithmetic kind x y
  refine ⟨_, hexecute, ⟨r, flagByte up, ?_, ?_, ?_, ?_⟩, ?_, ?_⟩
  · rw [toNat_flagByte]
    exact up.toNat_le
  · rw [toNat_flagByte]
    exact hlaw
  · exact get_setFlag _ up
  · exact get_setWithFlag m r up
  · exact fun z hx hflag => get_setWithFlag_of_ne m r up hx hflag
  · exact ⟨_, rfl⟩

theorem execute_addsToIndex (hm : m.index.toNat ≤ 0xFFF) (x : Register) :
    ∃ after, m.execute (.addIndex x) = .ok after ∧ m.AddsToIndex x after := by
  have hx := (m.get x).toNat_lt
  have hsum : (UInt16.ofNat (m.index.toNat + (m.get x).toNat)).toNat =
      m.index.toNat + (m.get x).toNat := by
    rw [UInt16.toNat_ofNat']
    omega
  rw [execute, Word.add_of_lt (by omega), ok_bind]
  generalize UInt16.ofNat (m.index.toNat + (m.get x).toNat) = sum at hsum
  have hflag : decide (0xFFF < sum) = decide (0xFFF < sum.toNat) :=
    decide_eq_decide.2 UInt16.lt_iff_toNat_lt
  refine ⟨_, rfl, ?_, ?_, ?_, ?_⟩
  · rw [get_setFlag, toNat_flagByte, hflag]
    change _ = (Word.wrap sum).toNat + _
    rw [Word.toNat_wrap, ← hsum, toNat_decide]
    split <;> omega
  · exact wrap_le sum
  · exact fun z hz => get_setFlag_of_ne _ _ hz
  · exact ⟨_, _, rfl⟩

/-! ## The flags of a run -/

theorem operation?_arithmetic {i : Instruction} {kind : Arithmetic} (hfamily : i.family.val = 0x8)
    (hdigit : i.n.val = kind.digit) : i.operation? = some (kind.operation i.x i.y) := by
  rw [Instruction.operation?_eq_some_iff]
  cases kind <;> exact ⟨hfamily, hdigit, rfl, rfl⟩

/-- **Result and flag make up what was computed**, in both dialects and whichever registers
coincide. In every machine that a run can reach, an operation on any two registers goes through, and
its result and flag obey its law with what `VX` and `VY` held before, which for `VF` is the old
flag. `VF` then holds the flag, also where it is `VX` and the result is lost, and no register
changes besides those two. `FX1E` splits its sum into twelve bits and the flag above them in the
same way. A step at such a word does what the operation does. -/
theorem arithmetic_flags (dialect : Dialect) (seed : UInt64) (actions : List Action) :
    let m := (fresh dialect seed).run actions
    (∀ (kind : Arithmetic) (x y : Register), ∃ after,
      perform (kind.operation x y) m = ⟨.ok (), after, []⟩ ∧ kind.Computes m x y after) ∧
    (∀ x, ∃ after, perform (.addIndex x) m = ⟨.ok (), after, []⟩ ∧ m.AddsToIndex x after) ∧
    (fetchable m.pc = true → m.instruction.family.val = 0x8 → ∀ kind : Arithmetic,
      m.instruction.n.val = kind.digit → m.step.result = .ok m.instruction ∧
        kind.Computes m.fetched m.instruction.x m.instruction.y m.step.state) ∧
    (fetchable m.pc = true → m.instruction.family.val = 0xF → m.instruction.nn = 0x1E →
      m.step.result = .ok m.instruction ∧
        m.fetched.AddsToIndex m.instruction.x m.step.state) := by
  intro m
  have hm : m.Bounded := bounded_run dialect seed actions
  refine ⟨fun kind x y => ?_, fun x => ?_, fun hf hfamily kind hdigit => ?_,
    fun hf hfamily hnn => ?_⟩
  · obtain ⟨after, hexecute, hcomputes⟩ := m.execute_computes kind x y
    exact ⟨after, perform_of_ok hexecute, hcomputes⟩
  · obtain ⟨after, hexecute, hadds⟩ := execute_addsToIndex hm.index_le x
    exact ⟨after, perform_of_ok hexecute, hadds⟩
  · obtain ⟨after, hexecute, hcomputes⟩ :=
      m.fetched.execute_computes kind m.instruction.x m.instruction.y
    rw [step_of_ok hf (operation?_arithmetic hfamily hdigit) hexecute]
    exact ⟨rfl, hcomputes⟩
  · have hop : m.instruction.operation? = some (.addIndex m.instruction.x) :=
      Instruction.operation?_eq_some_iff.2 ⟨hfamily, hnn, rfl⟩
    obtain ⟨after, hexecute, hadds⟩ := execute_addsToIndex (m := m.fetched) hm.index_le
      m.instruction.x
    rw [step_of_ok hf hop hexecute]
    exact ⟨rfl, hadds⟩

/-- A program that adds `VF` to itself: the carry takes the place of the sum. -/
theorem arithmetic_flags_aliased :
    let m := (loadedWith .legacy 0 [0x6F, 0xFF, 0x8F, 0xF4]).run [.step]
    m.get 0xF = 0xFF ∧ m.step.result = .ok m.instruction ∧
      Arithmetic.Computes .add m.fetched 0xF 0xF m.step.state ∧ m.step.state.get 0xF = 1 := by
  intro m
  have hfacts : fetchable m.pc = true ∧ m.instruction.family.val = 0x8 ∧
      m.instruction.n.val = 0x4 ∧ m.instruction.x = 0xF ∧ m.instruction.y = 0xF ∧
      m.get 0xF = 0xFF := by
    decide +kernel
  obtain ⟨hf, hfamily, hdigit, hx, hy, hold⟩ := hfacts
  have hflags := arithmetic_flags .legacy 0 [.load [0x6F, 0xFF, 0x8F, 0xF4], .step]
  have hm : (fresh .legacy 0).run [.load [0x6F, 0xFF, 0x8F, 0xF4], .step] = m :=
    run_cons _ _ _
  -- From here on the machine is a mere name, as running it again would take long.
  clear_value m
  rw [hm] at hflags
  obtain ⟨-, -, hstep, -⟩ := hflags
  obtain ⟨hresult, hcomputes⟩ := hstep hf hfamily .add hdigit
  rw [hx, hy] at hcomputes
  refine ⟨hold, hresult, hcomputes, ?_⟩
  obtain ⟨r, f, -, hlaw, hflag, -⟩ := hcomputes.law
  have hold' : m.fetched.get 0xF = 0xFF := hold
  rw [hold'] at hlaw
  have hsum : 255 + 255 = r.toNat + 256 * f.toNat := hlaw
  have hr := r.toNat_lt
  have hone : f.toNat = 1 := by omega
  exact hflag.trans (UInt8.toNat_inj.1 hone)

end Machine

end Chip8
