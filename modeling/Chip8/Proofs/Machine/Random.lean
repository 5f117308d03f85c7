import Chip8.Proofs.Machine.Run
import Chip8.Proofs.Machine.Writes

/-!
# Replays of random numbers

A machine draws a byte when it executes `CXNN` and at no other time, so how far its generator has
come is how many of these instructions it executed.

* `Random.getElem?_stream`: the bytes of a seed are those of its blocks, one block after the other;
* `random_act`, `random_run`: what an action and what a run draw;
* `random_replay`: so the seed fixes what the `CXNN` of a run leave, whatever else happens between
  them.
-/

namespace Chip8

/-! ## The stream -/

namespace Random

/-- The bytes of a block: the low byte of each word. -/
def blockBytes (seed : UInt64) (block : Nat) : List UInt8 :=
  (ChaCha.block (keyOf seed) (UInt64.ofNat block)).toList.map (·.toUInt8)

/-- The bytes of the first `blocks` blocks of a seed. -/
def stream (seed : UInt64) (blocks : Nat) : List UInt8 :=
  (List.range blocks).flatMap (blockBytes seed)

variable {seed : UInt64} {blocks k : Nat}

theorem stream_succ (seed : UInt64) (blocks : Nat) :
    stream seed (blocks + 1) = stream seed blocks ++ blockBytes seed blocks := by
  rw [stream, List.range_succ, List.flatMap_append, List.flatMap_singleton]
  rfl

theorem length_blockBytes (seed : UInt64) (block : Nat) :
    (blockBytes seed block).length = 16 := by
  rw [blockBytes, List.length_map, Vector.length_toList]

theorem length_stream (seed : UInt64) (blocks : Nat) :
    (stream seed blocks).length = 16 * blocks := by
  induction blocks with
  | zero => rfl
  | succ blocks ih =>
    rw [stream_succ, List.length_append, ih, length_blockBytes]
    omega

theorem getElem?_blockBytes {j : Nat} (hj : j < 16) :
    (blockBytes seed blocks)[j]? = some (byteAt seed (16 * blocks + j)) := by
  have hblock : (16 * blocks + j) / 16 = blocks := by omega
  have hword : (16 * blocks + j) % 16 = j := by omega
  rw [blockBytes, List.getElem?_map, Vector.getElem?_toList, Vector.getElem?_eq_getElem hj]
  simp only [byteAt, hblock, hword, Option.map_some]

/-- **The bytes of a seed are those of its blocks**, one block after the other. -/
theorem getElem?_stream (hk : k < 16 * blocks) :
    (stream seed blocks)[k]? = some (byteAt seed k) := by
  induction blocks with
  | zero => omega
  | succ blocks ih =>
    rw [stream_succ]
    by_cases hbefore : k < 16 * blocks
    · rw [List.getElem?_append_left (by rwa [length_stream]), ih hbefore]
    · rw [List.getElem?_append_right (by rw [length_stream]; omega), length_stream,
        getElem?_blockBytes (by omega), Nat.add_sub_of_le (by omega)]

/-- The first block of a seed and the beginning of the second. -/
example : (stream 7 2).take 18 =
    [0xBE, 0xE9, 0x86, 0xE8, 0xCD, 0x46, 0x99, 0x05, 0xB6, 0xAD, 0xE0, 0x4F, 0xD2, 0xAB, 0x8A, 0xA0,
      0xA7, 0xDB] := by
  decide +kernel

end Random

namespace Machine

variable {m : Machine} {i : Instruction}

/-! ## Draws -/

/-- The `CXNN` that an action executes, and what it leaves in `VX`. -/
def randomOf (m : Machine) : Action → Option (Instruction × UInt8)
  | .step =>
    match m.step.result with
    | .ok i => if i.family.val = 0xC then some (i, m.step.state.get i.x) else none
    | .error _ => none
  | _ => none

/-- The `CXNN` that a run executes, and what each of them leaves in `VX`. -/
def randoms (m : Machine) : List Action → List (Instruction × UInt8)
  | [] => []
  | a :: actions => (m.randomOf a).toList ++ (m.act a).state.randoms actions

/-- The operation of `CXNN` draws the next byte and leaves what the mask lets through. -/
theorem execute_random (m : Machine) (x : Register) (mask : UInt8) :
    m.execute (.random x mask) =
      .ok ({ m with random := ⟨m.random.seed, m.random.drawn + 1⟩ }.set x
        (Random.byteAt m.random.seed m.random.drawn &&& mask)) := rfl

theorem operation?_random (hfamily : i.family.val = 0xC) :
    i.operation? = some (.random i.x i.nn) :=
  Instruction.operation?_eq_some_iff.2 ⟨hfamily, rfl, rfl⟩

/-- **A `CXNN` in front of the machine is executed**: it draws the next byte and leaves what the
mask lets through. -/
theorem randomOf_step (hf : fetchable m.pc = true) (hfamily : m.instruction.family.val = 0xC) :
    m.randomOf .step =
        some (m.instruction,
          Random.byteAt m.random.seed m.random.drawn &&& m.instruction.nn) ∧
      m.step.state.random = ⟨m.random.seed, m.random.drawn + 1⟩ := by
  rw [randomOf, step_of_ok hf (operation?_random hfamily) (m.fetched.execute_random _ _)]
  refine ⟨?_, rfl⟩
  dsimp only
  rw [if_pos hfamily, get_set, if_pos rfl]
  rfl

theorem randomOf_step_of_not (h : ¬(fetchable m.pc = true ∧ m.instruction.family.val = 0xC)) :
    m.randomOf .step = none := by
  cases hresult : m.step.result with
  | error stop => rw [randomOf, hresult]
  | ok i =>
    obtain rfl := instruction_of_step hresult
    have hfamily : m.instruction.family.val ≠ 0xC := by
      refine fun hfamily => h ⟨?_, hfamily⟩
      cases hf : fetchable m.pc with
      | true => rfl
      | false =>
        rw [step_of_not_fetchable hf] at hresult
        cases hresult
    rw [randomOf, hresult]
    exact if_neg hfamily

theorem random_step_of_not (h : ¬(fetchable m.pc = true ∧ m.instruction.family.val = 0xC)) :
    m.step.state.random = m.random := by
  cases hf : fetchable m.pc with
  | false =>
    rw [step_of_not_fetchable hf]
    rfl
  | true =>
    refine step_same (p := .random) (by decide) fun op hop => ?_
    have hencodes := Instruction.operation?_eq_some_iff.1 hop
    cases op with
    | random => exact absurd ⟨hf, hencodes.1⟩ h
    | _ => simp [Operation.writes]

/-- **An action draws a byte if it executes a `CXNN`**, and else leaves the generator alone. -/
theorem random_act (m : Machine) (a : Action) :
    (m.randomOf a = none ∧ (m.act a).state.random = m.random) ∨
      ∃ i, m.randomOf a = some (i, Random.byteAt m.random.seed m.random.drawn &&& i.nn) ∧
        (m.act a).state.random = ⟨m.random.seed, m.random.drawn + 1⟩ := by
  by_cases hstep : a = .step
  · subst hstep
    by_cases hdraw : fetchable m.pc = true ∧ m.instruction.family.val = 0xC
    · exact .inr ⟨_, randomOf_step hdraw.1 hdraw.2⟩
    · exact .inl ⟨randomOf_step_of_not hdraw, random_step_of_not hdraw⟩
  · obtain ⟨memory, keypad, timers, heq, -⟩ := m.act_outside hstep
    refine .inl ⟨?_, ?_⟩
    · cases a with
      | step => exact absurd rfl hstep
      | _ => rfl
    · rw [heq]

/-- **A run draws as many bytes as it executes `CXNN`**, and each of these leaves the next of
them. -/
theorem random_run (m : Machine) (actions : List Action) :
    (m.run actions).random =
        ⟨m.random.seed, m.random.drawn + (m.randoms actions).length⟩ ∧
      ∀ k i value, (m.randoms actions)[k]? = some (i, value) →
        value = Random.byteAt m.random.seed (m.random.drawn + k) &&& i.nn := by
  induction actions generalizing m with
  | nil => exact ⟨rfl, fun k i value h => by simp [randoms] at h⟩
  | cons a actions ih =>
    obtain ⟨hrandom, hrandoms⟩ := ih (m.act a).state
    rw [run_cons, hrandom, randoms]
    obtain ⟨hdraw, hsame⟩ | ⟨j, hdraw, hnext⟩ := m.random_act a
    · rw [hdraw, hsame]
      rw [hsame] at hrandoms
      exact ⟨rfl, hrandoms⟩
    · rw [hdraw, hnext]
      rw [hnext] at hrandoms
      refine ⟨?_, fun k i value h => ?_⟩
      · simp only [Option.toList_some, List.cons_append, List.nil_append, List.length_cons]
        rw [Nat.add_assoc, Nat.add_comm 1]
      · cases k with
        | zero =>
          obtain ⟨rfl, rfl⟩ := Prod.mk.inj (Option.some.inj h)
          rfl
        | succ k =>
          have hvalue := hrandoms k i value h
          rwa [Nat.add_assoc, Nat.add_comm 1] at hvalue

/-! ## Replays -/

/-- **The seed fixes what the `CXNN` of a run leave.** Whatever happens to a new machine, the `k`-th
`CXNN` that it executes leaves byte `k` of its seed under the mask, a mask of zero included, and its
generator stands behind as many bytes as it executed of them. One that is fetched is executed; an
action that executes none, be it another instruction, a step that fails or an event from outside,
draws nothing. The bytes of the seed are the low bytes of the words of its blocks, in order. -/
theorem random_replay (dialect : Dialect) (seed : UInt64) (actions : List Action) :
    let m := (fresh dialect seed).run actions
    let drawn := (fresh dialect seed).randoms actions
    (∀ k i value, drawn[k]? = some (i, value) → value = Random.byteAt seed k &&& i.nn) ∧
      m.random = ⟨seed, drawn.length⟩ ∧
      (fetchable m.pc = true → m.instruction.family.val = 0xC → m.randomOf .step =
        some (m.instruction, Random.byteAt seed drawn.length &&& m.instruction.nn)) ∧
      (∀ a, m.randomOf a = none → (m.act a).state.random = m.random) ∧
      ∀ k blocks, k < 16 * blocks →
        (Random.stream seed blocks)[k]? = some (Random.byteAt seed k) := by
  intro m drawn
  obtain ⟨hrandom, hrandoms⟩ := (fresh dialect seed).random_run actions
  have hrandom : m.random = ⟨seed, drawn.length⟩ := by
    rw [← Nat.zero_add drawn.length]
    exact hrandom
  refine ⟨fun k i value h => ?_, hrandom, fun hf hfamily => ?_, fun a h => ?_,
    fun k blocks hk => Random.getElem?_stream hk⟩
  · rw [← Nat.zero_add k]
    exact hrandoms k i value h
  · rw [(randomOf_step hf hfamily).1, hrandom]
  · obtain ⟨-, hsame⟩ | ⟨i, hdraw, -⟩ := m.random_act a
    · exact hsame
    · rw [hdraw] at h
      cases h

/-- A mask of zero draws a byte too, and a key draws none. -/
example :
    let m := loadedWith .modern 7 [0xC0, 0x00, 0xC1, 0xFF]
    (m.run [.step, .press 3, .step]).get 1 = 0xE9 := by
  decide +kernel

end Machine

end Chip8
