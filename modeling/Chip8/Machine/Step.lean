import Chip8.Machine.Perform

/-!
# Steps

A step fetches the word at the program counter, moves the program counter past it and executes it.
A step that cannot fetch leaves the machine alone; one that fetches and then fails leaves it as the
operation left it. Where an operation gets stuck nothing is said about the machine, and the one
before the operation stands in for it.
-/

namespace Chip8.Machine

/-- Whether a word can be fetched at an address: it is even, and it and the cell behind it lie in
the program's part of memory. -/
def fetchable (addr : UInt16) : Bool :=
  addr.toNat % 2 == 0 && 0x200 ≤ addr.toNat && addr.toNat ≤ 0xFFE

/-- Executes one instruction; the result is the instruction. -/
def step (m : Machine) : Outcome Machine Instruction :=
  if fetchable m.pc then
    match m.memory.word m.pc, m.skip with
    | .ok word, .ok fetched =>
      match (Instruction.mk word).operation? with
      | none => .failed fetched (.fault (.unknownInstruction word m.pc))
      | some operation =>
        match perform operation fetched with
        | ⟨.ok _, after, _⟩ => ⟨.ok ⟨word⟩, after, [.notice (.executed m.pc ⟨word⟩)]⟩
        | ⟨.error (.fault cause), after, _⟩ => .failed after (.fault cause)
        | ⟨.error .stuck, _, _⟩ => .failed fetched .stuck
    | .error stop, _ => .failed m stop
    | _, .error stop => .failed m stop
  else .failed m (.fault (.programCounterOutOfRange m.pc))

/-- Up to `n` steps, the last of them the first that fails: the instructions executed, and how it
ended. -/
def steps (m : Machine) : (n : Nat) → List Instruction × Outcome Machine Unit
  | 0 => ([], ⟨.ok (), m, []⟩)
  | n + 1 =>
    match m.step with
    | ⟨.ok instruction, after, events⟩ =>
      let (rest, o) := after.steps n
      (instruction :: rest, o.after events)
    | ⟨.error stop, after, events⟩ => ([], ⟨.error stop, after, events⟩)

end Chip8.Machine
