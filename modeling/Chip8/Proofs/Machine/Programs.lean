import Chip8.Proofs.Listing
import Chip8.Proofs.Machine.Cells
import Chip8.Proofs.Machine.Faults

/-!
# Programs and their listings

A program's listing is made from its bytes alone, without a machine. It says all the same what a
machine meets that holds the program: where each word lies, which instruction it is, and whether a
step knows it (`listing_agrees`).
-/

namespace Chip8.Machine

open Text (hexUpper)

variable {image : List UInt8} {i : Nat} {entry : Entry}

/-- Each entry of a program's listing is about two of its bytes. -/
theorem entry_of_listing (h : image.length ≤ 0xC90)
    (hentry : (disassemble Memory.programStart image).entries[i]? = some entry) :
    2 * i < image.length ∧ entry.addr.toNat = 0x200 + 2 * i ∧ entry.instruction.word =
      Word.ofBytes (image[2 * i]?.getD 0) (image[2 * i + 1]?.getD 0) := by
  rw [disassemble, Listing.getElem?_entries, Nat.zero_add] at hentry
  split at hentry
  · obtain ⟨high, hhigh, rfl⟩ := Option.map_eq_some_iff.1 hentry
    obtain ⟨hlt, -⟩ := List.getElem?_eq_some_iff.1 hhigh
    have hstart : Memory.programStart.toNat = 0x200 := by decide
    refine ⟨hlt, ?_, ?_⟩
    · rw [UInt16.toNat_add, UInt16.toNat_ofNat', hstart]
      omega
    · rw [hhigh]
      rfl
  · cases hentry

/-- A program lies in a new machine as its listing says. -/
theorem byteAt_of_entry (dialect : Dialect) (seed : UInt64) (h : image.length ≤ 0xC90)
    (hentry : (disassemble Memory.programStart image).entries[i]? = some entry) :
    let memory := (loadedWith dialect seed image).memory
    fetchable entry.addr = true ∧ entry.instruction.word =
      Word.ofBytes (memory.byteAt entry.addr.toNat) (memory.byteAt (entry.addr.toNat + 1)) := by
  obtain ⟨hlt, haddr, hword⟩ := entry_of_listing h hentry
  refine ⟨fetchable_iff.2 ⟨by omega, by omega, by omega⟩, ?_⟩
  rw [hword, haddr, Nat.add_assoc, byteAt_loadedWith _ _ h (by omega),
    byteAt_loadedWith _ _ h (by omega)]

/-- A machine that stands at an entry, and holds there what was loaded, meets the entry's
instruction. -/
theorem instruction_of_entry {loaded m : Machine} (hf : fetchable entry.addr = true)
    (hword : entry.instruction.word = Word.ofBytes (loaded.memory.byteAt entry.addr.toNat)
      (loaded.memory.byteAt (entry.addr.toNat + 1)))
    (hpc : m.pc = entry.addr)
    (hfirst : m.memory.read entry.addr = loaded.memory.read entry.addr)
    (hsecond : m.memory.read (entry.addr + 1) = loaded.memory.read (entry.addr + 1)) :
    m.instruction = entry.instruction := by
  obtain ⟨-, -, hle⟩ := fetchable_iff.1 hf
  have hnext : (entry.addr + 1).toNat = entry.addr.toNat + 1 := by
    rw [UInt16.toNat_add]
    exact Nat.mod_eq_of_lt (by simp; omega)
  rw [Memory.read_of_lt (by omega), Memory.read_of_lt (by omega), Except.ok.injEq] at hfirst
  rw [Memory.read_of_lt (by omega), Memory.read_of_lt (by omega), Except.ok.injEq, hnext]
    at hsecond
  rw [instruction, hpc, hfirst, hsecond, ← hword]

/-- **A program's listing agrees with the machine.** Each entry says where a word of the program
lies and what a machine that was just loaded fetches there. Wherever a machine comes to stand at
that address and still holds the two bytes, its step fails for an unknown instruction if the entry
is printed as unknown and not otherwise, and if it succeeds it returns the entry's instruction. The
lines give back the program, with a zero behind a last odd byte. -/
theorem listing_agrees (dialect : Dialect) (seed : UInt64) (image : List UInt8)
    (h : image.length ≤ 0xC90) :
    let loaded := loadedWith dialect seed image
    let listing := disassemble Memory.programStart image
    ((fresh dialect seed).act (.load image)).result = .ok () ∧ listing.complete = true ∧
      (∀ i entry, listing.entries[i]? = some entry →
        entry.addr.toNat = 0x200 + 2 * i ∧
        loaded.memory.word entry.addr = .ok entry.instruction.word ∧
        ∀ m : Machine, m.pc = entry.addr →
          m.memory.read entry.addr = loaded.memory.read entry.addr →
          m.memory.read (entry.addr + 1) = loaded.memory.read (entry.addr + 1) →
          (m.step.result = .error
              (.fault (.unknownInstruction entry.instruction.word entry.addr)) ↔
            entry.instruction.text =
              "unknown # " ++ hexUpper 4 entry.instruction.word.toNat) ∧
          ∀ instruction, m.step.result = .ok instruction → instruction = entry.instruction) ∧
      (listing.entries.flatMap fun entry => Listing.bytesIn entry.text) =
        image ++ List.replicate (image.length % 2) 0 := by
  intro loaded listing
  have hend : 0 + image.length ≤ 65536 := by omega
  refine ⟨by rw [act_load_of_le h], Listing.complete_startingAt hend, ?_,
    Listing.flatMap_bytesIn hend⟩
  intro i entry hentry
  obtain ⟨-, haddr, -⟩ := entry_of_listing h hentry
  obtain ⟨hf, hword⟩ := byteAt_of_entry dialect seed h hentry
  obtain ⟨-, -, hle⟩ := fetchable_iff.1 hf
  refine ⟨haddr, by rw [Memory.word_of_lt (by omega), ← hword], ?_⟩
  intro m hpc hfirst hsecond
  have hinstruction := instruction_of_entry hf hword hpc hfirst hsecond
  refine ⟨?_, fun instruction hstep => (instruction_of_step hstep).trans hinstruction⟩
  rw [Instruction.text_eq_unknown_iff, ← hinstruction, ← hpc]
  exact step_eq_unknown_iff (hpc ▸ hf)

/-- A program of two words and a half. A machine that executed the first stands at the second one,
which no operation has. -/
theorem listing_agrees_five :
    let image : List UInt8 := [0x60, 0x2A, 0x01, 0x23, 0xF0]
    let listing := disassemble Memory.programStart image
    let m := (loadedWith .modern 0 image).run [.step]
    image.length ≤ 0xC90 ∧ listing.entries[1]? = some ⟨0x202, ⟨0x0123⟩⟩ ∧ m.pc = 0x202 ∧
      m.step.result = .error (.fault (.unknownInstruction 0x0123 0x202)) ∧
      (listing.entries.flatMap fun entry => Listing.bytesIn entry.text) = image ++ [0] := by
  intro image listing m
  have hlength : image.length ≤ 0xC90 := by decide
  have hentry : listing.entries[1]? = some ⟨0x202, ⟨0x0123⟩⟩ := by decide
  have hstands : m.pc = 0x202 ∧
      m.memory.read 0x202 = (loadedWith .modern 0 image).memory.read 0x202 ∧
      m.memory.read 0x203 = (loadedWith .modern 0 image).memory.read 0x203 := by decide +kernel
  obtain ⟨hpc, hfirst, hsecond⟩ := hstands
  obtain ⟨-, -, hentries, hback⟩ := listing_agrees .modern 0 image hlength
  obtain ⟨-, -, hsteps⟩ := hentries 1 _ hentry
  obtain ⟨hunknown, -⟩ := hsteps m hpc hfirst hsecond
  exact ⟨hlength, hentry, hpc, hunknown.2 (by decide), hback.trans (by decide)⟩

end Chip8.Machine
