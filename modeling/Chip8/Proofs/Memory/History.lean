import Mathlib.Data.List.Induction
import Chip8.Outcome
import Chip8.Proofs.Memory

/-!
# The history of a memory

Whatever stores bytes in a memory stores all of them or none: it places them in the cells from one
on, or it fails and leaves the memory as it was (`handle_of_none`, `handle_of_some`). So a cell
holds the byte that was stored there last, or what it held at the start (`byteAt_after`), and that
is what is read from it, alone or as one half of a word.
-/

namespace Chip8

namespace Memory

/-- What is done to store bytes in a memory. -/
inductive Store
  | load (program : List UInt8)
  | write (bytes : List UInt8) (addr : UInt16) (length : Nat)
  | set (addr : UInt16) (byte : UInt8)
  | fill (addr : UInt16) (length : Nat) (byte : UInt8)
  deriving DecidableEq, Repr

namespace Store

/-- The first cell that is stored to. -/
def start : Store → Nat
  | .load _ => 0x200
  | .write _ addr _ | .set addr _ | .fill addr _ _ => addr.toNat

/-- The bytes that go into the cells. -/
def bytes : Store → List UInt8
  | .load program => program
  | .write bytes _ length => bytes.take length
  | .set _ byte => [byte]
  | .fill _ length byte => List.replicate length byte

/-- Why nothing is stored, if so. -/
def failure? : Store → Option Stop
  | .load program =>
    if program.length ≤ 0xC90 then none
    else some (.fault (.programTooLarge program.length 0xC90))
  | .write bytes addr length =>
    if 4096 < addr.toNat + length then some .stuck
    else if bytes.length < length then some (.fault (.transfer .shortData)) else none
  | .set addr _ => if addr.toNat < 4096 then none else some .stuck
  | .fill addr length _ => if 4096 < addr.toNat + length then some .stuck else none

/-- The byte that comes into a cell, if one does. -/
def byteIn? (s : Store) (cell : Nat) : Option UInt8 :=
  if s.failure? = none ∧ s.start ≤ cell then s.bytes[cell - s.start]? else none

end Store

/-- The memory once bytes are stored, if they are. -/
def store (m : Memory) : Store → Result Memory
  | .load program => do return (← m.load program).2
  | .write bytes addr length => m.write bytes addr length
  | .set addr byte => m.set addr byte
  | .fill addr length byte => m.fill addr length byte

/-- What storing comes to. -/
def handle (m : Memory) (s : Store) : Outcome Memory Unit :=
  Act.update (·.store s) m

/-- The memory after everything that was stored, or failed to be. -/
def after (m : Memory) (history : List Store) : Memory :=
  history.foldl (fun m s => (m.handle s).state) m

/-- The byte that was stored in a cell last, or what was there at the start. -/
def lastByte (m : Memory) (history : List Store) (cell : Nat) : UInt8 :=
  (history.filterMap (·.byteIn? cell)).getLast?.getD (m.byteAt cell)

/-- Bytes lie in the cells of a memory from `start` on, and all other cells are as they were. -/
structure Placed (before after : Memory) (start : Nat) (bytes : List UInt8) : Prop where
  fits : start + bytes.length ≤ 4096
  inside : ∀ k (h : k < bytes.length), after.byteAt (start + k) = bytes[k]
  outside : ∀ cell < 4096, cell < start ∨ start + bytes.length ≤ cell →
    after.byteAt cell = before.byteAt cell

variable {m : Memory} {s : Store} {stop : Stop} {start cell : Nat} {bytes : List UInt8}

/-! ## Storing once -/

theorem placed_place (m : Memory) (h : start + bytes.length ≤ 4096) :
    m.Placed (m.place start bytes) start bytes where
  fits := h
  inside k hk := by
    rw [byteAt_place _ _ _ (by omega), if_pos (by omega), Nat.add_sub_cancel_left,
      List.getElem?_eq_getElem hk, Option.getD_some]
  outside cell hcell houtside := by
    rw [byteAt_place _ _ _ hcell]
    split
    · rw [List.getElem?_eq_none (by omega), Option.getD_none]
    · rfl

theorem load_of_le {program : List UInt8} (h : program.length ≤ 0xC90) :
    m.load program = .ok (program.length, m.place 0x200 program) :=
  (m.load_eq program).trans (if_pos h)

theorem load_of_lt {program : List UInt8} (h : 0xC90 < program.length) :
    m.load program = .error (.fault (.programTooLarge program.length 0xC90)) :=
  (m.load_eq program).trans (if_neg (Nat.not_le.2 h))

theorem write_of_lt {addr : UInt16} {length : Nat} (h : 4096 < addr.toNat + length) :
    m.write bytes addr length = .error .stuck :=
  if_neg (Nat.not_le.2 h)

theorem write_of_short {addr : UInt16} {length : Nat} (h : addr.toNat + length ≤ 4096)
    (hshort : bytes.length < length) :
    m.write bytes addr length = .error (.fault (.transfer .shortData)) :=
  (if_pos h).trans (if_neg (Nat.not_le.2 hshort))

theorem write_of_le {addr : UInt16} {length : Nat} (h : addr.toNat + length ≤ 4096)
    (hfull : length ≤ bytes.length) :
    m.write bytes addr length = .ok (m.place addr.toNat (bytes.take length)) :=
  (if_pos h).trans (if_pos hfull)

/-- **Everything is stored or nothing is.** -/
theorem store_eq (m : Memory) (s : Store) : m.store s =
    match s.failure? with
    | none => .ok (m.place s.start s.bytes)
    | some stop => .error stop := by
  cases s with
  | load program =>
    by_cases h : program.length ≤ 0xC90
    · simp only [store, load_of_le h, Store.failure?, if_pos h]
      rfl
    · simp only [store, load_of_lt (Nat.not_le.1 h), Store.failure?, if_neg h]
      rfl
  | write bytes addr length =>
    rcases Nat.lt_or_ge 4096 (addr.toNat + length) with hend | hend
    · simp only [store, write_of_lt hend, Store.failure?, if_pos hend]
    rcases Nat.lt_or_ge bytes.length length with hshort | hfull
    · simp only [store, write_of_short hend hshort, Store.failure?, if_neg (Nat.not_lt.2 hend),
        if_pos hshort]
    · simp only [store, write_of_le hend hfull, Store.failure?, if_neg (Nat.not_lt.2 hend),
        if_neg (Nat.not_lt.2 hfull)]
      rfl
  | set addr byte =>
    by_cases hend : addr.toNat < 4096
    · simp only [store, set, Store.failure?, if_pos hend]
      rfl
    · simp only [store, set, Store.failure?, if_neg hend]
  | fill addr length byte =>
    by_cases hend : addr.toNat + length ≤ 4096
    · simp only [store, fill, Store.failure?, if_pos hend, if_neg (Nat.not_lt.2 hend)]
      rfl
    · simp only [store, fill, Store.failure?, if_neg hend, if_pos (Nat.not_le.1 hend)]

theorem handle_of_none (h : s.failure? = none) :
    m.handle s = ⟨.ok (), m.place s.start s.bytes, []⟩ := by
  simp only [handle, Act.update, store_eq, h]

/-- What fails leaves the memory as it was. -/
theorem handle_of_error (h : m.store s = .error stop) : m.handle s = .failed m stop := by
  simp only [handle, Act.update, h]

theorem handle_of_some (h : s.failure? = some stop) : m.handle s = .failed m stop :=
  handle_of_error (by simp only [store_eq, h])

/-- **A cell holds the byte that came into it**, if one did. -/
theorem byteAt_handle (m : Memory) (s : Store) (hcell : cell < 4096) :
    (m.handle s).state.byteAt cell = (s.byteIn? cell).getD (m.byteAt cell) := by
  cases hfailure : s.failure? with
  | some stop =>
    rw [handle_of_some hfailure, Store.byteIn?, if_neg (by simp [hfailure])]
    rfl
  | none =>
    rw [handle_of_none hfailure, byteAt_place _ _ _ hcell]
    by_cases hstart : s.start ≤ cell
    · rw [if_pos hstart, Store.byteIn?, if_pos ⟨hfailure, hstart⟩]
    · rw [if_neg hstart, Store.byteIn?, if_neg fun h => hstart h.2]
      rfl

/-! ## Storing again and again -/

theorem after_concat (m : Memory) (history : List Store) (s : Store) :
    m.after (history ++ [s]) = ((m.after history).handle s).state := by
  rw [after, List.foldl_append]
  rfl

theorem lastByte_concat (m : Memory) (history : List Store) (s : Store) (cell : Nat) :
    m.lastByte (history ++ [s]) cell = (s.byteIn? cell).getD (m.lastByte history cell) := by
  rw [lastByte, List.filterMap_append, List.getLast?_append]
  cases hbyte : s.byteIn? cell with
  | none => simp [hbyte, lastByte]
  | some byte => simp [hbyte]

/-- **A cell holds what was stored in it last**, whatever was stored, or failed to be, before and
behind that. -/
theorem byteAt_after (m : Memory) (history : List Store) (hcell : cell < 4096) :
    (m.after history).byteAt cell = m.lastByte history cell := by
  induction history using List.reverseRecOn with
  | nil => rfl
  | append_singleton history s ih =>
    rw [after_concat, byteAt_handle _ _ hcell, ih, lastByte_concat]

theorem read_of_le {addr : UInt16} (h : 4096 ≤ addr.toNat) : m.read addr = .error .stuck := by
  rw [read, Vector.getElem?_eq_none h]

theorem word_of_le {addr : UInt16} (h : 4096 ≤ addr.toNat + 1) : m.word addr = .error .stuck := by
  rw [word, Vector.getElem?_eq_none (i := addr.toNat + 1) h]
  split
  · simp_all
  · rfl

/-! ## The whole memory -/

/-- **All bytes are stored or none**, whatever the memory holds.

* A program is loaded exactly if it has at most `0xC90` bytes, into the cells from `0x200` on and no
  others; a longer one is refused with its length.
* A write gets stuck exactly if it reaches behind the last cell; otherwise it fails exactly if there
  are fewer bytes than it is to store, and else stores the first ones in its cells and in no others.
* What is read from a cell is the byte that was stored there last, and a word is read from two
  cells, the first one the more significant; behind the last cell both get stuck. -/
theorem stores_all_or_nothing (m : Memory) :
    (∀ program,
      program.length ≤ 0xC90 ∧ (∃ loaded, m.load program = .ok (program.length, loaded) ∧
        m.Placed loaded 0x200 program ∧
        ∀ cell < 4096, cell < 0x200 ∨ 0xE90 ≤ cell → loaded.byteAt cell = m.byteAt cell) ∨
      0xC90 < program.length ∧
        m.load program = .error (.fault (.programTooLarge program.length 0xC90)) ∧
        m.handle (.load program) =
          .failed m (.fault (.programTooLarge program.length 0xC90))) ∧
    (∀ bytes addr length,
      4096 < addr.toNat + length ∧ m.write bytes addr length = .error .stuck ∨
      addr.toNat + length ≤ 4096 ∧ bytes.length < length ∧
        m.write bytes addr length = .error (.fault (.transfer .shortData)) ∧
        m.handle (.write bytes addr length) = .failed m (.fault (.transfer .shortData)) ∨
      addr.toNat + length ≤ 4096 ∧ length ≤ bytes.length ∧
        ∃ written, m.write bytes addr length = .ok written ∧
          m.Placed written addr.toNat (bytes.take length)) ∧
    ∀ history (addr : UInt16),
      (m.after history).read addr =
        (if addr.toNat < 4096 then .ok (m.lastByte history addr.toNat) else .error .stuck) ∧
      ((m.after history).word addr).map UInt16.toNat =
        if addr.toNat + 1 < 4096 then .ok ((m.lastByte history addr.toNat).toNat * 256 +
          (m.lastByte history (addr.toNat + 1)).toNat)
        else .error .stuck := by
  refine ⟨fun program => ?_, fun bytes addr length => ?_, fun history addr => ⟨?_, ?_⟩⟩
  · rcases Nat.lt_or_ge 0xC90 program.length with hlong | hfits
    · exact .inr ⟨hlong, load_of_lt hlong, handle_of_some (if_neg (Nat.not_le.2 hlong))⟩
    · have hplaced : m.Placed (m.place 0x200 program) 0x200 program :=
        placed_place m (by omega)
      exact .inl ⟨hfits, _, load_of_le hfits, hplaced, fun cell hcell houtside =>
        hplaced.outside cell hcell (by omega)⟩
  · rcases Nat.lt_or_ge 4096 (addr.toNat + length) with hend | hend
    · exact .inl ⟨hend, write_of_lt hend⟩
    rcases Nat.lt_or_ge bytes.length length with hshort | hfull
    · have hwrite : m.write bytes addr length = _ := write_of_short hend hshort
      exact .inr (.inl ⟨hend, hshort, hwrite, handle_of_error hwrite⟩)
    · have hfits : addr.toNat + (bytes.take length).length ≤ 4096 := by
        rw [List.length_take]
        omega
      exact .inr (.inr ⟨hend, hfull, _, write_of_le hend hfull, placed_place m hfits⟩)
  · split
    case isTrue hlt => rw [read_of_lt hlt, byteAt_after m history hlt]
    case isFalse hle => exact read_of_le (Nat.not_lt.1 hle)
  · split
    case isTrue hlt =>
      rw [word_of_lt hlt, byteAt_after m history (by omega), byteAt_after m history hlt, Except.map,
        Word.toNat_ofBytes]
    case isFalse hle =>
      rw [word_of_le (Nat.not_lt.1 hle)]
      rfl

end Memory

end Chip8
