import Mathlib.Data.List.DropRight
import Chip8.Listing
import Chip8.Proofs.Instruction
import Chip8.Proofs.Text.Numeral

/-!
# What a listing tells of its image

Each entry of a listing is made of two bytes of the image (`getElem?_entries`), and each line ends
in the digits of its word, so that the image can be read back from the lines (`bytesIn_text`). A
listing stops in front of the word whose offset takes more than sixteen bits; it says of an image
all that there is to say exactly where the image has no such word (`entries_in_full_iff`).
-/

namespace Chip8

/-! ## Entries -/

namespace Listing

variable {origin : UInt16} {offset : Nat} {image : List UInt8}

/-- **An entry is made of two bytes of the image**, the second one zero where the image has ended.
There is one for each word whose offset has sixteen bits. -/
theorem getElem?_entries (origin : UInt16) (offset : Nat) (image : List UInt8) (i : Nat) :
    (startingAt origin offset image).entries[i]? =
      if offset + 2 * i < 65536 then image[2 * i]?.map fun high =>
        ⟨origin + UInt16.ofNat (offset + 2 * i),
          ⟨Word.ofBytes high (image[2 * i + 1]?.getD 0)⟩⟩
      else none := by
  fun_induction startingAt origin offset image generalizing i with
  | case1 offset => simp
  | case2 offset last =>
    unfold startingAt.add
    cases i with
    | zero => split <;> simp_all
    | succ i => split <;> simp
  | case3 offset high low rest hlt ih =>
    unfold startingAt.add
    rw [if_pos hlt]
    cases i with
    | zero => simp [hlt]
    | succ i =>
      have hoffset : offset + 2 * (i + 1) = offset + 2 + 2 * i := by omega
      have hindex : 2 * (i + 1) = 2 * i + 1 + 1 := by omega
      rw [hoffset]
      simp only [List.getElem?_cons_succ, ih, hindex]
  | case4 offset high low rest hlt =>
    rw [if_neg (by omega)]
    rfl

/-- A listing of an image that ends within sixteen bits is complete. -/
theorem complete_startingAt (h : offset + image.length ≤ 65536) :
    (startingAt origin offset image).complete = true := by
  fun_induction startingAt origin offset image with
  | case1 => rfl
  | case2 offset last =>
    rw [List.length_singleton] at h
    rw [startingAt.add, if_pos (by omega)]
  | case3 offset high low rest hlt ih =>
    rw [List.length_cons, List.length_cons] at h
    rw [startingAt.add, if_pos hlt]
    exact ih (by omega)
  | case4 offset high low rest hlt =>
    rw [List.length_cons, List.length_cons] at h
    omega

end Listing

/-! ## How far a listing goes -/

namespace Listing

variable {origin : UInt16} {offset : Nat} {image : List UInt8}

/-- There is an entry for each word of the image whose offset has sixteen bits. -/
theorem length_entries (origin : UInt16) (offset : Nat) (image : List UInt8) :
    (startingAt origin offset image).entries.length =
      min ((image.length + 1) / 2) ((65536 - offset + 1) / 2) := by
  fun_induction startingAt origin offset image with
  | case1 => exact (Nat.zero_min _).symm
  | case2 offset last =>
    unfold startingAt.add
    rw [List.length_singleton]
    split
    · rw [List.length_singleton]
      omega
    · rw [List.length_nil]
      omega
  | case3 offset high low rest hlt ih =>
    unfold startingAt.add
    rw [if_pos hlt, List.length_cons, ih, List.length_cons, List.length_cons]
    omega
  | case4 offset high low rest hlt =>
    rw [List.length_nil]
    omega

/-- A listing is complete if it has an entry for each word of its image. -/
theorem complete_iff_length : (startingAt origin offset image).complete = true ↔
    (startingAt origin offset image).entries.length = (image.length + 1) / 2 := by
  fun_induction startingAt origin offset image with
  | case1 => simp
  | case2 offset last =>
    unfold startingAt.add
    split <;> simp
  | case3 offset high low rest hlt ih =>
    unfold startingAt.add
    rw [if_pos hlt, ih, List.length_cons, List.length_cons, List.length_cons]
    omega
  | case4 offset high low rest hlt =>
    rw [List.length_nil, List.length_cons, List.length_cons]
    simp
    omega

end Listing

/-- The entry of the word of a number in an image placed at `origin`, at an address that goes round
the end of sixteen bits. -/
def Entry.ofWord (origin : UInt16) (image : List UInt8) (i : Nat) : Entry where
  addr := UInt16.ofNat (origin.toNat + 2 * i)
  instruction := ⟨Word.ofBytes (image[2 * i]?.getD 0) (image[2 * i + 1]?.getD 0)⟩

/-- The entries of a listing, in the order of the words, as far as it goes. -/
theorem entries_disassemble (origin : UInt16) (image : List UInt8) :
    (disassemble origin image).entries =
      (List.range (min ((image.length + 1) / 2) 32768)).map (Entry.ofWord origin image) := by
  refine List.ext_getElem? fun i => ?_
  rw [disassemble, Listing.getElem?_entries, Nat.zero_add, List.getElem?_map]
  by_cases hi : i < min ((image.length + 1) / 2) 32768
  · have hbyte : 2 * i < image.length := by omega
    have haddr : origin + UInt16.ofNat (2 * i) = UInt16.ofNat (origin.toNat + 2 * i) := by
      rw [UInt16.ofNat_add, UInt16.ofNat_toNat]
    rw [if_pos (by omega), List.getElem?_range hi, List.getElem?_eq_getElem hbyte, haddr]
    simp [Entry.ofWord, List.getElem?_eq_getElem hbyte]
  · rw [List.getElem?_eq_none (l := List.range _) (by rw [List.length_range]; omega)]
    split
    · have hend : image[2 * i]? = none := List.getElem?_eq_none (by omega)
      rw [hend]
      rfl
    · rfl

theorem complete_disassemble_iff (origin : UInt16) (image : List UInt8) :
    (disassemble origin image).complete = true ↔ image.length ≤ 65536 := by
  rw [disassemble, Listing.complete_iff_length, Listing.length_entries]
  omega

/-- **A listing lists its image in full exactly if the image has at most `2 ^ 16` bytes.** It goes
to the end and has one entry for each two bytes, with an address that goes round the end of sixteen
bits and a word that ends in zero where the last byte is missing. Of a longer image it has the
entries of the first `2 ^ 15` words, and gets stuck behind them. -/
theorem entries_in_full_iff (origin : UInt16) (image : List UInt8) :
    ((disassemble origin image).complete = true ∧ (disassemble origin image).entries =
        (List.range ((image.length + 1) / 2)).map (Entry.ofWord origin image) ↔
      image.length ≤ 65536) ∧
    ((disassemble origin image).complete = false ∧ (disassemble origin image).entries =
        (List.range 32768).map (Entry.ofWord origin image) ↔
      65536 < image.length) := by
  have hcomplete := complete_disassemble_iff origin image
  have hentries := entries_disassemble origin image
  constructor
  · refine ⟨fun h => hcomplete.1 h.1, fun h => ⟨hcomplete.2 h, ?_⟩⟩
    rwa [Nat.min_eq_left (by omega)] at hentries
  · have hstuck : (disassemble origin image).complete = false ↔ 65536 < image.length := by
      rw [← Bool.not_eq_true, hcomplete, Nat.not_le]
    refine ⟨fun h => hstuck.1 h.1, fun h => ⟨hstuck.2 h, ?_⟩⟩
    rwa [Nat.min_eq_right (by omega)] at hentries

/-- The shortest image that is not listed in full: its last word has an offset of `2 ^ 16`. -/
theorem listing_stuck_behind_sixteen_bits :
    (disassemble 0x200 (List.replicate 65537 0xF0)).complete = false ∧
      (disassemble 0x200 (List.replicate 65537 0xF0)).entries.length = 32768 ∧
      ((List.replicate 65537 (0xF0 : UInt8)).length + 1) / 2 = 32769 := by
  have hlength : (List.replicate 65537 (0xF0 : UInt8)).length = 65537 := List.length_replicate
  refine ⟨?_, ?_, by omega⟩
  · rw [← Bool.not_eq_true, complete_disassemble_iff, hlength]
    omega
  · rw [entries_disassemble, List.length_map, List.length_range, hlength]
    omega

/-! ## Reading back -/

/-- The two bytes of the word that a line ends in: its last four characters, read as a number. -/
def Listing.bytesIn (line : String) : List UInt8 :=
  match Text.readNumeral 16 65536 (line.toList.rtake 4) with
  | .ok word => [UInt8.ofNat (word / 256), UInt8.ofNat (word % 256)]
  | .error _ => []

namespace Entry

/-- A line ends in the digits of its word. -/
theorem rtake_text (entry : Entry) : entry.text.toList.rtake 4 =
    (Text.hexUpper 4 entry.instruction.word.toNat).toList := by
  have hlength : (Text.hexUpper 4 entry.instruction.word.toNat).toList.length = 4 := by
    rw [Text.toList_hexUpper_four entry.instruction.word.toNat_lt]
    rfl
  simp only [text, Instruction.text, String.toList_append, ← List.append_assoc, List.rtake]
  rw [List.length_append, hlength, Nat.add_sub_cancel, List.drop_left]

/-- **A line gives back the two bytes that its word was made of.** -/
theorem bytesIn_text {entry : Entry} {high low : UInt8}
    (h : entry.instruction.word = Word.ofBytes high low) :
    Listing.bytesIn entry.text = [high, low] := by
  have hword := Word.toNat_ofBytes high low
  have hhigh := high.toNat_lt
  have hlow := low.toNat_lt
  unfold Listing.bytesIn
  rw [rtake_text, Text.readNumeral_hexUpper_four entry.instruction.word.toNat_lt, h, hword]
  dsimp only
  rw [show (high.toNat * 256 + low.toNat) / 256 = high.toNat by omega,
    show (high.toNat * 256 + low.toNat) % 256 = low.toNat by omega, UInt8.ofNat_toNat,
    UInt8.ofNat_toNat]

end Entry

/-- **The lines of a listing give back the image**, with a zero behind a last odd byte. -/
theorem Listing.flatMap_bytesIn {origin : UInt16} {offset : Nat} {image : List UInt8}
    (h : offset + image.length ≤ 65536) :
    ((startingAt origin offset image).entries.flatMap fun entry => bytesIn entry.text) =
      image ++ List.replicate (image.length % 2) 0 := by
  fun_induction startingAt origin offset image with
  | case1 => rfl
  | case2 offset last =>
    rw [List.length_singleton] at h
    rw [startingAt.add, if_pos (by omega), List.flatMap_cons, Entry.bytesIn_text rfl]
    rfl
  | case3 offset high low rest hlt ih =>
    rw [List.length_cons, List.length_cons] at h
    have hparity : (rest.length + 1 + 1) % 2 = rest.length % 2 := by omega
    rw [startingAt.add, if_pos hlt, List.flatMap_cons, Entry.bytesIn_text rfl, ih (by omega),
      List.length_cons, List.length_cons, hparity]
    rfl
  | case4 offset high low rest hlt =>
    rw [List.length_cons, List.length_cons] at h
    omega

end Chip8
