import Chip8.Console
import Chip8.Debugger.Command
import Mathlib.Data.List.DropRight

/-!
# Lines at the console

What is read from an input that starts with a line, and what the blanks at the ends of a text count
for.

* `readLine_append`: a complete line is read without what lies behind it;
* `readLine_line`, `readLine_encode`: a text typed as a line is read back, and so is one without a
  newline at the end of the input;
* `readAddress?_congr`, `parse?_b`: an address is read from what is left of a text without the
  blanks at its ends, and so is the breakpoint that a command names.
-/

namespace Chip8

namespace Console

variable {body bytes rest : List UInt8} {text : List Char}

/-! ## Lines of bytes -/

/-- One line, with a newline at its end and nowhere else. -/
def IsLine (bytes : List UInt8) : Prop :=
  ∃ body, newline ∉ body ∧ bytes = body ++ [newline]

theorem IsLine.append_ne_nil (h : IsLine bytes) (rest : List UInt8) : bytes ++ rest ≠ [] := by
  obtain ⟨body, -, rfl⟩ := h
  simp

theorem splitLine_of_not_mem (h : newline ∉ body) : splitLine body = (body, []) := by
  induction body with
  | nil => rfl
  | cons byte body ih =>
    obtain ⟨hbyte, hbody⟩ := List.ne_and_not_mem_of_not_mem_cons h
    rw [splitLine, if_neg (Ne.symm hbyte), ih hbody]

theorem splitLine_append_newline (h : newline ∉ body) (rest : List UInt8) :
    splitLine (body ++ newline :: rest) = (body ++ [newline], rest) := by
  induction body with
  | nil => simp [splitLine]
  | cons byte body ih =>
    obtain ⟨hbyte, hbody⟩ := List.ne_and_not_mem_of_not_mem_cons h
    rw [List.cons_append, splitLine, if_neg (Ne.symm hbyte), ih hbody]
    rfl

/-- A complete line is read, and what lies behind it is left. -/
theorem readLine_append (h : IsLine bytes) (rest : List UInt8) :
    readLine (bytes ++ rest) = (decode? bytes, rest) := by
  obtain ⟨body, hbody, rfl⟩ := h
  rw [readLine, List.append_assoc, List.singleton_append, splitLine_append_newline hbody]

/-! ## Lines of text -/

/-- The bytes of a text. -/
def encode (text : List Char) : List UInt8 :=
  text.flatMap String.utf8EncodeChar

/-- The bytes of a text that is typed as a line. -/
def line (text : List Char) : List UInt8 :=
  encode text ++ [newline]

theorem decode?_encode (text : List Char) : decode? (encode text) = some text := by
  have h : (encode text).toByteArray.utf8Decode? = some text.toArray := List.utf8Decode?_utf8Encode
  rw [decode?, h]
  rfl

theorem decode?_line (text : List Char) : decode? (line text) = some (text ++ ['\n']) := by
  have h : line text = encode (text ++ ['\n']) := by
    rw [line, encode, encode, List.flatMap_append]
    rfl
  rw [h, decode?_encode]

/-- No other character has the byte of the newline in it. -/
theorem newline_not_mem_utf8EncodeChar {c : Char} (h : c ≠ '\n') :
    newline ∉ String.utf8EncodeChar c := by
  have hvalue : c.toNat ≠ 10 := fun heq => h (Char.ext (UInt32.toNat_inj.1 heq))
  unfold String.utf8EncodeChar
  dsimp only
  split
  case isTrue hone =>
    replace hone : c.toNat ≤ 127 := hone
    simp [newline, ← UInt8.toNat_inj]
    omega
  -- Each byte of a longer encoding has its highest bit set.
  all_goals repeat' split
  all_goals
    simp [newline, ← UInt8.toNat_inj]
    omega

theorem newline_not_mem_encode (h : '\n' ∉ text) : newline ∉ encode text := by
  intro hmem
  obtain ⟨c, hc, hbyte⟩ := List.mem_flatMap.1 hmem
  exact newline_not_mem_utf8EncodeChar (fun heq => h (heq ▸ hc)) hbyte

theorem isLine_line (h : '\n' ∉ text) : IsLine (line text) :=
  ⟨encode text, newline_not_mem_encode h, rfl⟩

theorem readLine_line (h : '\n' ∉ text) (rest : List UInt8) :
    readLine (line text ++ rest) = (some (text ++ ['\n']), rest) := by
  rw [readLine_append (isLine_line h), decode?_line]

/-- The last line of an input is read even if it is not complete. -/
theorem readLine_encode (h : '\n' ∉ text) : readLine (encode text) = (some text, []) := by
  rw [readLine, splitLine_of_not_mem (newline_not_mem_encode h)]
  exact congrArg (·, []) (decode?_encode text)

end Console

/-! ## Blanks at the ends -/

namespace Text

theorem trim_concat (text : List Char) {c : Char} (h : isBlank c = true) :
    trim (text ++ [c]) = trim text := by
  change List.rdropWhile isBlank ((text ++ [c]).dropWhile isBlank) =
    List.rdropWhile isBlank (text.dropWhile isBlank)
  rw [List.dropWhile_append]
  split
  case isTrue hempty => simp [List.isEmpty_iff.1 hempty, h]
  case isFalse => exact List.rdropWhile_concat_pos _ _ _ h

theorem trim_cons (text : List Char) {c : Char} (h : isBlank c = true) :
    trim (c :: text) = trim text := by
  rw [trim, trim, List.dropWhile_cons_of_pos h]

theorem trim_of_not_blank (text : List Char) {c : Char} (h : isBlank c = false) :
    trim (c :: text) = c :: List.rdropWhile isBlank text := by
  change List.rdropWhile isBlank ((c :: text).dropWhile isBlank) = _
  rw [List.dropWhile_cons_of_neg (by simp [h])]
  simp only [List.rdropWhile, List.reverse_cons, List.dropWhile_append, List.dropWhile_cons, h]
  split
  case isTrue hempty => simp [List.isEmpty_iff.1 hempty]
  case isFalse => simp

/-- Blanks at the end are cut off in any case. -/
theorem trim_rdropWhile (text : List Char) : trim (List.rdropWhile isBlank text) = trim text := by
  induction text using List.reverseRecOn with
  | nil => rfl
  | append_singleton text c ih =>
    cases h : isBlank c with
    | true => rw [List.rdropWhile_concat_pos _ _ _ h, ih, trim_concat text h]
    | false => rw [List.rdropWhile_concat_neg _ _ _ (by simp [h])]

theorem trim_trim (text : List Char) : trim (trim text) = trim text := by
  have hcut : trim (trim text) = trim (text.dropWhile isBlank) := trim_rdropWhile _
  rw [hcut, trim, List.dropWhile_idempotent, ← trim]

theorem trim_eq_nil_iff (text : List Char) : trim text = [] ↔ allBlank text = true := by
  induction text with
  | nil => exact iff_of_true rfl rfl
  | cons c text ih =>
    cases h : isBlank c with
    | true => simpa [trim_cons text h, allBlank, h] using ih
    | false => simp [trim_of_not_blank text h, allBlank, h]

/-! ## What is read -/

theorem readAddress?_congr {text text' : List Char} (h : trim text = trim text') :
    readAddress? text = readAddress? text' := by
  rw [readAddress?, readAddress?, h]

theorem allBlank_congr {text text' : List Char} (h : trim text = trim text') :
    allBlank text = allBlank text' := by
  rw [Bool.eq_iff_iff, ← trim_eq_nil_iff, ← trim_eq_nil_iff, h]

end Text

namespace Command

open Text

/-- A breakpoint's address stands behind the letter, or is asked for. -/
theorem parse?_b (operand : List Char) :
    parse? ('b' :: operand) =
      if allBlank operand then some (.breakpoint none)
      else (readAddress? operand).map fun addr => .breakpoint (some addr) := by
  have hcut := trim_rdropWhile operand
  rw [parse?, trim_of_not_blank operand (by decide), ← allBlank_congr hcut,
    ← readAddress?_congr hcut]
  rfl

end Command

end Chip8
