import Chip8.CommandLine
import Chip8.Proofs.Console
import Chip8.Proofs.Text.Numeral

/-!
# Which texts are addresses

An address is a numeral of base sixteen and sixteen bits behind marks, first some `0x` and then some
`0X` (`IsMarkedAddress`). On the command line any number of marks is read; at the console at most
one, and blanks around the text do not count. So what the console reads is read on the command line
too, once it is trimmed, and what only the command line reads has more than one mark
(`addresses_read`).

* `skipMarks_marks`, `exists_marks`: all leading marks are skipped, and nothing else;
* `read_breakpoint`: where a breakpoint is given on the command line, its address is read.
-/

namespace Chip8

namespace Text

variable {letter : Char} {text rest : List Char} {addr : UInt16} {small capital : Nat}

/-! ## Marks -/

/-- Marks `0` `letter`, one after the other. -/
def marks (letter : Char) : Nat → List Char
  | 0 => []
  | count + 1 => '0' :: letter :: marks letter count

theorem mem_marks {c : Char} {count : Nat} (h : c ∈ marks letter count) : c = '0' ∨ c = letter := by
  induction count with
  | zero => cases h
  | succ count ih =>
    rw [marks, List.mem_cons, List.mem_cons] at h
    rcases h with h | h | h
    · exact .inl h
    · exact .inr h
    · exact ih h

theorem count_marks (letter c : Char) (hc : c ≠ '0') (count : Nat) :
    (marks letter count).count c = if c = letter then count else 0 := by
  induction count with
  | zero => simp [marks]
  | succ count ih =>
    rw [marks, List.count_cons_of_ne hc.symm, List.count_cons, ih]
    by_cases hletter : c = letter
    · simp [hletter]
    · simp [hletter, Ne.symm hletter]

theorem skipMarks_marks (letter : Char) (count : Nat) (rest : List Char) :
    skipMarks letter (marks letter count ++ rest) = skipMarks letter rest := by
  induction count with
  | zero => rfl
  | succ count ih => rw [marks, List.cons_append, List.cons_append, skipMarks, if_pos rfl, ih]

theorem skipMarks_of_notMem (h : letter ∉ text) : skipMarks letter text = text := by
  fun_cases skipMarks letter text with
  | case1 rest => simp at h
  | case2 c rest hne => rfl
  | case3 => rfl

/-- What is skipped are marks. -/
theorem exists_marks (letter : Char) (text : List Char) :
    ∃ count, text = marks letter count ++ skipMarks letter text := by
  fun_induction skipMarks letter text with
  | case1 rest ih =>
    obtain ⟨count, heq⟩ := ih
    exact ⟨count + 1, congrArg (['0', letter] ++ ·) heq⟩
  | case2 c rest hne => exact ⟨0, rfl⟩
  | case3 => exact ⟨0, rfl⟩

/-! ## Marked addresses -/

/-- An address behind `small` marks `0x` and, behind those, `capital` marks `0X`. -/
def IsMarkedAddress (small capital : Nat) (text : List Char) (addr : UInt16) : Prop :=
  ∃ numeral, IsHexNumeral numeral addr.toNat ∧
    text = marks 'x' small ++ (marks 'X' capital ++ numeral)

theorem IsHexNumeral.letters_notMem {n : Nat} (h : IsHexNumeral text n) :
    'x' ∉ text ∧ 'X' ∉ text := by
  have hmem := h.forall_mem (P := fun c => c ≠ 'x' ∧ c ≠ 'X') (by decide) (by decide)
  exact ⟨fun hx => (hmem _ hx).1 rfl, fun hx => (hmem _ hx).2 rfl⟩

theorem skipMarks_of_isHexNumeral {n : Nat} (h : IsHexNumeral text n) (small capital : Nat) :
    skipMarks 'X' (skipMarks 'x' (marks 'x' small ++ (marks 'X' capital ++ text))) = text := by
  have hsmall : 'x' ∉ marks 'X' capital ++ text := by
    intro hmem
    rcases List.mem_append.1 hmem with hmem | hmem
    · exact absurd (mem_marks hmem) (by decide)
    · exact h.letters_notMem.1 hmem
  rw [skipMarks_marks, skipMarks_of_notMem hsmall, skipMarks_marks,
    skipMarks_of_notMem h.letters_notMem.2]

/-- Sixteen bits are enough for what is read. -/
theorem map_readNumeral_eq_ok_iff :
    (readNumeral 16 65536 text).map UInt16.ofNat = .ok addr ↔ IsHexNumeral text addr.toNat := by
  have hread : readNumeral 16 65536 text = .ok addr.toNat ↔ IsHexNumeral text addr.toNat := by
    rw [readNumeral_eq_ok_iff (by omega), and_iff_right addr.toNat_lt]
  rw [← hread]
  cases hnumeral : readNumeral 16 65536 text with
  | error error => simp [Except.map]
  | ok n =>
    have hn : n < 65536 := ((readNumeral_eq_ok_iff (by omega)).1 hnumeral).1
    rw [Except.map, Except.ok.injEq, Except.ok.injEq, ← UInt16.toNat_inj,
      UInt16.toNat_ofNat_of_lt' hn]

/-- **An argument is read as an address behind any number of marks.** -/
theorem readMarkedAddress_eq_ok_iff : readMarkedAddress text = .ok addr ↔
    ∃ small capital, IsMarkedAddress small capital text addr := by
  rw [readMarkedAddress, map_readNumeral_eq_ok_iff]
  constructor
  · intro h
    obtain ⟨small, hsmall⟩ := exists_marks 'x' text
    obtain ⟨capital, hcapital⟩ := exists_marks 'X' (skipMarks 'x' text)
    exact ⟨small, capital, _, h, by rw [← hcapital, ← hsmall]⟩
  · rintro ⟨small, capital, numeral, hnumeral, rfl⟩
    rwa [skipMarks_of_isHexNumeral hnumeral]

/-- At most one mark is skipped, of either kind. -/
theorem exists_skipMark (text : List Char) : ∃ small capital, small + capital ≤ 1 ∧
    text = marks 'x' small ++ (marks 'X' capital ++ skipMark text) := by
  fun_cases skipMark text with
  | case1 rest => exact ⟨1, 0, by omega, rfl⟩
  | case2 rest => exact ⟨0, 1, by omega, rfl⟩
  | case3 => exact ⟨0, 0, by omega, rfl⟩

theorem skipMark_of_isHexNumeral {n : Nat} (h : IsHexNumeral text n)
    (hle : small + capital ≤ 1) :
    skipMark (marks 'x' small ++ (marks 'X' capital ++ text)) = text := by
  obtain ⟨rfl, rfl⟩ | ⟨rfl, rfl⟩ | ⟨rfl, rfl⟩ :
      small = 1 ∧ capital = 0 ∨ small = 0 ∧ capital = 1 ∨ small = 0 ∧ capital = 0 := by omega
  · rfl
  · rfl
  · change skipMark text = text
    fun_cases skipMark text with
    | case1 rest => exact absurd (by simp) h.letters_notMem.1
    | case2 rest => exact absurd (by simp) h.letters_notMem.2
    | case3 => rfl

/-- **A text at the console is read as an address behind at most one mark.** -/
theorem readAddress?_eq_some_iff : readAddress? text = some addr ↔
    ∃ small capital, small + capital ≤ 1 ∧ IsMarkedAddress small capital (trim text) addr := by
  have hread : readAddress? text = some addr ↔
      (readNumeral 16 65536 (skipMark (trim text))).map UInt16.ofNat = .ok addr := by
    rw [readAddress?]
    cases readNumeral 16 65536 (skipMark (trim text)) <;> simp [Except.map]
  rw [hread, map_readNumeral_eq_ok_iff]
  constructor
  · intro h
    obtain ⟨small, capital, hle, heq⟩ := exists_skipMark (trim text)
    exact ⟨small, capital, hle, _, h, heq⟩
  · rintro ⟨small, capital, hle, numeral, hnumeral, heq⟩
    rwa [heq, skipMark_of_isHexNumeral hnumeral hle]

/-! ## The characters of an address -/

/-- The marks of an address are the letters in it that are no digits. -/
theorem IsMarkedAddress.count_eq (h : IsMarkedAddress small capital text addr) :
    text.count 'x' = small ∧ text.count 'X' = capital := by
  obtain ⟨numeral, hnumeral, rfl⟩ := h
  obtain ⟨hx, hX⟩ := hnumeral.letters_notMem
  simp [List.count_append, count_marks, List.count_eq_zero.2 hx, List.count_eq_zero.2 hX]

theorem IsMarkedAddress.dash_notMem (h : IsMarkedAddress small capital text addr) :
    '-' ∉ text := by
  obtain ⟨numeral, hnumeral, rfl⟩ := h
  have hdigits := hnumeral.forall_mem (P := (· ≠ '-')) (by decide) (by decide)
  intro hmem
  rcases List.mem_append.1 hmem with hmem | hmem
  · exact absurd (mem_marks hmem) (by decide)
  rcases List.mem_append.1 hmem with hmem | hmem
  · exact absurd (mem_marks hmem) (by decide)
  · exact hdigits _ hmem rfl

end Text

open Text

/-! ## Where addresses are read -/

namespace Command

/-- A command names the address behind its letter. -/
theorem parse?_eq_breakpoint_iff {line : List Char} {addr : UInt16} :
    parse? line = some (.breakpoint (some addr)) ↔
      ∃ operand, trim line = 'b' :: operand ∧ readAddress? operand = some addr := by
  have hplain : ∀ {command : Command} {operand : List Char}, command ≠ .breakpoint (some addr) →
      plain? command operand ≠ some (.breakpoint (some addr)) := by
    intro command operand hne
    unfold plain?
    split
    · simpa using hne
    · simp
  fun_cases parse? line with
  | case1 operand heq | case2 operand heq | case3 operand heq | case4 operand heq
  | case5 operand heq => simp [heq, hplain]
  | case6 operand heq hblank =>
    have hnone : readAddress? operand = none := by
      rw [readAddress?, (trim_eq_nil_iff operand).2 hblank]
      rfl
    simp [heq, hnone]
  | case7 operand heq hblank => simp [heq]
  | case8 hs hc hn hq hh hb =>
    refine iff_of_false (by simp) ?_
    rintro ⟨operand, heq, -⟩
    exact hb operand heq

end Command

namespace CommandLine

variable {text : String} {addr : UInt16} {arguments : Arguments}

theorem Word.of_plain {text' : String} (h : Word.of text = .plain text') : text' = text := by
  unfold Word.of at h
  split at h
  · cases h
  · cases h
  · cases h
  · exact (Word.plain.inj h).symm

theorem Word.of_of_notMem (h : '-' ∉ text.toList) : Word.of text = .plain text := by
  fun_cases Word.of text with
  | case1 heq | case2 rest _ heq | case3 letter rest _ _ heq => simp [heq] at h
  | case4 => rfl

/-- An address is no option and no switch. -/
theorem Word.of_address (h : readMarkedAddress text.toList = .ok addr) :
    Word.of text = .plain text := by
  obtain ⟨small, capital, hmarked⟩ := readMarkedAddress_eq_ok_iff.1 h
  exact Word.of_of_notMem hmarked.dash_notMem

/-- An option without its value is reported at each other option or switch. -/
theorem Progress.long_ne_ok {p : Progress} {error : ArgumentError} (h : p.settle = .error error)
    (name : String) (value : Option String) (p' : Progress) : p.long name value ≠ .ok p' := by
  fun_cases Progress.long p name value <;> simp [h, bind, Except.bind]

theorem Progress.short_ne_ok {p : Progress} {error : ArgumentError} (h : p.settle = .error error)
    (letter : Char) (p' : Progress) : p.short letter ≠ .ok p' := by
  fun_cases Progress.short p letter <;> simp [h, bind, Except.bind]

theorem readWords_breakpoint (h : Word.of text = .plain text) :
    readWords { pending := some ⟨.breakpoint, none⟩ } [text] =
      match readMarkedAddress text.toList with
      | .ok addr => .ok { breakpoint := some addr }
      | .error _ => .error .valueValidation := by
  rw [readWords, h]
  cases hread : readMarkedAddress text.toList <;>
    simp [readWords, Progress.plain, Progress.settle, Progress.take, Progress.give, assign, hread,
      bind, Except.bind, Except.mapError, pure, Except.pure]

/-- **A breakpoint on the command line is an address**, with any number of marks. -/
theorem read_breakpoint : read ["--breakpoint", text] = .ok arguments ↔
    ∃ addr, readMarkedAddress text.toList = .ok addr ∧ arguments = { breakpoint := some addr } := by
  have hoption : read ["--breakpoint", text] =
      readWords { pending := some ⟨.breakpoint, none⟩ } [text] := rfl
  have hmissing : ({ pending := some ⟨.breakpoint, none⟩ } : Progress).settle =
      .error .invalidValue := rfl
  rw [hoption]
  by_cases hplain : Word.of text = .plain text
  · rw [readWords_breakpoint hplain]
    cases readMarkedAddress text.toList with
    | error error => simp
    | ok addr => simp [eq_comm]
  · -- A word that is no value leaves the option without one.
    refine iff_of_false ?_ fun ⟨addr, hread, _⟩ => hplain (Word.of_address hread)
    rw [readWords]
    split
    · simp [hmissing, bind, Except.bind]
    · rename_i name value _
      cases hlong : Progress.long _ name value with
      | error error => simp [bind, Except.bind]
      | ok p => exact (Progress.long_ne_ok hmissing _ _ _ hlong).elim
    · rename_i letter _
      cases hshort : Progress.short _ letter with
      | error error => simp [bind, Except.bind]
      | ok p => exact (Progress.short_ne_ok hmissing _ _ hshort).elim
    · rename_i text' hword
      exact absurd (Word.of_plain hword ▸ hword) hplain

end CommandLine

/-! ## Console and command line -/

namespace Text

variable {text : List Char} {addr : UInt16}

/-- What the console reads is an argument too, once the blanks around it are cut off. -/
theorem readMarkedAddress_of_readAddress? (h : readAddress? text = some addr) :
    readMarkedAddress (trim text) = .ok addr := by
  obtain ⟨small, capital, -, hmarked⟩ := readAddress?_eq_some_iff.1 h
  exact readMarkedAddress_eq_ok_iff.2 ⟨small, capital, hmarked⟩

/-- What is read as an argument alone has more than one mark. -/
theorem readAddress?_eq_none_iff (h : readMarkedAddress (trim text) = .ok addr) :
    readAddress? text = none ↔
      ∃ small capital, 1 < small + capital ∧ IsMarkedAddress small capital (trim text) addr := by
  constructor
  · intro hnone
    obtain ⟨small, capital, hmarked⟩ := readMarkedAddress_eq_ok_iff.1 h
    refine ⟨small, capital, ?_, hmarked⟩
    by_contra hle
    have hread := readAddress?_eq_some_iff.2 ⟨small, capital, Nat.not_lt.1 hle, hmarked⟩
    rw [hnone] at hread
    cases hread
  · rintro ⟨small, capital, hlt, hmarked⟩
    refine Option.eq_none_iff_forall_ne_some.2 fun addr' hread => ?_
    obtain ⟨small', capital', hle, hmarked'⟩ := readAddress?_eq_some_iff.1 hread
    -- The marks of a text are told by the letters in it.
    obtain ⟨rfl, rfl⟩ := hmarked.count_eq
    obtain ⟨hsmall, hcapital⟩ := hmarked'.count_eq
    omega

/-- **Addresses in text.** An argument is read as an address exactly if it is a numeral of base
sixteen and sixteen bits behind any number of marks `0x` and then any number of marks `0X`. At the
console blanks around the text do not count and there may be one mark at most. So what the console
reads, in a command or when it asks, is read as the same breakpoint on the command line once it is
trimmed, and what only the command line reads has more than one mark. -/
theorem addresses_read (text : List Char) (addr : UInt16) :
    (readMarkedAddress text = .ok addr ↔
      ∃ small capital, IsMarkedAddress small capital text addr) ∧
    (readAddress? text = some addr ↔
      ∃ small capital, small + capital ≤ 1 ∧ IsMarkedAddress small capital (trim text) addr) ∧
    (readAddress? text = some addr → readMarkedAddress (trim text) = .ok addr) ∧
    (readMarkedAddress (trim text) = .ok addr ∧ readAddress? (trim text) = none ↔
      ∃ small capital, 1 < small + capital ∧ IsMarkedAddress small capital (trim text) addr) ∧
    (∀ line, Command.parse? line = some (.breakpoint (some addr)) ↔
      ∃ operand, trim line = 'b' :: operand ∧ readAddress? operand = some addr) ∧
    ∀ arguments, CommandLine.read ["--breakpoint", String.ofList text] = .ok arguments ↔
      ∃ addr, readMarkedAddress text = .ok addr ∧ arguments = { breakpoint := some addr } := by
  refine ⟨readMarkedAddress_eq_ok_iff, readAddress?_eq_some_iff,
    readMarkedAddress_of_readAddress?, ?_, fun line => Command.parse?_eq_breakpoint_iff,
    fun arguments => ?_⟩
  · rw [readAddress?_congr (trim_trim text)]
    constructor
    · rintro ⟨hread, hnone⟩
      exact (readAddress?_eq_none_iff hread).1 hnone
    · rintro ⟨small, capital, hlt, hmarked⟩
      have hread := readMarkedAddress_eq_ok_iff.2 ⟨small, capital, hmarked⟩
      exact ⟨hread, (readAddress?_eq_none_iff hread).2 ⟨small, capital, hlt, hmarked⟩⟩
  · rw [CommandLine.read_breakpoint, String.toList_ofList]

/-- An address as it may be typed at the console, and one with marks that only an argument may
have. -/
theorem addresses_read_apart :
    let typed := " 0X1F\n".toList
    let given := "0x0x0X+01f".toList
    readAddress? typed = some 0x1F ∧ readMarkedAddress (trim typed) = .ok 0x1F ∧
      IsMarkedAddress 2 1 (trim given) 0x1F ∧ readMarkedAddress (trim given) = .ok 0x1F ∧
      readAddress? (trim given) = none := by
  intro typed given
  have htyped : readAddress? typed = some 0x1F := by decide
  have hmarked : IsMarkedAddress 2 1 (trim given) 0x1F := by
    refine ⟨"+01f".toList, ⟨"01f".toList, by decide, ⟨[0, 1, 15], ?_, by decide⟩, .inr (by decide)⟩,
      by decide⟩
    exact .cons (by decide) (.cons (by decide) (.cons (by decide) .nil))
  obtain ⟨-, -, htrimmed, -⟩ := addresses_read typed 0x1F
  obtain ⟨-, -, -, hmany, -⟩ := addresses_read given 0x1F
  exact ⟨htyped, htrimmed htyped, hmarked, hmany.2 ⟨2, 1, by decide, hmarked⟩⟩

end Text

end Chip8
