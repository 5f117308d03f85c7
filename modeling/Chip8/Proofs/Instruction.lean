import Chip8.Instruction

/-!
# The table of operations

Which words ask for which operation, read off the table in both directions (`Instruction.Encodes`).
Whatever is known of an operation is known of the words that ask for it, and the other way round.

* `operation?_eq_some_iff`: the table gives an operation to the words that encode it;
* `isSome_mnemonic?`: the words with a name are those with an operation.
-/

namespace Chip8.Instruction

open Text (hexUpper)

variable {i : Instruction} {op : Operation}

/-! ## Fields -/

theorem val_family (i : Instruction) : i.family.val = i.word.toNat / 4096 := by
  have hword := i.word.toNat_lt
  have hval : i.family.val = i.word.toNat / 4096 % 16 := rfl
  omega

theorem val_x (i : Instruction) : i.x.val = i.word.toNat / 256 % 16 := rfl

theorem toNat_nn (i : Instruction) : i.nn.toNat = i.word.toNat % 256 := by simp [nn]

/-- A word is made of its first digit, its second digit and its low byte. -/
theorem toNat_word (i : Instruction) :
    i.word.toNat = i.family.val * 4096 + i.x.val * 256 + i.nn.toNat := by
  rw [val_family, val_x, toNat_nn]
  omega

/-! ## Operations and their words -/

/-- The word asks for the operation: it is one of the operation's words, and the operands are its
fields. -/
def Encodes (i : Instruction) : Operation → Prop
  | .clear => i.word = 0x00E0
  | .ret => i.word = 0x00EE
  | .jump target => i.family.val = 0x1 ∧ target = i.nnn
  | .call target => i.family.val = 0x2 ∧ target = i.nnn
  | .skipIfValue x value => i.family.val = 0x3 ∧ x = i.x ∧ value = i.nn
  | .skipUnlessValue x value => i.family.val = 0x4 ∧ x = i.x ∧ value = i.nn
  | .skipIfSame x y => i.family.val = 0x5 ∧ x = i.x ∧ y = i.y
  | .setValue x value => i.family.val = 0x6 ∧ x = i.x ∧ value = i.nn
  | .addValue x value => i.family.val = 0x7 ∧ x = i.x ∧ value = i.nn
  | .move x y => pair 0x0 x y
  | .or x y => pair 0x1 x y
  | .and x y => pair 0x2 x y
  | .xor x y => pair 0x3 x y
  | .add x y => pair 0x4 x y
  | .sub x y => pair 0x5 x y
  | .shiftRight x y => pair 0x6 x y
  | .subReversed x y => pair 0x7 x y
  | .shiftLeft x y => pair 0xE x y
  | .skipUnlessSame x y => i.family.val = 0x9 ∧ x = i.x ∧ y = i.y
  | .setIndex addr => i.family.val = 0xA ∧ addr = i.nnn
  | .jumpOffset x target => i.family.val = 0xB ∧ x = i.x ∧ target = i.nnn
  | .random x mask => i.family.val = 0xC ∧ x = i.x ∧ mask = i.nn
  | .draw x y rows => i.family.val = 0xD ∧ x = i.x ∧ y = i.y ∧ rows = i.n
  | .skipIfKey x => one 0xE 0x9E x
  | .skipUnlessKey x => one 0xE 0xA1 x
  | .readDelay x => one 0xF 0x07 x
  | .waitKey x => one 0xF 0x0A x
  | .setDelay x => one 0xF 0x15 x
  | .setSound x => one 0xF 0x18 x
  | .addIndex x => one 0xF 0x1E x
  | .glyph x => one 0xF 0x29 x
  | .decimalDigits x => one 0xF 0x33 x
  | .store x => one 0xF 0x55 x
  | .load x => one 0xF 0x65 x
where
  pair (n : Nat) (x y : Register) : Prop :=
    i.family.val = 0x8 ∧ i.n.val = n ∧ x = i.x ∧ y = i.y
  one (family : Nat) (nn : UInt8) (x : Register) : Prop :=
    i.family.val = family ∧ i.nn = nn ∧ x = i.x

/-- The words whose first two digits are zero. -/
theorem word_eq_low (low : UInt8) :
    i.word = low.toUInt16 ↔ i.family.val = 0x0 ∧ i.nn = low ∧ i.x.val = 0 := by
  have hword := i.toNat_word
  have hlow := low.toNat_lt
  rw [← UInt16.toNat_inj, ← UInt8.toNat_inj, UInt8.toNat_toUInt16]
  have hnn := i.nn.toNat_lt
  omega

theorem word_eq_clear : i.word = 0x00E0 ↔ i.family.val = 0x0 ∧ i.nn = 0xE0 ∧ i.x.val = 0 :=
  word_eq_low 0xE0

theorem word_eq_ret : i.word = 0x00EE ↔ i.family.val = 0x0 ∧ i.nn = 0xEE ∧ i.x.val = 0 :=
  word_eq_low 0xEE

/-- **The table gives an operation to the words that encode it.** -/
theorem operation?_eq_some_iff : i.operation? = some op ↔ i.Encodes op := by
  constructor
  · intro h
    unfold operation? at h
    -- One case for each row of the table; a family with a table of its own splits once more.
    split at h <;> (try split at h) <;> cases h <;>
      simp_all [Encodes, Encodes.pair, Encodes.one, word_eq_clear, word_eq_ret]
  · intro h
    cases op <;>
      simp_all [operation?, Encodes, Encodes.pair, Encodes.one, word_eq_clear, word_eq_ret]

/-- **The words with a name are those with an operation.** -/
theorem isSome_mnemonic? (i : Instruction) : i.mnemonic?.isSome = i.operation?.isSome := by
  unfold mnemonic? operation?
  split
  case h_1 hfamily =>
    simp only [word_eq_clear, word_eq_ret, hfamily, true_and]
    repeat' split
    all_goals simp_all
  all_goals first
    | rfl
    | split <;> simp_all

/-! ## Printed form -/

/-- No name starts like the text for words without one. -/
theorem head_of_mnemonic? {name : String} {layout : Layout}
    (h : i.mnemonic? = some (name, layout)) : ∃ c, name.toList.head? = some c ∧ c ≠ 'u' := by
  unfold mnemonic? at h
  repeat' split at h
  all_goals cases h
  all_goals exact ⟨_, rfl, by decide⟩

/-- **The words printed without a name are those without an operation.** -/
theorem text_eq_unknown_iff (i : Instruction) :
    i.text = "unknown # " ++ hexUpper 4 i.word.toNat ↔ i.operation? = none := by
  have hsome := i.isSome_mnemonic?
  cases hm : i.mnemonic? with
  | none =>
    rw [hm] at hsome
    have hnone : i.operation? = none := Option.isNone_iff_eq_none.1 (by simp_all)
    refine iff_of_true ?_ hnone
    rw [text, hm]
    rfl
  | some m =>
    obtain ⟨name, layout⟩ := m
    rw [hm] at hsome
    refine iff_of_false ?_ (by rintro hnone; simp [hnone] at hsome)
    intro htext
    obtain ⟨c, hc, hne⟩ := head_of_mnemonic? hm
    have hhead := congrArg (fun t => t.toList.head?) htext
    simp [text, hm, hc] at hhead
    exact hne hhead

end Chip8.Instruction
