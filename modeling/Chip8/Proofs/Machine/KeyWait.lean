import Chip8.Proofs.Machine.Keys

/-!
# The wait for a key

`FX0A` is executed again and again until a key went down and came up. While it waits nothing else
happens to the program: the machine stands in front of the same word (`AtWaitKey`), and a step
writes how far the wait has come and nothing more, until one ends it (`step_waitKey`).

* `StandsAtWait`: a machine that waits stands at an `FX0A`; every action but a load keeps this.
-/

namespace Chip8

/-- The words `FX0A`. -/
theorem Instruction.operation?_eq_waitKey {i : Instruction} {x : Register} :
    i.operation? = some (.waitKey x) ↔ i.word.toNat = 0xF00A + 256 * x.val := by
  have hword := i.toNat_word
  have hlow : (0x0A : UInt8).toNat = 0x0A := rfl
  have hnn := i.nn.toNat_lt
  rw [operation?_eq_some_iff, Encodes, Encodes.one, ← UInt8.toNat_inj, Fin.ext_iff]
  omega

namespace Machine

variable {m m' : Machine} {x : Register} {k : Fin 16}

/-- The machine stands in front of an `FX0A`. -/
structure AtWaitKey (m : Machine) (x : Register) : Prop where
  fetchable : fetchable m.pc = true
  operation : m.instruction.operation? = some (.waitKey x)

theorem AtWaitKey.word (h : m.AtWaitKey x) :
    ∃ word, m.memory.word m.pc = .ok word ∧ word.toNat = 0xF00A + 256 * x.val :=
  ⟨_, word_pc h.fetchable, Instruction.operation?_eq_waitKey.1 h.operation⟩

theorem AtWaitKey.congr (h : m.AtWaitKey x) (hmem : m'.memory = m.memory) (hpc : m'.pc = m.pc) :
    m'.AtWaitKey x := by
  have hinstruction : m'.instruction = m.instruction := by
    rw [instruction, instruction, hmem, hpc]
  refine ⟨?_, ?_⟩
  · rw [hpc]
    exact h.fetchable
  · rw [hinstruction]
    exact h.operation

/-! ## One step -/

/-- The machine waits for a key to come up. -/
def WaitsForRelease (m : Machine) : Prop := ∃ key, m.keyWait = some (.release key)

/-- The machine after a wait that ended with a key. -/
def committed (m : Machine) (x : Register) (k : Fin 16) : Machine :=
  { m with keyWait := none, pc := m.pc + 2 }.set x (KeyNumber.of k)

/-- The machine after it looked for a key to wait for. -/
def recorded (m : Machine) : Machine :=
  { m with keyWait := some (match m.keypad.firstFresh with
      | some k => .untilUp k
      | none => .press) }

theorem rewind_fetched (h : fetchable m.pc = true) (wait : Option KeyWait) :
    { m.fetched with keyWait := wait }.rewind = .ok { m with keyWait := wait } := by
  have hpc := toNat_pc_fetched h
  have hback : m.pc + 2 - 2 = m.pc := by
    rw [UInt16.add_sub_cancel]
  rw [rewind_of_le (by dsimp only; omega)]
  dsimp only [fetched]
  rw [hback]

theorem waitKey_fetched_of_untilUp (hf : fetchable m.pc = true)
    (hw : m.keyWait = some (.untilUp k)) :
    m.fetched.waitKey x =
      if (m.keypad.get k).pressed && !(m.keypad.get k).justReleased then .ok m
      else .ok (m.committed x k) := by
  have hwait : m.fetched.keyWait = some (.release (.of k)) := hw
  have hkey := KeyNumber.toNat_of k
  unfold waitKey
  rw [hwait]
  dsimp only
  rw [Keypad.isPressed_eq hkey, ok_bind, Keypad.wasReleased_eq hkey, ok_bind]
  split
  · rw [if_pos ‹_›]
    exact rewind_fetched hf m.keyWait
  · rw [if_neg ‹_›]
    rfl

theorem waitKey_fetched_of_not_release (hf : fetchable m.pc = true)
    (hw : ¬m.WaitsForRelease) : m.fetched.waitKey x = .ok m.recorded := by
  unfold waitKey
  split
  · exact absurd ⟨_, ‹_›⟩ hw
  · exact rewind_fetched hf _

/-- A step at an `FX0A` goes on with the wait while the key is held. -/
theorem step_of_held (h : m.AtWaitKey x) (hw : m.keyWait = some (.untilUp k))
    (hk : m.keypad.Held k) :
    m.step = ⟨.ok m.instruction, m, [.notice (.executed m.pc m.instruction)]⟩ := by
  refine step_of_ok h.fetchable h.operation ?_
  rw [execute, waitKey_fetched_of_untilUp h.fetchable hw, if_pos (Keypad.held_iff.2 hk)]

/-- A step at an `FX0A` commits a key that is held no longer. -/
theorem step_of_not_held (h : m.AtWaitKey x) (hw : m.keyWait = some (.untilUp k))
    (hk : ¬m.keypad.Held k) :
    m.step = ⟨.ok m.instruction, m.committed x k, [.notice (.executed m.pc m.instruction)]⟩ := by
  refine step_of_ok h.fetchable h.operation ?_
  rw [execute, waitKey_fetched_of_untilUp h.fetchable hw, if_neg (mt Keypad.held_iff.1 hk)]

/-- A step at an `FX0A` looks for a key to wait for while there is none. -/
theorem step_of_not_release (h : m.AtWaitKey x) (hw : ¬m.WaitsForRelease) :
    m.step = ⟨.ok m.instruction, m.recorded, [.notice (.executed m.pc m.instruction)]⟩ := by
  refine step_of_ok h.fetchable h.operation ?_
  rw [execute, waitKey_fetched_of_not_release h.fetchable hw]

/-- Only an `FX0A` writes how far the wait has come. -/
theorem keyWait_step_of_not (h : ∀ x, ¬m.AtWaitKey x) : m.step.state.keyWait = m.keyWait := by
  cases hf : Machine.fetchable m.pc with
  | false => rw [step_of_not_fetchable hf]; rfl
  | true => exact keyWait_step fun x hop => h x ⟨hf, hop⟩

/-! ## Standing at the instruction -/

/-- A machine that waits stands in front of an `FX0A`, and it waits for one of the keys. -/
structure StandsAtWait (m : Machine) : Prop where
  atWaitKey : m.keyWait ≠ none → ∃ x, m.AtWaitKey x
  untilUp : m.WaitsForRelease → ∃ k, m.keyWait = some (.untilUp k)

theorem standsAtWait_of_keyWait_eq_none (h : m.keyWait = none) : m.StandsAtWait where
  atWaitKey := fun hwait => absurd h hwait
  untilUp := fun ⟨_, hkey⟩ => absurd (h.symm.trans hkey) (by simp)

theorem StandsAtWait.congr (h : m.StandsAtWait) (hmem : m'.memory = m.memory) (hpc : m'.pc = m.pc)
    (hwait : m'.keyWait = m.keyWait) : m'.StandsAtWait := by
  refine ⟨?_, ?_⟩
  · intro hne
    obtain ⟨x, hx⟩ := h.atWaitKey (hwait ▸ hne)
    exact ⟨x, hx.congr hmem hpc⟩
  · rintro ⟨key, hkey⟩
    rw [hwait] at hkey ⊢
    exact h.untilUp ⟨key, hkey⟩

/-- The key that was recorded, if one was, is down and did not go up in this frame. -/
theorem recorded_cases (m : Machine) :
    m.recorded.keyWait = some .press ∨
      ∃ k, m.keypad.Held k ∧ m.recorded = { m with keyWait := some (.untilUp k) } := by
  unfold recorded
  cases hk : m.keypad.firstFresh with
  | none => exact .inl rfl
  | some k => exact .inr ⟨k, Keypad.held_of_firstFresh hk, rfl⟩

/-- **A step at an `FX0A` executes it and does not fail.** It writes how far the wait has come, or
ends it with the key it waits for. -/
theorem step_waitKey (h : m.AtWaitKey x) (hm : m.StandsAtWait) :
    m.step.result = .ok m.instruction ∧
      ((∃ wait, m.step.state = { m with keyWait := some wait }) ∨
        ∃ k, m.keyWait = some (.untilUp k) ∧ ¬m.keypad.Held k ∧
          m.step.state = m.committed x k) := by
  by_cases hw : m.WaitsForRelease
  · obtain ⟨k, hk⟩ := hm.untilUp hw
    by_cases hheld : m.keypad.Held k
    · rw [step_of_held h hk hheld]
      exact ⟨rfl, .inl ⟨.untilUp k, by rw [← hk]⟩⟩
    · rw [step_of_not_held h hk hheld]
      exact ⟨rfl, .inr ⟨k, hk, hheld, rfl⟩⟩
  · rw [step_of_not_release h hw]
    exact ⟨rfl, .inl ⟨_, rfl⟩⟩

theorem standsAtWait_step (h : m.StandsAtWait) : m.step.state.StandsAtWait := by
  by_cases hx : ∃ x, m.AtWaitKey x
  · obtain ⟨x, hx⟩ := hx
    by_cases hw : m.WaitsForRelease
    · obtain ⟨k, hk⟩ := h.untilUp hw
      by_cases hheld : m.keypad.Held k
      · rw [step_of_held hx hk hheld]
        exact h
      · rw [step_of_not_held hx hk hheld]
        exact standsAtWait_of_keyWait_eq_none rfl
    · rw [step_of_not_release hx hw]
      refine ⟨fun _ => ⟨x, hx.congr rfl rfl⟩, ?_⟩
      rintro ⟨key, hkey⟩
      obtain hpress | ⟨k, -, heq⟩ := m.recorded_cases
      · exact absurd (hpress.symm.trans hkey) (by simp)
      · exact ⟨k, congrArg keyWait heq⟩
  · have hsame := keyWait_step_of_not (not_exists.1 hx)
    have hnone : m.keyWait = none := by
      by_contra hne
      exact hx (h.atWaitKey hne)
    exact standsAtWait_of_keyWait_eq_none (hsame.trans hnone)

theorem standsAtWait_act (h : m.StandsAtWait) {a : Action} (ha : a.isLoad = false) :
    (m.act a).state.StandsAtWait := by
  by_cases hstep : a = .step
  · subst hstep
    exact standsAtWait_step h
  · obtain ⟨memory, keypad, timers, heq, hmemory⟩ := m.act_outside hstep
    rw [heq, hmemory ha]
    exact h.congr rfl rfl rfl

theorem standsAtWait_run (h : m.StandsAtWait) {actions : List Action}
    (hload : ∀ a ∈ actions, a.isLoad = false) : (m.run actions).StandsAtWait :=
  run_induction h fun _ hm a ha => standsAtWait_act hm (hload a ha)

end Machine

end Chip8
