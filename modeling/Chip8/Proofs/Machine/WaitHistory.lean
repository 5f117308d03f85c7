import Chip8.Proofs.Machine.KeyWait

/-!
# The history of a wait

What a run of a machine tells about the wait for a key that it is in, as long as no program is
loaded on the way.

* `run_waiting`: a wait changes the keypad, the timers and the state of the wait only;
* `exists_recording`: the key that a wait waits for was recorded by a step of this very wait;
* `keyWait_run_of_no_release`: until a release of that key takes effect the wait goes on;
* `waitKey_safe`: what follows for a program that was just loaded.
-/

namespace Chip8.Machine

variable {m : Machine} {x : Register} {k : Fin 16} {actions : List Action}

/-! ## Going on -/

theorem act_waiting (hx : m.AtWaitKey x) (hm : m.StandsAtWait) {a : Action}
    (ha : a.isLoad = false) (hwait : (m.act a).state.keyWait ≠ none) :
    ∃ keypad timers keyWait, (m.act a).state = { m with keypad, timers, keyWait } := by
  by_cases hstep : a = .step
  · subst hstep
    have hstate : (m.act .step).state = m.step.state := rfl
    rw [hstate] at hwait ⊢
    obtain ⟨-, ⟨wait, heq⟩ | ⟨k, -, -, heq⟩⟩ := step_waitKey hx hm
    · exact ⟨_, _, _, heq⟩
    · rw [heq] at hwait
      exact absurd rfl hwait
  · obtain ⟨memory, keypad, timers, heq, hmemory⟩ := m.act_outside hstep
    rw [hmemory ha] at heq
    exact ⟨_, _, _, heq⟩

/-- **A wait changes the keypad, the timers and the state of the wait only.** -/
theorem run_waiting (hx : m.AtWaitKey x) (hm : m.StandsAtWait)
    (hload : ∀ a ∈ actions, a.isLoad = false)
    (hwait : ∀ p, p <+: actions → (m.run p).keyWait ≠ none) :
    ∃ keypad timers keyWait, m.run actions = { m with keypad, timers, keyWait } := by
  induction actions generalizing m with
  | nil => exact ⟨_, _, _, rfl⟩
  | cons a actions ih =>
    have ha : a.isLoad = false := hload a (by simp)
    have hnext : (m.act a).state.keyWait ≠ none := hwait [a] (by simp)
    obtain ⟨keypad, timers, keyWait, heq⟩ := act_waiting hx hm ha hnext
    have hx' : (m.act a).state.AtWaitKey x := hx.congr (by rw [heq]) (by rw [heq])
    have hrest : ∀ p, p <+: actions → ((m.act a).state.run p).keyWait ≠ none :=
      fun p hp => hwait (a :: p) (List.prefix_cons_inj a |>.2 hp)
    obtain ⟨keypad', timers', keyWait', heq'⟩ :=
      ih hx' (standsAtWait_act hm ha) (fun b hb => hload b (by simp [hb])) hrest
    refine ⟨keypad', timers', keyWait', ?_⟩
    rw [run_cons, heq', heq]

/-- **Until a release of the key takes effect the wait goes on.** -/
theorem keyWait_run_of_no_release (hm : m.StandsAtWait)
    (hload : ∀ a ∈ actions, a.isLoad = false) (hw : m.keyWait = some (.untilUp k))
    (hk : m.keypad.Held k) (hr : ¬m.ReleasesIn k actions) :
    (m.run actions).keyWait = some (.untilUp k) := by
  induction actions generalizing m with
  | nil => exact hw
  | cons a actions ih =>
    rw [releasesIn_cons, not_or] at hr
    have ha : a.isLoad = false := hload a (by simp)
    have hw' : (m.act a).state.keyWait = some (.untilUp k) := by
      by_cases hstep : a = .step
      · subst hstep
        obtain ⟨x, hx⟩ := hm.atWaitKey (by simp [hw])
        have hstate : (m.act .step).state = m := congrArg Outcome.state (step_of_held hx hw hk)
        rw [hstate, hw]
      · obtain ⟨memory, keypad, timers, heq, -⟩ := m.act_outside hstep
        rw [heq]
        exact hw
    exact ih (standsAtWait_act hm ha) (fun b hb => hload b (by simp [hb])) hw'
      (held_act hk hr.1) hr.2

/-! ## Recordings -/

/-- A step of the machine executes an `FX0A` and records a key that is down and did not go up in
this frame. -/
structure Records (m : Machine) (x : Register) (k : Fin 16) : Prop where
  atWaitKey : m.AtWaitKey x
  notYet : ¬m.WaitsForRelease
  held : m.keypad.Held k
  state_step : m.step.state = { m with keyWait := some (.untilUp k) }

theorem Records.atWaitKey_step (h : m.Records x k) : m.step.state.AtWaitKey x :=
  h.atWaitKey.congr (by rw [h.state_step]) (by rw [h.state_step])

theorem Records.held_step (h : m.Records x k) : m.step.state.keypad.Held k := by
  rw [keypad_step]
  exact h.held

theorem records_of_keyWait_step (hnot : ¬m.WaitsForRelease)
    (hw : m.step.state.keyWait = some (.untilUp k)) : ∃ x, m.Records x k := by
  by_cases hx : ∃ x, m.AtWaitKey x
  · obtain ⟨x, hx⟩ := hx
    have hstate : m.step.state = m.recorded := congrArg Outcome.state (step_of_not_release hx hnot)
    rw [hstate] at hw
    obtain hpress | ⟨j, hheld, heq⟩ := m.recorded_cases
    · exact absurd (hpress.symm.trans hw) (by simp [KeyWait.untilUp])
    · rw [heq] at hstate hw
      obtain rfl : j = k := KeyWait.untilUp_inj.1 (Option.some.inj hw)
      exact ⟨x, hx, hnot, hheld, hstate⟩
  · rw [keyWait_step_of_not (not_exists.1 hx)] at hw
    exact absurd ⟨_, hw⟩ hnot

/-- Every action of a run leaves the machine waiting for the key to come up. -/
def WaitsThrough (m : Machine) (k : Fin 16) (actions : List Action) : Prop :=
  ∀ p, p <+: actions → (m.run p).keyWait = some (.untilUp k)

theorem WaitsThrough.concat {a : Action} (h : m.WaitsThrough k actions)
    (ha : (m.run (actions ++ [a])).keyWait = some (.untilUp k)) :
    m.WaitsThrough k (actions ++ [a]) := by
  intro p hp
  rcases List.prefix_concat_iff.1 hp with rfl | hp
  · exact ha
  · exact h p hp

/-- A wait leaves what a recording found in place: the instruction and where it stands. -/
theorem Records.run_eq (h : m.Records x k) (hm : m.StandsAtWait)
    (hload : ∀ a ∈ actions, a.isLoad = false) (hthrough : m.step.state.WaitsThrough k actions) :
    ∃ keypad timers keyWait, m.step.state.run actions = { m with keypad, timers, keyWait } := by
  have hwait : ∀ p, p <+: actions → (m.step.state.run p).keyWait ≠ none :=
    fun p hp => by simp [hthrough p hp]
  obtain ⟨keypad, timers, keyWait, heq⟩ :=
    run_waiting h.atWaitKey_step (standsAtWait_step hm) hload hwait
  refine ⟨keypad, timers, keyWait, ?_⟩
  rw [heq, h.state_step]

/-- A run ends in a wait for the key that one of its steps recorded. -/
def Recorded (m : Machine) (k : Fin 16) (actions : List Action) : Prop :=
  ∃ early between x, actions = early ++ .step :: between ∧ (m.run early).Records x k ∧
    (m.run early).step.state.WaitsThrough k between

theorem Recorded.concat {a : Action} (h : m.Recorded k actions)
    (ha : (m.run (actions ++ [a])).keyWait = some (.untilUp k)) :
    m.Recorded k (actions ++ [a]) := by
  obtain ⟨early, between, x, rfl, hrec, hthrough⟩ := h
  refine ⟨early, between ++ [a], x, by simp, hrec, hthrough.concat ?_⟩
  rwa [List.append_assoc, List.cons_append, run_append, run_cons] at ha

/-- **The key that a wait waits for was recorded by a step of this very wait.** -/
theorem exists_recording (hm : m.StandsAtWait) (hnot : ¬m.WaitsForRelease)
    (hload : ∀ a ∈ actions, a.isLoad = false)
    (hw : (m.run actions).keyWait = some (.untilUp k)) : m.Recorded k actions := by
  induction actions using List.reverseRecOn generalizing k with
  | nil => exact absurd ⟨_, hw⟩ hnot
  | append_singleton actions a ih =>
    have hload' : ∀ b ∈ actions, b.isLoad = false := fun b hb => hload b (by simp [hb])
    have hbefore := standsAtWait_run hm hload'
    have hw' := hw
    rw [run_concat] at hw'
    by_cases hstep : a = .step
    · subst hstep
      by_cases hrelease : (m.run actions).WaitsForRelease
      · -- A step that goes on with the wait: the key was recorded before it.
        obtain ⟨j, hj⟩ := hbefore.untilUp hrelease
        obtain ⟨x, hx⟩ := hbefore.atWaitKey (by simp [hj])
        by_cases hk : (m.run actions).keypad.Held j
        · have hstate := congrArg Outcome.state (step_of_held hx hj hk)
          have hsame : (m.run actions).keyWait = some (.untilUp k) := by
            rw [← hw']
            exact congrArg keyWait hstate.symm
          exact (ih hload' hsame).concat hw
        · have hstate := congrArg Outcome.state (step_of_not_held hx hj hk)
          have hnone : (m.run actions).step.state.keyWait = none := congrArg keyWait hstate
          exact absurd (hnone.symm.trans hw') (by simp)
      · obtain ⟨x, hrec⟩ := records_of_keyWait_step hrelease hw'
        refine ⟨actions, [], x, rfl, hrec, ?_⟩
        intro p hp
        rw [List.prefix_nil.1 hp]
        exact hw'
    · obtain ⟨memory, keypad, timers, heq, -⟩ := (m.run actions).act_outside hstep
      rw [heq] at hw'
      exact (ih hload' hw').concat hw

/-! ## Steps of a wait -/

/-- Until a wait ends, each of its steps executes the `FX0A` where it began. -/
theorem executes_waitKey (hm : m.StandsAtWait) (hwait : m.keyWait ≠ none) :
    ∃ x word, m.memory.word m.pc = .ok word ∧ word.toNat = 0xF00A + 256 * x.val ∧
      ∀ later, (∀ a ∈ later, a.isLoad = false) →
        (∀ p, p <+: later → (m.run p).keyWait ≠ none) →
        (∃ keypad timers keyWait, m.run later = { m with keypad, timers, keyWait }) ∧
        (m.run later).step.result = .ok ⟨word⟩ ∧
        ((∃ wait, (m.run later).step.state = { m.run later with keyWait := some wait }) ∨
          ∃ k, (m.run later).step.state = (m.run later).committed x k) := by
  obtain ⟨x, hx⟩ := hm.atWaitKey hwait
  obtain ⟨word, hword, hnat⟩ := hx.word
  refine ⟨x, word, hword, hnat, ?_⟩
  intro later hlater hthrough
  obtain ⟨keypad, timers, keyWait, heq⟩ := run_waiting hx hm hlater hthrough
  have hx' : (m.run later).AtWaitKey x := hx.congr (by rw [heq]) (by rw [heq])
  have hinstruction : (m.run later).instruction = ⟨word⟩ := by
    rw [word_pc hx.fetchable] at hword
    rw [heq]
    exact congrArg Instruction.mk (Except.ok.inj hword)
  obtain ⟨hresult, hstate⟩ := step_waitKey hx' (standsAtWait_run hm hlater)
  refine ⟨⟨keypad, timers, keyWait, heq⟩, ?_, ?_⟩
  · rw [hresult, hinstruction]
  · obtain h | ⟨k, -, -, h⟩ := hstate
    · exact .inl h
    · exact .inr ⟨k, h⟩

theorem run_split {early between : List Action} (h : actions = early ++ .step :: between) :
    m.run actions = (m.run early).step.state.run between := by
  rw [h, run_append]
  rfl

/-- **A step that ends a wait commits a key that was recorded in this wait and released since.** -/
theorem commits_recorded (hm : m.StandsAtWait) (hnot : ¬m.WaitsForRelease)
    (hload : ∀ a ∈ actions, a.isLoad = false) (hwait : (m.run actions).keyWait ≠ none)
    (hend : (m.run actions).step.state.keyWait = none) :
    ∃ x k early between, actions = early ++ .step :: between ∧
      (m.run actions).step.state = (m.run actions).committed x k ∧
      (m.run early).Records x k ∧ (m.run early).pc = (m.run actions).pc ∧
      (m.run early).instruction = (m.run actions).instruction ∧
      (m.run early).step.state.WaitsThrough k between ∧
      (m.run early).step.state.ReleasesIn k between := by
  have hstands := standsAtWait_run hm hload
  obtain ⟨x, hx⟩ := hstands.atWaitKey hwait
  obtain ⟨-, ⟨wait, heq⟩ | ⟨k, hw, hk, heq⟩⟩ := step_waitKey hx hstands
  · rw [heq] at hend
    exact absurd hend (by simp)
  obtain ⟨early, between, x', hsplit, hrec, hthrough⟩ := exists_recording hm hnot hload hw
  have hrun := run_split (m := m) hsplit
  have hearly : (m.run early).StandsAtWait :=
    standsAtWait_run hm fun a ha => hload a (by simp [hsplit, ha])
  obtain ⟨keypad, timers, keyWait, hsame⟩ :=
    hrec.run_eq hearly (fun a ha => hload a (by simp [hsplit, ha])) hthrough
  rw [← hrun] at hsame
  have hinstruction : (m.run early).instruction = (m.run actions).instruction := by
    rw [hsame]
    rfl
  -- The instruction is the same, and so is the register it names.
  have hxx : x' = x := by
    have hop := hrec.atWaitKey.operation
    rw [hinstruction, hx.operation] at hop
    cases hop
    rfl
  subst hxx
  refine ⟨x', k, early, between, hsplit, heq, hrec, by rw [hsame], hinstruction, hthrough, ?_⟩
  by_contra hr
  exact hk (hrun ▸ held_run hrec.held_step hr)

/-! ## Programs that were just loaded -/

theorem keyWait_loadedWith (dialect : Dialect) (seed : UInt64) (program : List UInt8) :
    (loadedWith dialect seed program).keyWait = none := by
  obtain ⟨memory, heq⟩ := eq_of_load (fresh dialect seed) program
  rw [loadedWith, heq]
  rfl

theorem standsAtWait_loadedWith (dialect : Dialect) (seed : UInt64) (program : List UInt8) :
    (loadedWith dialect seed program).StandsAtWait :=
  standsAtWait_of_keyWait_eq_none (keyWait_loadedWith dialect seed program)

/-- **`FX0A` is safe under any order of events**, without a load among them. A machine that waits
stands at an `FX0A`, which every step until the end of the wait executes without failing, and the
wait changes nothing else. A step that ends the wait commits a key that an earlier step of this wait
recorded, while the key was down and had not gone up in the frame; in between a release of the key
took effect. Nothing else ends the wait, whatever happened before the recording. -/
theorem waitKey_safe (dialect : Dialect) (seed : UInt64) (program : List UInt8)
    (before : List Action) (hload : ∀ a ∈ before, a.isLoad = false) :
    let start := loadedWith dialect seed program
    let m := start.run before
    (m.keyWait ≠ none → ∃ x word, m.memory.word m.pc = .ok word ∧
      word.toNat = 0xF00A + 256 * x.val ∧
      ∀ later, (∀ a ∈ later, a.isLoad = false) →
        (∀ p, p <+: later → (m.run p).keyWait ≠ none) →
        (∃ keypad timers keyWait, m.run later = { m with keypad, timers, keyWait }) ∧
        (m.run later).step.result = .ok ⟨word⟩ ∧
        ((∃ wait, (m.run later).step.state = { m.run later with keyWait := some wait }) ∨
          ∃ k, (m.run later).step.state = (m.run later).committed x k)) ∧
    (m.keyWait ≠ none → m.step.state.keyWait = none →
      ∃ x k early between, before = early ++ .step :: between ∧
        m.step.state = m.committed x k ∧
        (start.run early).Records x k ∧ (start.run early).pc = m.pc ∧
        (start.run early).instruction = m.instruction ∧
        (∀ p a q, early = p ++ a :: q → (start.run p).Releases k a → .endFrame ∈ q) ∧
        (start.run early).step.state.WaitsThrough k between ∧
        (start.run early).step.state.ReleasesIn k between) ∧
    (∀ x k early between, before = early ++ .step :: between → (start.run early).Records x k →
      ¬(start.run early).step.state.ReleasesIn k between → m.keyWait = some (.untilUp k)) := by
  intro start m
  have hstart := standsAtWait_loadedWith dialect seed program
  have hnot : ¬start.WaitsForRelease :=
    fun ⟨_, hkey⟩ => by simp [start, keyWait_loadedWith] at hkey
  have hm : m.StandsAtWait := standsAtWait_run hstart hload
  refine ⟨executes_waitKey hm, ?_, ?_⟩
  · intro hwait hend
    obtain ⟨x, k, early, between, hsplit, hstate, hrec, hpc, hinstruction, hthrough, hr⟩ :=
      commits_recorded hstart hnot hload hwait hend
    refine ⟨x, k, early, between, hsplit, hstate, hrec, hpc, hinstruction, ?_, hthrough, hr⟩
    intro p a q hearly hrelease
    have hmark := hrec.held.notReleased
    rw [hearly] at hmark
    exact endFrame_of_not_justReleased hmark hrelease
  · intro x k early between hsplit hrec hr
    have hearly : (start.run early).StandsAtWait :=
      standsAtWait_run hstart fun a ha => hload a (by simp [hsplit, ha])
    have hrun : m = (start.run early).step.state.run between := run_split hsplit
    rw [hrun]
    refine keyWait_run_of_no_release (standsAtWait_step hearly) ?_ ?_ hrec.held_step hr
    · exact fun a ha => hload a (by simp [hsplit, ha])
    · rw [hrec.state_step]

set_option maxRecDepth 20000 in
/-- A wait that key 7 ends: it is pressed after the first step and released after the second. -/
theorem waitKey_safe_seven :
    let start := loadedWith .modern 0 [0xF3, 0x0A]
    let before : List Action := [.step, .press 7, .step, .release 7]
    (∀ a ∈ before, a.isLoad = false) ∧
      (start.run before).keyWait ≠ none ∧ (start.run before).step.state.keyWait = none ∧
      ∃ x k early between, before = early ++ .step :: between ∧
        (start.run before).step.state = (start.run before).committed x k ∧
        (start.run early).Records x k ∧ (start.run early).step.state.ReleasesIn k between := by
  intro start before
  have hload : ∀ a ∈ before, a.isLoad = false := by decide
  have hwait : (start.run before).keyWait ≠ none := by decide +kernel
  have hend : (start.run before).step.state.keyWait = none := by decide +kernel
  obtain ⟨x, k, early, between, hbefore, hstate, hrec, -, -, -, -, hr⟩ :=
    (waitKey_safe .modern 0 [0xF3, 0x0A] before hload).2.1 hwait hend
  exact ⟨hload, hwait, hend, x, k, early, between, hbefore, hstate, hrec, hr⟩

end Chip8.Machine
