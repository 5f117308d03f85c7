import Chip8.Proofs.Emulator.Calls
import Chip8.Proofs.Machine.WaitHistory

/-!
# The release that a wait waits for

To a machine alone a release can get lost: the key goes up and down again and the frame ends between
two executions of `FX0A`. An emulator does not let this happen (`release_not_lost`), since every
entry of the input is followed by a step of the machine before anything else is.

* `Poised`: a machine that waits stands at an `FX0A`, and the key it waits for is held;
* `poised_step`: a step leaves the machine poised, even if what it heard before did not;
* `poised_call`: every call keeps the machine poised, be it one that fails.
-/

namespace Chip8

namespace Machine

variable {m m' : Machine} {k : Fin 16}

/-! ## Poised machines -/

/-- A machine that waits stands in front of an `FX0A`, and the key that it waits for is held. -/
structure Poised (m : Machine) : Prop where
  stands : m.StandsAtWait
  held : ∀ k, m.keyWait = some (.untilUp k) → m.keypad.Held k

theorem poised_of_keyWait_eq_none (h : m.keyWait = none) : m.Poised :=
  ⟨standsAtWait_of_keyWait_eq_none h, fun k hk => absurd (h.symm.trans hk) (by simp)⟩

/-- **A step leaves the machine poised.** It records a key only if it is held, and goes on with the
wait only as long as the key is. -/
theorem poised_step (h : m.StandsAtWait) : m.step.state.Poised := by
  refine ⟨standsAtWait_step h, ?_⟩
  intro k hk
  by_cases hrelease : m.WaitsForRelease
  · obtain ⟨j, hj⟩ := h.untilUp hrelease
    obtain ⟨x, hx⟩ := h.atWaitKey (by simp [hj])
    by_cases hheld : m.keypad.Held j
    · have hstate := congrArg Outcome.state (step_of_held hx hj hheld)
      have hk' : m.keyWait = some (.untilUp k) := (congrArg keyWait hstate).symm.trans hk
      have hjk : j = k := KeyWait.untilUp_inj.1 (Option.some.inj (hj.symm.trans hk'))
      rw [keypad_step, ← hjk]
      exact hheld
    · have hstate := congrArg Outcome.state (step_of_not_held hx hj hheld)
      have hnone : m.step.state.keyWait = none := congrArg keyWait hstate
      exact absurd (hnone.symm.trans hk) (by simp)
  · obtain ⟨x, hrec⟩ := records_of_keyWait_step hrelease hk
    exact hrec.held_step

theorem Poised.settles (h : m.Poised) (hs : m.Settles m') : m'.Poised := by
  obtain ⟨⟨timers, keypad, rfl⟩, hkeypad⟩ := hs
  refine ⟨h.stands.congr rfl rfl rfl, ?_⟩
  intro k hk
  obtain ⟨hpressed, hnot⟩ := h.held k hk
  rcases hkeypad with hsame | hended
  · rw [hsame]
    exact ⟨hpressed, hnot⟩
  · rw [hended]
    refine ⟨?_, ?_⟩ <;> rw [Keypad.get_endFrame]
    exact hpressed

theorem standsAtWait_hear (h : m.StandsAtWait) (entry : Scripted) :
    (m.hear entry).state.StandsAtWait := by
  cases entry with
  | idle | quit => exact h
  | press key => exact standsAtWait_act h rfl
  | release key => exact standsAtWait_act h rfl

end Machine

namespace Emulator

variable {e : Emulator} {k : Fin 16}

theorem poised_call (h : e.machine.Poised) (c : Call) : (e.call c).machine.Poised := by
  cases c with
  | endFrame => exact h.settles e.settles_of_endFrame
  | cycle =>
    obtain hsame | ⟨polled, m, htakes, hsettles, -⟩ := e.machine_cycle
    · rw [call, hsame]
      exact h
    · have hm : m.StandsAtWait := by
        cases htakes with
        | nothing => exact h.stands
        | entry => exact Machine.standsAtWait_hear h.stands e.entry
      exact (Machine.poised_step hm).settles hsettles

/-! ## One cycle -/

/-- The coming cycle plays a release of the key. -/
def PlaysRelease (e : Emulator) (k : Fin 16) : Prop :=
  e.plays = some (.release (KeyNumber.of k))

/-- Unless the input plays a release of the key that is waited for, the instruction starts from a
machine that still holds it, and that is otherwise what it was. -/
theorem held_of_takes {polled : Bool} {m m' : Machine} (h : e.Takes polled m)
    (hcore : e.cycle.state.host.polls = (e.core.taking polled m').polls)
    (hk : e.machine.keypad.Held k) (hplays : ¬e.PlaysRelease k) :
    m.keypad.Held k ∧ ∃ keypad, m = { e.machine with keypad } := by
  obtain ⟨-, rfl⟩ | ⟨hplayed, rfl⟩ := plays_of_takes h hcore
  · exact ⟨hk, _, rfl⟩
  refine ⟨?_, e.machine.state_hear e.entry⟩
  cases hentry : e.entry with
  | idle | quit => exact hk
  | press key =>
    refine Machine.held_act hk ?_
    rintro ⟨key', hkey, -⟩
    cases hkey
  | release key =>
    refine Machine.held_act hk ?_
    rintro ⟨key', hkey, hnat, -⟩
    cases hkey
    exact hplays (by rw [PlaysRelease, hplayed, hentry, KeyNumber.eq_of hnat])

/-- What a cycle that plays no release of the key leaves of the wait. -/
theorem cycle_keeps (h : e.machine.Poised) (hw : e.machine.keyWait = some (.untilUp k))
    (hplays : ¬e.PlaysRelease k) :
    ∃ timers keypad, e.cycle.state.machine = { e.machine with timers, keypad } := by
  obtain hsame | ⟨polled, m, htakes, ⟨⟨timers, keypad', hend⟩, -⟩, hpolls⟩ := e.machine_cycle
  · exact ⟨_, _, hsame⟩
  obtain ⟨hm, keypad, hheard⟩ := held_of_takes htakes hpolls (h.held k hw) hplays
  obtain ⟨x, hx⟩ := h.stands.atWaitKey (by simp [hw])
  have hx' : m.AtWaitKey x := hx.congr (by rw [hheard]) (by rw [hheard])
  have hw' : m.keyWait = some (.untilUp k) := by rw [hheard]; exact hw
  have hstep : m.step.state = m := congrArg Outcome.state (Machine.step_of_held hx' hw' hm)
  exact ⟨timers, keypad', by rw [hend, hstep, hheard]⟩

/-- A cycle that plays a release of the key that is waited for ends the wait. -/
theorem cycle_commits {x : Register} (hw : e.machine.keyWait = some (.untilUp k))
    (hx : e.machine.AtWaitKey x) (hplays : e.PlaysRelease k) :
    (∃ timers keypad, e.cycle.state.machine = { e.machine.committed x k with timers, keypad }) ∧
      .notice (.executed e.machine.pc e.machine.instruction) ∈ e.cycle.events := by
  have hpolled : e.cycle.state.host.polls ≠ e.host.polls := by
    intro hsame
    rw [PlaysRelease, plays_of_polls_eq hsame] at hplays
    exact absurd hplays (by simp)
  have hentry : e.entry = .release (KeyNumber.of k) := by
    rw [PlaysRelease, plays, if_neg hpolled] at hplays
    exact Option.some.inj hplays
  have hhear := Machine.hear_release (m := e.machine) (KeyNumber.toNat_of k)
  -- The step starts from a machine that holds the key no longer, and so it ends the wait.
  have hends : ∀ {polled m m'}, e.Takes polled m →
      e.cycle.state.host.polls = (e.core.taking polled m').polls →
      m.step = ⟨.ok e.machine.instruction,
        { e.machine.committed x k with keypad := e.machine.keypad.releaseKey k },
        [.notice (.executed e.machine.pc e.machine.instruction)]⟩ := by
    intro polled m m' ht hpolls
    obtain ⟨hnone, -⟩ | ⟨-, hm⟩ := plays_of_takes ht hpolls
    · exact absurd (hnone.symm.trans hplays) (by simp)
    rw [hentry, hhear] at hm
    have hx' : m.AtWaitKey x := hx.congr (by rw [hm]) (by rw [hm])
    have hw' : m.keyWait = some (.untilUp k) := by rw [hm]; exact hw
    have hnot : ¬m.keypad.Held k := by
      rw [hm]
      exact Keypad.not_held_releaseKey e.machine.keypad k
    rw [Machine.step_of_not_held hx' hw' hnot, hm]
    rfl
  cases e.cycle_course with
  | unplayed _ _ hcore => exact absurd (congrArg Core.polls hcore) hpolled
  | unheard _ hnot _ _ => exact absurd (by rw [hentry, hhear]) hnot
  | failed ht hstep _ hcore =>
    rw [hends ht (congrArg Core.polls hcore)] at hstep
    exact absurd hstep (by simp)
  | @advanced polled m i t events ht hstep hcore _ _ _ hexecuted heq =>
    obtain ⟨⟨⟨timers, keypad, hsettled⟩, -⟩, hpolls⟩ := settles_of_advanced hcore heq
    have hend := hends ht hpolls
    rw [hend] at hexecuted hsettled
    refine ⟨⟨timers, keypad, hsettled⟩, ?_⟩
    rw [heq]
    exact List.mem_append_left _ (hexecuted _ (by simp))

/-! ## Runs -/

/-- Until a cycle plays a release of the key, the wait goes on in its place. -/
theorem calls_keep {run : List Call} (h : e.machine.Poised)
    (hw : e.machine.keyWait = some (.untilUp k))
    (hplays : ∀ p, p ++ [.cycle] <+: run → ¬(e.calls p).PlaysRelease k) :
    ∃ timers keypad, (e.calls run).machine = { e.machine with timers, keypad } := by
  induction run generalizing e with
  | nil => exact ⟨_, _, rfl⟩
  | cons c run ih =>
    have hfirst : ∃ timers keypad, (e.call c).machine = { e.machine with timers, keypad } := by
      cases c with
      | endFrame =>
        obtain ⟨⟨timers, keypad, hend⟩, -⟩ := e.settles_of_endFrame
        exact ⟨timers, keypad, hend⟩
      | cycle => exact cycle_keeps h hw (hplays [] (by simp))
    obtain ⟨timers, keypad, hfirst⟩ := hfirst
    have hw' : (e.call c).machine.keyWait = some (.untilUp k) := by rw [hfirst]; exact hw
    obtain ⟨timers', keypad', hrest⟩ := ih (poised_call h c) hw' fun p hp => by
      have hprefix : (c :: p) ++ [.cycle] <+: c :: run := List.prefix_cons_inj c |>.2 hp
      exact hplays (c :: p) hprefix
    refine ⟨timers', keypad', ?_⟩
    rw [calls_cons, hrest, hfirst]

/-- **The driving loop never loses the release that an `FX0A` waits for**, whatever the program, the
script, the console, the refusals of the host and the order of the calls. Between calls a machine
that waits for a key to come up stands at an `FX0A` and holds the key. A cycle that plays a release
of it executes the `FX0A` and commits the key; nothing else moves the machine on. -/
theorem release_not_lost (rate : UInt32) (dialect : Dialect) (seed : UInt64) (host : Host)
    (debugger : Option Debugger) (program : List UInt8) (run : List Call) (key : KeyNumber) :
    let e := (loadedWith rate dialect seed host debugger program).calls run
    e.machine.keyWait = some (.release key) →
      e.machine.keypad.isPressed key = .ok true ∧ e.machine.keypad.wasReleased key = .ok false ∧
      ∃ x word, e.machine.memory.word e.machine.pc = .ok word ∧
        word.toNat = 0xF00A + 256 * x.val ∧
        (e.plays = some (.release key) →
          .notice (.executed e.machine.pc ⟨word⟩) ∈ e.cycle.events ∧
          e.cycle.state.machine.get x = key ∧
          e.cycle.state.machine.keyWait = none ∧
          e.cycle.state.machine.pc = e.machine.pc + 2) ∧
        ∀ later,
          (∀ p, p ++ [.cycle] <+: later → (e.calls p).plays ≠ some (.release key)) →
          (e.calls later).machine.keyWait = some (.release key) ∧
          (e.calls later).machine.pc = e.machine.pc := by
  intro e hkey
  have hstart : (loadedWith rate dialect seed host debugger program).machine.Poised := by
    rw [loadedWith_eq]
    exact Machine.poised_of_keyWait_eq_none (Machine.keyWait_loadedWith dialect seed program)
  have h : e.machine.Poised :=
    calls_induction (P := fun e => e.machine.Poised) hstart fun e c he => poised_call he c
  obtain ⟨k, hw⟩ := h.stands.untilUp ⟨key, hkey⟩
  obtain rfl : key = .of k := by
    rw [hkey] at hw
    exact KeyWait.release.inj (Option.some.inj hw)
  obtain ⟨hpressed, hnot⟩ := h.held k hw
  obtain ⟨x, hx⟩ := h.stands.atWaitKey (by simp [hw])
  obtain ⟨word, hword, hnat⟩ := hx.word
  refine ⟨?_, ?_, x, word, hword, hnat, ?_, ?_⟩
  · rw [Keypad.isPressed_eq (KeyNumber.toNat_of k), hpressed]
  · rw [Keypad.wasReleased_eq (KeyNumber.toNat_of k), hnot]
  · intro hplays
    obtain ⟨⟨timers, keypad, hend⟩, hexecuted⟩ := cycle_commits hw hx hplays
    have hinstruction : e.machine.instruction = ⟨word⟩ := by
      rw [Machine.word_pc hx.fetchable] at hword
      exact congrArg Instruction.mk (Except.ok.inj hword)
    rw [hinstruction] at hexecuted
    refine ⟨hexecuted, ?_, ?_, ?_⟩
    · rw [hend]
      exact (Machine.get_set _ x x _).trans (if_pos rfl)
    · rw [hend]
      rfl
    · rw [hend]
      rfl
  · intro later hplays
    obtain ⟨timers, keypad, hend⟩ := calls_keep h hw hplays
    rw [hend]
    exact ⟨hw, rfl⟩

set_option maxRecDepth 20000 in
/-- A wait for key 7 at a frame each cycle, which goes on until the script's release. -/
theorem release_not_lost_seven :
    let host : Host := { script := [.press 7, .release 7] }
    let e := (loadedWith 60 .modern 0 host none [0xF3, 0x0A]).calls [.cycle, .endFrame]
    e.machine.keyWait = some (.release 7) ∧ e.machine.keypad.isPressed 7 = .ok true ∧
      e.plays = some (.release 7) ∧ e.cycle.state.machine.keyWait = none := by
  intro host e
  have hw : e.machine.keyWait = some (.release 7) := by decide +kernel
  have hplays : e.plays = some (.release 7) := by decide +kernel
  obtain ⟨hpressed, -, x, word, -, -, hcommits, -⟩ :=
    release_not_lost 60 .modern 0 host none [0xF3, 0x0A] [.cycle, .endFrame] 7 hw
  exact ⟨hw, hpressed, hplays, (hcommits hplays).2.2.1⟩

end Emulator

end Chip8
