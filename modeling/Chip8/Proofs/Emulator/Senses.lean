import Chip8.Proofs.Emulator.Executions
import Chip8.Proofs.Emulator.Plain
import Chip8.Proofs.Machine.Dialects
import Chip8.Proofs.Machine.Senses

/-!
# What a program perceives of a run

Two runs of a program whose rates and scripts differ do the same until the program looks at a timer
or at the keypad (`same_until_perceived`): the frames end at other instructions and other keys are
down, but nothing else of the machine takes notice.
-/

namespace Chip8

/-- The entry is no demand to quit, and its key exists. -/
def Scripted.Harmless : Scripted → Prop
  | .idle => True
  | .press key | .release key => key.toNat < 16
  | .quit => False

namespace Machine

variable {m : Machine} {entry : Scripted}

theorem hear_of_harmless (h : entry.Harmless) : (m.hear entry).result = .ok .proceed := by
  cases entry with
  | idle => rfl
  | quit => exact h.elim
  | press key =>
    have hkey : Keypad.keyOf key = .ok ⟨key.toNat, h⟩ := Keypad.keyOf_eq_ok.2 rfl
    rw [hear, act_press hkey]
    rfl
  | release key =>
    have hkey : Keypad.keyOf key = .ok ⟨key.toNat, h⟩ := Keypad.keyOf_eq_ok.2 rfl
    rw [hear, act_release hkey]
    rfl

end Machine

namespace Emulator

variable {e e' : Emulator}

/-! ## One cycle -/

/-- Behind a harmless entry a cycle comes to a step of the machine. -/
structure Steps (e : Emulator) : Prop where
  result : e.cycle.result = e.heard.step.result.map fun _ => .proceed
  machine : e.stepped.Alike e.cycle.state.machine
  script : e.cycle.state.host.script = e.host.script.tail

theorem Plain.steps (h : e.Plain) (hentry : e.entry.Harmless) : e.Steps := by
  cases e.cycle_course with
  | unplayed why =>
    rcases why with hpaused | hnot
    · exact absurd (h.debuggerPaused.symm.trans hpaused) (by simp)
    · exact absurd h.obliging hnot
  | unheard _ hne => exact absurd (Machine.hear_of_harmless hentry) hne
  | failed htakes hstep hresult hcore =>
    obtain ⟨rfl, rfl⟩ := h.takes htakes
    have hmachine : e.cycle.state.machine = e.stepped := congrArg Core.machine hcore
    refine ⟨?_, ?_, congrArg Core.script hcore⟩
    · rw [hresult, hstep]
      rfl
    · rw [hmachine]
      exact .refl _
  | advanced htakes hstep hcore hopen hplain hframes _ heq =>
    obtain ⟨rfl, rfl⟩ := h.takes htakes
    have hexecuted := executed_of_advanced h.obliging hcore hopen hplain hframes heq
    obtain ⟨⟨⟨timers, keypad, hsettled⟩, -⟩, -⟩ := settles_of_advanced hcore heq
    refine ⟨?_, ⟨timers, keypad, hsettled⟩, hexecuted.script⟩
    rw [hexecuted.result, hstep]
    rfl

/-- The coming cycles of two emulators execute the same instruction, or they fail for the same
cause, which is no transfer. -/
inductive SameCycle (e e' : Emulator) : Prop
  | executed (addr : UInt16) (i : Instruction)
    (result : e.cycle.result = .ok .proceed) (result' : e'.cycle.result = .ok .proceed)
    (executions : executions e.cycle.events = [(addr, i)])
    (executions' : Chip8.executions e'.cycle.events = [(addr, i)])
  | failed (cause : Fault) (noTransfer : ∀ failure, cause ≠ .transfer failure)
    (result : e.cycle.result = .error (.fault cause))
    (result' : e'.cycle.result = .error (.fault cause))
    (executions : executions e.cycle.events = [])
    (executions' : Chip8.executions e'.cycle.events = [])

/-- Two emulators that hold the same machine but for its timers and its keypad. -/
structure Parallel (e e' : Emulator) : Prop where
  plain : e.Plain
  plain' : e'.Plain
  harmless : ∀ entry ∈ e.host.script, entry.Harmless
  harmless' : ∀ entry ∈ e'.host.script, entry.Harmless
  bounded : e.machine.Bounded
  alike : e.machine.Alike e'.machine

theorem harmless_entry (h : ∀ entry ∈ e.host.script, entry.Harmless) : e.entry.Harmless := by
  rw [entry]
  cases hscript : e.host.script with
  | nil => exact trivial
  | cons first script => exact h first (by simp [hscript])

theorem alike_heard (e : Emulator) : e.machine.Alike e.heard := by
  obtain ⟨keypad, hheard⟩ := e.machine.state_hear e.entry
  exact ⟨_, keypad, hheard⟩

/-- A cycle that perceives nothing goes through an instruction that does not. -/
theorem not_perceives_of_cycle (h : e.Steps) (ho : e.host.Obliging)
    (hblind : ∀ place ∈ executions e.cycle.events, ¬place.2.Perceives) :
    ∀ i, e.heard.step.result = .ok i → ¬i.Perceives := by
  intro i hstep
  have hgo : e.cycle.result = .ok .proceed := by
    rw [h.result, hstep]
    rfl
  have hinstruction : i = e.machine.instruction := by
    rw [Machine.instruction_of_step hstep]
    obtain ⟨timers, keypad, hheard⟩ := e.alike_heard
    rw [hheard]
    rfl
  rw [executions_cycle ho, if_pos hgo] at hblind
  rw [hinstruction]
  exact hblind _ List.mem_cons_self

/-- Two machines alike stand at the same instruction, and the steps of their cycles end the same. -/
theorem sameCycle_of_steps (hs : e.Steps) (hs' : e'.Steps) (ho : e.host.Obliging)
    (ho' : e'.host.Obliging) (halike : e.machine.Alike e'.machine)
    (hresult : e'.heard.step.result = e.heard.step.result)
    (hstuck : e.heard.step.result ≠ .error .stuck) : SameCycle e e' := by
  have hexecutions := executions_cycle ho
  have hexecutions' := executions_cycle ho'
  obtain ⟨timers, keypad, hmachine⟩ := halike
  rw [hmachine] at hexecutions'
  have hcycle := hs.result
  have hcycle' := hs'.result.trans (congrArg _ hresult)
  rcases hstep : e.heard.step.result with (cause | -) | i
  all_goals rw [hstep] at hcycle hcycle'
  · refine .failed cause ?_ hcycle hcycle' ?_ ?_
    · rintro failure rfl
      exact e.heard.step_ne_transfer failure hstep
    · rw [hexecutions, if_neg (by simp [hcycle, Except.map])]
    · rw [hexecutions', if_neg (by simp [hcycle', Except.map])]
  · exact absurd hstep hstuck
  · exact .executed _ _ hcycle hcycle' (hexecutions.trans (if_pos hcycle))
      (hexecutions'.trans (if_pos hcycle'))

/-- **A cycle that perceives nothing is the same in both**, and leaves them parallel. -/
theorem Parallel.cycle (h : Parallel e e')
    (hblind : ∀ place ∈ executions e.cycle.events, ¬place.2.Perceives) :
    SameCycle e e' ∧ Parallel e.cycle.state e'.cycle.state := by
  have hs := h.plain.steps (harmless_entry h.harmless)
  have hs' := h.plain'.steps (harmless_entry h.harmless')
  have hheard : e.heard.Alike e'.heard := e.alike_heard.symm.trans (h.alike.trans e'.alike_heard)
  have hbounded : e.heard.Bounded := e.alike_heard.bounded h.bounded
  obtain ⟨hsafe, hstuck⟩ := Machine.step_safely hbounded
  obtain ⟨hresult, hstepped⟩ := Machine.step_alike hheard hbounded <|
    not_perceives_of_cycle hs h.plain.obliging hblind
  refine ⟨sameCycle_of_steps hs hs' h.plain.obliging h.plain'.obliging h.alike hresult hstuck,
    h.plain.cycle, h.plain'.cycle, ?_, ?_, hs.machine.bounded hsafe,
    hs.machine.symm.trans (hstepped.trans hs'.machine)⟩
  · rw [hs.script]
    exact fun entry hentry => h.harmless entry (List.mem_of_mem_tail hentry)
  · rw [hs'.script]
    exact fun entry hentry => h.harmless' entry (List.mem_of_mem_tail hentry)

/-! ## Runs -/

/-- **Parallel emulators stay parallel until one perceives something.** -/
theorem Parallel.cycles {n : Nat} (h : Parallel e e')
    (hblind : ∀ i < n, ∀ place ∈ executions (e.afterCycles i).cycle.events, ¬place.2.Perceives) :
    (∀ i < n, SameCycle (e.afterCycles i) (e'.afterCycles i)) ∧
      Parallel (e.afterCycles n) (e'.afterCycles n) := by
  induction n with
  | zero => exact ⟨by simp, h⟩
  | succ n ih =>
    obtain ⟨hsame, hparallel⟩ := ih fun i hi => hblind i (by omega)
    obtain ⟨hlast, hnext⟩ := hparallel.cycle (hblind n (by omega))
    rw [afterCycles_succ, afterCycles_succ]
    refine ⟨fun i hi => ?_, hnext⟩
    rcases Nat.lt_succ_iff_lt_or_eq.1 hi with hlt | rfl
    · exact hsame i hlt
    · exact hlast

theorem parallel_loadedWith (dialect : Dialect) (seed : UInt64) (program : List UInt8)
    (rate rate' : UInt32) {host host' : Host} (ho : host.Obliging) (ho' : host'.Obliging)
    (hscript : ∀ entry ∈ host.script, entry.Harmless)
    (hscript' : ∀ entry ∈ host'.script, entry.Harmless) :
    Parallel (loadedWith rate dialect seed host none program)
      (loadedWith rate' dialect seed host' none program) := by
  refine ⟨plain_loadedWith rate dialect seed program ho,
    plain_loadedWith rate' dialect seed program ho', ?_, ?_, ?_, ?_⟩
  all_goals simp only [loadedWith_eq]
  · exact hscript
  · exact hscript'
  · exact Machine.bounded_loadedWith dialect seed program
  · exact .refl _

/-- **A program perceives time and keys only through `FX07`, `FX0A`, `EX9E` and `EXA1`.** As long as
a run executes none of these, another run of the same program at another rate and with another
script does the same in every cycle: it executes the same instruction, or fails for the same cause.
The machines come out the same but for their timers and keypads. -/
theorem same_until_perceived (dialect : Dialect) (seed : UInt64) (program : List UInt8)
    (rate rate' : UInt32) (script script' : List Scripted) (bare bare' : Bool) (n : Nat)
    (hscript : ∀ entry ∈ script, entry.Harmless) (hscript' : ∀ entry ∈ script', entry.Harmless) :
    let e := loadedWith rate dialect seed { script, bare } none program
    let e' := loadedWith rate' dialect seed { script := script', bare := bare' } none program
    (∀ i < n, ∀ place ∈ executions (e.afterCycles i).cycle.events, ¬place.2.Perceives) →
      (∀ i < n, SameCycle (e.afterCycles i) (e'.afterCycles i)) ∧
      ∃ timers keypad,
        (e'.afterCycles n).machine = { (e.afterCycles n).machine with timers, keypad } := by
  intro e e' hblind
  have hparallel : Parallel e e' := parallel_loadedWith dialect seed program rate rate'
    (fun _ _ => rfl) (fun _ _ => rfl) hscript hscript'
  obtain ⟨hsame, hend⟩ := hparallel.cycles hblind
  exact ⟨hsame, hend.alike⟩

set_option maxRecDepth 20000 in
/-- Four cycles at two rates, the third of which asks for a key that does not exist. -/
theorem same_until_perceived_four :
    let program : List UInt8 := [0x6A, 0x10, 0xFA, 0x15, 0xEA, 0x9E, 0x00, 0xE0]
    let e := loadedWith 60 .modern 0 { script := [.press 7] } none program
    let e' := loadedWith 600 .modern 0 { script := [.press 3, .release 3] } none program
    (∀ i < 4, ∀ place ∈ executions (e.afterCycles i).cycle.events, ¬place.2.Perceives) ∧
      (e.afterCycles 2).cycle.result = .error (.fault (.invalidKey 16)) ∧
      (∀ i < 4, SameCycle (e.afterCycles i) (e'.afterCycles i)) ∧
      (∃ timers keypad,
        (e'.afterCycles 4).machine = { (e.afterCycles 4).machine with timers, keypad }) ∧
      (e.afterCycles 4).machine.timers.delay = 14 ∧
      (e'.afterCycles 4).machine.timers.delay = 16 := by
  intro program e e'
  have hblind : ∀ i < 4, ∀ place ∈ executions (e.afterCycles i).cycle.events,
      ¬place.2.Perceives := by decide +kernel
  have ⟨hfails, hdelay, hdelay'⟩ :
      (e.afterCycles 2).cycle.result = .error (.fault (.invalidKey 16)) ∧
        (e.afterCycles 4).machine.timers.delay = 14 ∧
        (e'.afterCycles 4).machine.timers.delay = 16 := by decide +kernel
  obtain ⟨hsame, hend⟩ := same_until_perceived .modern 0 program 60 600 [.press 7]
    [.press 3, .release 3] false false 4 (by simp [Scripted.Harmless]) (by simp [Scripted.Harmless])
    hblind
  exact ⟨hblind, hfails, hsame, hend, hdelay, hdelay'⟩

end Emulator

end Chip8
