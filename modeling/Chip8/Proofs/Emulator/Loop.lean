import Chip8.Proofs.Emulator.Frames

/-!
# The emulator's loop

The loop makes cycles until one does not go through or the limit is reached (`loopEnds_cyclesFrom`),
and keeps nothing of its own: from a limit that was reached another loop goes on as if there had
been none (`cyclesFrom_add`, `cyclesFrom_shift`). So a loop in pieces is the loop in one go, and its
count is that of the instructions that were executed (`loop_in_pieces`).
-/

namespace Chip8

namespace Emulator

variable {e : Emulator} {limited : Bool} {left done n : Nat} {seen : List Event}

/-! ## Cycles that go through -/

/-- The next `n` cycles go through. -/
def GoesThrough (e : Emulator) (n : Nat) : Prop :=
  ∀ i < n, (e.afterCycles i).cycle.result = .ok .proceed

theorem goesThrough_zero (e : Emulator) : e.GoesThrough 0 :=
  fun _ hi => absurd hi (Nat.not_lt_zero _)

theorem goesThrough_succ :
    e.GoesThrough (n + 1) ↔ e.cycle.result = .ok .proceed ∧ e.cycle.state.GoesThrough n := by
  constructor
  · exact fun h => ⟨h 0 (Nat.succ_pos n), fun i hi => h (i + 1) (Nat.succ_lt_succ hi)⟩
  · rintro ⟨hfirst, hrest⟩ i hi
    cases i with
    | zero => exact hfirst
    | succ i => exact hrest i (Nat.lt_of_succ_lt_succ hi)

/-- Each cycle that goes through executes the instruction at its program counter. -/
theorem executions_traceCycles (h : e.GoesThrough n) :
    executions (e.traceCycles n) = (List.range n).map fun i =>
      ((e.afterCycles i).machine.pc, (e.afterCycles i).machine.instruction) := by
  induction n with
  | zero => rfl
  | succ n ih =>
    have hbefore : e.GoesThrough n := fun i hi => h i (Nat.lt_succ_of_lt hi)
    rw [traceCycles_succ, executions_append, ih hbefore,
      executions_of_proceed (h n (Nat.lt_succ_self n)), List.range_succ, List.map_append]
    rfl

/-! ## One cycle of the loop -/

theorem cyclesFrom_of_proceed (h : e.cycle.result = .ok .proceed) :
    cyclesFrom limited (left + 1) done seen e =
      cyclesFrom limited left (done + 1) (e.cycle.events.reverse ++ seen) e.cycle.state := by
  rw [cyclesFrom]
  rcases hcycle : e.cycle with ⟨stop | (_ | _), t, events⟩
  all_goals rw [hcycle] at h
  · cases h
  · rw [← List.reverseAux_eq]
  · cases h

theorem cyclesFrom_of_ne (h : e.cycle.result ≠ .ok .proceed) :
    cyclesFrom limited (left + 1) done seen e =
      ⟨e.cycle.result.map fun _ => done, e.cycle.state, seen.reverse ++ e.cycle.events⟩ := by
  rw [cyclesFrom]
  rcases hcycle : e.cycle with ⟨stop | (_ | _), t, events⟩
  all_goals rw [hcycle] at h
  · simp [Except.map]
  · exact absurd rfl h
  · simp [Except.map]

/-! ## Where the loop ends -/

/-- How at most `left` cycles end that are made as long as they go through, with `done` cycles and
the events `seen` before them. -/
inductive LoopEnds (e : Emulator) (limited : Bool) (left done : Nat) (seen : List Event)
    (o : Outcome Emulator Nat) : Prop
  /-- All of them go through. -/
  | limit (go : e.GoesThrough left)
    (result : o.result = if limited then .ok (done + left) else .error .stuck)
    (state : o.state = e.afterCycles left)
    (events : o.events = seen.reverse ++ e.traceCycles left)
  /-- One does not, and is the last. -/
  | cut (n : Nat) (lt : n < left) (go : e.GoesThrough n)
    (ends : (e.afterCycles n).cycle.result ≠ .ok .proceed)
    (result : o.result = (e.afterCycles n).cycle.result.map fun _ => done + n)
    (state : o.state = e.afterCycles (n + 1))
    (events : o.events = seen.reverse ++ e.traceCycles (n + 1))

/-- **The loop ends at its limit or at the first cycle that does not go through.** -/
theorem loopEnds_cyclesFrom (e : Emulator) (limited : Bool) (left done : Nat) (seen : List Event) :
    LoopEnds e limited left done seen (cyclesFrom limited left done seen e) := by
  induction left generalizing e done seen with
  | zero => exact .limit e.goesThrough_zero rfl rfl (List.append_nil _).symm
  | succ left ih =>
    by_cases hgo : e.cycle.result = .ok .proceed
    · rw [cyclesFrom_of_proceed hgo]
      have hevents : ∀ rest, (e.cycle.events.reverse ++ seen).reverse ++ rest =
          seen.reverse ++ (e.cycle.events ++ rest) := by simp
      cases ih e.cycle.state (done + 1) (e.cycle.events.reverse ++ seen) with
      | limit go result state events =>
        rw [hevents] at events
        rw [Nat.add_right_comm] at result
        exact .limit (goesThrough_succ.2 ⟨hgo, go⟩) result state events
      | cut n lt go ends result state events =>
        rw [hevents] at events
        rw [Nat.add_right_comm] at result
        exact .cut (n + 1) (Nat.succ_lt_succ lt) (goesThrough_succ.2 ⟨hgo, go⟩) ends result state
          events
    · rw [cyclesFrom_of_ne hgo]
      refine .cut 0 (Nat.succ_pos left) e.goesThrough_zero hgo rfl rfl ?_
      rw [traceCycles_succ]
      rfl

/-! ## Pieces -/

/-- Behind cycles that went through, the loop goes on from where they led. -/
theorem cyclesFrom_add (h : e.GoesThrough n) :
    cyclesFrom limited (n + left) done seen e =
      cyclesFrom limited left (done + n) ((e.traceCycles n).reverse ++ seen) (e.afterCycles n) := by
  induction n generalizing e done seen with
  | zero =>
    rw [Nat.zero_add]
    rfl
  | succ n ih =>
    obtain ⟨hfirst, hrest⟩ := goesThrough_succ.1 h
    have htrace : e.traceCycles (n + 1) = e.cycle.events ++ e.cycle.state.traceCycles n := rfl
    rw [Nat.succ_add, cyclesFrom_of_proceed hfirst, ih hrest, htrace, List.reverse_append,
      List.append_assoc, Nat.add_right_comm]
    rfl

/-- What was done and seen before only adds to the count and to the events. -/
theorem cyclesFrom_shift (e : Emulator) (limited : Bool) (left done : Nat) (seen : List Event) :
    cyclesFrom limited left done seen e =
      let o := cyclesFrom limited left 0 [] e
      ⟨o.result.map (done + ·), o.state, seen.reverse ++ o.events⟩ := by
  induction left generalizing e done seen with
  | zero => cases limited <;> simp [cyclesFrom, Except.map]
  | succ left ih =>
    by_cases hgo : e.cycle.result = .ok .proceed
    · rw [cyclesFrom_of_proceed hgo, cyclesFrom_of_proceed hgo, ih _ (done + 1), ih _ (0 + 1)]
      rcases cyclesFrom limited left 0 [] e.cycle.state with ⟨stop | count, t, events⟩
      · simp [Except.map]
      · simp [Except.map, Nat.add_assoc]
    · rw [cyclesFrom_of_ne hgo, cyclesFrom_of_ne hgo]
      rcases e.cycle.result with stop | flow
      · simp [Except.map]
      · simp [Except.map]

theorem loop_eq (e : Emulator) (limit : Option UInt64) :
    loop limit e = (cyclesFrom limit.isSome (limit.elim UInt64.size UInt64.toNat) 0 [] e).after
      [.notice (.running e.rate e.machine.dialect e.clock.period)] := by
  have hloop : loop limit e =
      (cycles limit e).after [.notice (.running e.rate e.machine.dialect e.clock.period)] := rfl
  rw [hloop]
  cases limit with
  | none => simp only [cycles, Option.isSome_none, Option.elim_none]
  | some limit => simp only [cycles, Option.isSome_some, Option.elim_some]

/-- How the loop ends. -/
theorem loopEnds_loop (e : Emulator) (limit : Option UInt64) :
    LoopEnds e limit.isSome (limit.elim UInt64.size UInt64.toNat) 0
      [.notice (.running e.rate e.machine.dialect e.clock.period)] (loop limit e) := by
  have hends := loopEnds_cyclesFrom e limit.isSome (limit.elim UInt64.size UInt64.toNat) 0 []
  rw [loop_eq]
  cases hends with
  | limit go result state events =>
    exact .limit go result state (by rw [Outcome.after, events]; rfl)
  | cut n lt go ends result state events =>
    exact .cut n lt go ends result state (by rw [Outcome.after, events]; rfl)

/-- A loop that counts up to its limit goes through all its cycles. -/
theorem goesThrough_of_limit {most : UInt64} (h : (loop (some most) e).result = .ok most.toNat) :
    e.GoesThrough most.toNat ∧ (loop (some most) e).state = e.afterCycles most.toNat ∧
      (loop (some most) e).events =
        .notice (.running e.rate e.machine.dialect e.clock.period) :: e.traceCycles most.toNat := by
  cases e.loopEnds_loop (some most) with
  | limit go result state events => exact ⟨go, state, events⟩
  | cut n lt go ends result =>
    -- A loop that is cut short has counted less.
    rw [result] at h
    cases hcut : (e.afterCycles n).cycle.result with
    | error stop => simp [hcut, Except.map] at h
    | ok flow =>
      rw [hcut] at h
      have hcount : 0 + n = most.toNat := Except.ok.inj h
      have hless : n < most.toNat := lt
      omega

/-- Two loops one behind the other, the first of which reaches its limit. -/
theorem loop_add {a b : UInt64} (hsum : a.toNat + b.toNat < UInt64.size)
    (hfirst : (loop (some a) e).result = .ok a.toNat) :
    let first := loop (some a) e
    let second := loop (some b) first.state
    let whole := loop (some (a + b)) e
    whole.state = second.state ∧ whole.result = second.result.map (a.toNat + ·) ∧
      whole.events = first.events ++ second.events.tail := by
  intro first second whole
  obtain ⟨hgo, hstate, hevents⟩ := goesThrough_of_limit hfirst
  have hlimit : (a + b).toNat = a.toNat + b.toNat := by
    rw [UInt64.toNat_add]
    exact Nat.mod_eq_of_lt hsum
  have hwhole : whole = (cyclesFrom true (a.toNat + b.toNat) 0 [] e).after
      [.notice (.running e.rate e.machine.dialect e.clock.period)] := by
    rw [← hlimit]
    exact e.loop_eq (some (a + b))
  have hsecond : second = (cyclesFrom true b.toNat 0 [] first.state).after _ :=
    first.state.loop_eq (some b)
  rw [cyclesFrom_add hgo, cyclesFrom_shift, ← hstate] at hwhole
  rw [hwhole, hsecond]
  refine ⟨rfl, ?_, ?_⟩
  · simp only [Outcome.after, Nat.zero_add]
    rfl
  · rw [show first.events = _ from hevents]
    simp only [Outcome.after, List.append_nil, List.reverse_reverse]
    rfl

/-! ## The whole loop -/

/-- **Running in pieces is running in one go**, and the count is that of the instructions.

* If a loop reached its limit, another one behind it ends where one loop with both limits ends: in
  the same state, with the same failure or with the sum of the counts, and but for its own notice
  with the same events.
* If a loop ends with a count, that many cycles went through, each of which executed the instruction
  at its program counter, and no other instruction was executed. The count is the limit, or it is
  below the limit and one more cycle quit. -/
theorem loop_in_pieces (e : Emulator) :
    (∀ a b : UInt64, a.toNat + b.toNat < UInt64.size → (loop (some a) e).result = .ok a.toNat →
      let first := loop (some a) e
      let second := loop (some b) first.state
      let whole := loop (some (a + b)) e
      whole.state = second.state ∧ whole.result = second.result.map (a.toNat + ·) ∧
        whole.events = first.events ++ second.events.tail) ∧
    ∀ limit n, (loop limit e).result = .ok n →
      e.GoesThrough n ∧
      (executions (loop limit e).events = (List.range n).map fun i =>
        ((e.afterCycles i).machine.pc, (e.afterCycles i).machine.instruction)) ∧
      ((∃ most, limit = some most ∧ n = most.toNat ∧
          (loop limit e).state = e.afterCycles n) ∨
        (∀ most, limit = some most → n < most.toNat) ∧
          (e.afterCycles n).cycle.result = .ok .quit ∧
          (loop limit e).state = e.afterCycles (n + 1)) := by
  refine ⟨fun a b hsum hfirst => loop_add hsum hfirst, fun limit n hcount => ?_⟩
  cases e.loopEnds_loop limit with
  | limit go result state events =>
    rw [result] at hcount
    cases limit with
    | none => cases hcount
    | some most =>
      obtain rfl : 0 + most.toNat = n := Except.ok.inj hcount
      rw [Nat.zero_add]
      refine ⟨go, ?_, .inl ⟨most, rfl, rfl, state⟩⟩
      rw [events]
      exact executions_traceCycles go
  | cut m lt go ends result state events =>
    rw [result] at hcount
    cases hquit : (e.afterCycles m).cycle.result with
    | error stop =>
      rw [hquit] at hcount
      cases hcount
    | ok flow =>
      rw [hquit] at hcount
      obtain rfl : 0 + m = n := Except.ok.inj hcount
      rw [Nat.zero_add]
      cases flow with
      | proceed => exact absurd hquit ends
      | quit =>
        refine ⟨go, ?_, .inr ⟨?_, hquit, state⟩⟩
        · have hnone : executions (e.afterCycles m).cycle.events = [] := executions_of_quit hquit
          rw [events, executions_append, traceCycles_succ, executions_append, hnone,
            executions_traceCycles go]
          simp [executions]
        · rintro most rfl
          exact lt

set_option maxRecDepth 20000 in
/-- Two cycles and then up to five, of which the second quits. -/
theorem loop_in_pieces_quit :
    let e := loadedWith 120 .modern 0 { script := [.press 1, .idle, .release 1, .quit] } none
      [0x70, 0x01, 0x12, 0x00]
    let first := loop (some 2) e
    let second := loop (some 5) first.state
    let whole := loop (some 7) e
    first.result = .ok 2 ∧ second.result = .ok 1 ∧ whole.result = .ok 3 ∧
      whole.state = second.state ∧ e.GoesThrough 3 ∧ (executions whole.events).length = 3 ∧
      (e.afterCycles 3).cycle.result = .ok .quit ∧ whole.state = e.afterCycles 4 := by
  intro e first second whole
  have hfirst : first.result = .ok 2 := by decide +kernel
  have hsecond : second.result = .ok 1 := by decide +kernel
  obtain ⟨hpieces, hcounts⟩ := loop_in_pieces e
  obtain ⟨hstate, hresult, -⟩ := hpieces 2 5 (by decide) hfirst
  have hwhole : whole.result = .ok 3 := by
    rw [show whole.result = second.result.map _ from hresult, hsecond]
    rfl
  obtain ⟨hgo, hexecuted, ⟨most, hlimit, hcount, -⟩ | ⟨-, hquit, hend⟩⟩ := hcounts (some 7) 3 hwhole
  · obtain rfl := Option.some.inj hlimit
    cases hcount
  · refine ⟨hfirst, hsecond, hwhole, hstate, hgo, ?_, hquit, hend⟩
    rw [show executions whole.events = _ from hexecuted]
    simp

end Emulator

end Chip8
