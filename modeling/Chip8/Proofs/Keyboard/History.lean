import Chip8.Proofs.Keyboard

/-!
# The reports of held keys

What is known of a key is read off the history of its reports: the report that is remembered
(`lastSeen_after`), the mark of a key that was dropped in the frame (`justReleased_after`), and how
often a key is dropped (`tally_begins`, `tally_drops`). All of this holds whatever the times in the
history. Where they do not run backwards, a key is down behind a release of the stale keys just when
some report of it is not too old (`pressed_releaseStale_iff`).
-/

namespace Chip8

/-! ## Times -/

/-- The time at which the event happens, if it has one. -/
def HoldEvent.time? : HoldEvent → Option Nat
  | .report _ time => some time
  | .releaseStale now => some now
  | .endFrame => none

/-- The times in a history do not run backwards. -/
def TimesAscend (history : List HoldEvent) : Prop :=
  (history.filterMap HoldEvent.time?).Pairwise (· ≤ ·)

instance (history : List HoldEvent) : Decidable (TimesAscend history) :=
  inferInstanceAs (Decidable (List.Pairwise _ _))

theorem TimesAscend.le {before behind : List HoldEvent} {first last : HoldEvent} {t t' : Nat}
    (h : TimesAscend (before ++ behind)) (hfirst : first ∈ before) (hlast : last ∈ behind)
    (ht : first.time? = some t) (ht' : last.time? = some t') : t ≤ t' := by
  rw [TimesAscend, List.filterMap_append, List.pairwise_append] at h
  exact h.2.2 t (List.mem_filterMap.2 ⟨first, hfirst, ht⟩) t'
    (List.mem_filterMap.2 ⟨last, hlast, ht'⟩)

namespace HeldKeys

variable {h : HeldKeys} {k : Fin 16} {now time : Nat} {event : HoldEvent}
  {history behind : List HoldEvent}

/-! ## The last report of a key -/

/-- A new memory, with a new keypad, after the events. -/
def after (history : List HoldEvent) : HeldKeys := history.foldl handle fresh

theorem after_concat (history : List HoldEvent) (event : HoldEvent) :
    after (history ++ [event]) = (after history).handle event := by
  rw [after, List.foldl_append]
  rfl

theorem inStep_after (history : List HoldEvent) (k : Fin 16) :
    ((after history).key k).InStep := by
  induction history using List.reverseRecOn with
  | nil =>
    have hkeypad : ((after []).key k).flags = {} := Keypad.get_fresh k
    have hseen : ((after []).key k).lastSeen = none := Vector.getElem_replicate k.isLt
    rw [HeldKey.InStep, hkeypad, hseen]
    rfl
  | append_singleton history event ih =>
    rw [after_concat, key_handle]
    exact ih.handle event

/-- The key was last reported at a time, and no stale keys were released since then more than 200
milliseconds behind it. -/
def HeldSince (k : Fin 16) (time : Nat) (history : List HoldEvent) : Prop :=
  Since (fun _ event => event = .report k time)
    (fun event => (∀ t, event ≠ .report k t) ∧ ∀ now, event = .releaseStale now → now - time ≤ 200)
    history

theorem heldSince_concat : HeldSince k time (history ++ [event]) ↔
    event = .report k time ∨
      ((∀ t, event ≠ .report k t) ∧ ∀ now, event = .releaseStale now → now - time ≤ 200) ∧
        HeldSince k time history :=
  since_concat

/-- **The report that is remembered of a key** is the last one, unless it has been too old for a
release of the stale keys. -/
theorem lastSeen_after (history : List HoldEvent) (k : Fin 16) (time : Nat) :
    (after history).lastSeen.get k = some time ↔ HeldSince k time history := by
  change ((after history).key k).lastSeen = some time ↔ _
  induction history using List.reverseRecOn with
  | nil =>
    have hseen : ((after []).key k).lastSeen = none := Vector.getElem_replicate k.isLt
    rw [hseen]
    exact iff_of_false nofun not_since_nil
  | append_singleton history event ih =>
    rw [after_concat, key_handle, HeldKey.lastSeen_handle, ih, heldSince_concat]

theorem pressed_iff (hstep : (h.key k).InStep) :
    (h.keypad.get k).pressed = true ↔ ∃ time, h.lastSeen.get k = some time := by
  change (h.key k).flags.pressed = true ↔ _
  rw [← hstep, Option.isSome_iff_exists]
  rfl

/-- Where no time runs backwards, any report that is not too old keeps its key held: the last report
is not older. -/
theorem exists_heldSince_iff (hascend : TimesAscend (history ++ [.releaseStale now])) :
    (∃ time, HeldSince k time (history ++ [.releaseStale now])) ↔
      ∃ time, .report k time ∈ history ∧ now - time ≤ 200 := by
  constructor
  · rintro ⟨time, hheld⟩
    rcases heldSince_concat.1 hheld with hreport | ⟨⟨-, hfresh⟩, before, -, behind, rfl, rfl, -⟩
    · cases hreport
    · exact ⟨time, by simp, hfresh now rfl⟩
  · rintro ⟨time, hmem, hfresh⟩
    obtain ⟨before, -, behind, rfl, ⟨last, rfl⟩, hbehind⟩ :=
      since_last (p := fun event => ∃ t, event = .report k t) ⟨_, hmem, time, rfl⟩
    rw [List.append_assoc] at hascend
    have hle : time ≤ last := by
      rcases List.mem_append.1 hmem with hbefore | hrest
      · have hlast : HoldEvent.report k last ∈ .report k last :: behind ++ [.releaseStale now] := by
          simp
        exact hascend.le hbefore hlast rfl rfl
      · rcases List.mem_cons.1 hrest with hsame | hlater
        · injection hsame with _ htime
          exact Nat.le_of_eq htime
        · exact absurd ⟨time, rfl⟩ (hbehind _ hlater)
    refine ⟨last, before, _, behind ++ [.releaseStale now], by simp, rfl, ?_⟩
    intro event hevent
    rcases List.mem_append.1 hevent with hevent | hevent
    · refine ⟨fun t ht => hbehind event hevent ⟨t, ht⟩, ?_⟩
      rintro earlier rfl
      rw [← List.append_assoc] at hascend
      have hbefore : earlier ≤ now := hascend.le
        (List.mem_append_right before (List.mem_cons_of_mem _ hevent)) (List.mem_singleton_self _)
        rfl rfl
      omega
    · obtain rfl := List.mem_singleton.1 hevent
      refine ⟨nofun, ?_⟩
      rintro _ ⟨⟩
      omega

/-- **Behind a release of the stale keys**, where no time runs backwards, a key is down just when
there is a report of it that is not too old. -/
theorem pressed_releaseStale_iff (hascend : TimesAscend (history ++ [.releaseStale now])) :
    (((after history).releaseStale now).keypad.get k).pressed = true ↔
      ∃ time, .report k time ∈ history ∧ now - time ≤ 200 := by
  have hnext : (after history).releaseStale now = after (history ++ [.releaseStale now]) :=
    (after_concat history (.releaseStale now)).symm
  have hstep := inStep_after (history ++ [HoldEvent.releaseStale now]) k
  rw [hnext, pressed_iff hstep]
  simp only [lastSeen_after]
  exact exists_heldSince_iff hascend

/-! ## Drops -/

/-- The event drops a key: it was remembered before, and is not behind it. -/
def drops (k : Fin 16) (h : HeldKeys) (event : HoldEvent) : Bool :=
  (h.lastSeen.get k).isSome && ((h.handle event).lastSeen.get k).isNone

/-- The event begins to hold a key: it is a report of the key, which was not down. -/
def begins (k : Fin 16) (h : HeldKeys) : HoldEvent → Bool
  | .report j _ => j = k && !(h.keypad.get k).pressed
  | .releaseStale _ | .endFrame => false

/-- How many of the events are of a kind, each at the memory before it. -/
def tally (kind : HeldKeys → HoldEvent → Bool) (h : HeldKeys) : List HoldEvent → Nat
  | [] => 0
  | event :: rest => (if kind h event then 1 else 0) + tally kind (h.handle event) rest

/-- Since the last end of a frame, or the start, a release of the stale keys dropped the key. -/
def DroppedInFrame (k : Fin 16) (history : List HoldEvent) : Prop :=
  Since (fun before event => drops k (after before) event = true) (· ≠ .endFrame) history

theorem droppedInFrame_concat : DroppedInFrame k (history ++ [event]) ↔
    drops k (after history) event = true ∨ event ≠ .endFrame ∧ DroppedInFrame k history :=
  since_concat

/-- A key is dropped when the stale keys are released, if it is one of them. -/
theorem drops_iff :
    drops k h event = true ↔ ∃ now, event = .releaseStale now ∧ h.stale now k = true := by
  have hkey : drops k h event =
      ((h.key k).lastSeen.isSome && ((h.key k).handle k event).lastSeen.isNone) := by
    rw [← key_handle]
    rfl
  have hstale : ∀ now, h.stale now k = (h.key k).stale now := fun _ => rfl
  rw [hkey]
  simp only [hstale]
  obtain ⟨lastSeen, flags⟩ := h.key k
  cases event with
  | report j t => by_cases hj : j = k <;> cases lastSeen <;> simp [HeldKey.handle, hj]
  | releaseStale now =>
    cases lastSeen with
    | none => simp [HeldKey.stale]
    | some t =>
      by_cases hstale : 200 < now - t <;>
        simp [HeldKey.handle, HeldKey.settle, HeldKey.stale, HeldKey.dropped, hstale]
  | endFrame => cases lastSeen <;> simp [HeldKey.handle]

/-- **A key is marked just when it was dropped in the frame.** -/
theorem justReleased_after (history : List HoldEvent) (k : Fin 16) :
    ((after history).keypad.get k).justReleased = true ↔ DroppedInFrame k history := by
  change ((after history).key k).flags.justReleased = true ↔ _
  induction history using List.reverseRecOn with
  | nil =>
    have hflags : ((after []).key k).flags = {} := Keypad.get_fresh k
    rw [hflags]
    exact iff_of_false Bool.false_ne_true not_since_nil
  | append_singleton history event ih =>
    rw [after_concat, key_handle, HeldKey.justReleased_handle (inStep_after history k), ih,
      droppedInFrame_concat, drops_iff]
    rfl

/-- An event begins to hold a key, drops it, or leaves it as it was. -/
theorem begins_balance (hstep : (h.key k).InStep) (event : HoldEvent) :
    (if begins k h event then 1 else 0) + (if (h.keypad.get k).pressed then 1 else 0) =
      (if drops k h event then 1 else 0) +
        if ((h.handle event).keypad.get k).pressed then 1 else 0 := by
  have hafter : (h.handle event).keypad.get k = ((h.key k).handle k event).flags :=
    congrArg HeldKey.flags (h.key_handle event k)
  have hflags : h.keypad.get k = (h.key k).flags := rfl
  rw [hafter, hflags]
  cases event with
  | report j t =>
    have hdrops : drops k h (.report j t) = false := by
      rw [← Bool.not_eq_true, drops_iff]
      simp
    by_cases hj : j = k
    · subst hj
      cases hp : (h.key j).flags.pressed <;>
        simp [begins, hdrops, HeldKey.handle, hflags, hp]
    · simp [begins, hdrops, HeldKey.handle, hj]
  | releaseStale now =>
    have hdrops : drops k h (.releaseStale now) = (h.key k).stale now := by
      rw [Bool.eq_iff_iff, drops_iff]
      simp only [HoldEvent.releaseStale.injEq, exists_eq_left']
      rfl
    cases hstale : (h.key k).stale now with
    | false => simp [begins, hdrops, HeldKey.handle, HeldKey.settle, hstale]
    | true =>
      simp [begins, hdrops, HeldKey.handle, HeldKey.settle, hstale, HeldKey.dropped,
        hstep.pressed_of_stale hstale]
  | endFrame =>
    have hdrops : drops k h .endFrame = false := by
      rw [← Bool.not_eq_true, drops_iff]
      simp
    simp [begins, hdrops, HeldKey.handle]
    rfl

/-- **Holds and drops are balanced**: behind any events a key that is down has begun to be held once
more often than it was dropped, and any other key as often. -/
theorem tally_begins (hstep : (h.key k).InStep) (events : List HoldEvent) :
    tally (begins k) h events + (if (h.keypad.get k).pressed then 1 else 0) =
      tally (drops k) h events +
        if ((events.foldl handle h).keypad.get k).pressed then 1 else 0 := by
  induction events generalizing h with
  | nil => rfl
  | cons event rest ih =>
    have hnext : ((h.handle event).key k).InStep := by
      rw [key_handle]
      exact hstep.handle event
    have hfirst := begins_balance hstep event
    have hrest := ih hnext
    rw [tally, tally, List.foldl_cons]
    omega

theorem lastSeen_handle : (h.handle event).lastSeen.get k = some time ↔ event = .report k time ∨
    ((∀ t, event ≠ .report k t) ∧ ∀ now, event = .releaseStale now → now - time ≤ 200) ∧
      h.lastSeen.get k = some time := by
  have hkey := congrArg HeldKey.lastSeen (h.key_handle event k)
  change (h.handle event).lastSeen.get k = _ at hkey
  rw [hkey, HeldKey.lastSeen_handle]
  rfl

/-- A key that is not remembered is not dropped before it is reported again. -/
theorem tally_drops_of_none (hnone : h.lastSeen.get k = none)
    (hlast : ∀ t, .report k t ∉ behind) : tally (drops k) h behind = 0 := by
  induction behind generalizing h with
  | nil => rfl
  | cons event rest ih =>
    have hdrops : drops k h event = false := by simp [drops, hnone]
    have hnext : (h.handle event).lastSeen.get k = none := by
      refine Option.eq_none_iff_forall_ne_some.2 fun t ht => ?_
      rcases lastSeen_handle.1 ht with rfl | ⟨-, hseen⟩
      · exact hlast t (by simp)
      · rw [hnone] at hseen
        cases hseen
    rw [tally, hdrops, ih hnext fun t ht => hlast t (List.mem_cons_of_mem _ ht)]
    rfl

/-- **Behind its last report a key is dropped once**, by the first release of the stale keys that
comes more than 200 milliseconds later, and not at all if there is none. -/
theorem tally_drops (hseen : h.lastSeen.get k = some time) (hlast : ∀ t, .report k t ∉ behind) :
    ((∃ now, .releaseStale now ∈ behind ∧ 200 < now - time) → tally (drops k) h behind = 1) ∧
      ((∀ now, .releaseStale now ∈ behind → now - time ≤ 200) → tally (drops k) h behind = 0) := by
  induction behind generalizing h with
  | nil => simp [tally]
  | cons event rest ih =>
    have hlast' : ∀ t, .report k t ∉ rest := fun t ht => hlast t (List.mem_cons_of_mem _ ht)
    have hreport : ∀ t, event ≠ .report k t := fun t ht => hlast t (by simp [ht])
    by_cases hstale : ∃ now, event = .releaseStale now ∧ 200 < now - time
    · obtain ⟨now, rfl, hold⟩ := hstale
      have hdrops : drops k h (.releaseStale now) = true := by
        refine drops_iff.2 ⟨now, rfl, ?_⟩
        simp [stale, hseen, Keyboard.holdTime, hold]
      have hnone : (h.releaseStale now).lastSeen.get k = none := by
        simp only [drops, Bool.and_eq_true, Option.isNone_iff_eq_none] at hdrops
        exact hdrops.2
      have hrest := tally_drops_of_none hnone hlast'
      refine ⟨fun _ => ?_, fun hfresh => absurd (hfresh now (by simp)) (by omega)⟩
      rw [tally, hdrops, handle, hrest]
      rfl
    · have hfresh : ∀ now, event = .releaseStale now → now - time ≤ 200 := fun now hnow =>
        Nat.not_lt.1 fun hold => hstale ⟨now, hnow, hold⟩
      have hnext : (h.handle event).lastSeen.get k = some time :=
        lastSeen_handle.2 (.inr ⟨⟨hreport, hfresh⟩, hseen⟩)
      have hdrops : drops k h event = false := by simp [drops, hnext]
      obtain ⟨hsome, hnever⟩ := ih hnext hlast'
      rw [tally, hdrops]
      constructor
      · rintro ⟨now, hnow, hold⟩
        rcases List.mem_cons.1 hnow with hnow | hnow
        · exact absurd ⟨now, hnow.symm, hold⟩ hstale
        · simp [hsome ⟨now, hnow, hold⟩]
      · intro hall
        simp [hnever fun now hnow => hall now (List.mem_cons_of_mem _ hnow)]

/-! ## The whole history -/

/-- **Held keys follow their last reports.** Behind any events on a new memory and a new keypad:

* a key is remembered just when it is down, and if a release of the stale keys comes next that is no
  later than the report that is remembered, it stays so;
* a key is marked just when a release of the stale keys dropped it since the last end of a frame;
* it was dropped as often as it began to be held, but for the hold that lasts, and behind its last
  report it was dropped once if there was a release of the stale keys more than 200 milliseconds
  later, else not at all;
* a release of the stale keys comes to the same with an earlier one before it;
* where no time runs backwards, a key is down behind a release of the stale keys just when there is
  a report of it that is at most 200 milliseconds old;
* no event fails. -/
theorem follow_last_reports (history : List HoldEvent) :
    let h := after history
    (∀ k, (h.lastSeen.get k).isSome = (h.keypad.get k).pressed) ∧
    (∀ k time now, h.lastSeen.get k = some time → now ≤ time →
      (h.releaseStale now).lastSeen.get k = some time ∧
        ((h.releaseStale now).keypad.get k).pressed = true) ∧
    (∀ k, (h.keypad.get k).justReleased = true ↔ DroppedInFrame k history) ∧
    (∀ k, tally (begins k) fresh history =
      tally (drops k) fresh history + if (h.keypad.get k).pressed then 1 else 0) ∧
    (∀ k time before behind, history = before ++ .report k time :: behind →
      (∀ t, .report k t ∉ behind) →
      let held := after (before ++ [.report k time])
      ((∃ now, .releaseStale now ∈ behind ∧ 200 < now - time) → tally (drops k) held behind = 1) ∧
      ((∀ now, .releaseStale now ∈ behind → now - time ≤ 200) →
        tally (drops k) held behind = 0)) ∧
    (∀ t₁ t₂, t₁ ≤ t₂ → (h.releaseStale t₁).releaseStale t₂ = h.releaseStale t₂) ∧
    (∀ k now, TimesAscend (history ++ [.releaseStale now]) →
      (((h.releaseStale now).keypad.get k).pressed = true ↔
        ∃ time, .report k time ∈ history ∧ now - time ≤ 200)) ∧
    ∀ event, h.attempt event = .ok (h.handle event) := by
  intro h
  refine ⟨fun k => inStep_after history k, ?later, justReleased_after history, ?balance, ?once,
    fun t₁ t₂ hle => h.releaseStale_releaseStale hle,
    fun k now hascend => pressed_releaseStale_iff hascend, attempt_eq h⟩
  case later =>
    intro k time now hseen hle
    have hstays : ((after (history ++ [.releaseStale now])).lastSeen).get k = some time := by
      rw [after_concat, lastSeen_handle]
      refine .inr ⟨⟨nofun, ?_⟩, hseen⟩
      rintro _ ⟨⟩
      omega
    have hpressed :=
      (pressed_iff (inStep_after (history ++ [.releaseStale now]) k)).2 ⟨time, hstays⟩
    rw [after_concat] at hstays hpressed
    exact ⟨hstays, hpressed⟩
  case balance =>
    intro k
    have hup : (fresh.keypad.get k).pressed = false :=
      congrArg KeyState.pressed (Keypad.get_fresh k)
    have hbalance := tally_begins (inStep_after [] k) history
    change tally _ fresh _ + (if (fresh.keypad.get k).pressed then 1 else 0) = _ at hbalance
    rw [hup] at hbalance
    exact hbalance
  case once =>
    intro k time before behind _ hlast held
    have hseen : held.lastSeen.get k = some time := by
      rw [show held = (after before).handle _ from after_concat before _]
      exact lastSeen_handle.2 (.inl rfl)
    exact tally_drops hseen hlast

set_option maxRecDepth 20000 in
/-- Key 7 is kept by its second report until 200 milliseconds have passed and is dropped one later,
in the next frame after key 3. Key 12 is still held, and would be whatever time it was before its
report. -/
theorem follow_last_reports_dropped :
    let before : List HoldEvent := [.report 7 0, .report 3 40, .releaseStale 150]
    let behind : List HoldEvent :=
      [.report 12 300, .releaseStale 350, .endFrame, .releaseStale 351]
    let history := before ++ .report 7 150 :: behind
    let h := after history
    DroppedInFrame 7 history ∧ ¬DroppedInFrame 3 history ∧
      tally (begins 7) fresh history = 1 ∧ tally (drops 7) fresh history = 1 ∧
      tally (drops 7) (after (before ++ [.report 7 150])) behind = 1 ∧
      TimesAscend (history ++ [.releaseStale 500]) ∧
      ((h.releaseStale 500).keypad.get 12).pressed = true ∧
      ((h.releaseStale 10).keypad.get 12).pressed = true ∧
      (h.releaseStale 351).releaseStale 500 = h.releaseStale 500 := by
  intro before behind history h
  obtain ⟨-, hlater, hmarked, hbalance, honce, hsettle, hpressed, -⟩ := follow_last_reports history
  have hdrops : tally (drops 7) fresh history = 1 := by decide +kernel
  have hbegins : tally (begins 7) fresh history = 1 := by
    have hup : ((after history).keypad.get 7).pressed = false := by decide +kernel
    rw [hbalance 7, hdrops, hup]
    rfl
  have hascend : TimesAscend (history ++ [.releaseStale 500]) := by decide
  have hdropped : DroppedInFrame 7 history := (hmarked 7).1 (by decide +kernel)
  have hkept : ¬DroppedInFrame 3 history := fun hthree => by
    have hmark := (hmarked 3).2 hthree
    revert hmark
    decide +kernel
  have hlast : ∀ t, HoldEvent.report 7 t ∉ behind := by simp [behind]
  exact ⟨hdropped, hkept, hbegins, hdrops,
    (honce 7 150 before behind rfl hlast).1 ⟨351, by simp [behind], by decide⟩, hascend,
    (hpressed 12 500 hascend).2 ⟨300, by simp [history, behind], by decide⟩,
    (hlater 12 300 10 (by decide +kernel) (by decide)).2, hsettle 351 500 (by decide)⟩

end HeldKeys

end Chip8
