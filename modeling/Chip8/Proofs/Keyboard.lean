import Chip8.Keyboard
import Chip8.Proofs.Keypad.History

/-!
# Held keys one by one

A terminal tells when a key goes down, not when it comes up, so a key is held for 200 milliseconds
behind its last report. The memory of reports and the keypad beside it hold two things of each key,
its last report and its flags, and an event does to a key what it does to these (`key_handle`). They
stay in step: a key is remembered just when it is down (`InStep.handle`). An earlier release of the
stale keys makes no difference to a later one (`releaseStale_releaseStale`), and no event asks the
keypad for a key that it does not have (`attempt_eq`).
-/

namespace Chip8

/-- What is known of one key: when it was last reported, if it is held, and its flags. -/
structure HeldKey where
  lastSeen : Option Nat
  flags : KeyState
  deriving DecidableEq, Repr

namespace HeldKeys

variable {h h' : HeldKeys}

/-- What is known of a key. -/
def key (h : HeldKeys) (k : Fin 16) : HeldKey := ⟨h.lastSeen.get k, h.keypad.get k⟩

theorem eq_of_key (hkey : ∀ k, h.key k = h'.key k) : h = h' := by
  obtain ⟨lastSeen, keypad⟩ := h
  obtain ⟨lastSeen', keypad'⟩ := h'
  have hseen : lastSeen = lastSeen' :=
    Vector.ext fun i hi => congrArg HeldKey.lastSeen (hkey ⟨i, hi⟩)
  have hkeypad : keypad = keypad' :=
    Keypad.eq_of_get fun k => congrArg HeldKey.flags (hkey k)
  rw [hseen, hkeypad]

end HeldKeys

/-! ## One key -/

namespace HeldKey

variable {s : HeldKey} {k : Fin 16} {now time t₁ t₂ : Nat} {event : HoldEvent}

/-- Whether the key's last report is more than 200 milliseconds old. -/
def stale (s : HeldKey) (now : Nat) : Bool :=
  match s.lastSeen with
  | some time => 200 < now - time
  | none => false

/-- The key is forgotten and released. -/
def dropped (s : HeldKey) : HeldKey := ⟨none, if s.flags.pressed then ⟨false, true⟩ else s.flags⟩

/-- The key behind a release of the stale keys. -/
def settle (s : HeldKey) (now : Nat) : HeldKey := if s.stale now then s.dropped else s

/-- What an event does to a key. -/
def handle (k : Fin 16) (s : HeldKey) : HoldEvent → HeldKey
  | .report j time => if j = k then ⟨some time, { s.flags with pressed := true }⟩ else s
  | .releaseStale now => s.settle now
  | .endFrame => { s with flags.justReleased := false }

theorem stale_mono (h : t₁ ≤ t₂) (hstale : s.stale t₁ = true) : s.stale t₂ = true := by
  obtain ⟨lastSeen, flags⟩ := s
  cases lastSeen with
  | none => exact hstale
  | some time =>
    simp only [stale, decide_eq_true_eq] at hstale ⊢
    omega

/-- An earlier release of the stale keys makes no difference to a later one. -/
theorem settle_settle (h : t₁ ≤ t₂) (s : HeldKey) : (s.settle t₁).settle t₂ = s.settle t₂ := by
  cases hstale : s.stale t₁ with
  | false => rw [show s.settle t₁ = s by simp [settle, hstale]]
  | true =>
    have hlater : s.settle t₂ = s.dropped := by simp [settle, stale_mono h hstale]
    rw [hlater, show s.settle t₁ = s.dropped by simp [settle, hstale]]
    rfl

/-- The memory of the key is in step with its flags. -/
def InStep (s : HeldKey) : Prop := s.lastSeen.isSome = s.flags.pressed

theorem InStep.handle (h : s.InStep) (event : HoldEvent) : (s.handle k event).InStep := by
  cases event with
  | report j time =>
    by_cases hj : j = k
    · simp [HeldKey.handle, InStep, hj]
    · simpa [HeldKey.handle, hj] using h
  | releaseStale now =>
    by_cases hstale : s.stale now = true
    · cases hpressed : s.flags.pressed with
      | true => simp [HeldKey.handle, settle, InStep, hstale, dropped, hpressed]
      | false => simp [HeldKey.handle, settle, InStep, hstale, dropped, hpressed]
    · simpa [HeldKey.handle, settle, hstale] using h
  | endFrame => exact h

theorem lastSeen_handle : (s.handle k event).lastSeen = some time ↔ event = .report k time ∨
    ((∀ t, event ≠ .report k t) ∧ ∀ now, event = .releaseStale now → now - time ≤ 200) ∧
      s.lastSeen = some time := by
  cases event with
  | report j t => by_cases hj : j = k <;> simp [handle, hj]
  | releaseStale now =>
    obtain ⟨lastSeen, flags⟩ := s
    cases lastSeen with
    | none => simp [handle, settle, stale]
    | some t =>
      by_cases hstale : 200 < now - t
      · simp [handle, settle, stale, dropped, hstale]
        omega
      · simp [handle, settle, stale, hstale]
        omega
  | endFrame => simp [handle]

theorem InStep.pressed_of_stale (h : s.InStep) (hstale : s.stale now = true) :
    s.flags.pressed = true := by
  rw [← h]
  cases hseen : s.lastSeen with
  | none => simp [stale, hseen] at hstale
  | some time => rfl

theorem justReleased_handle (h : s.InStep) : (s.handle k event).flags.justReleased = true ↔
    (∃ now, event = .releaseStale now ∧ s.stale now = true) ∨
      event ≠ .endFrame ∧ s.flags.justReleased = true := by
  cases event with
  | report j t => by_cases hj : j = k <;> simp [handle, hj]
  | releaseStale now =>
    cases hstale : s.stale now with
    | false => simp [handle, settle, hstale]
    | true => simp [handle, settle, hstale, dropped, h.pressed_of_stale hstale]
  | endFrame => simp [handle]

end HeldKey

namespace HeldKeys

variable {h : HeldKeys} {k : Fin 16} {now time t₁ t₂ : Nat} {event : HoldEvent}

/-! ## The keys by themselves -/

theorem get_seen (h : HeldKeys) (j k : Fin 16) (time : Option Nat) :
    (h.seen j time).get k = if j = k then time else h.lastSeen.get k := by
  have hget : (h.seen j time).get k = if k = j then time else h.lastSeen.get k :=
    Vector.getElem_ofFn k.isLt
  rw [hget]
  simp only [eq_comm]

theorem key_releaseIfStale (h : HeldKeys) (j k : Fin 16) :
    (releaseIfStale now h j).key k = if j = k then (h.key k).settle now else h.key k := by
  have hstale : h.stale now j = (h.key j).stale now := rfl
  rw [releaseIfStale, hstale, HeldKey.settle]
  by_cases hj : j = k
  · subst hj
    split <;> simp [key, HeldKey.dropped, get_seen, Keypad.releaseKey, Keypad.get_update]
    rfl
  · split <;> simp [key, get_seen, Keypad.releaseKey, Keypad.get_update, hj]

/-- A key is settled once it is visited, and no earlier. -/
theorem key_foldl (h : HeldKeys) (l : List (Fin 16)) (k : Fin 16) :
    (k ∈ l → (l.foldl (releaseIfStale now) h).key k = (h.key k).settle now) ∧
      (k ∉ l → (l.foldl (releaseIfStale now) h).key k = h.key k) := by
  induction l generalizing h with
  | nil => exact ⟨fun hmem => absurd hmem List.not_mem_nil, fun _ => rfl⟩
  | cons j l ih =>
    obtain ⟨hvisited, hnot⟩ := ih (releaseIfStale now h j)
    rw [key_releaseIfStale] at hvisited hnot
    rw [List.foldl_cons]
    by_cases hj : j = k
    · refine ⟨fun _ => ?_, fun hmem => absurd (hj ▸ List.mem_cons_self) hmem⟩
      rw [if_pos hj] at hvisited hnot
      by_cases hmem : k ∈ l
      · rw [hvisited hmem, HeldKey.settle_settle (Nat.le_refl now)]
      · exact hnot hmem
    · rw [if_neg hj] at hvisited hnot
      exact ⟨fun hmem => hvisited ((List.mem_cons.1 hmem).resolve_left (Ne.symm hj)),
        fun hmem => hnot fun hrest => hmem (List.mem_cons_of_mem j hrest)⟩

theorem key_releaseStale (h : HeldKeys) (now : Nat) (k : Fin 16) :
    (h.releaseStale now).key k = (h.key k).settle now :=
  (key_foldl h _ k).1 (List.mem_finRange k)

theorem key_handle (h : HeldKeys) (event : HoldEvent) (k : Fin 16) :
    (h.handle event).key k = (h.key k).handle k event := by
  cases event with
  | report j time =>
    by_cases hj : j = k
    · simp [handle, report, key, HeldKey.handle, get_seen, Keypad.pressKey, Keypad.get_update, hj]
    · simp [handle, report, key, HeldKey.handle, get_seen, Keypad.pressKey, Keypad.get_update, hj]
  | releaseStale now => exact h.key_releaseStale now k
  | endFrame => exact congrArg (HeldKey.mk _) (h.keypad.get_endFrame k)

/-- **A release of the stale keys comes to the same with an earlier one before it.** -/
theorem releaseStale_releaseStale (h : HeldKeys) (hle : t₁ ≤ t₂) :
    (h.releaseStale t₁).releaseStale t₂ = h.releaseStale t₂ :=
  eq_of_key fun k => by simp only [key_releaseStale, HeldKey.settle_settle hle]

/-! ## Calls that could fail -/

theorem attemptRelease_eq (now : Nat) (h : HeldKeys) (k : Fin 16) :
    attemptRelease now h k = .ok (releaseIfStale now h k) := by
  have hrelease : h.keypad.release (KeyNumber.of k) = .ok (h.keypad.releaseKey k) := by
    rw [Keypad.release, Keypad.keyOf_eq_ok.2 (KeyNumber.toNat_of k)]
    rfl
  rw [attemptRelease, releaseIfStale, hrelease]
  split <;> rfl

/-- **No call fails**: the keypad is only asked for its own keys. -/
theorem attempt_eq (h : HeldKeys) (event : HoldEvent) : h.attempt event = .ok (h.handle event) := by
  cases event with
  | report k time =>
    rw [attempt, Keypad.press, Keypad.keyOf_eq_ok.2 (KeyNumber.toNat_of k)]
    rfl
  | releaseStale now =>
    have hstep : attemptRelease now = fun h k => pure (releaseIfStale now h k) := by
      funext h k
      exact attemptRelease_eq now h k
    rw [attempt, hstep, List.foldlM_pure]
    rfl
  | endFrame => rfl

end HeldKeys

end Chip8
