import Chip8.Outcome
import Chip8.Proofs.Keypad
import Chip8.Proofs.Since

/-!
# The history of a keypad

The flags of a key say what happened to it. A key is down if the last press or release of it was a
press (`pressed_after`), and it is marked if a release took effect since the last frame ended, be it
down again or not (`justReleased_after`). Both go by one fact: an event does to a key what it does
to the key's own flags (`get_handle`), so that events of different keys do not meet (`handle_comm`).
-/

namespace Chip8

/-- What the host does to a keypad. -/
inductive KeyEvent
  | press (key : KeyNumber)
  | release (key : KeyNumber)
  | endFrame
  deriving DecidableEq, Repr

/-- What an event does to the flags of a key. -/
def KeyEvent.onKey (k : Fin 16) (s : KeyState) : KeyEvent → KeyState
  | .press key => if key.toNat = k.val then { s with pressed := true } else s
  | .release key =>
    if key.toNat = k.val then if s.pressed then ⟨false, true⟩ else s else s
  | .endFrame => { s with justReleased := false }

/-- The key that an event presses or releases. -/
def KeyEvent.key? : KeyEvent → Option KeyNumber
  | .press key | .release key => some key
  | .endFrame => none

namespace Keypad

variable {p q : Keypad} {k : Fin 16} {history : List KeyEvent}

/-- What an event comes to. -/
def handle (p : Keypad) : KeyEvent → Outcome Keypad Unit
  | .press key => Act.update (·.press key) p
  | .release key => Act.update (·.release key) p
  | .endFrame => Act.modify endFrame p

/-- A new keypad after the events. -/
def after (history : List KeyEvent) : Keypad :=
  history.foldl (fun p event => (p.handle event).state) fresh

theorem after_concat (history : List KeyEvent) (event : KeyEvent) :
    after (history ++ [event]) = ((after history).handle event).state := by
  rw [after, List.foldl_append]
  rfl

/-- Keypads are the same if their keys are. -/
theorem eq_of_get (h : ∀ k, p.get k = q.get k) : p = q := by
  obtain ⟨keys⟩ := p
  obtain ⟨keys'⟩ := q
  refine congrArg Keypad.mk (Vector.ext fun i hi => ?_)
  exact h ⟨i, hi⟩

/-! ## One event -/

theorem keyOf_of_lt {key : KeyNumber} (h : key.toNat < 16) : ∃ k, keyOf key = .ok k :=
  ⟨⟨key.toNat, h⟩, dif_pos h⟩

theorem handle_press {key : KeyNumber} (h : keyOf key = .ok k) :
    p.handle (.press key) = ⟨.ok (), p.pressKey k, []⟩ := by
  simp only [handle, Act.update, press, h]
  rfl

theorem handle_release {key : KeyNumber} (h : keyOf key = .ok k) :
    p.handle (.release key) = ⟨.ok (), p.releaseKey k, []⟩ := by
  simp only [handle, Act.update, release, h]
  rfl

theorem handle_press_error {key : KeyNumber} {stop : Stop} (h : keyOf key = .error stop) :
    p.handle (.press key) = .failed p stop := by
  simp only [handle, Act.update, press, h]
  rfl

theorem handle_release_error {key : KeyNumber} {stop : Stop} (h : keyOf key = .error stop) :
    p.handle (.release key) = .failed p stop := by
  simp only [handle, Act.update, release, h]
  rfl

/-- A number that belongs to no key is refused. -/
theorem handle_of_le {event : KeyEvent} {key : KeyNumber} (hkey : event.key? = some key)
    (h : 16 ≤ key.toNat) : p.handle event = .failed p (.fault (.invalidKey key)) := by
  cases event with
  | press key' =>
    obtain rfl := Option.some.inj hkey
    exact handle_press_error (keyOf_of_le h)
  | release key' =>
    obtain rfl := Option.some.inj hkey
    exact handle_release_error (keyOf_of_le h)
  | endFrame => cases hkey

theorem result_handle_of_lt {event : KeyEvent} {key : KeyNumber} (hkey : event.key? = some key)
    (h : key.toNat < 16) : (p.handle event).result = .ok () := by
  obtain ⟨k, hk⟩ := keyOf_of_lt h
  cases event with
  | press key' =>
    obtain rfl := Option.some.inj hkey
    rw [handle_press hk]
  | release key' =>
    obtain rfl := Option.some.inj hkey
    rw [handle_release hk]
  | endFrame => cases hkey

/-- **An event does to a key what it does to the key's flags.** -/
theorem get_handle (p : Keypad) (event : KeyEvent) (k : Fin 16) :
    (p.handle event).state.get k = event.onKey k (p.get k) := by
  -- A number that belongs to no key changes nothing, and neither does one that belongs to another.
  have other : ∀ {key : KeyNumber} {stop : Stop}, keyOf key = .error stop → key.toNat ≠ k.val :=
    fun hkey h => by simp [keyOf_eq_ok.2 h] at hkey
  cases event with
  | press key =>
    cases hkey : keyOf key with
    | ok j =>
      rw [handle_press hkey, pressKey, get_update, KeyEvent.onKey, keyOf_eq_ok.1 hkey]
      simp only [Fin.ext_iff]
    | error stop =>
      rw [handle_press_error hkey, KeyEvent.onKey, if_neg (other hkey)]
      rfl
  | release key =>
    cases hkey : keyOf key with
    | ok j =>
      rw [handle_release hkey, releaseKey, get_update, KeyEvent.onKey, keyOf_eq_ok.1 hkey]
      simp only [Fin.ext_iff]
    | error stop =>
      rw [handle_release_error hkey, KeyEvent.onKey, if_neg (other hkey)]
      rfl
  | endFrame => exact get_endFrame p k

/-- Whether an event fails is no matter of the keypad. -/
theorem result_handle (p q : Keypad) (event : KeyEvent) :
    (p.handle event).result = (q.handle event).result := by
  cases event with
  | press key =>
    cases hkey : keyOf key with
    | ok k => rw [handle_press hkey, handle_press hkey]
    | error stop => rw [handle_press_error hkey, handle_press_error hkey]; rfl
  | release key =>
    cases hkey : keyOf key with
    | ok k => rw [handle_release hkey, handle_release hkey]
    | error stop => rw [handle_release_error hkey, handle_release_error hkey]; rfl
  | endFrame => rfl

/-! ## Different keys -/

theorem onKey_of_ne {event : KeyEvent} {key : KeyNumber} (hkey : event.key? = some key)
    (hne : key.toNat ≠ k.val) (s : KeyState) : event.onKey k s = s := by
  cases event with
  | press key' | release key' =>
    obtain rfl := Option.some.inj hkey
    exact if_neg hne
  | endFrame => cases hkey

/-- **Events of different keys commute**, be there such keys or not. -/
theorem handle_comm {a b : KeyEvent} {i j : KeyNumber} (ha : a.key? = some i)
    (hb : b.key? = some j) (hne : i ≠ j) :
    ((p.handle a).state.handle b).state = ((p.handle b).state.handle a).state := by
  refine eq_of_get fun k => ?_
  simp only [get_handle]
  by_cases hi : i.toNat = k.val
  · have hj : j.toNat ≠ k.val := fun hj => hne (UInt8.toNat_inj.1 (hi.trans hj.symm))
    rw [onKey_of_ne hb hj, onKey_of_ne hb hj]
  · rw [onKey_of_ne ha hi, onKey_of_ne ha hi]

/-! ## The flags and the history -/

/-- The last press or release of the key was a press. -/
def LastPressed (k : Fin 16) (history : List KeyEvent) : Prop :=
  Since (fun _ event => event = .press (.of k))
    (fun event => event ≠ .press (.of k) ∧ event ≠ .release (.of k)) history

/-- Since the last end of a frame, or the start, a release of the key came while the key was
down. -/
def ReleasedInFrame (k : Fin 16) (history : List KeyEvent) : Prop :=
  Since (fun before event => event = .release (.of k) ∧ LastPressed k before) (· ≠ .endFrame)
    history

theorem lastPressed_concat {event : KeyEvent} : LastPressed k (history ++ [event]) ↔
    event = .press (.of k) ∨
      (event ≠ .press (.of k) ∧ event ≠ .release (.of k)) ∧ LastPressed k history :=
  since_concat

theorem releasedInFrame_concat {event : KeyEvent} : ReleasedInFrame k (history ++ [event]) ↔
    (event = .release (.of k) ∧ LastPressed k history) ∨
      event ≠ .endFrame ∧ ReleasedInFrame k history :=
  since_concat

theorem pressed_onKey (event : KeyEvent) (k : Fin 16) (s : KeyState) :
    (event.onKey k s).pressed = true ↔ event = .press (.of k) ∨
      (event ≠ .press (.of k) ∧ event ≠ .release (.of k)) ∧ s.pressed = true := by
  cases event with
  | press key =>
    by_cases hkey : key.toNat = k.val
    · simp [KeyEvent.onKey, KeyNumber.eq_of_iff, hkey]
    · simp [KeyEvent.onKey, KeyNumber.eq_of_iff, hkey]
  | release key =>
    by_cases hkey : key.toNat = k.val
    · cases hs : s.pressed <;> simp [KeyEvent.onKey, KeyNumber.eq_of_iff, hkey, hs]
    · simp [KeyEvent.onKey, KeyNumber.eq_of_iff, hkey]
  | endFrame => simp [KeyEvent.onKey]

theorem justReleased_onKey (event : KeyEvent) (k : Fin 16) (s : KeyState) :
    (event.onKey k s).justReleased = true ↔ (event = .release (.of k) ∧ s.pressed = true) ∨
      event ≠ .endFrame ∧ s.justReleased = true := by
  cases event with
  | press key => by_cases hkey : key.toNat = k.val <;> simp [KeyEvent.onKey, hkey]
  | release key =>
    by_cases hkey : key.toNat = k.val
    · cases hs : s.pressed <;> simp [KeyEvent.onKey, KeyNumber.eq_of_iff, hkey, hs]
    · simp [KeyEvent.onKey, KeyNumber.eq_of_iff, hkey]
  | endFrame => simp [KeyEvent.onKey]

/-- **A key is down just when its last press or release was a press.** -/
theorem pressed_after (history : List KeyEvent) (k : Fin 16) :
    ((after history).get k).pressed = true ↔ LastPressed k history := by
  induction history using List.reverseRecOn with
  | nil =>
    rw [show after [] = fresh from rfl, get_fresh]
    exact iff_of_false Bool.false_ne_true not_since_nil
  | append_singleton history event ih =>
    rw [after_concat, get_handle, pressed_onKey, ih, lastPressed_concat]

/-- **A key is marked just when it was released in the frame while it was down.** -/
theorem justReleased_after (history : List KeyEvent) (k : Fin 16) :
    ((after history).get k).justReleased = true ↔ ReleasedInFrame k history := by
  induction history using List.reverseRecOn with
  | nil =>
    rw [show after [] = fresh from rfl, get_fresh]
    exact iff_of_false Bool.false_ne_true not_since_nil
  | append_singleton history event ih =>
    rw [after_concat, get_handle, justReleased_onKey, ih, pressed_after, releasedInFrame_concat]

/-! ## The least key -/

/-- The least key with a property, or none if no key has it. -/
def IsLeastKey (P : Fin 16 → Prop) : Option (Fin 16) → Prop
  | some k => P k ∧ ∀ j < k, ¬P j
  | none => ∀ k, ¬P k

theorem isLeastKey_find? (P : Fin 16 → Prop) (f : Fin 16 → Bool) (h : ∀ k, f k = true ↔ P k) :
    IsLeastKey P ((List.finRange 16).find? f) := by
  cases hfind : (List.finRange 16).find? f with
  | none => exact fun k hk => List.find?_eq_none.1 hfind k (List.mem_finRange k) ((h k).2 hk)
  | some k =>
    obtain ⟨hk, before, behind, hsplit, hbefore⟩ := List.find?_eq_some_iff_append.1 hfind
    refine ⟨(h k).1 hk, fun j hj hPj => ?_⟩
    have hsorted : (before ++ k :: behind).Pairwise (· < ·) :=
      hsplit ▸ List.pairwise_lt_finRange 16
    have hmem : j ∈ before ++ k :: behind := hsplit ▸ List.mem_finRange j
    have hnot : j ∉ k :: behind := by
      intro hbehind
      have hle : k ≤ j := by
        rcases List.mem_cons.1 hbehind with rfl | hrest
        · exact Fin.le_refl j
        · exact Fin.le_of_lt (List.rel_of_pairwise_cons (List.pairwise_append.1 hsorted).2.1 hrest)
      exact absurd hj (Fin.not_lt.2 hle)
    have hup := hbefore j ((List.mem_append.1 hmem).resolve_right hnot)
    simp [(h j).2 hPj] at hup

/-! ## The whole keypad -/

/-- **The keypad is determined by its history.** Behind any events on a new keypad:

* a key is down just when its last press or release was a press, and marked just when a release of
  it came while it was down since the last end of a frame, be it down again or not;
* these are the answers to all questions about a key by its number;
* the least key that is down is found, and the least one that is down and not marked;
* a number that belongs to no key is refused and changes nothing, and the presses and releases of
  all other numbers succeed;
* presses and releases of different keys commute, and neither decides how the other ends. -/
theorem determined_by_history (history : List KeyEvent) :
    let p := after history
    (∀ k, (p.get k).pressed = true ↔ LastPressed k history) ∧
    (∀ k, (p.get k).justReleased = true ↔ ReleasedInFrame k history) ∧
    (∀ key (k : Fin 16), key.toNat = k.val → ∃ down marked, p.isPressed key = .ok down ∧
      p.wasReleased key = .ok marked ∧ p.state? key = some ⟨down, marked⟩ ∧
      (down = true ↔ LastPressed k history) ∧ (marked = true ↔ ReleasedInFrame k history)) ∧
    IsLeastKey (LastPressed · history) p.firstPressed ∧
    IsLeastKey (fun k => LastPressed k history ∧ ¬ReleasedInFrame k history) p.firstFresh ∧
    (∀ event key, event.key? = some key → 16 ≤ key.toNat →
      p.handle event = .failed p (.fault (.invalidKey key))) ∧
    (∀ event key, event.key? = some key → key.toNat < 16 → (p.handle event).result = .ok ()) ∧
    (∀ key, 16 ≤ key.toNat → p.isPressed key = .error (.fault (.invalidKey key)) ∧
      p.wasReleased key = .error (.fault (.invalidKey key)) ∧ p.state? key = none) ∧
    ∀ a b i j, a.key? = some i → b.key? = some j → i ≠ j →
      ((p.handle a).state.handle b).state = ((p.handle b).state.handle a).state ∧
        ((p.handle a).state.handle b).result = (p.handle b).result := by
  intro p
  refine ⟨pressed_after history, justReleased_after history, fun key k hkey => ?_, ?_, ?_,
    fun event key hkey hle => handle_of_le hkey hle,
    fun event key hkey hlt => result_handle_of_lt hkey hlt,
    fun key hle => ⟨isPressed_of_le hle, wasReleased_of_le hle, state?_of_le hle⟩,
    fun a b i j ha hb hne => ⟨handle_comm ha hb hne, result_handle _ _ b⟩⟩
  · exact ⟨(p.get k).pressed, (p.get k).justReleased, isPressed_eq hkey, wasReleased_eq hkey,
      state?_eq hkey, pressed_after history k, justReleased_after history k⟩
  · exact isLeastKey_find? _ _ (pressed_after history)
  · refine isLeastKey_find? _ _ fun k => ?_
    rw [Bool.and_eq_true, Bool.not_eq_true', ← Bool.not_eq_true, pressed_after, justReleased_after]

/-- Key 4 went up and is down again, so that the least key that is down is not the least fresh one,
and number 16 belongs to no key. -/
theorem determined_by_history_repressed :
    let history : List KeyEvent :=
      [.press 4, .endFrame, .release 4, .press 12, .press 4, .press 16]
    let p := after history
    LastPressed 4 history ∧ ReleasedInFrame 4 history ∧ p.isPressed 4 = .ok true ∧
      p.wasReleased 4 = .ok true ∧ p.state? 4 = some ⟨true, true⟩ ∧ p.firstPressed = some 4 ∧
      p.firstFresh = some 12 ∧ p.handle (.release 16) = .failed p (.fault (.invalidKey 16)) ∧
      (p.handle (.release 4)).result = .ok () ∧
      ((p.handle (.release 4)).state.handle (.press 5)).state =
        ((p.handle (.press 5)).state.handle (.release 4)).state := by
  intro history p
  obtain ⟨hpressed, hmarked, hanswers, -, -, hrefused, hsucceeds, -, hcomm⟩ :=
    determined_by_history history
  have hlast : LastPressed 4 history := (hpressed 4).1 (by decide +kernel)
  have hreleased : ReleasedInFrame 4 history := (hmarked 4).1 (by decide +kernel)
  obtain ⟨down, marked, hdown, hup, hstate, hdown_iff, hmarked_iff⟩ := hanswers 4 4 rfl
  obtain rfl := hdown_iff.2 hlast
  obtain rfl := hmarked_iff.2 hreleased
  have hfirst : p.firstPressed = some 4 := by decide +kernel
  have hfresh : p.firstFresh = some 12 := by decide +kernel
  exact ⟨hlast, hreleased, hdown, hup, hstate, hfirst, hfresh,
    hrefused (.release 16) 16 rfl (by decide), hsucceeds (.release 4) 4 rfl (by decide),
    (hcomm (.release 4) (.press 5) 4 5 rfl rfl (by decide)).1⟩

end Keypad

end Chip8
