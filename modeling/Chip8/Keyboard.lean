import Chip8.Event
import Chip8.Keypad

/-!
# The host's keyboard

Which characters stand for the sixteen keys, and how long a key is held. A terminal reports that a
key went down, and again while it is held, but never that it came up; so a key counts as held until
more than 200 milliseconds have passed since its last report.

* `keyFor?`: the key of a character;
* `HeldKeys`: the last report of each held key, beside the keypad it drives;
* `handle`, `attempt`: an event on the keys themselves, and through calls that could fail.
-/

namespace Chip8

namespace Keyboard

/-- The characters of the keys, from the left half of a keyboard. -/
def keys : List (Char × Fin 16) :=
  [('x', 0x0), ('1', 0x1), ('2', 0x2), ('3', 0x3), ('q', 0x4), ('w', 0x5), ('e', 0x6), ('a', 0x7),
    ('s', 0x8), ('d', 0x9), ('z', 0xA), ('c', 0xB), ('4', 0xC), ('r', 0xD), ('f', 0xE), ('v', 0xF)]

/-- The key of a character. -/
def keyFor? (c : Char) : Option (Fin 16) := keys.lookup c

/-- How many milliseconds after its last report a key still counts as held. -/
def holdTime : Nat := 200

end Keyboard

/-- What happens to the memory of reports. -/
inductive HoldEvent
  /-- A key is reported at a time, in milliseconds. -/
  | report (k : Fin 16) (time : Nat)
  /-- The stale keys are released. -/
  | releaseStale (now : Nat)
  | endFrame
  deriving DecidableEq, Repr

/-- When each held key was last reported, in milliseconds, and the keypad. -/
structure HeldKeys where
  lastSeen : Vector (Option Nat) 16
  keypad : Keypad
  deriving DecidableEq

namespace HeldKeys

/-- No key was reported. -/
def fresh : HeldKeys := ⟨Vector.replicate 16 none, .fresh⟩

/-- The last reports with that of one key replaced. -/
def seen (h : HeldKeys) (k : Fin 16) (time : Option Nat) : Vector (Option Nat) 16 :=
  Vector.ofFn fun j => if j = k then time else h.lastSeen.get j

/-- A key is reported. -/
def report (h : HeldKeys) (k : Fin 16) (time : Nat) : HeldKeys :=
  ⟨h.seen k (some time), h.keypad.pressKey k⟩

/-- Whether a key was reported too long ago. A report later than now is no time ago. -/
def stale (h : HeldKeys) (now : Nat) (k : Fin 16) : Bool :=
  match h.lastSeen.get k with
  | some time => Keyboard.holdTime < now - time
  | none => false

/-- Releases one key if it is stale. -/
def releaseIfStale (now : Nat) (h : HeldKeys) (k : Fin 16) : HeldKeys :=
  if h.stale now k then ⟨h.seen k none, h.keypad.releaseKey k⟩ else h

/-- Releases all stale keys. -/
def releaseStale (h : HeldKeys) (now : Nat) : HeldKeys :=
  (List.finRange 16).foldl (releaseIfStale now) h

/-- A frame ends. -/
def endFrame (h : HeldKeys) : HeldKeys := { h with keypad := h.keypad.endFrame }

/-- The memory and the keypad after an event. -/
def handle (h : HeldKeys) : HoldEvent → HeldKeys
  | .report k time => h.report k time
  | .releaseStale now => h.releaseStale now
  | .endFrame => h.endFrame

/-- Releases one key if it is stale, through the keypad's call for any number. -/
def attemptRelease (now : Nat) (h : HeldKeys) (k : Fin 16) : Result HeldKeys :=
  if h.stale now k then (h.keypad.release (KeyNumber.of k)).map (⟨h.seen k none, ·⟩) else .ok h

/-- An event through the keypad's calls for any number, which refuse a number that belongs to no
key. -/
def attempt (h : HeldKeys) : HoldEvent → Result HeldKeys
  | .report k time => (h.keypad.press (KeyNumber.of k)).map (⟨h.seen k (some time), ·⟩)
  | .releaseStale now => (List.finRange 16).foldlM (attemptRelease now) h
  | .endFrame => .ok h.endFrame

/-- The keys that are held, ascending. -/
def tracked (h : HeldKeys) : List (Fin 16) :=
  (List.finRange 16).filter fun k => (h.lastSeen.get k).isSome

/-- What is logged when the keyboard gives the terminal back while it is not in raw mode; no key
changes. -/
def suspendNotice : Notice := .rawModeOff

end HeldKeys

end Chip8
