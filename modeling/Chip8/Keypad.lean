import Chip8.Word

/-!
# The keypad

The sixteen keys as the machine sees them. The host presses and releases keys between instructions;
instructions only look. A key keeps two flags: whether it is down, and whether it went up since the
last frame ended, which stays true if it goes down again in the same frame.
-/

namespace Chip8

/-- A number that may stand for a key: those below sixteen do. -/
abbrev KeyNumber := UInt8

/-- The number's value. -/
def KeyNumber.val (key : KeyNumber) : Nat := key.toNat

/-- The number of a key. -/
def KeyNumber.of (k : Fin 16) : KeyNumber := UInt8.ofNat k.val

/-- What is known of a key. -/
structure KeyState where
  pressed : Bool := false
  justReleased : Bool := false
  deriving DecidableEq, Repr

/-- The state of each key. -/
structure Keypad where
  keys : Vector KeyState 16
  deriving DecidableEq

namespace Keypad

/-- The number of a key, if there is such a key. -/
def keyOf (key : UInt8) : Result (Fin 16) :=
  if h : key.toNat < 16 then .ok ⟨key.toNat, h⟩ else .error (.fault (.invalidKey key))

/-- All keys up, and none of them just released. -/
def fresh : Keypad := ⟨Vector.replicate 16 {}⟩

/-- The state of a key. -/
def get (p : Keypad) (k : Fin 16) : KeyState := p.keys[k]

/-- Replaces the state of a key. -/
def update (p : Keypad) (k : Fin 16) (f : KeyState → KeyState) : Keypad :=
  ⟨p.keys.set k (f p.keys[k])⟩

/-- The state of a key, if there is such a key. -/
def state? (p : Keypad) (key : UInt8) : Option KeyState := p.keys[key.toNat]?

/-- A key goes down. A release earlier in the frame stays on record. -/
def pressKey (p : Keypad) (k : Fin 16) : Keypad :=
  p.update k fun s => { s with pressed := true }

/-- A key goes up, which is on record only if it was down. -/
def releaseKey (p : Keypad) (k : Fin 16) : Keypad :=
  p.update k fun s => if s.pressed then ⟨false, true⟩ else s

theorem get_update (p : Keypad) (j k : Fin 16) (f : KeyState → KeyState) :
    (p.update j f).get k = if j = k then f (p.get k) else p.get k := by
  simp only [get, update, Fin.getElem_fin, Vector.getElem_set, Fin.ext_iff]
  split <;> simp_all

/-! ## Keys by any number -/

/-- The key with this number goes down. -/
def press (p : Keypad) (key : UInt8) : Result Keypad := do
  return p.pressKey (← keyOf key)

/-- The key with this number goes up. -/
def release (p : Keypad) (key : UInt8) : Result Keypad := do
  return p.releaseKey (← keyOf key)

/-- Whether the key with this number is down. -/
def isPressed (p : Keypad) (key : UInt8) : Result Bool := do
  return (p.get (← keyOf key)).pressed

/-- Whether the key with this number went up since the last frame ended. -/
def wasReleased (p : Keypad) (key : UInt8) : Result Bool := do
  return (p.get (← keyOf key)).justReleased

/-- Whether the key with this number is down and did not go up since the last frame ended. -/
def isHeld (p : Keypad) (key : UInt8) : Result Bool := do
  if ← p.isPressed key then return !(← p.wasReleased key) else return false

/-! ## All keys -/

/-- The least key that is down. -/
def firstPressed (p : Keypad) : Option (Fin 16) :=
  (List.finRange 16).find? fun k => (p.get k).pressed

/-- The least key that is down and did not go up since the last frame ended. -/
def firstFresh (p : Keypad) : Option (Fin 16) :=
  (List.finRange 16).find? fun k => (p.get k).pressed && !(p.get k).justReleased

/-- The frame ends: its releases are forgotten. -/
def endFrame (p : Keypad) : Keypad :=
  ⟨p.keys.map fun s => { s with justReleased := false }⟩

theorem get_endFrame (p : Keypad) (k : Fin 16) :
    p.endFrame.get k = { p.get k with justReleased := false } := by
  simp [get, endFrame]

/-- The keys that are down, ascending. -/
def down (p : Keypad) : List (Fin 16) :=
  (List.finRange 16).filter fun k => (p.get k).pressed

/-- The keys that went up since the last frame ended, ascending. -/
def up (p : Keypad) : List (Fin 16) :=
  (List.finRange 16).filter fun k => (p.get k).justReleased

end Keypad

end Chip8
