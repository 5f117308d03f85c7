/-!
# The beeper

A beeper that is silent but remembers whether it sounds and how often it was switched, and the pitch
of one that is not silent.
-/

namespace Chip8

/-- A silent beeper. -/
structure Beeper where
  sounding : Bool := false
  switches : Nat := 0
  deriving DecidableEq, Repr

/-- Switches the beeper, which counts even if it changes nothing. -/
def Beeper.switch (b : Beeper) (on : Bool) : Beeper := ⟨on, b.switches + 1⟩

/-- An audible beeper. -/
structure Speaker where
  pitch : UInt16
  sounding : Bool := false
  deriving DecidableEq, Repr

namespace Speaker

/-- The usual pitch, in hertz. -/
def usualPitch : UInt16 := 2093

/-- A speaker of a pitch. No pitch at all would be silence, so it stands for the usual one. -/
def ofPitch (pitch : UInt16) : Speaker := ⟨if pitch = 0 then usualPitch else pitch, false⟩

end Speaker

end Chip8
