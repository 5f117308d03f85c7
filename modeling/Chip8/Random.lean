import Chip8.Random.ChaCha

/-!
# Random numbers

A stream of bytes fixed by a seed. Bytes are drawn one by one, so the generator is its seed and how
many bytes were drawn: `Random.next` gives the byte `byteAt seed drawn`.
-/

namespace Chip8

namespace Random

/-- The state of the key's generator after `state`. -/
def keyStep (state : UInt64) : UInt64 :=
  state * 6364136223846793005 + 11634580027462260723

/-- The key word of a state of the key's generator: a permuted high part of it, rotated. -/
def keyWord (state : UInt64) : UInt32 :=
  ChaCha.rotateRight (((state >>> 18 ^^^ state) >>> 27).toUInt32) (state >>> 59).toUInt32

/-- The key of a seed: the words of the first eight states after it. -/
def keyOf (seed : UInt64) : ChaCha.Key :=
  Vector.ofFn fun i => keyWord (Nat.repeat keyStep (i + 1) seed)

/-- Byte `k` of the stream of a seed: the low byte of the word that far into the blocks. -/
def byteAt (seed : UInt64) (k : Nat) : UInt8 :=
  (ChaCha.block (keyOf seed) (UInt64.ofNat (k / 16)))[k % 16].toUInt8

end Random

/-- A generator of random bytes. -/
structure Random where
  seed : UInt64
  drawn : Nat := 0
  deriving DecidableEq, Repr

namespace Random

/-- The next byte, and the generator after it. -/
def next (r : Random) : UInt8 × Random :=
  (byteAt r.seed r.drawn, { r with drawn := r.drawn + 1 })

end Random

end Chip8
