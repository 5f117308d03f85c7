/-!
# ChaCha with twelve rounds

The block function of the ChaCha stream cipher, in the form with a 64-bit block counter: sixteen
words made of a constant, a key of eight words, the counter and a nonce that is zero here.
-/

namespace Chip8.ChaCha

/-- The words a block is computed on. -/
abbrev Block := Vector UInt32 16

/-- The place of a word in a block. -/
abbrev Place := Fin 16

/-- The key. -/
abbrev Key := Vector UInt32 8

/-- Rotation to the left by `n` bits, `0 < n < 32`. -/
def rotateLeft (x n : UInt32) : UInt32 := x <<< n ||| x >>> (32 - n)

/-- Rotation to the right by `n` bits. -/
def rotateRight (x n : UInt32) : UInt32 := x >>> n ||| x <<< (32 - n)

/-- The quarter round on the words at four places. -/
def quarterRound (s : Block) (a b c d : Place) : Block :=
  let s := s.set a (s[a] + s[b])
  let s := s.set d (rotateLeft (s[d] ^^^ s[a]) 16)
  let s := s.set c (s[c] + s[d])
  let s := s.set b (rotateLeft (s[b] ^^^ s[c]) 12)
  let s := s.set a (s[a] + s[b])
  let s := s.set d (rotateLeft (s[d] ^^^ s[a]) 8)
  let s := s.set c (s[c] + s[d])
  s.set b (rotateLeft (s[b] ^^^ s[c]) 7)

/-- A round on the columns and a round on the diagonals. -/
def doubleRound (s : Block) : Block :=
  let s := quarterRound s 0 4 8 12
  let s := quarterRound s 1 5 9 13
  let s := quarterRound s 2 6 10 14
  let s := quarterRound s 3 7 11 15
  let s := quarterRound s 0 5 10 15
  let s := quarterRound s 1 6 11 12
  let s := quarterRound s 2 7 8 13
  quarterRound s 3 4 9 14

/-- The words before the rounds. -/
def start (key : Key) (counter : UInt64) : Block :=
  #v[0x61707865, 0x3320646E, 0x79622D32, 0x6B206574,
    key[0], key[1], key[2], key[3], key[4], key[5], key[6], key[7],
    counter.toUInt32, (counter >>> 32).toUInt32, 0, 0]

/-- The block of a counter: six double rounds, and the words they started from added. -/
def block (key : Key) (counter : UInt64) : Block :=
  let s := start key counter
  let mixed := Nat.repeat doubleRound 6 s
  Vector.zipWith (· + ·) mixed s

end Chip8.ChaCha
