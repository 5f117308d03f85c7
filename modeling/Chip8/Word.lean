import Chip8.Fault

/-!
# Sixteen-bit words

Words made of bytes, and sums and differences of words that do not wrap: past the range of a word
there is no result. Addresses of memory cells do wrap, at twelve bits.
-/

namespace Chip8

/-- A value, or why there is none. -/
abbrev Result (α : Type) := Except Stop α

namespace Word

/-- The big-endian word of two bytes. -/
def ofBytes (high low : UInt8) : UInt16 :=
  UInt16.ofNat (high.toNat * 256 + low.toNat)

/-- The sum, if it is a word. -/
def add (a : UInt16) (b : Nat) : Result UInt16 :=
  if a.toNat + b < 65536 then .ok (UInt16.ofNat (a.toNat + b)) else .error .stuck

/-- The difference, if it is a word. -/
def sub (a : UInt16) (b : Nat) : Result UInt16 :=
  if b ≤ a.toNat then .ok (UInt16.ofNat (a.toNat - b)) else .error .stuck

/-- The low twelve bits. -/
def wrap (a : UInt16) : UInt16 :=
  UInt16.ofNat (a.toNat % 4096)

theorem add_of_lt {a : UInt16} {b : Nat} (h : a.toNat + b < 65536) :
    add a b = .ok (UInt16.ofNat (a.toNat + b)) := by
  simp [add, h]

theorem sub_of_le {a : UInt16} {b : Nat} (h : b ≤ a.toNat) :
    sub a b = .ok (UInt16.ofNat (a.toNat - b)) := by
  simp [sub, h]

@[simp] theorem toNat_wrap (a : UInt16) : (wrap a).toNat = a.toNat % 4096 := by
  simp only [wrap, UInt16.toNat_ofNat']
  omega

theorem toNat_ofBytes (high low : UInt8) :
    (ofBytes high low).toNat = high.toNat * 256 + low.toNat := by
  have hhigh := high.toNat_lt
  have hlow := low.toNat_lt
  rw [ofBytes, UInt16.toNat_ofNat']
  omega

end Word

end Chip8
