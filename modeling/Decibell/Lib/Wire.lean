import Mathlib.Algebra.Group.Nat.Defs
import Mathlib.Algebra.Group.Int.Defs
import Mathlib.Algebra.GroupWithZero.Nat

/-!
# Sizes on the wire

How many bytes the fields of a Protocol Buffers message take. A field with its default value
takes none; any other is written with its tag, and a text, a blob or a message with its
length.
-/

namespace Lib

/-- The bytes of a number of 64 bits, seven bits in each. -/
def varintSize (n : Nat) : Nat :=
  if n < 2 ^ 7 then 1
  else if n < 2 ^ 14 then 2
  else if n < 2 ^ 21 then 3
  else if n < 2 ^ 28 then 4
  else if n < 2 ^ 35 then 5
  else if n < 2 ^ 42 then 6
  else if n < 2 ^ 49 then 7
  else if n < 2 ^ 56 then 8
  else if n < 2 ^ 63 then 9
  else 10

/-- The tag: the number of the field and three bits for its kind. -/
def tagSize (field : Nat) : Nat := varintSize (8 * field)

/-- An integer, in 64 bits of two's complement. -/
def intSize (field : Nat) (v : Int) : Nat :=
  if v = 0 then 0 else tagSize field + varintSize (v % 2 ^ 64).toNat

def boolSize (field : Nat) (v : Bool) : Nat := if v then tagSize field + 1 else 0

/-- A message of the given size. -/
def messageSize (field size : Nat) : Nat := tagSize field + varintSize size + size

/-- A text or a blob of the given length. -/
def bytesSize (field length : Nat) : Nat := if length = 0 then 0 else messageSize field length

/-- Several numbers, packed. -/
def packedSize (field : Nat) (vs : List Int) : Nat :=
  if vs = [] then 0 else messageSize field (vs.map fun v => varintSize (v % 2 ^ 64).toNat).sum

@[simp] theorem intSize_zero (field : Nat) : intSize field 0 = 0 := rfl

@[simp] theorem boolSize_false (field : Nat) : boolSize field false = 0 := rfl

@[simp] theorem bytesSize_zero (field : Nat) : bytesSize field 0 = 0 := rfl

@[simp] theorem packedSize_nil (field : Nat) : packedSize field [] = 0 := rfl

/-- A message below 2 MiB takes three bytes for its length at most. -/
theorem varintSize_le_three {n : Nat} (h : n < 2 ^ 21) : varintSize n ≤ 3 := by
  unfold varintSize
  split
  · omega
  split
  · omega
  · exact Nat.le_refl 3

end Lib
