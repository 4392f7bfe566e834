import Decibell.Community.Text
import Mathlib.Algebra.Group.Nat.Defs

/-!
# Folding

Names are sorted, and texts searched, without regard to case or accents: `searchFold` lowers
the letters of a text and takes their accents away.
-/

namespace Decibell

/-- U+00C0 to U+017F in lower case without accents. -/
def latinFold : List Nat :=
  [0x0061, 0x0061, 0x0061, 0x0061, 0x0061, 0x0061, 0x00E6, 0x0063,
    0x0065, 0x0065, 0x0065, 0x0065, 0x0069, 0x0069, 0x0069, 0x0069,
    0x00F0, 0x006E, 0x006F, 0x006F, 0x006F, 0x006F, 0x006F, 0x00D7,
    0x00F8, 0x0075, 0x0075, 0x0075, 0x0075, 0x0079, 0x00FE, 0x00DF,
    0x0061, 0x0061, 0x0061, 0x0061, 0x0061, 0x0061, 0x00E6, 0x0063,
    0x0065, 0x0065, 0x0065, 0x0065, 0x0069, 0x0069, 0x0069, 0x0069,
    0x00F0, 0x006E, 0x006F, 0x006F, 0x006F, 0x006F, 0x006F, 0x00F7,
    0x00F8, 0x0075, 0x0075, 0x0075, 0x0075, 0x0079, 0x00FE, 0x0079,
    0x0061, 0x0061, 0x0061, 0x0061, 0x0061, 0x0061, 0x0063, 0x0063,
    0x0063, 0x0063, 0x0063, 0x0063, 0x0063, 0x0063, 0x0064, 0x0064,
    0x0111, 0x0111, 0x0065, 0x0065, 0x0065, 0x0065, 0x0065, 0x0065,
    0x0065, 0x0065, 0x0065, 0x0065, 0x0067, 0x0067, 0x0067, 0x0067,
    0x0067, 0x0067, 0x0067, 0x0067, 0x0068, 0x0068, 0x0127, 0x0127,
    0x0069, 0x0069, 0x0069, 0x0069, 0x0069, 0x0069, 0x0069, 0x0069,
    0x0069, 0x0069, 0x0133, 0x0133, 0x006A, 0x006A, 0x006B, 0x006B,
    0x0138, 0x006C, 0x006C, 0x006C, 0x006C, 0x006C, 0x006C, 0x0140,
    0x0140, 0x0142, 0x0142, 0x006E, 0x006E, 0x006E, 0x006E, 0x006E,
    0x006E, 0x0149, 0x014B, 0x014B, 0x006F, 0x006F, 0x006F, 0x006F,
    0x006F, 0x006F, 0x0153, 0x0153, 0x0072, 0x0072, 0x0072, 0x0072,
    0x0072, 0x0072, 0x0073, 0x0073, 0x0073, 0x0073, 0x0073, 0x0073,
    0x0073, 0x0073, 0x0074, 0x0074, 0x0074, 0x0074, 0x0167, 0x0167,
    0x0075, 0x0075, 0x0075, 0x0075, 0x0075, 0x0075, 0x0075, 0x0075,
    0x0075, 0x0075, 0x0075, 0x0075, 0x0077, 0x0077, 0x0079, 0x0079,
    0x0079, 0x007A, 0x007A, 0x007A, 0x007A, 0x007A, 0x007A, 0x017F]

def foldCodePoint (c : Nat) : Nat :=
  if c < 0x80 then if 65 ≤ c ∧ c ≤ 90 then c + 32 else c
  else if 0xC0 ≤ c ∧ c < 0x180 then latinFold.getD (c - 0xC0) 0
  else if 0x391 ≤ c ∧ c ≤ 0x3A9 ∧ c ≠ 0x3A2 then c + 0x20
  else if 0x410 ≤ c ∧ c ≤ 0x42F then c + 0x20
  else if 0x400 ≤ c ∧ c ≤ 0x40F then c + 0x50
  else c

/-- A continuation byte with six bits of a code point. -/
def continuation (c : Nat) : UInt8 := UInt8.ofNat (0x80 + c % 64)

def appendUtf8 (c : Nat) : Bytes :=
  if c < 0x80 then [UInt8.ofNat c]
  else if c < 0x800 then [UInt8.ofNat (0xC0 + c / 64), continuation c]
  else if c < 0x10000 then
    [UInt8.ofNat (0xE0 + c / 4096), continuation (c / 64), continuation c]
  else
    [UInt8.ofNat (0xF0 + c / 262144), continuation (c / 4096), continuation (c / 64),
      continuation c]

/-- A code point, folded; combining marks of decomposed accents go. -/
def emitFolded (c : Nat) (rest : Bytes) : Bytes :=
  if 0x300 ≤ c ∧ c ≤ 0x36F then rest else appendUtf8 (foldCodePoint c) ++ rest

def lowBits (b : UInt8) (n : Nat) : Nat := b.toNat % 2 ^ n

/-- Folds a text; bytes that start no code point stay, as does one cut off. -/
def searchFold : Bytes → Bytes
  | [] => []
  | b :: s =>
    if b < 0x80 then (if 65 ≤ b ∧ b ≤ 90 then b + 32 else b) :: searchFold s
    else if b &&& 0xE0 = 0xC0 then
      match s with
      | s₁ :: s => emitFolded (lowBits b 5 * 64 + lowBits s₁ 6) (searchFold s)
      | s => b :: s
    else if b &&& 0xF0 = 0xE0 then
      match s with
      | s₁ :: s₂ :: s =>
        emitFolded ((lowBits b 4 * 64 + lowBits s₁ 6) * 64 + lowBits s₂ 6) (searchFold s)
      | s => b :: s
    else if b &&& 0xF8 = 0xF0 then
      match s with
      | s₁ :: s₂ :: s₃ :: s =>
        emitFolded (((lowBits b 3 * 64 + lowBits s₁ 6) * 64 + lowBits s₂ 6) * 64 + lowBits s₃ 6)
          (searchFold s)
      | s => b :: s
    else b :: searchFold s

-- "Ää" with a composed and with a decomposed accent
example : searchFold [0xC3, 0x84, 0xC3, 0xA4] = [97, 97] := by decide
example : searchFold [0x41, 0xCC, 0x88, 0x61, 0xCC, 0x88] = [97, 97] := by decide

end Decibell
