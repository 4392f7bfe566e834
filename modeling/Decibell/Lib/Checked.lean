import Mathlib.Algebra.Group.Nat.Defs
import Mathlib.Algebra.Order.GroupWithZero.Basic
import Mathlib.Tactic.Common

/-!
# Checked arithmetic

Sums, differences, products and quotients of machine integers of a width, where the result is
nothing if it does not fit, or if the divisor is zero; and the integer that the low bits of a
number are in two's complement.
-/

namespace Lib

variable {w a b : Nat}

def checkedAdd (w a b : Nat) : Option Nat := if a + b < 2 ^ w then some (a + b) else none
def checkedSub (a b : Nat) : Option Nat := if b ≤ a then some (a - b) else none
def checkedMul (w a b : Nat) : Option Nat := if a * b < 2 ^ w then some (a * b) else none
def checkedDiv (a b : Nat) : Option Nat := if b = 0 then none else some (a / b)

/-- The low `w` bits of a number, as a signed integer. -/
def wrapInt (w n : Nat) : Int := (BitVec.ofNat w n).toInt

theorem checkedAdd_of_lt (h : a + b < 2 ^ w) : checkedAdd w a b = some (a + b) := if_pos h

theorem checkedSub_of_le (h : b ≤ a) : checkedSub a b = some (a - b) := if_pos h

theorem checkedMul_of_lt (h : a * b < 2 ^ w) : checkedMul w a b = some (a * b) := if_pos h

theorem checkedDiv_of_pos (h : 0 < b) : checkedDiv a b = some (a / b) := if_neg (Nat.ne_of_gt h)

/-- The product of two numbers fits into twice their width. -/
theorem checkedMul_of_half {v : Nat} (ha : a < 2 ^ v) (hb : b < 2 ^ v) :
    checkedMul (v + v) a b = some (a * b) := by
  refine checkedMul_of_lt ?_
  rw [Nat.pow_add]
  exact Nat.mul_lt_mul'' ha hb

theorem wrapInt_of_lt {v n : Nat} (h : n < 2 ^ v) : wrapInt (v + 1) n = n := by
  have hpow : 2 ^ (v + 1) = 2 * 2 ^ v := by rw [Nat.pow_succ, Nat.mul_comm]
  have hnat : (BitVec.ofNat (v + 1) n).toNat = n := by
    rw [BitVec.toNat_ofNat, Nat.mod_eq_of_lt (by omega)]
  rw [wrapInt, BitVec.toInt_eq_toNat_of_lt (by rw [hnat]; omega), hnat]

end Lib
