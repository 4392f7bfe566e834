import Mathlib.Tactic.Common

/-!
# Bitmaps of several words

A bitmap is `k` words of `w` bits, least significant bit first, read as the indices of its set bits
(`bit`).
-/

namespace Lib

/-- `k` words of `w` bits. -/
abbrev Bitmap (w k : Nat) := Vector (BitVec w) k

namespace Bitmap

variable {w k : Nat}

/-- Whether the bit `i` is set; there is none from `w * k` on. -/
def bit (b : Bitmap w k) (i : Nat) : Bool :=
  if h : i / w < k then b[i / w].getLsbD (i % w) else false

theorem bit_of_lt {b : Bitmap w k} {i : Nat} (h : i / w < k) :
    b.bit i = b[i / w].getLsbD (i % w) := dif_pos h

@[simp] theorem bit_zero (i : Nat) : bit (Vector.replicate k (0#w)) i = false := by
  by_cases h : i / w < k
  · rw [bit_of_lt h, Vector.getElem_replicate, BitVec.getLsbD_zero]
  · exact dif_neg h

theorem ushiftRight_and_one (x : BitVec w) (i : Nat) (hw : 0 < w) :
    ((x >>> i) &&& 1#w == 1#w) = x.getLsbD i := by
  rw [Bool.eq_iff_iff, beq_iff_eq]
  constructor
  · intro h
    have := congrArg (fun y : BitVec w => y.getLsbD 0) h
    simpa [hw] using this
  · intro h
    apply BitVec.eq_of_getLsbD_eq
    intro j hj
    by_cases hj₀ : j = 0 <;> simp [hj₀, h, hw]

/-- Setting one bit of one word sets that bit and no other. -/
theorem bit_set {b : Bitmap w k} {i : Nat} (hw : 0 < w) (hi : i / w < k) (j : Nat) :
    bit (b.set (i / w) (b[i / w] ||| 1#w <<< (i % w))) j = (b.bit j || decide (j = i)) := by
  by_cases hj : j / w < k
  · rw [bit_of_lt hj, bit_of_lt hj, Vector.getElem_set]
    have hlt := Nat.mod_lt j hw
    have hsame : j = i ↔ i / w = j / w ∧ j % w = i % w := by
      refine ⟨fun h => ⟨by rw [h], by rw [h]⟩, fun ⟨h, h'⟩ => ?_⟩
      rw [← Nat.div_add_mod j w, ← Nat.div_add_mod i w, h, h']
    by_cases h : i / w = j / w
    · simp only [h, if_true, true_and] at hsame ⊢
      rw [BitVec.getLsbD_or, BitVec.getLsbD_shiftLeft, BitVec.getLsbD_one]
      congr 1
      rw [Bool.eq_iff_iff]
      simp only [hlt, hw, hsame, decide_true, Bool.true_and, Bool.and_eq_true, Bool.not_eq_true',
        decide_eq_false_iff_not, decide_eq_true_eq]
      omega
    · simp only [h, if_false, false_and, iff_false] at hsame ⊢
      simp [hsame]
  · rw [bit, bit, dif_neg hj, dif_neg hj, decide_eq_false, Bool.or_false]
    rintro rfl
    exact hj hi

/-- A word after a shift by `ws` words and `bs` bits: the word `ws` below moved up, with what its
    lower neighbour loses. -/
def Shifted (b : Bitmap w k) (ws bs : Nat) (i : Nat) (v : BitVec w) : Prop :=
  ∀ j < w, v.getLsbD j =
    ((decide (ws ≤ i) && decide (bs ≤ j) && b.bit (w * (i - ws) + (j - bs))) ||
      (decide (ws < i) && decide (j < bs) && b.bit (w * (i - ws - 1) + (w + j - bs))))

/-- A bitmap of shifted words is the bitmap shifted. -/
theorem bit_eq_of_words {b out : Bitmap w k} {n : Nat} (hw : 0 < w)
    (h : ∀ (i : Nat) (hi : i < k), Shifted b (n / w) (n % w) i out[i]) (i : Nat) (hi : i / w < k) :
    out.bit i = (decide (n ≤ i) && b.bit (i - n)) := by
  rw [bit_of_lt hi, h _ hi _ (Nat.mod_lt i hw)]
  have hn := Nat.div_add_mod n w
  have hi' := Nat.div_add_mod i w
  have hnw := Nat.mod_lt n hw
  have hiw := Nat.mod_lt i hw
  rcases Nat.lt_trichotomy (i / w) (n / w) with hlt | heq | hgt
  · -- A word below the shift: all its bits come from before the first one.
    have hbelow : i < n := by
      have := Nat.mul_le_mul_left w (Nat.succ_le_of_lt hlt)
      rw [Nat.mul_succ] at this
      omega
    simp [Nat.not_le.2 hlt, Nat.not_lt.2 (Nat.le_of_lt hlt), Nat.not_le.2 hbelow]
  · -- The word of the first bit.
    rw [heq] at hi' ⊢
    have hle : n ≤ i ↔ n % w ≤ i % w := by omega
    have hidx : n % w ≤ i % w → i % w - n % w = i - n := by omega
    by_cases hm : n % w ≤ i % w
    · simp [hm, hle, hidx hm]
    · simp [hm, hle]
  · -- A word above it, whose low bits come from the neighbour.
    have hmul := Nat.mul_le_mul_left w (Nat.succ_le_of_lt hgt)
    rw [Nat.mul_succ] at hmul
    have hle : n ≤ i := by omega
    have hsub : w * (i / w - n / w) = w * (i / w) - w * (n / w) := Nat.mul_sub ..
    have hsub' : w * (i / w - n / w - 1) = w * (i / w) - w * (n / w) - w := by
      rw [Nat.mul_sub, Nat.mul_sub, Nat.mul_one]
    by_cases hm : n % w ≤ i % w
    · have hidx : w * (i / w - n / w) + (i % w - n % w) = i - n := by omega
      simp [hm, hle, Nat.le_of_lt hgt, Nat.not_lt.2 hm, hidx]
    · have hidx : w * (i / w - n / w - 1) + (w + i % w - n % w) = i - n := by omega
      simp [hm, hle, hgt, Nat.not_le.1 hm, hidx]

end Bitmap
end Lib
