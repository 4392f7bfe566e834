import Mathlib.Algebra.Order.Floor.Div
import Decibell.Lib.Slices

/-!
# Lists, chunk by chunk

A list is cut into chunks of one length, the last of which may be shorter, and a function of a chunk
and its number makes a piece of each (`perChunk`).
-/

namespace Lib

open List

variable {α β : Type*}

/-- What `f` makes of a list's chunks of `c`, from number `i` on. -/
def perChunk (c : Nat) (f : Nat → List α → List β) (i : Nat) (xs : List α) : List β :=
  if xs.length = 0 ∨ c = 0 then [] else f i (xs.take c) ++ perChunk c f (i + 1) (xs.drop c)
termination_by xs.length
decreasing_by
  rw [List.length_drop]
  omega

variable {c i t : Nat} {f : Nat → List α → List β} {xs ys : List α}

@[simp] theorem perChunk_nil : perChunk c f i [] = [] := by
  rw [perChunk, if_pos (.inl rfl)]

theorem perChunk_of_ne_nil (hc : 0 < c) (hxs : xs ≠ []) :
    perChunk c f i xs = f i (xs.take c) ++ perChunk c f (i + 1) (xs.drop c) := by
  have hpos : 0 < xs.length := length_pos_iff.2 hxs
  rw [perChunk, if_neg (by omega)]

/-- One chunk, of at most the length. -/
theorem perChunk_of_length_le (hxs : xs ≠ []) (h : xs.length ≤ c) : perChunk c f i xs = f i xs := by
  have hc : 0 < c := Nat.lt_of_lt_of_le (length_pos_iff.2 hxs) h
  rw [perChunk_of_ne_nil hc hxs, take_of_length_le h, drop_of_length_le h, perChunk_nil,
    append_nil]

/-- A list that is cut where a chunk ends. -/
theorem perChunk_append (hc : 0 < c) {n : Nat} (h : xs.length = n * c) :
    perChunk c f i (xs ++ ys) = perChunk c f i xs ++ perChunk c f (i + n) ys := by
  induction n generalizing i xs with
  | zero =>
    rw [Nat.zero_mul, length_eq_zero_iff] at h
    rw [h, perChunk_nil]
    rfl
  | succ n ih =>
    rw [Nat.succ_mul] at h
    have hxs : xs ≠ [] := fun hnil => by rw [hnil, length_nil] at h; omega
    have hle : c ≤ xs.length := by omega
    have hdrop : (xs.drop c).length = n * c := by rw [length_drop]; omega
    rw [perChunk_of_ne_nil hc hxs, perChunk_of_ne_nil hc (append_ne_nil_of_left_ne_nil hxs _),
      take_append_of_le_length hle, drop_append_of_le_length hle, ih hdrop,
      append_assoc, Nat.add_right_comm, Nat.add_assoc]

section Pieces

variable (hc : 0 < c) (hf : ∀ j ys, (f j ys).length = ys.length + t)
include hc hf

/-- A chunk adds its length and what its piece is longer by. -/
theorem length_perChunk :
    (perChunk c f i xs).length = xs.length + (xs.length ⌈/⌉ c) * t := by
  induction hn : xs.length using Nat.strong_induction_on generalizing xs i with
  | _ n ih =>
    subst hn
    rcases eq_or_ne xs [] with rfl | hxs
    · simp
    · have hpos : 0 < xs.length := length_pos_iff.2 hxs
      have hceil : xs.length ⌈/⌉ c = (xs.length - c) ⌈/⌉ c + 1 := by
        rw [Nat.ceilDiv_eq_add_pred_div, Nat.ceilDiv_eq_add_pred_div]
        rcases Nat.lt_or_ge xs.length c with hlt | hge
        · rw [Nat.sub_eq_zero_of_le hlt.le, Nat.div_eq_of_lt (by omega : 0 + c - 1 < c),
            show xs.length + c - 1 = xs.length - 1 + c by omega, Nat.add_div_right _ hc,
            Nat.div_eq_of_lt (by omega)]
        · rw [← Nat.add_div_right _ hc]
          congr 1
          omega
      rw [perChunk_of_ne_nil hc hxs, length_append, hf, length_take,
        ih _ (by omega) length_drop, hceil, Nat.add_one_mul]
      omega

/-- `n` whole chunks. -/
theorem length_perChunk_of_eq {n : Nat} (h : xs.length = n * c) :
    (perChunk c f i xs).length = n * (c + t) := by
  have hceil : n * c ⌈/⌉ c = n := by
    rw [Nat.mul_comm]
    exact smul_ceilDiv hc n
  rw [length_perChunk hc hf, h, hceil, Nat.mul_add]

/-- At most `n` chunks. -/
theorem length_perChunk_le {n : Nat} (h : xs.length ≤ n * c) :
    (perChunk c f i xs).length ≤ n * (c + t) := by
  have hceil : xs.length ⌈/⌉ c ≤ n := (ceilDiv_le_iff_le_mul hc).2 (by rwa [Nat.mul_comm])
  rw [length_perChunk hc hf, Nat.mul_add]
  exact Nat.add_le_add h (Nat.mul_le_mul_right t hceil)

/-- The pieces of the first `n` chunks. -/
theorem take_perChunk (n : Nat) :
    (perChunk c f i xs).take (n * (c + t)) = perChunk c f i (xs.take (n * c)) := by
  rcases Nat.le_total (n * c) xs.length with hle | hle
  · have hlen : (xs.take (n * c)).length = n * c := by rw [length_take, Nat.min_eq_left hle]
    conv_lhs => rw [← take_append_drop (n * c) xs, perChunk_append hc hlen]
    exact take_left' (length_perChunk_of_eq hc hf hlen)
  · -- All chunks are among the first `n`.
    rw [take_of_length_le hle, take_of_length_le (length_perChunk_le hc hf hle)]

/-- The pieces after those of the first `n` chunks. -/
theorem drop_perChunk (n : Nat) :
    (perChunk c f i xs).drop (n * (c + t)) = perChunk c f (i + n) (xs.drop (n * c)) := by
  rcases Nat.le_total (n * c) xs.length with hle | hle
  · have hlen : (xs.take (n * c)).length = n * c := by rw [length_take, Nat.min_eq_left hle]
    conv_lhs => rw [← take_append_drop (n * c) xs, perChunk_append hc hlen]
    exact drop_left' (length_perChunk_of_eq hc hf hlen)
  · rw [drop_of_length_le hle, drop_of_length_le (length_perChunk_le hc hf hle),
      perChunk_nil]

/-- The pieces of a range of chunks. -/
theorem slice_perChunk (n m : Nat) :
    slice (perChunk c f i xs) (n * (c + t)) (m * (c + t)) =
      perChunk c f (i + n) (slice xs (n * c) (m * c)) := by
  rw [slice, slice, drop_perChunk hc hf, ← Nat.sub_mul, take_perChunk hc hf, ← Nat.sub_mul]

/-- The piece of a chunk that a list has. -/
theorem piece_perChunk {n : Nat} (hn : n * c < xs.length) :
    slice (perChunk c f i xs) (n * (c + t)) ((n + 1) * (c + t)) =
      f (i + n) (slice xs (n * c) ((n + 1) * c)) := by
  have hlen : (slice xs (n * c) ((n + 1) * c)).length = min ((n + 1) * c) xs.length - n * c :=
    length_slice
  rw [Nat.add_one_mul] at hlen
  rw [slice_perChunk hc hf, Nat.add_one_mul, perChunk_of_length_le]
  · exact ne_nil_of_length_pos (by omega)
  · omega

end Pieces

end Lib
