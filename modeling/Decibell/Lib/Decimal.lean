import Mathlib.Tactic.Common

/-!
# Numbers as decimal text

`toString` writes an integer in decimal, `stoll` and `strtoll` read the integer a text
starts with. Writing is injective (`toString_injective`), and what was written reads back
(`stoll_toString`, `strtoll_toString`).
-/

namespace Lib

open List Option

/-- The value of a text's first decimal digits, after `acc`. -/
def stollDigits : List Char → Int → Int
  | [], acc => acc
  | c :: cs, acc => if c.isDigit then stollDigits cs (acc * 10 + (c.toNat - 48 : Nat)) else acc

/-- White space of the C locale. -/
def isSpace (c : Char) : Bool := c = ' ' || (9 ≤ c.toNat && c.toNat ≤ 13)

/-- The optional sign a text starts with, and what follows it. -/
def splitSign : List Char → Int × List Char
  | '-' :: cs => (-1, cs)
  | '+' :: cs => (1, cs)
  | cs => (1, cs)

/-- A number is one of `int64_t`. -/
def IsInt64 (n : Int) : Prop := -9223372036854775808 ≤ n ∧ n ≤ 9223372036854775807

instance (n : Int) : Decidable (IsInt64 n) :=
  inferInstanceAs (Decidable (_ ∧ _))

/-- A text's number: white space, sign, digits, anything; none without a digit or beyond 64 bits. -/
def stoll (s : String) : Option Int :=
  let (sign, cs) := splitSign (s.toList.dropWhile isSpace)
  if (cs.head?.map Char.isDigit).getD false then
    let n := sign * stollDigits cs 0
    if IsInt64 n then some n else none
  else none

/-- The number that is the whole text, after white space. -/
def stollAll (s : String) : Option Int :=
  if (splitSign (s.toList.dropWhile isSpace)).2.all Char.isDigit then stoll s else none

theorem natRepr_injective {m n : Nat} (h : m.repr = n.repr) : m = n := by
  have h := congrArg (fun s => Nat.ofDigitChars 10 s.toList 0) h
  simpa using h

theorem natRepr_ne_minus (n : Nat) (s : String) : n.repr ≠ "-" ++ s := by
  intro h
  have h := congrArg String.toList h
  simp only [Nat.toList_repr, String.toList_append] at h
  have hmem : '-' ∈ Nat.toDigits 10 n := by rw [h]; simp
  exact absurd (Nat.isDigit_of_mem_toDigits (by decide) (by decide) hmem) (by decide)

theorem toString_injective {a b : Int} (h : toString a = toString b) : a = b := by
  simp only [Int.toString_eq_repr, Int.repr_eq_if] at h
  split at h <;> split at h
  · have := natRepr_injective h
    omega
  · exact absurd h (natRepr_ne_minus _ _)
  · exact absurd h.symm (natRepr_ne_minus _ _)
  · have := natRepr_injective (by simpa using h)
    omega

theorem stollDigits_eq {cs : List Char} (h : ∀ c ∈ cs, c.isDigit) (acc : Nat) :
    stollDigits cs acc = (Nat.ofDigitChars 10 cs acc : Nat) := by
  induction cs generalizing acc with
  | nil => simp [stollDigits]
  | cons c cs ih =>
    rw [stollDigits, if_pos (h c (.head cs)), Nat.ofDigitChars_cons,
      ← ih fun d hd => h d (.tail c hd)]
    congr 1
    push_cast
    rw [Int.mul_comm]

/-- A number's digits: at least one, no white space or sign, and read back. -/
theorem toDigits_spec (k : Nat) : ∃ c cs, Nat.toDigits 10 k = c :: cs ∧ c.isDigit = true ∧
    isSpace c = false ∧ c ≠ '-' ∧ c ≠ '+' ∧ stollDigits (c :: cs) 0 = k := by
  have hdigit : ∀ c ∈ Nat.toDigits 10 k, c.isDigit := fun c hc =>
    Nat.isDigit_of_mem_toDigits (by decide) (by decide) hc
  have hval := stollDigits_eq hdigit 0
  rw [Nat.ofDigitChars_ten_toDigits] at hval
  cases hcs : Nat.toDigits 10 k with
  | nil => exact absurd hcs Nat.toDigits_ne_nil
  | cons c cs =>
    have hc := hdigit c (by rw [hcs]; exact .head cs)
    rw [hcs] at hval
    refine ⟨c, cs, rfl, hc, ?_, ?_, ?_, by exact_mod_cast hval⟩
    · simp only [Char.isDigit, ge_iff_le, Bool.and_eq_true, decide_eq_true_eq] at hc
      have h48 : 48 ≤ c.toNat := hc.1
      simp only [isSpace, Bool.or_eq_false_iff, decide_eq_false_iff_not, Bool.and_eq_false_iff]
      exact ⟨by rintro rfl; exact absurd h48 (by decide), .inr (by omega)⟩
    · rintro rfl
      exact absurd hc (by decide)
    · rintro rfl
      exact absurd hc (by decide)

theorem stoll_toString {n : Int} (h : IsInt64 n) : stoll (toString n) = some n := by
  rw [Int.toString_eq_repr, Int.repr_eq_if]
  split
  · obtain ⟨c, cs, hcs, hd, hsp, hm, hp, hv⟩ := toDigits_spec n.toNat
    have hsplit : splitSign (c :: cs) = (1, c :: cs) := by
      unfold splitSign
      split <;> simp_all
    simp only [stoll, Nat.toList_repr, hcs, dropWhile_cons, hsp, Bool.false_eq_true, if_false,
      hsplit, head?_cons, map_some, getD_some, hd, if_true, hv, Int.one_mul]
    rw [Int.toNat_of_nonneg (by assumption), if_pos h]
  · obtain ⟨c, cs, hcs, hd, -, -, -, hv⟩ := toDigits_spec (-n).toNat
    have hlist : ("-" ++ (-n).toNat.repr).toList = '-' :: c :: cs := by
      rw [String.toList_append, Nat.toList_repr, hcs]
      rfl
    have hsp : isSpace '-' = false := by decide
    simp only [stoll, hlist, dropWhile_cons, hsp, Bool.false_eq_true, if_false, splitSign,
      head?_cons, map_some, getD_some, hd, if_true, hv]
    rw [Int.toNat_of_nonneg (by omega), Int.neg_mul, Int.one_mul, Int.neg_neg, if_pos h]

/-- Digits alone read as the number they are, leading zeros or not. -/
theorem stoll_digits {cs : List Char} (h : ∀ c ∈ cs, c.isDigit) (hne : cs ≠ [])
    (hn : IsInt64 (Nat.ofDigitChars 10 cs 0)) :
    stoll (String.ofList cs) = some (Nat.ofDigitChars 10 cs 0 : Int) := by
  obtain ⟨c, cs, rfl⟩ := exists_cons_of_ne_nil hne
  have hc := h c (.head cs)
  have hnot (d : Char) (hd : d.isDigit = false) : c ≠ d := by
    rintro rfl
    rw [hd] at hc
    exact absurd hc (by decide)
  have hsp : isSpace c = false := by
    have h48 : 48 ≤ c.toNat := by
      simp only [Char.isDigit, ge_iff_le, Bool.and_eq_true, decide_eq_true_eq] at hc
      exact hc.1
    simp only [isSpace, Bool.or_eq_false_iff, decide_eq_false_iff_not, Bool.and_eq_false_iff]
    exact ⟨hnot ' ' (by decide), .inr (by omega)⟩
  have hsplit : splitSign (c :: cs) = (1, c :: cs) := by
    have hm := hnot '-' (by decide)
    have hp := hnot '+' (by decide)
    unfold splitSign
    split <;> simp_all
  rw [stoll, String.toList_ofList, dropWhile_cons_of_neg (by simp [hsp]), hsplit]
  have hval : stollDigits (c :: cs) 0 = (Nat.ofDigitChars 10 (c :: cs) 0 : Int) :=
    stollDigits_eq h 0
  simp only [head?_cons, map_some, getD_some, hc, if_true, Int.one_mul]
  rw [hval, if_pos hn]

/-- A text's number in C: 0 without a digit, the nearest of 64 bits. -/
def strtoll (cs : List Char) : Int :=
  let (sign, cs) := splitSign (cs.dropWhile isSpace)
  max (-9223372036854775808) (min (sign * stollDigits cs 0) 9223372036854775807)

theorem stollDigits_append {cs rest : List Char} (h : ∀ c ∈ cs, c.isDigit)
    (hrest : ∀ c ∈ rest.head?, c.isDigit = false) (acc : Int) :
    stollDigits (cs ++ rest) acc = stollDigits cs acc := by
  induction cs generalizing acc with
  | nil =>
    cases rest with
    | nil => rfl
    | cons c rest =>
      have hc : ¬ c.isDigit = true := by
        rw [hrest c rfl]
        exact Bool.false_ne_true
      simp only [nil_append, stollDigits, if_neg hc]
  | cons c cs ih =>
    rw [cons_append, stollDigits, stollDigits, if_pos (h c (.head cs)), if_pos (h c (.head cs)),
      ih fun d hd => h d (.tail c hd)]

/-- A written number reads back, before anything but a digit. -/
theorem strtoll_toString {n : Int} (h : IsInt64 n) {rest : List Char}
    (hrest : ∀ c ∈ rest.head?, c.isDigit = false) :
    strtoll ((toString n).toList ++ rest) = n := by
  have hclamp : max (-9223372036854775808) (min n 9223372036854775807) = n := by
    obtain ⟨hlow, hhigh⟩ := h
    omega
  have hdigits : ∀ k : Nat, ∀ c ∈ Nat.toDigits 10 k, c.isDigit := fun k c hc =>
    Nat.isDigit_of_mem_toDigits (by decide) (by decide) hc
  rw [Int.toString_eq_repr, Int.repr_eq_if]
  split
  · obtain ⟨c, cs, hcs, hd, hsp, hm, hp, hv⟩ := toDigits_spec n.toNat
    have hsplit : splitSign (c :: (cs ++ rest)) = (1, c :: (cs ++ rest)) := by
      unfold splitSign
      split <;> simp_all
    have hvalue := stollDigits_append (hcs ▸ hdigits n.toNat) hrest 0
    rw [cons_append] at hvalue
    simp only [strtoll, Nat.toList_repr, hcs, cons_append, dropWhile_cons, hsp,
      Bool.false_eq_true, if_false, hsplit, hvalue, hv, Int.one_mul]
    rw [Int.toNat_of_nonneg (by assumption), hclamp]
  · obtain ⟨c, cs, hcs, hd, -, -, -, hv⟩ := toDigits_spec (-n).toNat
    have hlist : ("-" ++ (-n).toNat.repr).toList ++ rest = '-' :: (c :: cs ++ rest) := by
      rw [String.toList_append, Nat.toList_repr, hcs]
      rfl
    have hsp : isSpace '-' = false := by decide
    have hvalue := stollDigits_append (hcs ▸ hdigits (-n).toNat) hrest 0
    rw [strtoll, hlist]
    simp only [dropWhile_cons, hsp, Bool.false_eq_true, if_false, splitSign, hvalue, hv]
    rw [Int.toNat_of_nonneg (by omega), Int.neg_mul, Int.one_mul, Int.neg_neg, hclamp]

/-- A written number is a sign at most, and digits. -/
theorem toList_toString (n : Int) : (toString n).toList ≠ [] ∧
    ∀ c ∈ (toString n).toList, c.isDigit ∨ c = '-' := by
  have hdigits : ∀ k : Nat, ∀ c ∈ Nat.toDigits 10 k, c.isDigit := fun k c hc =>
    Nat.isDigit_of_mem_toDigits (by decide) (by decide) hc
  rw [Int.toString_eq_repr, Int.repr_eq_if]
  split
  · rw [Nat.toList_repr]
    exact ⟨Nat.toDigits_ne_nil, fun c hc => .inl (hdigits _ c hc)⟩
  · rw [String.toList_append, Nat.toList_repr]
    refine ⟨append_ne_nil_of_right_ne_nil _ Nat.toDigits_ne_nil, fun c hc => ?_⟩
    rcases mem_append.1 hc with hsign | hdigit
    · exact .inr (by simpa using hsign)
    · exact .inl (hdigits _ c hdigit)

end Lib
