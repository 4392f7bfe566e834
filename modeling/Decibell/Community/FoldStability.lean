import Decibell.Community.Search
import Decibell.Lib.Utf8
import Mathlib.Data.List.TakeWhile

/-!
# Folding is stable

A folded text is folded to itself, and folding goes character by character, so what is within a text
is folded to what is within the folded text.

* `searchFold_append`: an encoded code point is folded as the code point;
* `searchFold_stable`: a fragment of a message is found in it.
-/

namespace Decibell

open Lib List

/-! ## Code points -/

theorem latinFold_fixed : ∀ c ∈ latinFold, c < 0x180 ∧ foldCodePoint c = c := by decide +kernel

/-- What capitals of ASCII, Greek and Cyrillic become. -/
def IsLowered (c : Nat) : Prop :=
  97 ≤ c ∧ c ≤ 122 ∨ 0x3B1 ≤ c ∧ c ≤ 0x3C9 ∨ 0x430 ≤ c ∧ c ≤ 0x45F

/-- A code point folds to a letter of the table, a small letter, or itself. -/
theorem foldCodePoint_cases (c : Nat) :
    foldCodePoint c ∈ latinFold ∨ IsLowered (foldCodePoint c) ∨ foldCodePoint c = c := by
  rw [foldCodePoint]
  split
  · split
    · exact .inr (.inl (.inl (by omega)))
    · exact .inr (.inr rfl)
  split
  · have hlength : latinFold.length = 192 := rfl
    have hi : c - 0xC0 < latinFold.length := by omega
    rw [← getElem_eq_getD (h := hi) 0]
    exact .inl (getElem_mem hi)
  split
  · exact .inr (.inl (.inr (.inl (by omega))))
  split
  · exact .inr (.inl (.inr (.inr (by omega))))
  split
  · exact .inr (.inl (.inr (.inr (by omega))))
  · exact .inr (.inr rfl)

theorem IsLowered.fold_eq {c : Nat} (h : IsLowered c) : foldCodePoint c = c := by
  rw [IsLowered] at h
  by_cases hascii : c < 0x80
  · rw [foldCodePoint, if_pos hascii, if_neg (by omega)]
  · rw [foldCodePoint, if_neg hascii, if_neg (by omega), if_neg (by omega), if_neg (by omega),
      if_neg (by omega)]

theorem foldCodePoint_fold (c : Nat) : foldCodePoint (foldCodePoint c) = foldCodePoint c := by
  rcases foldCodePoint_cases c with hlatin | hlowered | hself
  · exact (latinFold_fixed _ hlatin).2
  · exact hlowered.fold_eq
  · rw [hself, hself]

/-- The marks that go. -/
abbrev Combining (c : Nat) : Prop := 0x300 ≤ c ∧ c ≤ 0x36F

theorem not_combining_fold {c : Nat} (h : ¬Combining c) : ¬Combining (foldCodePoint c) := by
  rcases foldCodePoint_cases c with hlatin | hlowered | hself
  · have hlt := (latinFold_fixed _ hlatin).1
    exact fun hc => absurd hc.1 (by omega)
  · rw [IsLowered] at hlowered
    exact fun hc => by omega
  · rwa [hself]

theorem foldCodePoint_lt {c : Nat} (h : c < 0x200000) : foldCodePoint c < 0x200000 := by
  rcases foldCodePoint_cases c with hlatin | hlowered | hself
  · have hlt := (latinFold_fixed _ hlatin).1
    omega
  · rw [IsLowered] at hlowered
    omega
  · rwa [hself]

/-! ## Encoded code points -/

theorem lowBits_continuation (c : Nat) : lowBits (continuation c) 6 = c % 64 := by
  have hall : ∀ n < 64, lowBits (UInt8.ofNat (0x80 + n)) 6 = n := by decide
  exact hall _ (Nat.mod_lt c (by decide))

def foldAscii (b : UInt8) : UInt8 := if 65 ≤ b ∧ b ≤ 90 then b + 32 else b

theorem searchFold_ascii {b : UInt8} (h : b < 0x80) (s : Bytes) :
    searchFold (b :: s) = foldAscii b :: searchFold s := by
  delta searchFold
  exact if_pos h

theorem searchFold_two {b : UInt8} (hb : ¬b < 0x80) (hlead : b &&& 0xE0 = 0xC0) (s₁ : UInt8)
    (s : Bytes) : searchFold (b :: s₁ :: s) =
      emitFolded (lowBits b 5 * 64 + lowBits s₁ 6) (searchFold s) := by
  delta searchFold
  exact (if_neg hb).trans (if_pos hlead)

theorem searchFold_three {b : UInt8} (hb : ¬b < 0x80) (hno : ¬b &&& 0xE0 = 0xC0)
    (hlead : b &&& 0xF0 = 0xE0) (s₁ s₂ : UInt8) (s : Bytes) : searchFold (b :: s₁ :: s₂ :: s) =
      emitFolded ((lowBits b 4 * 64 + lowBits s₁ 6) * 64 + lowBits s₂ 6) (searchFold s) := by
  delta searchFold
  exact (if_neg hb).trans ((if_neg hno).trans (if_pos hlead))

theorem searchFold_four {b : UInt8} (hb : ¬b < 0x80) (hno : ¬b &&& 0xE0 = 0xC0)
    (hno' : ¬b &&& 0xF0 = 0xE0) (hlead : b &&& 0xF8 = 0xF0) (s₁ s₂ s₃ : UInt8) (s : Bytes) :
    searchFold (b :: s₁ :: s₂ :: s₃ :: s) =
      emitFolded (((lowBits b 3 * 64 + lowBits s₁ 6) * 64 + lowBits s₂ 6) * 64 + lowBits s₃ 6)
        (searchFold s) := by
  delta searchFold
  exact (if_neg hb).trans ((if_neg hno).trans ((if_neg hno').trans (if_pos hlead)))

theorem searchFold_stray {b : UInt8} (hb : ¬b < 0x80) (hno : ¬b &&& 0xE0 = 0xC0)
    (hno' : ¬b &&& 0xF0 = 0xE0) (hno'' : ¬b &&& 0xF8 = 0xF0) (s : Bytes) :
    searchFold (b :: s) = b :: searchFold s := by
  delta searchFold
  exact (if_neg hb).trans ((if_neg hno).trans ((if_neg hno').trans (if_neg hno'')))

theorem foldAscii_fold {b : UInt8} (h : b < 0x80) :
    foldAscii b < 0x80 ∧ foldAscii (foldAscii b) = foldAscii b := by
  have hall : ∀ n < 0x80, foldAscii (UInt8.ofNat n) < 0x80 ∧
      foldAscii (foldAscii (UInt8.ofNat n)) = foldAscii (UInt8.ofNat n) := by decide
  have hb := hall b.toNat (UInt8.lt_iff_toNat_lt.1 h)
  rwa [UInt8.ofNat_toNat] at hb

theorem searchFold_append {c : Nat} (h : c < 0x200000) (s : Bytes) :
    searchFold (appendUtf8 c ++ s) = emitFolded c (searchFold s) := by
  have hone : ∀ n < 0x80, UInt8.ofNat n < 0x80 ∧ ¬Combining n ∧
      appendUtf8 (foldCodePoint n) = [foldAscii (UInt8.ofNat n)] := by decide +kernel
  have htwo : ∀ n < 32, ¬UInt8.ofNat (0xC0 + n) < 0x80 ∧ UInt8.ofNat (0xC0 + n) &&& 0xE0 = 0xC0 ∧
      lowBits (UInt8.ofNat (0xC0 + n)) 5 = n := by decide
  have hthree : ∀ n < 16, ¬UInt8.ofNat (0xE0 + n) < 0x80 ∧
      ¬UInt8.ofNat (0xE0 + n) &&& 0xE0 = 0xC0 ∧ UInt8.ofNat (0xE0 + n) &&& 0xF0 = 0xE0 ∧
      lowBits (UInt8.ofNat (0xE0 + n)) 4 = n := by decide
  have hfour : ∀ n < 8, ¬UInt8.ofNat (0xF0 + n) < 0x80 ∧ ¬UInt8.ofNat (0xF0 + n) &&& 0xE0 = 0xC0 ∧
      ¬UInt8.ofNat (0xF0 + n) &&& 0xF0 = 0xE0 ∧ UInt8.ofNat (0xF0 + n) &&& 0xF8 = 0xF0 ∧
      lowBits (UInt8.ofNat (0xF0 + n)) 3 = n := by decide
  rw [appendUtf8]
  split
  · rename_i hlt
    obtain ⟨hascii, hmark, hfold⟩ := hone c hlt
    rw [singleton_append, searchFold_ascii hascii, emitFolded, if_neg hmark, hfold]
    rfl
  split
  · rename_i hlt
    obtain ⟨hascii, hlead, hbits⟩ := htwo (c / 64) (by omega)
    have hc : c / 64 * 64 + c % 64 = c := by omega
    change searchFold (_ :: _ :: s) = _
    rw [searchFold_two hascii hlead, hbits, lowBits_continuation, hc]
  split
  · rename_i hlt
    obtain ⟨hascii, hno, hlead, hbits⟩ := hthree (c / 4096) (by omega)
    have hc : (c / 4096 * 64 + c / 64 % 64) * 64 + c % 64 = c := by omega
    change searchFold (_ :: _ :: _ :: s) = _
    rw [searchFold_three hascii hno hlead, hbits, lowBits_continuation, lowBits_continuation, hc]
  · obtain ⟨hascii, hno, hno', hlead, hbits⟩ := hfour (c / 262144) (by omega)
    have hc : ((c / 262144 * 64 + c / 4096 % 64) * 64 + c / 64 % 64) * 64 + c % 64 = c := by omega
    change searchFold (_ :: _ :: _ :: _ :: s) = _
    rw [searchFold_four hascii hno hno' hlead, hbits, lowBits_continuation, lowBits_continuation,
      lowBits_continuation, hc]

theorem searchFold_emitFolded {c : Nat} (h : c < 0x200000) {s : Bytes} (hs : searchFold s = s) :
    searchFold (emitFolded c s) = emitFolded c s := by
  by_cases hmark : Combining c
  · rw [emitFolded, if_pos hmark, hs]
  · have hfold : emitFolded c s = appendUtf8 (foldCodePoint c) ++ s := if_neg hmark
    rw [hfold, searchFold_append (foldCodePoint_lt h), hs, emitFolded,
      if_neg (not_combining_fold hmark), foldCodePoint_fold]

theorem lowBits_lt (b : UInt8) (n : Nat) : lowBits b n < 2 ^ n := Nat.mod_lt _ (Nat.two_pow_pos n)

theorem searchFold_fold (s : Bytes) : searchFold (searchFold s) = searchFold s := by
  fun_induction searchFold s with
  | case1 => rfl
  | case2 b s hb ih =>
    obtain ⟨hlt, hfold⟩ := foldAscii_fold hb
    change searchFold (foldAscii b :: searchFold s) = foldAscii b :: searchFold s
    rw [searchFold_ascii hlt, hfold, ih]
  | case3 b hb hlead s₁ s ih =>
    have hb := lowBits_lt b 5
    have h₁ := lowBits_lt s₁ 6
    exact searchFold_emitFolded (by omega) ih
  | case4 b hb hlead s hcut =>
    cases s with
    | nil =>
      delta searchFold
      exact (if_neg hb).trans (if_pos hlead)
    | cons s₁ s => exact (hcut s₁ s rfl).elim
  | case5 b hb hno hlead s₁ s₂ s ih =>
    have hb := lowBits_lt b 4
    have h₁ := lowBits_lt s₁ 6
    have h₂ := lowBits_lt s₂ 6
    exact searchFold_emitFolded (by omega) ih
  | case6 b hb hno hlead s hcut =>
    rcases s with - | ⟨s₁, - | ⟨s₂, s⟩⟩
    · delta searchFold
      exact (if_neg hb).trans ((if_neg hno).trans (if_pos hlead))
    · delta searchFold
      exact (if_neg hb).trans ((if_neg hno).trans (if_pos hlead))
    · exact (hcut s₁ s₂ s rfl).elim
  | case7 b hb hno hno' hlead s₁ s₂ s₃ s ih =>
    have hb := lowBits_lt b 3
    have h₁ := lowBits_lt s₁ 6
    have h₂ := lowBits_lt s₂ 6
    have h₃ := lowBits_lt s₃ 6
    exact searchFold_emitFolded (by omega) ih
  | case8 b hb hno hno' hlead s hcut =>
    rcases s with - | ⟨s₁, - | ⟨s₂, - | ⟨s₃, s⟩⟩⟩
    · delta searchFold
      exact (if_neg hb).trans ((if_neg hno).trans ((if_neg hno').trans (if_pos hlead)))
    · delta searchFold
      exact (if_neg hb).trans ((if_neg hno).trans ((if_neg hno').trans (if_pos hlead)))
    · delta searchFold
      exact (if_neg hb).trans ((if_neg hno).trans ((if_neg hno').trans (if_pos hlead)))
    · exact (hcut s₁ s₂ s₃ s rfl).elim
  | case9 b s hb hno hno' hno'' ih =>
    rw [searchFold_stray hb hno hno' hno'', ih]

/-! ## Texts -/

theorem val_lt (c : Char) : c.val.toNat < 0x110000 := by
  rcases c.valid with h | ⟨-, h⟩
  · exact Nat.lt_trans h (by decide)
  · exact h

theorem utf8EncodeChar_eq (c : Char) : String.utf8EncodeChar c = appendUtf8 c.val.toNat := by
  have hc := val_lt c
  have htail (n : Nat) : UInt8.ofNat (n % 64 + 0x80) = continuation n :=
    congrArg UInt8.ofNat (Nat.add_comm _ _)
  have hlead {n k : Nat} (a : Nat) (h : n < k) : UInt8.ofNat (n % k + a) = UInt8.ofNat (a + n) := by
    rw [Nat.mod_eq_of_lt h, Nat.add_comm]
  rw [String.utf8EncodeChar, appendUtf8]
  by_cases hone : c.val.toNat < 0x80
  · rw [if_pos (Nat.le_of_lt_succ hone), if_pos hone]
  rw [if_neg fun h => hone (Nat.lt_succ_of_le h), if_neg hone]
  by_cases htwo : c.val.toNat < 0x800
  · rw [if_pos (Nat.le_of_lt_succ htwo), if_pos htwo, htail, hlead _ (by omega)]
  rw [if_neg fun h => htwo (Nat.lt_succ_of_le h), if_neg htwo]
  by_cases hthree : c.val.toNat < 0x10000
  · rw [if_pos (Nat.le_of_lt_succ hthree), if_pos hthree, htail, htail, hlead _ (by omega)]
  · rw [if_neg fun h => hthree (Nat.lt_succ_of_le h), if_neg hthree, htail, htail, htail,
      hlead _ (by omega)]

theorem searchFold_append_of_valid {s : Bytes} (hs : Utf8.Valid s) (t : Bytes) :
    searchFold (s ++ t) = searchFold s ++ searchFold t := by
  obtain ⟨cs, rfl⟩ := hs
  induction cs with
  | nil => rfl
  | cons c cs ih =>
    have hc := Nat.lt_trans (val_lt c) (by decide : 0x110000 < 0x200000)
    rw [Utf8.encode_cons, append_assoc, utf8EncodeChar_eq, searchFold_append hc,
      searchFold_append hc, ih, emitFolded, emitFolded]
    split
    · rfl
    · exact (append_assoc _ _ _).symm

theorem searchFold_around {s t u : Bytes} (h : Utf8.Valid (s ++ t ++ u)) (ht : Utf8.Valid t) :
    ∃ s' u', searchFold (s ++ t ++ u) = s' ++ searchFold t ++ u' := by
  by_cases hne : t = []
  · exact ⟨searchFold (s ++ t ++ u), [], by rw [hne]; simp [searchFold]⟩
  · obtain ⟨hs, -⟩ := h.around ht hne
    exact ⟨searchFold s, searchFold u, by
      rw [searchFold_append_of_valid (hs.append ht), searchFold_append_of_valid hs]⟩

/-! ## Finding -/

theorem isContinuation_appendUtf8 {c : Nat} (h : c < 0x200000) (s : Bytes) :
    ∃ b l, appendUtf8 c ++ s = b :: l ∧ isContinuation b = false := by
  have hone : ∀ n < 0x80, isContinuation (UInt8.ofNat n) = false := by decide
  have htwo : ∀ n < 32, isContinuation (UInt8.ofNat (0xC0 + n)) = false := by decide
  have hthree : ∀ n < 16, isContinuation (UInt8.ofNat (0xE0 + n)) = false := by decide
  have hfour : ∀ n < 8, isContinuation (UInt8.ofNat (0xF0 + n)) = false := by decide
  rw [appendUtf8]
  split
  · exact ⟨_, _, rfl, hone c ‹_›⟩
  split
  · exact ⟨_, _, rfl, htwo _ (by omega)⟩
  split
  · exact ⟨_, _, rfl, hthree _ (by omega)⟩
  · exact ⟨_, _, rfl, hfour _ (by omega)⟩

theorem starts_searchFold {s : Bytes} (hs : Utf8.Valid s) : Utf8.Starts (searchFold s) := by
  obtain ⟨cs, rfl⟩ := hs
  induction cs with
  | nil => exact fun b hb => absurd hb (Option.not_mem_none b)
  | cons c cs ih =>
    have hc := Nat.lt_trans (val_lt c) (by decide : 0x110000 < 0x200000)
    rw [Utf8.encode_cons, utf8EncodeChar_eq, searchFold_append hc, emitFolded]
    split
    · exact ih
    · obtain ⟨b, l, heq, hb⟩ := isContinuation_appendUtf8 (foldCodePoint_lt hc)
        (searchFold (Utf8.encode cs))
      rw [heq]
      rintro x hx
      cases hx
      exact hb

theorem instr_append {n : Bytes} (hn : Utf8.Starts n) (s t : Bytes) : instr (s ++ n ++ t) n := by
  have hat (t : Bytes) : n.isPrefixOf (n ++ t) := isPrefixOf_iff_prefix.2 ⟨t, rfl⟩
  rw [instr, Bool.or_eq_true]
  cases s with
  | nil => exact .inl (hat t)
  | cons c s =>
    cases n with
    | nil => exact .inl rfl
    | cons b n =>
      refine .inr ?_
      rw [cons_append, cons_append, tail_cons]
      induction s with
      | nil =>
        have hb : isContinuation b = false := hn b rfl
        change (! isContinuation b && (b :: n).isPrefixOf (b :: n ++ t) || _) = true
        rw [hb, hat t]
        rfl
      | cons d s ih =>
        rw [cons_append, cons_append, instrLater, ih, Bool.or_true]

/-! ## The terms of a query -/

/-- A text is cut where a run of bytes ends, if a character begins there. -/
theorem valid_takeWhile {s : Bytes} (p : UInt8 → Bool) (hs : Utf8.Valid s)
    (hp : ∀ b, p b = false → Utf8.isTail b = false) :
    Utf8.Valid (s.takeWhile p) ∧ Utf8.Valid (s.dropWhile p) := by
  refine Utf8.Valid.cut (by rwa [takeWhile_append_dropWhile]) fun b hb => hp b ?_
  have hnot := head?_dropWhile_not p s
  rw [Option.mem_def.1 hb] at hnot
  simpa using hnot

theorem isSpace_ascii {b : UInt8} (h : isSpace b = true) : b < 0x80 := by
  simp only [isSpace, Bool.or_eq_true, decide_eq_true_eq, or_assoc] at h
  rcases h with rfl | rfl | rfl | rfl <;> decide

theorem isTail_of_ascii {b : UInt8} (h : b < 0x80) : Utf8.isTail b = false := by
  have hall : ∀ n < 0x80, Utf8.isTail (UInt8.ofNat n) = false := by decide
  have hb := hall b.toNat (UInt8.lt_iff_toNat_lt.1 h)
  rwa [UInt8.ofNat_toNat] at hb

theorem valid_tail {b : UInt8} {s : Bytes} (hb : b < 0x80) (hs : Utf8.Valid (b :: s)) :
    Utf8.Valid s :=
  Utf8.Valid.of_append (s := [b]) hs (Utf8.valid_of_ascii (forall_mem_singleton.2 hb))

theorem valid_dropBlanks {s : Bytes} (hs : Utf8.Valid s) : Utf8.Valid (s.dropWhile isSpace) := by
  rw [← takeWhile_append_dropWhile (p := isSpace) (l := s)] at hs
  exact hs.of_append (Utf8.valid_of_ascii fun b hb => isSpace_ascii (mem_takeWhile_imp hb))

theorem valid_nextTerm {s : Bytes} (hs : Utf8.Valid s) :
    Utf8.Valid (nextTerm s).1.text ∧ Utf8.Valid (nextTerm s).2 := by
  obtain ⟨s', hsign, hterm⟩ := nextTerm_cases s
  have hs' : Utf8.Valid s' := by
    rcases hsign with rfl | rfl
    · exact hs
    · exact valid_tail (by decide) hs
  rcases hterm with ⟨q, rfl, htext, hrest⟩ | ⟨htext, hrest⟩
  · have hquote (b : UInt8) (hb : decide (b ≠ 34) = false) : Utf8.isTail b = false := by
      obtain rfl : b = 34 := by simpa using hb
      decide
    obtain ⟨hbefore, hafter⟩ := valid_takeWhile (· ≠ 34) (valid_tail (by decide) hs') hquote
    rw [htext, hrest]
    refine ⟨hbefore, ?_⟩
    cases hdrop : q.dropWhile (· ≠ 34) with
    | nil => exact Utf8.valid_nil
    | cons b rest =>
      have hnot := head?_dropWhile_not (· ≠ 34) q
      rw [hdrop] at hnot hafter
      obtain rfl : b = 34 := by simpa using hnot
      exact valid_tail (by decide) hafter
  · rw [htext, hrest]
    exact valid_takeWhile (! isSpace ·) hs' fun b hb =>
      isTail_of_ascii (isSpace_ascii (by simpa using hb))

theorem valid_splitQuery {n : Nat} {s : Bytes} (hs : Utf8.Valid s) {t : QueryTerm}
    (ht : t ∈ splitQuery n s) : Utf8.Valid t.text := by
  induction n generalizing s with
  | zero => cases ht
  | succ n ih =>
    rw [splitQuery] at ht
    split at ht
    · cases ht
    · obtain ⟨htext, hrest⟩ := valid_nextTerm (valid_dropBlanks hs)
      rcases mem_cons.1 ht with rfl | ht
      · exact htext
      · exact ih hrest ht


/-- Folding is stable, and finds what a message contains: a term in the message has its folded
    fragment in the folded message. -/
theorem searchFold_stable :
    (∀ s, searchFold (searchFold s) = searchFold s) ∧
    (∀ s t, Utf8.Valid s → Utf8.Valid t → searchFold (s ++ t) = searchFold s ++ searchFold t) ∧
    (∀ s t, Utf8.Valid s → Utf8.Valid t → t <:+: s →
      searchFold t <:+: searchFold s ∧ instr (searchFold s) (searchFold t)) ∧
    (∀ query s, Utf8.Valid query → Utf8.Valid s → ∀ t ∈ splitQuery 16 query, t.text <:+: s →
      instr (searchFold s) (searchFold t.text)) := by
  have hfound (s t : Bytes) (hs : Utf8.Valid s) (ht : Utf8.Valid t) (h : t <:+: s) :
      searchFold t <:+: searchFold s ∧ instr (searchFold s) (searchFold t) := by
    obtain ⟨a, b, rfl⟩ := h
    obtain ⟨a', b', hfold⟩ := searchFold_around hs ht
    rw [hfold]
    exact ⟨⟨a', b', rfl⟩, instr_append (starts_searchFold ht) a' b'⟩
  refine ⟨searchFold_fold, fun s t hs _ => searchFold_append_of_valid hs t, hfound, ?_⟩
  intro query s hquery hs t ht h
  exact (hfound s t.text hs (valid_splitQuery hquery ht) h).2

-- "ÄR" in "ÄRger"
theorem searchFold_stable_fragment :
    instr (searchFold (Utf8.encode ['Ä', 'R', 'g', 'e', 'r']))
      (searchFold (Utf8.encode ['Ä', 'R'])) :=
  (searchFold_stable.2.2.1 _ _ ⟨_, rfl⟩ ⟨_, rfl⟩ ⟨[], Utf8.encode ['g', 'e', 'r'], by decide⟩).2

end Decibell
