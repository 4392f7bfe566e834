import Decibell.Community.Text
import Decibell.Lib.Utf8

/-!
# Cuts of texts

A text that is too long is cut before a byte that continues no sequence: what is left is the longest
text that it begins with and that fits (`clamps`). Names are cut like this without their control
characters, which are no part of any longer sequence.
-/

namespace Decibell

open Lib List

/-- `cutBack`, where a byte after the end is none. -/
def cutBackChecked (s : Bytes) : Nat → Option Nat
  | 0 => some 0
  | cut + 1 => do
    if isContinuation (← s[cut + 1]?) then cutBackChecked s cut else some (cut + 1)

def utf8PrefixChecked (s : Bytes) (maxBytes : Nat) : Option Bytes :=
  if s.length ≤ maxBytes then some s else (cutBackChecked s maxBytes).map s.take

/-- Nothing that the bytes begin with, and that is a text if they are, is longer and fits. -/
structure LongestFit (s p : Bytes) (maxBytes : Nat) : Prop where
  starts : p <+: s
  fits : p.length ≤ maxBytes
  valid : Utf8.Valid s → Utf8.Valid p
  longest : Utf8.Valid s → ∀ q, q <+: s → Utf8.Valid q → q.length ≤ maxBytes → q.length ≤ p.length

/-! ## Where the cut is -/

theorem cutBack_le (s : Bytes) (n : Nat) : cutBack s n ≤ n := by
  induction n with
  | zero => exact Nat.le_refl 0
  | succ n ih =>
    rw [cutBack]
    split
    · exact ih.trans (Nat.le_succ n)
    · exact Nat.le_refl _

theorem cutBack_stops (s : Bytes) (n : Nat) :
    cutBack s n = 0 ∨ isContinuation (s.getD (cutBack s n) 0) = false := by
  induction n with
  | zero => exact .inl rfl
  | succ n ih =>
    rw [cutBack]
    split <;> rename_i h
    · exact ih
    · exact .inr (Bool.eq_false_iff.2 h)

theorem isContinuation_of_cutBack_lt {s : Bytes} {n i : Nat} (hcut : cutBack s n < i)
    (hi : i ≤ n) : isContinuation (s.getD i 0) = true := by
  induction n with
  | zero => omega
  | succ n ih =>
    rw [cutBack] at hcut
    split at hcut <;> rename_i h
    · rcases Nat.le_succ_iff.1 hi with hi | rfl
      · exact ih hcut hi
      · exact h
    · omega

theorem cutBackChecked_eq {s : Bytes} {n : Nat} (h : n < s.length) :
    cutBackChecked s n = some (cutBack s n) := by
  induction n with
  | zero => rfl
  | succ n ih =>
    rw [cutBackChecked, cutBack, getElem?_eq_getElem h, getElem_eq_getD 0]
    simp only [Option.bind_eq_bind, Option.bind_some, ih (Nat.lt_of_succ_lt h)]
    split <;> rfl

theorem utf8PrefixChecked_eq (s : Bytes) (n : Nat) :
    utf8PrefixChecked s n = some (utf8Prefix s n) := by
  rw [utf8PrefixChecked, utf8Prefix]
  split <;> rename_i h
  · rfl
  · rw [cutBackChecked_eq (Nat.lt_of_not_le h)]
    rfl

theorem starts_drop_iff {s : Bytes} {i : Nat} (h : i < s.length) :
    Utf8.Starts (s.drop i) ↔ isContinuation (s.getD i 0) = false := by
  have hhead : (s.drop i).head? = some (s.getD i 0) := by
    rw [drop_eq_getElem_cons h, head?_cons, getElem_eq_getD 0]
  simp [Utf8.Starts, Utf8.isTail, isContinuation, hhead]

/-- What is left of a text is the longest text that fits. -/
theorem longestFit_utf8Prefix (s : Bytes) (n : Nat) : LongestFit s (utf8Prefix s n) n := by
  rw [utf8Prefix]
  split <;> rename_i h
  · exact ⟨prefix_rfl, h, id, fun _ q hq _ _ => hq.length_le⟩
  have hn : n < s.length := Nat.lt_of_not_le h
  have hle := cutBack_le s n
  have hcut : cutBack s n < s.length := hle.trans_lt hn
  have hlength : (s.take (cutBack s n)).length = cutBack s n := length_take_of_le hcut.le
  refine ⟨List.take_prefix _ _, hlength.trans_le hle, fun hs => ?_, fun hs q hq hvalid hfits => ?_⟩
  · rcases cutBack_stops s n with hzero | hstop
    · rw [hzero]
      exact Utf8.valid_nil
    · rw [← take_append_drop (cutBack s n) s] at hs
      exact (hs.cut ((starts_drop_iff hcut).2 hstop)).1
  · -- a longer text that fits would end before a byte that continues a sequence
    by_contra hlong
    have hcontinues := isContinuation_of_cutBack_lt (Nat.lt_of_not_le (hlength ▸ hlong)) hfits
    obtain ⟨t, rfl⟩ := hq
    have ht := (hs.of_append hvalid).starts
    rw [← (drop_left : (q ++ t).drop q.length = t), starts_drop_iff (hfits.trans_lt hn)] at ht
    rw [ht] at hcontinues
    cases hcontinues

/-! ## Names -/

/-- A sequence of several bytes has none of ASCII. -/
theorem isSequence_cases {s l : Bytes} {b : UInt8} (h : Utf8.IsSequence s b l) :
    s = [b] ∨ ∀ x ∈ s, ¬x < 0x80 := by
  by_cases hb : b < 0x80
  · have hlength := h.length
    rw [Utf8.sequenceLength, if_pos hb, h.eq, length_cons] at hlength
    exact .inl (h.eq.trans (congrArg (b :: ·) (length_eq_zero_iff.1 (Nat.succ.inj hlength))))
  · refine .inr fun x hx hlt => ?_
    rw [h.eq] at hx
    rcases mem_cons.1 hx with rfl | hx
    · exact hb hlt
    · have hascii : ∀ n < 0x80, Utf8.isTail (UInt8.ofNat n) = false := by decide
      have hno := hascii x.toNat (UInt8.lt_iff_toNat_lt.1 hlt)
      rw [UInt8.ofNat_toNat, h.tails x hx] at hno
      cases hno

/-- A text without some characters of ASCII is one. -/
theorem valid_filter {s : Bytes} {p : UInt8 → Bool} (hp : ∀ b, ¬b < 0x80 → p b = true)
    (hs : Utf8.Valid s) : Utf8.Valid (s.filter p) := by
  obtain ⟨cs, rfl⟩ := hs
  induction cs with
  | nil => exact Utf8.valid_nil
  | cons c cs ih =>
    obtain ⟨b, l, h⟩ := Utf8.isSequence_encodeChar c
    have hchar : Utf8.Valid (String.utf8EncodeChar c) := ⟨[c], (append_nil _).symm⟩
    rw [Utf8.encode_cons, filter_append]
    refine .append ?_ ih
    rcases isSequence_cases h with hone | hmany
    · rw [hone] at hchar ⊢
      by_cases hb : p b = true
      · rwa [filter_cons_of_pos hb]
      · rw [filter_cons_of_neg hb]
        exact Utf8.valid_nil
    · rwa [filter_eq_self.2 fun x hx => hp x (hmany x hx)]

/-- A text without its control characters of ASCII. -/
def withoutControls (s : Bytes) : Bytes := s.filter fun c => ! (c < 0x20 || c = 0x7F)

theorem valid_withoutControls {s : Bytes} (hs : Utf8.Valid s) : Utf8.Valid (withoutControls s) := by
  refine valid_filter (fun b hb => ?_) hs
  have hcontrol : (0x20 : UInt8) < 0x80 := by decide
  have hdel : (0x7F : UInt8) < 0x80 := by decide
  have hb' : ¬b < 0x20 := fun h => hb (UInt8.lt_trans h hcontrol)
  have hne : b ≠ 0x7F := fun h => hb (h ▸ hdel)
  simp [hb', hne]

/-- Texts and names are cut to the longest text that they begin with, and that fits; for any bytes
no read is after their end. -/
theorem clamps (s : Bytes) (maxBytes : Nat) :
    LongestFit s (utf8Prefix s maxBytes) maxBytes ∧
      utf8PrefixChecked s maxBytes = some (utf8Prefix s maxBytes) ∧
      (Utf8.Valid s → Utf8.Valid (withoutControls s)) ∧
      LongestFit (withoutControls s) (clampUtf8 s maxBytes) maxBytes ∧
      utf8PrefixChecked (withoutControls s) maxBytes = some (clampUtf8 s maxBytes) :=
  ⟨longestFit_utf8Prefix s maxBytes, utf8PrefixChecked_eq s maxBytes, valid_withoutControls,
    longestFit_utf8Prefix _ maxBytes, utf8PrefixChecked_eq _ maxBytes⟩

/-- A name with a line break fits, and is stored without it. -/
theorem clampUtf8_drops_break :
    Utf8.Valid [65, 10, 66] ∧ ([65, 10, 66] : Bytes).length ≤ 3 ∧
      ¬clampUtf8 [65, 10, 66] 3 <+: [65, 10, 66] :=
  ⟨Utf8.valid_of_ascii (by simp), by decide, by decide⟩

end Decibell
