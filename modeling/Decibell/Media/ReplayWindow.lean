import Decibell.Lib.Bitmap

/-!
# The replay window

A sealed socket accepts the counter of a datagram once. `ReplayWindow` remembers the highest counter
and, in 16 words of 64 bits, which of the 1024 counters up to it were seen; anything older is
refused.
-/

namespace Decibell

open Lib
open List (all_eq_true mem_cons mem_cons_of_mem mem_cons_self mem_singleton)

/-- How far behind the highest counter seen others are rejected. -/
def replayWindow : Nat := 1024

/-- The window: bit `i` of `bits` is for the counter `highest - i`. -/
structure ReplayWindow where
  seenAny : Bool := false
  highest : Nat := 0
  bits : Bitmap 64 16 := Vector.replicate 16 0#64

namespace ReplayWindow

/-! ## As the source has it -/

/-- Whether bit `i` is set. -/
def get (bits : Bitmap 64 16) (i : Fin 1024) : Bool :=
  have h : i.1 / 64 < 16 := by omega
  (bits[i.1 / 64] >>> (i.1 % 64)) &&& 1#64 == 1#64

/-- Sets bit `i`. -/
def set (bits : Bitmap 64 16) (i : Fin 1024) : Bitmap 64 16 :=
  have h : i.1 / 64 < 16 := by omega
  bits.set (i.1 / 64) (bits[i.1 / 64] ||| 1#64 <<< (i.1 % 64))

/-- The word `src` moved up by `bs` bits, over its lower neighbour's loss. -/
def shiftedWord (bits : Bitmap 64 16) (bs src : Nat) (h : src < 16) : BitVec 64 :=
  let v := bits[src] <<< bs
  if 0 < bs ∧ 1 ≤ src then v ||| bits[src - 1] >>> (64 - bs) else v

/-- The loop of `shiftUp` over the words below `n`, downwards. -/
def shiftLoop (bits : Bitmap 64 16) (ws bs : Nat) :
    (n : Nat) → n ≤ 16 → Bitmap 64 16 → Bitmap 64 16
  | 0, _, out => out
  | w + 1, h, out =>
    if w < ws then out
    else shiftLoop bits ws bs w (by omega) (out.set w (shiftedWord bits bs (w - ws) (by omega)))

/-- Shifts the whole map towards older indices by `n`. -/
def shiftUp (bits : Bitmap 64 16) (n : Nat) : Bitmap 64 16 :=
  if replayWindow ≤ n then Vector.replicate 16 0#64
  else shiftLoop bits (n / 64) (n % 64) 16 (Nat.le_refl _) (Vector.replicate 16 0#64)

/-- Records a counter, or rejects a replay or one too old. -/
def accept (win : ReplayWindow) (ctr : Nat) : Bool × ReplayWindow :=
  if ! win.seenAny then
    (true, { seenAny := true, highest := ctr, bits := set (Vector.replicate 16 0#64) 0 })
  else if win.highest < ctr then
    (true, { win with highest := ctr, bits := set (shiftUp win.bits (ctr - win.highest)) 0 })
  else
    let behind := win.highest - ctr
    if h : replayWindow ≤ behind then (false, win)
    else
      let i : Fin 1024 := ⟨behind, Nat.not_le.1 h⟩
      if get win.bits i then (false, win) else (true, { win with bits := set win.bits i })

/-! ## The bits of the map -/

theorem get_eq_bit (bits : Bitmap 64 16) (i : Fin 1024) : get bits i = bits.bit i.1 := by
  rw [get, Bitmap.ushiftRight_and_one _ _ (by decide), Bitmap.bit_of_lt]

theorem bit_set (bits : Bitmap 64 16) (i : Fin 1024) (j : Nat) :
    Bitmap.bit (set bits i) j = (bits.bit j || decide (j = i.1)) :=
  Bitmap.bit_set (by decide) (by omega) j

theorem bit_word (bits : Bitmap 64 16) {i r : Nat} (hi : i < 16) (hr : r < 64) :
    bits.bit (64 * i + r) = bits[i].getLsbD r := by
  have hdiv : (64 * i + r) / 64 = i := by omega
  have hmod : (64 * i + r) % 64 = r := by omega
  rw [Bitmap.bit_of_lt (by omega)]
  simp only [hdiv, hmod]

theorem getLsbD_shiftedWord (bits : Bitmap 64 16) {bs src j : Nat} (hbs : bs < 64) (hj : j < 64)
    (h : src < 16) :
    (shiftedWord bits bs src h).getLsbD j =
      if bs ≤ j then bits[src].getLsbD (j - bs)
      else if 1 ≤ src then bits[src - 1].getLsbD (64 + j - bs) else false := by
  rw [shiftedWord]
  have hshl : (bits[src] <<< bs).getLsbD j = (decide (bs ≤ j) && bits[src].getLsbD (j - bs)) := by
    rw [BitVec.getLsbD_shiftLeft, decide_eq_true hj, Bool.true_and, ← decide_not]
    simp only [Nat.not_lt]
  by_cases hlow : bs ≤ j
  · -- The bits the neighbour loses all fall below the word's own.
    have hout : (bits[src - 1] >>> (64 - bs)).getLsbD j = false := by
      rw [BitVec.getLsbD_ushiftRight]
      exact BitVec.getLsbD_of_ge _ _ (by omega)
    split <;> simp only [BitVec.getLsbD_or, hshl, hout, hlow, decide_true, Bool.true_and,
      Bool.or_false]
  · have hbs₀ : 0 < bs := by omega
    have hin : (bits[src - 1] >>> (64 - bs)).getLsbD j = bits[src - 1].getLsbD (64 + j - bs) := by
      rw [BitVec.getLsbD_ushiftRight]
      congr 1
      omega
    simp only [hbs₀, true_and, hlow, if_false]
    split <;> simp only [BitVec.getLsbD_or, hshl, hin, hlow, decide_false, Bool.false_and,
      Bool.false_or]

theorem shiftedWord_spec (bits : Bitmap 64 16) {ws bs w : Nat} (hbs : bs < 64) (hw : w < 16)
    (hws : ws ≤ w) :
    bits.Shifted ws bs w (shiftedWord bits bs (w - ws) (by omega)) := by
  intro j hj
  rw [getLsbD_shiftedWord bits hbs hj]
  by_cases hlow : bs ≤ j
  · rw [if_pos hlow, bit_word bits (by omega) (by omega)]
    simp [hws, hlow, Nat.not_lt.2 hlow]
  · rw [if_neg hlow]
    by_cases hs : 1 ≤ w - ws
    · rw [if_pos hs, bit_word bits (i := w - ws - 1) (by omega) (by omega)]
      simp [hlow, Nat.not_le.1 hlow, show ws < w by omega]
    · rw [if_neg hs]
      simp [hlow, show ¬ ws < w by omega]

theorem getElem_shiftLoop (bits : Bitmap 64 16) (ws bs : Nat) (n : Nat) (hn : n ≤ 16)
    (out : Bitmap 64 16) (i : Nat) (hi : i < 16) :
    (shiftLoop bits ws bs n hn out)[i] =
      if i < n ∧ ws ≤ i then shiftedWord bits bs (i - ws) (by omega) else out[i] := by
  induction n generalizing out with
  | zero => simp [shiftLoop]
  | succ w ih =>
    rw [shiftLoop]
    by_cases hw : w < ws
    · rw [if_pos hw, if_neg (by omega)]
    · rw [if_neg hw, ih, Vector.getElem_set]
      by_cases hwi : w = i
      · subst hwi
        rw [if_neg (by omega), if_pos rfl, if_pos (by omega)]
      · simp only [hwi, if_false]
        have hiff : i < w + 1 ∧ ws ≤ i ↔ i < w ∧ ws ≤ i := by omega
        simp only [hiff]

theorem bit_shiftUp (bits : Bitmap 64 16) (n : Nat) {i : Nat} (hi : i < 1024) :
    Bitmap.bit (shiftUp bits n) i = (decide (n ≤ i) && bits.bit (i - n)) := by
  rw [shiftUp]
  by_cases hn : replayWindow ≤ n
  · rw [if_pos hn, Bitmap.bit_zero, decide_eq_false (by rw [replayWindow] at hn; omega),
      Bool.false_and]
  · rw [if_neg hn]
    refine Bitmap.bit_eq_of_words (by decide) (fun w hw => ?_) i (by omega)
    rw [getElem_shiftLoop]
    by_cases hws : n / 64 ≤ w
    · rw [if_pos ⟨hw, hws⟩]
      exact shiftedWord_spec bits (Nat.mod_lt _ (by decide)) hw hws
    · rw [if_neg (by omega), Vector.getElem_replicate]
      intro j _
      simp [hws, Nat.not_lt.2 (Nat.le_of_lt (Nat.not_le.1 hws))]

/-! ## What the window is for -/

/-- A counter is new after `seen`, and above the greatest less the window. -/
def admits (seen : List Nat) (ctr : Nat) : Bool :=
  decide (ctr ∉ seen) && seen.all (· < ctr + replayWindow)

/-- The verdict on a counter, and the counters accepted after it. -/
def admitCounter (seen : List Nat) (ctr : Nat) : Bool × List Nat :=
  if admits seen ctr then (true, ctr :: seen) else (false, seen)

/-- The window stands for the counters of `seen`. -/
structure Represents (win : ReplayWindow) (seen : List Nat) : Prop where
  /-- Nothing was seen exactly as long as the window says so. -/
  fresh : win.seenAny = false ↔ seen = []
  mem : seen ≠ [] → win.highest ∈ seen
  /-- No counter is above it. -/
  le : ∀ c ∈ seen, c ≤ win.highest
  /-- The bits are those of the counters inside the window. -/
  bit : seen ≠ [] → ∀ i < 1024, win.bits.bit i ↔ i ≤ win.highest ∧ win.highest - i ∈ seen

variable {win : ReplayWindow} {seen : List Nat}

theorem represents_new : Represents {} [] where
  fresh := by simp
  mem h := absurd rfl h
  le := by simp
  bit h := absurd rfl h

theorem admits_of_gt (h : Represents win seen) {ctr : Nat} (hgt : win.highest < ctr) :
    admits seen ctr = true := by
  simp only [admits, Bool.and_eq_true, decide_eq_true_eq, all_eq_true]
  refine ⟨fun hc => ?_, fun c hc => ?_⟩
  · have := h.le ctr hc
    omega
  · have := h.le c hc
    omega

theorem admits_of_le (h : Represents win seen) (hne : seen ≠ []) {ctr : Nat}
    (hle : ctr ≤ win.highest) :
    admits seen ctr = true ↔
      win.highest - ctr < replayWindow ∧ win.bits.bit (win.highest - ctr) = false := by
  simp only [admits, Bool.and_eq_true, decide_eq_true_eq, all_eq_true]
  have hself : win.highest - (win.highest - ctr) = ctr := by omega
  constructor
  · rintro ⟨hnew, hall⟩
    have hin := hall _ (h.mem hne)
    have hlt : win.highest - ctr < replayWindow := by omega
    refine ⟨hlt, ?_⟩
    rw [← Bool.not_eq_true, h.bit hne _ hlt, hself]
    exact fun hb => hnew hb.2
  · rintro ⟨hlt, hbit⟩
    rw [← Bool.not_eq_true, h.bit hne _ hlt, hself] at hbit
    refine ⟨fun hc => hbit ⟨by omega, hc⟩, fun c hc => ?_⟩
    have := h.le c hc
    omega

theorem represents_shift (h : Represents win seen) (hne : seen ≠ []) {ctr : Nat}
    (hgt : win.highest < ctr) :
    Represents { win with highest := ctr, bits := set (shiftUp win.bits (ctr - win.highest)) 0 }
      (ctr :: seen) where
  fresh := by simpa using fun hf => hne (h.fresh.1 hf)
  mem _ := mem_cons_self
  le c hc := by
    rcases mem_cons.1 hc with rfl | hc
    · exact Nat.le_refl _
    · exact Nat.le_of_lt (Nat.lt_of_le_of_lt (h.le c hc) hgt)
  bit _ i hi := by
    rw [bit_set, bit_shiftUp _ _ hi]
    simp only [Bool.or_eq_true, Bool.and_eq_true, decide_eq_true_eq, mem_cons, Fin.val_zero]
    constructor
    · rintro (⟨hle, hb⟩ | rfl)
      · obtain ⟨hle', hmem⟩ := (h.bit hne _ (by omega)).1 hb
        have : ctr - i = win.highest - (i - (ctr - win.highest)) := by omega
        exact ⟨by omega, .inr (this ▸ hmem)⟩
      · exact ⟨Nat.zero_le _, .inl (Nat.sub_zero _)⟩
    · rintro ⟨hi', heq | hmem⟩
      · exact .inr (by omega)
      · have := h.le _ hmem
        refine .inl ⟨by omega, (h.bit hne _ (by omega)).2 ⟨by omega, ?_⟩⟩
        have : win.highest - (i - (ctr - win.highest)) = ctr - i := by omega
        exact this ▸ hmem

theorem represents_set (h : Represents win seen) (hne : seen ≠ []) {ctr : Nat}
    (hle : ctr ≤ win.highest) (i : Fin 1024) (hi : i.1 = win.highest - ctr) :
    Represents { win with bits := set win.bits i } (ctr :: seen) where
  fresh := by simpa using fun hf => hne (h.fresh.1 hf)
  mem _ := mem_cons_of_mem _ (h.mem hne)
  le c hc := by
    rcases mem_cons.1 hc with rfl | hc
    · exact hle
    · exact h.le c hc
  bit _ j hj := by
    rw [bit_set]
    simp only [Bool.or_eq_true, decide_eq_true_eq, mem_cons, h.bit hne j hj]
    constructor
    · rintro (⟨hle', hmem⟩ | rfl)
      · exact ⟨hle', .inr hmem⟩
      · exact ⟨by omega, .inl (by omega)⟩
    · rintro ⟨hle', heq | hmem⟩
      · exact .inr (by omega)
      · exact .inl ⟨hle', hmem⟩

theorem represents_first (ctr : Nat) :
    Represents { seenAny := true, highest := ctr, bits := set (Vector.replicate 16 0#64) 0 }
      [ctr] where
  fresh := by simp
  mem _ := mem_cons_self
  le c hc := Nat.le_of_eq (mem_singleton.1 hc)
  bit _ i _ := by
    rw [bit_set, Bitmap.bit_zero]
    simp only [Bool.false_or, decide_eq_true_eq, Fin.val_zero, mem_singleton]
    omega

theorem accept_spec (h : Represents win seen) (ctr : Nat) :
    (win.accept ctr).1 = (admitCounter seen ctr).1 ∧
      Represents (win.accept ctr).2 (admitCounter seen ctr).2 := by
  rw [accept, admitCounter]
  by_cases hany : win.seenAny = false
  · obtain rfl := h.fresh.1 hany
    simp only [hany, Bool.not_false, if_true]
    exact ⟨by simp [admits], by simpa [admits] using represents_first ctr⟩
  have hne : seen ≠ [] := fun hs => hany (h.fresh.2 hs)
  simp only [Bool.not_eq_false] at hany
  simp only [hany, Bool.not_true, Bool.false_eq_true, if_false]
  by_cases hgt : win.highest < ctr
  · rw [if_pos hgt, if_pos (admits_of_gt h hgt)]
    exact ⟨rfl, hany ▸ represents_shift h hne hgt⟩
  have hle := Nat.not_lt.1 hgt
  rw [if_neg hgt]
  have hadmits := admits_of_le h hne hle
  split
  · -- Too far behind.
    rename_i hfar
    rw [if_neg fun ha => Nat.not_le.2 (hadmits.1 ha).1 hfar]
    exact ⟨rfl, h⟩
  · rename_i hnear
    have hnear := Nat.not_le.1 hnear
    rw [get_eq_bit]
    by_cases hbit : win.bits.bit (win.highest - ctr) = true
    · rw [if_pos hbit, if_neg fun ha => Bool.eq_false_iff.1 (hadmits.1 ha).2 hbit]
      exact ⟨rfl, h⟩
    · rw [if_neg hbit, if_pos (hadmits.2 ⟨hnear, Bool.not_eq_true _ ▸ hbit⟩)]
      exact ⟨rfl, hany ▸ represents_set h hne hle ⟨_, hnear⟩ rfl⟩

/-- The verdicts of a window on a sequence of counters. -/
def verdicts (win : ReplayWindow) : List Nat → List Bool
  | [] => []
  | ctr :: ctrs => (win.accept ctr).1 :: (win.accept ctr).2.verdicts ctrs

def referenceVerdicts (seen : List Nat) : List Nat → List Bool
  | [] => []
  | ctr :: ctrs => (admitCounter seen ctr).1 :: referenceVerdicts (admitCounter seen ctr).2 ctrs

theorem verdicts_eq_reference (h : Represents win seen) (ctrs : List Nat) :
    win.verdicts ctrs = referenceVerdicts seen ctrs := by
  induction ctrs generalizing win seen with
  | nil => rfl
  | cons ctr ctrs ih =>
    obtain ⟨hv, hr⟩ := accept_spec h ctr
    rw [verdicts, referenceVerdicts, hv, ih hr]

end ReplayWindow
end Decibell
