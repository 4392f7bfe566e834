import Decibell.Client.AttachmentLayout

/-!
# Byte ranges of an attachment

A request for a part of an attachment names it by a `Range` header, in bytes of the plaintext.

* `ByteRange.bytesOf`: the bytes that a range is for, one by one. `parseRange_iff` says that the
  parsed range is theirs, and `planRange_spec` that the chunks have them.
-/

namespace Decibell.Attachments

open Lib List

/-- A range of positions, both inclusive. -/
structure PlainRange where
  start : Nat
  stop : Nat
deriving DecidableEq

/-! ## Headers -/

/-- White space and line ends, as `trim` takes them. -/
def isTrimmed (c : Char) : Bool :=
  (9 ≤ c.toNat && c.toNat ≤ 13) || c.toNat = 32 || c.toNat = 0xA0 || c.toNat = 0x1680 ||
    (0x2000 ≤ c.toNat && c.toNat ≤ 0x200A) || c.toNat = 0x2028 || c.toNat = 0x2029 ||
    c.toNat = 0x202F || c.toNat = 0x205F || c.toNat = 0x3000 || c.toNat = 0xFEFF

def trim (text : List Char) : List Char :=
  ((text.dropWhile isTrimmed).reverse.dropWhile isTrimmed).reverse

def bytesUnit : List Char := "bytes=".toList

/-- The groups of `^bytes=(\d*)-(\d*)$`. -/
def rangeGroups (text : List Char) : Option (List Char × List Char) :=
  if bytesUnit.isPrefixOf text then
    let rest := text.drop bytesUnit.length
    match rest.dropWhile Char.isDigit with
    | '-' :: b => if b.all Char.isDigit then some (rest.takeWhile Char.isDigit, b) else none
    | _ => none
  else none

/-- The number that decimal digits are. -/
def parseInt (digits : List Char) : Nat := Nat.ofDigitChars 10 digits 0

/-- The range a header asks for, of `size` bytes, if it can be answered. -/
def parseRange (header : Option String) (size : Nat) : Option PlainRange := do
  let text ← header
  if text.isEmpty then none
  let (a, b) ← rangeGroups (trim text.toList)
  if a = [] ∧ b = [] then none
  let start := if a = [] then size - parseInt b else parseInt a
  let stop := if a = [] ∨ b = [] then size - 1 else min (size - 1) (parseInt b)
  if start > stop ∨ start ≥ size then none
  some ⟨start, stop⟩

/-! ## What a header asks for -/

/-- From one position to another, from a position on, or the last bytes. -/
inductive ByteRange
  | between (first last : Nat)
  | since (first : Nat)
  | last (count : Nat)
deriving DecidableEq

namespace ByteRange

/-- A range is for a position. -/
def Asks (size : Nat) : ByteRange → Nat → Prop
  | between a b, p => a ≤ p ∧ p ≤ b
  | since a, p => a ≤ p
  | last n, p => size ≤ p + n

instance (size : Nat) (r : ByteRange) (p : Nat) : Decidable (r.Asks size p) :=
  match r with
  | between a b => inferInstanceAs (Decidable (a ≤ p ∧ p ≤ b))
  | since a => inferInstanceAs (Decidable (a ≤ p))
  | last n => inferInstanceAs (Decidable (size ≤ p + n))

def bytesOf (r : ByteRange) (file : Bytes) : Bytes :=
  (file.zipIdx.filter fun b => r.Asks file.length b.2).map (·.1)

/-- Decimal digits and the number they are. -/
def Numeral (n : Nat) (digits : List Char) : Prop :=
  digits ≠ [] ∧ (∀ c ∈ digits, c.isDigit) ∧ parseInt digits = n

def Names (text : List Char) : ByteRange → Prop
  | between a b => ∃ s t, Numeral a s ∧ Numeral b t ∧ text = bytesUnit ++ s ++ '-' :: t
  | since a => ∃ s, Numeral a s ∧ text = bytesUnit ++ s ++ ['-']
  | last n => ∃ t, Numeral n t ∧ text = bytesUnit ++ '-' :: t

end ByteRange

open ByteRange

section Headers

variable {size : Nat} {range : PlainRange}

theorem rangeGroups_iff {text s t : List Char} : rangeGroups text = some (s, t) ↔
    text = bytesUnit ++ s ++ '-' :: t ∧ (∀ c ∈ s, c.isDigit) ∧ ∀ c ∈ t, c.isDigit := by
  have hdash : Char.isDigit '-' = false := by decide
  constructor
  · intro h
    rw [rangeGroups] at h
    split at h
    · next hunit =>
      obtain ⟨rest, rfl⟩ := isPrefixOf_iff_prefix.1 hunit
      dsimp only at h
      rw [drop_left] at h
      split at h
      · next t' hrest =>
        split at h
        · next hall =>
          cases h
          refine ⟨?_, all_eq_true.1 all_takeWhile, all_eq_true.1 hall⟩
          rw [append_assoc, ← hrest, takeWhile_append_dropWhile]
        · cases h
      · cases h
    · cases h
  · rintro ⟨rfl, hs, ht⟩
    rw [rangeGroups, if_pos (List.isPrefixOf_iff_prefix.2 ⟨_, (append_assoc _ _ _).symm⟩)]
    dsimp only
    rw [append_assoc, drop_left, dropWhile_append_of_pos hs,
      takeWhile_append_of_pos hs]
    simp [hdash, all_eq_true.2 ht]

theorem window_iff {asks : Nat → Prop} {start stop : Nat} (hstop : stop ≤ size - 1)
    (hasks : ∀ p, p < size → (asks p ↔ start ≤ p ∧ p ≤ stop)) :
    (if start > stop ∨ start ≥ size then none else some ⟨start, stop⟩) = some range ↔
      range.start ≤ range.stop ∧
        ∀ p, range.start ≤ p ∧ p ≤ range.stop ↔ p < size ∧ asks p := by
  constructor
  · intro h
    split at h
    · cases h
    · next hwindow =>
      cases h
      change start ≤ stop ∧ ∀ p, start ≤ p ∧ p ≤ stop ↔ p < size ∧ asks p
      refine ⟨by omega, fun p => ⟨fun hp => ?_, fun hp => (hasks p hp.1).1 hp.2⟩⟩
      have hlt : p < size := by omega
      exact ⟨hlt, (hasks p hlt).2 hp⟩
  · rintro ⟨hle, hset⟩
    -- The ends of either range are positions of the other.
    have hfirst := (hset range.start).1 ⟨Nat.le_refl _, hle⟩
    have hlast := (hset range.stop).1 ⟨hle, Nat.le_refl _⟩
    have hfirst' := (hasks _ hfirst.1).1 hfirst.2
    have hlast' := (hasks _ hlast.1).1 hlast.2
    have hstart := (hset start).2 ⟨by omega, (hasks start (by omega)).2 (by omega)⟩
    have hstop' := (hset stop).2 ⟨by omega, (hasks stop (by omega)).2 (by omega)⟩
    rw [if_neg (by omega)]
    obtain ⟨rstart, rstop⟩ := range
    simp only [Option.some.injEq, PlainRange.mk.injEq] at *
    omega

/-- `bytes=`, digits, a dash and digits name a range, unless both are missing. -/
theorem names_iff {text s t : List Char} (h : rangeGroups text = some (s, t)) (r : ByteRange) :
    r.Names text ↔ ¬ (s = [] ∧ t = []) ∧
      r = if s = [] then .last (parseInt t) else
        if t = [] then .since (parseInt s) else .between (parseInt s) (parseInt t) := by
  obtain ⟨htext, hs, ht⟩ := rangeGroups_iff.1 h
  have hother {s' t' : List Char} (hs' : ∀ c ∈ s', c.isDigit) (ht' : ∀ c ∈ t', c.isDigit)
      (htext' : text = bytesUnit ++ s' ++ '-' :: t') : s' = s ∧ t' = t := by
    have h' := rangeGroups_iff.2 ⟨htext', hs', ht'⟩
    rw [h, Option.some.injEq, Prod.mk.injEq] at h'
    exact ⟨h'.1.symm, h'.2.symm⟩
  constructor
  · intro hnames
    cases r with
    | between a b =>
      obtain ⟨s', t', ⟨hne, hs', rfl⟩, ⟨hne', ht', rfl⟩, htext'⟩ := hnames
      obtain ⟨rfl, rfl⟩ := hother hs' ht' htext'
      simp [hne, hne']
    | since a =>
      obtain ⟨s', ⟨hne, hs', rfl⟩, htext'⟩ := hnames
      obtain ⟨rfl, rfl⟩ := hother hs' (by simp) htext'
      simp [hne]
    | last n =>
      obtain ⟨t', ⟨hne, ht', rfl⟩, htext'⟩ := hnames
      obtain ⟨rfl, rfl⟩ := @hother [] t' (by simp) ht' (by simpa using htext')
      simp [hne]
  · rintro ⟨hne, rfl⟩
    by_cases hs0 : s = []
    · subst hs0
      have ht0 : t ≠ [] := fun h0 => hne ⟨rfl, h0⟩
      exact ⟨t, ⟨ht0, ht, rfl⟩, by simpa using htext⟩
    · rw [if_neg hs0]
      by_cases ht0 : t = []
      · subst ht0
        exact ⟨s, ⟨hs0, hs, rfl⟩, htext⟩
      · rw [if_neg ht0]
        exact ⟨s, t, ⟨hs0, hs, rfl⟩, ⟨ht0, ht, rfl⟩, htext⟩

theorem rangeGroups_of_names {text : List Char} {r : ByteRange} (h : r.Names text) :
    ∃ s t, rangeGroups text = some (s, t) := by
  have hnil : ∀ c ∈ ([] : List Char), c.isDigit := fun _ hc => absurd hc not_mem_nil
  cases r with
  | between a b =>
    obtain ⟨s, t, ⟨-, hs, -⟩, ⟨-, ht, -⟩, htext⟩ := h
    exact ⟨s, t, rangeGroups_iff.2 ⟨htext, hs, ht⟩⟩
  | since a =>
    obtain ⟨s, ⟨-, hs, -⟩, htext⟩ := h
    exact ⟨s, [], rangeGroups_iff.2 ⟨htext, hs, hnil⟩⟩
  | last n =>
    obtain ⟨t, ⟨-, ht, -⟩, htext⟩ := h
    exact ⟨[], t, rangeGroups_iff.2 ⟨by rw [htext, append_nil], hnil, ht⟩⟩

theorem parseRange_iff {header : String} :
    parseRange (some header) size = some range ↔
      ∃ r : ByteRange, r.Names (trim header.toList) ∧ range.start ≤ range.stop ∧
        ∀ p, range.start ≤ p ∧ p ≤ range.stop ↔ p < size ∧ r.Asks size p := by
  rw [parseRange, Option.bind_eq_bind, Option.bind_some]
  cases hgroups : rangeGroups (trim header.toList) with
  | none =>
    -- The header names nothing.
    have hnone : ¬ ∃ r : ByteRange, r.Names (trim header.toList) ∧ range.start ≤ range.stop ∧
        ∀ p, range.start ≤ p ∧ p ≤ range.stop ↔ p < size ∧ r.Asks size p := by
      rintro ⟨r, hnames, -⟩
      obtain ⟨s, t, h⟩ := rangeGroups_of_names hnames
      rw [hgroups] at h
      cases h
    simp [hnone]
  | some groups =>
    obtain ⟨s, t⟩ := groups
    have hne : header.isEmpty = false := by
      rw [← Bool.not_eq_true, String.isEmpty_iff]
      rintro rfl
      have hnone : rangeGroups (trim "".toList) = none := by decide
      rw [hgroups] at hnone
      cases hnone
    simp only [hne, Bool.false_eq_true, if_false, Option.bind_eq_bind, Option.bind_some,
      names_iff hgroups, and_assoc]
    by_cases hboth : s = [] ∧ t = []
    · simp [hboth]
    · simp only [hboth, if_false, not_false_eq_true, true_and, exists_eq_left]
      by_cases hs : s = []
      · simp only [hs, if_true, true_or]
        exact window_iff (Nat.le_refl _) fun p hp => by rw [Asks]; omega
      · by_cases ht : t = []
        · simp only [hs, ht, if_true, if_false, or_true]
          exact window_iff (Nat.le_refl _) fun p hp => by rw [Asks]; omega
        · simp only [hs, ht, if_false, or_false]
          exact window_iff (Nat.min_le_left _ _) fun p hp => by rw [Asks]; omega

theorem slice_eq_bytesOf {r : ByteRange} {file : Bytes}
    (h : ∀ p, range.start ≤ p ∧ p ≤ range.stop ↔ p < file.length ∧ r.Asks file.length p) :
    slice file range.start (range.stop + 1) = r.bytesOf file := by
  -- A filter of a list by position keeps the same bytes as one that asks for the window.
  have hwindow : ∀ b ∈ file.zipIdx, decide (r.Asks file.length b.2) =
      decide (range.start ≤ b.2 ∧ b.2 < range.stop + 1) := by
    intro b hb
    have hlt : b.2 < file.length := (mem_zipIdx' hb).1
    rw [decide_eq_decide, Nat.lt_succ_iff, h b.2]
    exact ⟨fun hasks => ⟨hlt, hasks⟩, And.right⟩
  rw [bytesOf, filter_congr hwindow, filter_window, Nat.sub_zero, Nat.sub_zero]

theorem exists_window {r : ByteRange} {p : Nat} (hp : p < size) (hasks : r.Asks size p) :
    ∃ range : PlainRange, range.start ≤ range.stop ∧
      ∀ p, range.start ≤ p ∧ p ≤ range.stop ↔ p < size ∧ r.Asks size p := by
  cases r with
  | between a b =>
    rw [Asks] at hasks
    refine ⟨⟨a, min b (size - 1)⟩, ?_, fun q => ?_⟩
    · change a ≤ min b (size - 1)
      omega
    · change a ≤ q ∧ q ≤ min b (size - 1) ↔ q < size ∧ a ≤ q ∧ q ≤ b
      omega
  | since a =>
    rw [Asks] at hasks
    refine ⟨⟨a, size - 1⟩, ?_, fun q => ?_⟩
    · change a ≤ size - 1
      omega
    · change a ≤ q ∧ q ≤ size - 1 ↔ q < size ∧ a ≤ q
      omega
  | last n =>
    rw [Asks] at hasks
    refine ⟨⟨size - n, size - 1⟩, ?_, fun q => ?_⟩
    · change size - n ≤ size - 1
      omega
    · change size - n ≤ q ∧ q ≤ size - 1 ↔ q < size ∧ size ≤ q + n
      omega

theorem exists_asked {r : ByteRange} {file : Bytes} (h : r.bytesOf file ≠ []) :
    ∃ p, p < file.length ∧ r.Asks file.length p := by
  obtain ⟨x, hx⟩ := exists_mem_of_ne_nil _ h
  obtain ⟨⟨b, p⟩, hb, -⟩ := mem_map.1 hx
  obtain ⟨hmem, hasks⟩ := mem_filter.1 hb
  exact ⟨p, (mem_zipIdx' hmem).1, of_decide_eq_true hasks⟩

end Headers

/-! ## Plans -/

open Downloader

variable {Key : Type}

/-- The chunks of a range, where they are, and where the range is in them. -/
structure Plan where
  firstChunk : Nat
  lastChunk : Nat
  upstreamRange : Option String
  trimStart : Nat
  trimEnd : Nat
  plainStart : Nat
  plainEnd : Nat

def planRange (info : AttachmentKeyInfo Key) (range : Option PlainRange) : Plan :=
  let total := info.sizeBytes
  let plainStart := (range.map (·.start)).getD 0
  let plainEnd := (range.map (·.stop)).getD (total - 1)
  let firstChunk := plainStart / info.chunkBytes
  let lastChunk := plainEnd / info.chunkBytes
  let ct := ciphertextRangeForChunks firstChunk lastChunk info.chunkBytes
  let ctTotal := ciphertextSize total info.chunkBytes
  let ctEnd := min ct.2 ctTotal - 1
  { firstChunk, lastChunk
    upstreamRange :=
      if total = 0 then none else some ("bytes=" ++ toString ct.1 ++ "-" ++ toString ctEnd)
    trimStart := plainStart - firstChunk * info.chunkBytes
    trimEnd := plainEnd - firstChunk * info.chunkBytes + 1
    plainStart, plainEnd }

/-- A plan for bytes of the file has chunks of the file, and finds the bytes. -/
theorem planRange_spec {info : AttachmentKeyInfo Key} {range : Option PlainRange} {file : Bytes}
    {plan : Plan} (hplan : planRange info range = plan)
    (hle : plan.plainStart ≤ plan.plainEnd) (hlt : plan.plainEnd < file.length) :
    plan.firstChunk ≤ plan.lastChunk ∧
      plan.lastChunk < Downloader.chunkCount file.length info.chunkBytes ∧
      slice (slice file (plan.firstChunk * info.chunkBytes)
          ((plan.lastChunk + 1) * info.chunkBytes)) plan.trimStart plan.trimEnd =
        slice file plan.plainStart (plan.plainEnd + 1) := by
  have hfirst : plan.firstChunk = plan.plainStart / info.chunkBytes := by subst hplan; rfl
  have hlast : plan.lastChunk = plan.plainEnd / info.chunkBytes := by subst hplan; rfl
  have hstart : plan.trimStart = plan.plainStart - plan.firstChunk * info.chunkBytes := by
    subst hplan
    rfl
  have hend : plan.trimEnd = plan.plainEnd - plan.firstChunk * info.chunkBytes + 1 := by
    subst hplan
    rfl
  have hfirst_le : plan.firstChunk * info.chunkBytes ≤ plan.plainStart := by
    rw [hfirst]
    exact Nat.div_mul_le_self _ _
  have hlast_le : plan.lastChunk * info.chunkBytes ≤ plan.plainEnd := by
    rw [hlast]
    exact Nat.div_mul_le_self _ _
  have hlast_lt : plan.plainEnd < (plan.lastChunk + 1) * info.chunkBytes := by
    rw [hlast, Nat.mul_comm]
    exact Nat.lt_mul_div_succ _ info.chunkBytes_pos
  refine ⟨?_, (lt_chunkCount info.chunkBytes_pos).2 (by omega), ?_⟩
  · rw [hfirst, hlast]
    exact Nat.div_le_div_right hle
  · rw [slice_slice, hstart, hend]
    congr 1 <;> omega

end Decibell.Attachments
