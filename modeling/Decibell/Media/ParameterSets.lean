import Decibell.Lib.Chunks
import Mathlib.Data.List.DropRight
import Mathlib.Data.List.Sort

/-!
# Parameter sets

Parameter sets are spliced into an access unit, in front of its first NAL unit that is not an access
unit delimiter. Buffers are in Annex B format: NAL units, each behind a start code, which is `00 00
01`, and perhaps behind more zeros.
-/

namespace Decibell.ParameterSets

open Lib List

/-- The layout of a NAL header. -/
inductive NalCodec where
  | h264
  | hevc
deriving DecidableEq

/-- The type of a unit, from the first byte of its header. -/
def NalCodec.nalType : NalCodec → UInt8 → UInt8
  | .h264, header => header &&& 0x1F
  | .hevc, header => (header >>> 1) &&& 0x3F

/-- The type of a sequence parameter set. -/
def NalCodec.spsType : NalCodec → UInt8
  | .h264 => 7
  | .hevc => 33

/-- The type of an access unit delimiter. -/
def NalCodec.audType : NalCodec → UInt8
  | .h264 => 9
  | .hevc => 35

/-- `00 00 01` is at an offset. -/
def StartCodeAt (buf : List UInt8) (i : Nat) : Prop :=
  buf[i]? = some 0 ∧ buf[i + 1]? = some 0 ∧ buf[i + 2]? = some 1

instance (buf : List UInt8) (i : Nat) : Decidable (StartCodeAt buf i) :=
  inferInstanceAs (Decidable (_ ∧ _))

/-- The NAL headers behind start codes at or after `i`. -/
def nalHeaderOffsetsFrom (buf : List UInt8) (i : Nat) : List Nat :=
  if i + 3 ≤ buf.length then
    if StartCodeAt buf i then
      if i + 3 < buf.length then (i + 3) :: nalHeaderOffsetsFrom buf (i + 3) else []
    else nalHeaderOffsetsFrom buf (i + 1)
  else []
termination_by buf.length - i

def nalHeaderOffsets (buf : List UInt8) : List Nat := nalHeaderOffsetsFrom buf 0

def startsWithStartCode (buf : List UInt8) : Bool :=
  [0, 0, 1].isPrefixOf buf || [0, 0, 0, 1].isPrefixOf buf

/-- A NAL unit of the type is in the buffer. -/
def containsNalType (buf : List UInt8) (codec : NalCodec) (nalType : UInt8) : Bool :=
  (nalHeaderOffsets buf).any fun h => codec.nalType (buf.getD h 0) == nalType

/-- The buffer can be spliced in front of a keyframe. -/
def usableParameterSets (extradata : List UInt8) (codec : NalCodec) : Bool :=
  startsWithStartCode extradata && containsNalType extradata codec codec.spsType

/-- Where the zeros before `p` start, not below `stop`. -/
def backUp (packet : List UInt8) (stop : Nat) : Nat → Nat
  | 0 => 0
  | p + 1 => if stop < p + 1 ∧ packet.getD p 0 = 0 then backUp packet stop p else p + 1

/-- Parameter sets go behind a packet's opening delimiter, if any. -/
def insertionPoint (packet : List UInt8) (codec : NalCodec) : Nat :=
  match nalHeaderOffsets packet with
  | [] => 0
  | first :: headers =>
    if codec.nalType (packet.getD first 0) = codec.audType then
      match headers with
      | second :: _ => backUp packet (first + 1) (second - 3)
      | [] => packet.length
    else 0

/-- The packet with parameter sets before its first unit other than a delimiter. -/
def insertParameterSets (packet paramSets : List UInt8) (codec : NalCodec) : List UInt8 :=
  packet.take (insertionPoint packet codec) ++ paramSets ++
    packet.drop (insertionPoint packet codec)

/-! ## The units of a buffer -/

/-- A NAL unit: its header's first byte, and the rest up to the next start code and its zeros. -/
structure NalUnit where
  header : UInt8
  payload : List UInt8
deriving DecidableEq

/-- The unit whose header is at `h`, and which stops before `stop`. -/
def unitAt (buf : List UInt8) (h stop : Nat) : NalUnit :=
  ⟨buf.getD h 0, (slice buf (h + 1) stop).rdropWhile (· == 0)⟩

/-- The units with headers at the offsets. -/
def unitsAt (buf : List UInt8) : List Nat → List NalUnit
  | [] => []
  | [h] => [unitAt buf h buf.length]
  | h :: next :: hs => unitAt buf h (next - 3) :: unitsAt buf (next :: hs)

/-- The NAL units of a buffer, in order. -/
def nalUnits (buf : List UInt8) : List NalUnit := unitsAt buf (nalHeaderOffsets buf)

/-- The delimiter that a list of units opens with, if it does. -/
def leadingDelimiter (codec : NalCodec) (units : List NalUnit) : List NalUnit :=
  (units.take 1).filter fun u => codec.nalType u.header == codec.audType

def afterDelimiter (codec : NalCodec) (units : List NalUnit) : List NalUnit :=
  units.drop (leadingDelimiter codec units).length

/-- A buffer's first `1` is behind two zeros or more, and only zeros. -/
def Opens (buf : List UInt8) : Prop :=
  ∃ k rest, 2 ≤ k ∧ buf = List.replicate k 0 ++ 1 :: rest

/-- A unit is behind the last start code. -/
def Closed (buf : List UInt8) : Prop := ∀ i, StartCodeAt buf i → i + 3 < buf.length

/-- It opens with a start code, and each start code has a unit. -/
structure AnnexB (buf : List UInt8) : Prop where
  opens : Opens buf
  closed : Closed buf

/-! ## The scan -/

section Scan

variable {a b buf : List UInt8} {i h : Nat}

def IsHeader (buf : List UInt8) (h : Nat) : Prop :=
  h < buf.length ∧ ∃ i, h = i + 3 ∧ StartCodeAt buf i

theorem StartCodeAt.add_three_le {j : Nat} (hi : StartCodeAt buf i) (hj : StartCodeAt buf j)
    (hlt : i < j) : i + 3 ≤ j := by
  obtain ⟨-, -, hone⟩ := hi
  obtain ⟨hzero, hzero', -⟩ := hj
  by_contra hover
  rcases (by omega : j = i + 1 ∨ j = i + 2) with rfl | rfl
  · rw [hone] at hzero'
    exact absurd hzero' (by decide)
  · rw [hone] at hzero
    exact absurd hzero (by decide)

theorem StartCodeAt.le_length (hi : StartCodeAt buf i) : i + 3 ≤ buf.length :=
  (List.getElem?_eq_some_iff.1 hi.2.2).1

theorem nalHeaderOffsetsFrom_spec (buf : List UInt8) (i : Nat) :
    (∀ h, h ∈ nalHeaderOffsetsFrom buf i ↔ i + 3 ≤ h ∧ IsHeader buf h) ∧
      (nalHeaderOffsetsFrom buf i).Pairwise (· < ·) := by
  induction i using nalHeaderOffsetsFrom.induct buf with
  | case1 i _ hcode hlt ih =>
    rw [nalHeaderOffsetsFrom, if_pos (by omega), if_pos hcode, if_pos hlt]
    refine ⟨fun h => ?_, pairwise_cons.2 ⟨fun h hmem => ?_, ih.2⟩⟩
    · rw [mem_cons, ih.1]
      refine ⟨?_, ?_⟩
      · rintro (rfl | ⟨hle, hheader⟩)
        · exact ⟨Nat.le_refl _, hlt, i, rfl, hcode⟩
        · exact ⟨by omega, hheader⟩
      · rintro ⟨hle, hheader⟩
        obtain ⟨hbound, j, rfl, hj⟩ := hheader
        rcases (by omega : j = i ∨ i < j) with rfl | hnext
        · exact .inl rfl
        · have hafter := hcode.add_three_le hj hnext
          exact .inr ⟨by omega, hbound, j, rfl, hj⟩
    · have hafter := ((ih.1 h).1 hmem).1
      omega
  | case2 i hle hcode hlt =>
    rw [nalHeaderOffsetsFrom, if_pos hle, if_pos hcode, if_neg hlt]
    refine ⟨fun h => ⟨fun hmem => absurd hmem not_mem_nil, ?_⟩, List.Pairwise.nil⟩
    rintro ⟨hafter, hbound, -⟩
    omega
  | case3 i hle hcode ih =>
    rw [nalHeaderOffsetsFrom, if_pos hle, if_neg hcode]
    refine ⟨fun h => ?_, ih.2⟩
    rw [ih.1]
    refine ⟨fun ⟨hle, hheader⟩ => ⟨by omega, hheader⟩, ?_⟩
    rintro ⟨hle, hheader⟩
    obtain ⟨hbound, j, rfl, hj⟩ := hheader
    rcases (by omega : j = i ∨ i < j) with rfl | hnext
    · exact absurd hj hcode
    · exact ⟨by omega, hbound, j, rfl, hj⟩
  | case4 i hle =>
    rw [nalHeaderOffsetsFrom, if_neg hle]
    refine ⟨fun h => ⟨fun hmem => absurd hmem not_mem_nil, ?_⟩, List.Pairwise.nil⟩
    rintro ⟨hafter, hbound, -⟩
    omega

theorem closed_of_all (h : ∀ i < buf.length, StartCodeAt buf i → i + 3 < buf.length) :
    Closed buf := fun i hi =>
  h i (Nat.lt_of_lt_of_le (Nat.lt_add_of_pos_right (by decide)) hi.le_length) hi

theorem mem_nalHeaderOffsets : h ∈ nalHeaderOffsets buf ↔ IsHeader buf h := by
  rw [nalHeaderOffsets, (nalHeaderOffsetsFrom_spec buf 0).1, and_iff_right_iff_imp]
  rintro ⟨-, i, rfl, -⟩
  omega

theorem nalHeaderOffsets_pairwise (buf : List UInt8) : (nalHeaderOffsets buf).Pairwise (· < ·) :=
  (nalHeaderOffsetsFrom_spec buf 0).2

theorem startCodeAt_append_left (hi : i + 3 ≤ a.length) :
    StartCodeAt (a ++ b) i ↔ StartCodeAt a i := by
  rw [StartCodeAt, StartCodeAt, getElem?_append_left (by omega),
    getElem?_append_left (by omega), getElem?_append_left (by omega)]

theorem startCodeAt_append_right : StartCodeAt (a ++ b) (a.length + i) ↔ StartCodeAt b i := by
  rw [StartCodeAt, StartCodeAt, Nat.add_assoc, Nat.add_assoc,
    getElem?_append_right (Nat.le_add_right _ _),
    getElem?_append_right (Nat.le_add_right _ _),
    getElem?_append_right (Nat.le_add_right _ _), Nat.add_sub_cancel_left,
    Nat.add_sub_cancel_left, Nat.add_sub_cancel_left]

theorem Opens.two_le (hopens : Opens b) (hone : b[i]? = some 1) : 2 ≤ i := by
  obtain ⟨k, rest, hk, rfl⟩ := hopens
  by_contra hlt
  rw [getElem?_append_left (by rw [length_replicate]; omega),
    getElem?_replicate_of_lt (by omega)] at hone
  exact absurd hone (by decide)

theorem Opens.append (hopens : Opens a) : Opens (a ++ b) := by
  obtain ⟨k, rest, hk, rfl⟩ := hopens
  exact ⟨k, rest ++ b, hk, by rw [append_assoc, cons_append]⟩

/-- A start code is in one of two buffers, if the second opens with one. -/
theorem startCodeAt_append (hopens : Opens b) : StartCodeAt (a ++ b) i ↔
    StartCodeAt a i ∨ ∃ j, i = a.length + j ∧ StartCodeAt b j := by
  constructor
  · intro hi
    rcases Nat.lt_or_ge (i + 2) a.length with hleft | hright
    · exact .inl ((startCodeAt_append_left (by omega)).1 hi)
    · have hone := hi.2.2
      rw [getElem?_append_right hright] at hone
      have htwo := hopens.two_le hone
      obtain ⟨j, rfl⟩ := Nat.exists_eq_add_of_le (by omega : a.length ≤ i)
      exact .inr ⟨j, rfl, startCodeAt_append_right.1 hi⟩
  · rintro (hi | ⟨j, rfl, hj⟩)
    · exact (startCodeAt_append_left hi.le_length).2 hi
    · exact startCodeAt_append_right.2 hj

theorem isHeader_append (hclosed : Closed a) (hopens : Opens b) : IsHeader (a ++ b) h ↔
    IsHeader a h ∨ ∃ g, h = a.length + g ∧ IsHeader b g := by
  constructor
  · rintro ⟨hlt, i, rfl, hi⟩
    rcases (startCodeAt_append hopens).1 hi with hi | ⟨j, rfl, hj⟩
    · exact .inl ⟨hclosed i hi, i, rfl, hi⟩
    · rw [length_append] at hlt
      exact .inr ⟨j + 3, by omega, by omega, j, rfl, hj⟩
  · rintro (⟨hlt, i, rfl, hi⟩ | ⟨_, rfl, hlt, j, rfl, hj⟩)
    · exact ⟨by rw [length_append]; omega, i, rfl, (startCodeAt_append hopens).2 (.inl hi)⟩
    · exact ⟨by rw [length_append]; omega, a.length + j, by omega,
        (startCodeAt_append hopens).2 (.inr ⟨j, rfl, hj⟩)⟩

theorem nalHeaderOffsets_append (hclosed : Closed a) (hopens : Opens b) :
    nalHeaderOffsets (a ++ b) =
      nalHeaderOffsets a ++ (nalHeaderOffsets b).map (a.length + ·) := by
  refine (nalHeaderOffsets_pairwise _).eq_of_mem_iff (pairwise_append.2
    ⟨nalHeaderOffsets_pairwise a, ?_, fun h hh g hg => ?_⟩) fun h => ?_
  · exact pairwise_map.2 ((nalHeaderOffsets_pairwise b).imp fun hlt =>
      Nat.add_lt_add_left hlt _)
  · obtain ⟨g', -, rfl⟩ := mem_map.1 hg
    exact Nat.lt_of_lt_of_le (mem_nalHeaderOffsets.1 hh).1 (Nat.le_add_right _ _)
  · rw [mem_nalHeaderOffsets, isHeader_append hclosed hopens, mem_append,
      mem_nalHeaderOffsets, mem_map]
    refine or_congr Iff.rfl (exists_congr fun g => ?_)
    rw [mem_nalHeaderOffsets, and_comm, eq_comm]

theorem Closed.append (ha : Closed a) (hb : Closed b) (hopens : Opens b) : Closed (a ++ b) := by
  intro i hi
  rw [length_append]
  rcases (startCodeAt_append hopens).1 hi with hi | ⟨j, rfl, hj⟩
  · have hlt := ha i hi
    omega
  · have hlt := hb j hj
    omega

end Scan

/-! ## The units of two buffers -/

section Units

variable {a b buf : List UInt8} {h stop : Nat}

theorem rdropWhile_append_zeros (xs : List UInt8) (k : Nat) :
    (xs ++ List.replicate k 0).rdropWhile (· == 0) = xs.rdropWhile (· == 0) := by
  induction k with
  | zero => rw [replicate_zero, append_nil]
  | succ k ih =>
    rw [replicate_succ', ← append_assoc, rdropWhile_concat_pos _ _ _ (by decide), ih]

theorem getD_append_left (hh : h < a.length) : (a ++ b).getD h 0 = a.getD h 0 := by
  rw [getD_eq_getElem?_getD, getElem?_append_left hh, ← getD_eq_getElem?_getD]

theorem getD_append_right : (a ++ b).getD (a.length + h) 0 = b.getD h 0 := by
  rw [getD_eq_getElem?_getD, getElem?_append_right (Nat.le_add_right _ _),
    Nat.add_sub_cancel_left, ← getD_eq_getElem?_getD]

theorem unitAt_append_left (hh : h < a.length) (hstop : stop ≤ a.length) :
    unitAt (a ++ b) h stop = unitAt a h stop := by
  rw [unitAt, unitAt, getD_append_left hh, slice_eq_drop_take, slice_eq_drop_take,
    take_append_of_le_length hstop]

theorem unitAt_append_right : unitAt (a ++ b) (a.length + h) (a.length + stop) =
    unitAt b h stop := by
  rw [unitAt, unitAt, getD_append_right, slice, slice, Nat.add_assoc, ← drop_drop,
    drop_left, show a.length + stop - (a.length + (h + 1)) = stop - (h + 1) by omega]

theorem unitAt_append_zeros {k : Nat} (hh : h < a.length)
    (hzeros : b.take k = List.replicate k 0) :
    unitAt (a ++ b) h (a.length + k) = unitAt a h a.length := by
  rw [unitAt, unitAt, getD_append_left hh, slice_eq_drop_take, slice_eq_drop_take,
    take_append, take_of_length_le (Nat.le_add_right _ _), Nat.add_sub_cancel_left,
    hzeros, take_length, drop_append_of_le_length hh, rdropWhile_append_zeros]

theorem unitsAt_append_right (hs : List Nat) (hmem : ∀ h ∈ hs, 3 ≤ h) :
    unitsAt (a ++ b) (hs.map (a.length + ·)) = unitsAt b hs := by
  induction hs using unitsAt.induct with
  | case1 => rfl
  | case2 h =>
    rw [map_singleton, unitsAt, unitsAt, length_append, unitAt_append_right]
  | case3 h next hs ih =>
    have hnext := hmem next (by simp)
    rw [map_cons, map_cons, unitsAt, unitsAt, ← map_cons (l := hs),
      ih fun g hg => hmem g (mem_cons_of_mem h hg), Nat.add_sub_assoc hnext,
      unitAt_append_right]

theorem IsHeader.three_le (hheader : IsHeader buf h) : 3 ≤ h := by
  obtain ⟨-, i, rfl, -⟩ := hheader
  omega

theorem Opens.nalHeaderOffsets (hopens : Opens b) (hclosed : Closed b) :
    ∃ k hs, nalHeaderOffsets b = (k + 3) :: hs ∧ b.take k = List.replicate k 0 := by
  obtain ⟨n, rest, hn, hb⟩ := id hopens
  obtain ⟨k, rfl⟩ := Nat.exists_eq_add_of_le' hn
  have hcode : StartCodeAt b k := by
    subst hb
    refine ⟨?_, ?_, ?_⟩
    · rw [getElem?_append_left (by rw [length_replicate]; omega),
        getElem?_replicate_of_lt (by omega)]
    · rw [getElem?_append_left (by rw [length_replicate]; omega),
        getElem?_replicate_of_lt (by omega)]
    · rw [getElem?_append_right (by rw [length_replicate]), length_replicate,
        Nat.sub_self]
      rfl
  have hheader : IsHeader b (k + 3) := ⟨hclosed k hcode, k, rfl, hcode⟩
  have htake : b.take k = List.replicate k 0 := by
    rw [hb, take_append_of_le_length (by rw [length_replicate]; omega),
      take_replicate, Nat.min_eq_left (Nat.le_add_right k 2)]
  have hmem := mem_nalHeaderOffsets.2 hheader
  have hpairwise := nalHeaderOffsets_pairwise b
  rcases hhs : ParameterSets.nalHeaderOffsets b with _ | ⟨g, hs⟩
  · rw [hhs] at hmem
    exact absurd hmem not_mem_nil
  · -- No header comes sooner: the first `1` is at `k + 2`.
    have hg : IsHeader b g := mem_nalHeaderOffsets.1 (hhs ▸ mem_cons_self)
    rw [hhs] at hmem hpairwise
    have hle : g ≤ k + 3 := by
      rcases mem_cons.1 hmem with heq | hlater
      · omega
      · exact ((pairwise_cons.1 hpairwise).1 _ hlater).le
    obtain ⟨-, i, rfl, hi⟩ := hg
    have hge : k ≤ i := by
      by_contra hlt
      have hone := hi.2.2
      rw [hb, getElem?_append_left (by rw [length_replicate]; omega),
        getElem?_replicate_of_lt (by omega)] at hone
      exact absurd hone (by decide)
    exact ⟨k, hs, by rw [show i = k by omega], htake⟩

theorem unitsAt_append (hs : List Nat) (hmem : ∀ h ∈ hs, IsHeader a h) (hopens : Opens b)
    (hclosed : Closed b) : unitsAt (a ++ b) (hs ++ (nalHeaderOffsets b).map (a.length + ·)) =
      unitsAt a hs ++ nalUnits b := by
  have hb : ∀ h ∈ nalHeaderOffsets b, 3 ≤ h := fun h hh => (mem_nalHeaderOffsets.1 hh).three_le
  have hright := @unitsAt_append_right a b (nalHeaderOffsets b) hb
  induction hs using unitsAt.induct with
  | case1 => exact hright
  | case2 h =>
    -- The unit before the seam.
    obtain ⟨k, gs, hgs, hzeros⟩ := hopens.nalHeaderOffsets hclosed
    rw [nalUnits, ← hright, hgs, map_cons, singleton_append, unitsAt, unitsAt,
      show a.length + (k + 3) - 3 = a.length + k by omega,
      unitAt_append_zeros (hmem h mem_cons_self).1 hzeros, singleton_append]
  | case3 h next hs ih =>
    have hh := (hmem h mem_cons_self).1
    have hnext := (hmem next (mem_cons_of_mem h mem_cons_self)).1
    rw [cons_append, cons_append, unitsAt, unitsAt, ← cons_append,
      ih fun g hg => hmem g (mem_cons_of_mem h hg), unitAt_append_left hh (by omega),
      cons_append]

theorem nalUnits_append (ha : Closed a) (hopens : Opens b) (hclosed : Closed b) :
    nalUnits (a ++ b) = nalUnits a ++ nalUnits b := by
  rw [nalUnits, nalHeaderOffsets_append ha hopens,
    unitsAt_append _ (fun h hh => mem_nalHeaderOffsets.1 hh) hopens hclosed, ← nalUnits]

theorem nalUnits_of_offsets {hs : List Nat} (hoffsets : nalHeaderOffsets buf = h :: hs) :
    ∃ stop us, nalUnits buf = unitAt buf h stop :: us := by
  rw [nalUnits, hoffsets]
  cases hs with
  | nil => exact ⟨_, [], rfl⟩
  | cons next hs => exact ⟨_, _, rfl⟩

end Units

/-! ## The splice -/

section Splice

variable {packet paramSets a b : List UInt8} {codec : NalCodec} {first second stop p : Nat}

theorem backUp_spec (hstop : stop ≤ p) : stop ≤ backUp packet stop p ∧ backUp packet stop p ≤ p ∧
    ∀ i, backUp packet stop p ≤ i → i < p → packet.getD i 0 = 0 := by
  induction p with
  | zero => exact ⟨hstop, Nat.le_refl 0, fun i _ hi => absurd hi (Nat.not_lt_zero i)⟩
  | succ p ih =>
    rw [backUp]
    split
    · next hzero =>
      obtain ⟨hle, hge, hzeros⟩ := ih (by omega)
      refine ⟨hle, by omega, fun i hi hlt => ?_⟩
      rcases (by omega : i < p ∨ i = p) with hbefore | rfl
      · exact hzeros i hi hbefore
      · exact hzero.2
    · exact ⟨hstop, Nat.le_refl _, fun i hi hlt => absurd hi (by omega)⟩

theorem nalType_zero_ne_audType (codec : NalCodec) : codec.nalType 0 ≠ codec.audType := by
  cases codec <;> decide

theorem startCodeAt_take {n i : Nat} :
    StartCodeAt (packet.take n) i ↔ i + 3 ≤ n ∧ StartCodeAt packet i := by
  constructor
  · intro hi
    have hle := hi.le_length
    have hi' := (startCodeAt_append_left (b := packet.drop n) hle).2 hi
    rw [take_append_drop] at hi'
    exact ⟨Nat.le_trans hle (length_take_le n packet), hi'⟩
  · rintro ⟨hle, hi⟩
    have hlength := hi.le_length
    refine (startCodeAt_append_left (b := packet.drop n) ?_).1 ?_
    · rw [length_take]
      omega
    · rwa [take_append_drop]

theorem startCodeAt_drop {n i : Nat} :
    StartCodeAt (packet.drop n) i ↔ StartCodeAt packet (n + i) := by
  rw [StartCodeAt, StartCodeAt, getElem?_drop, getElem?_drop, getElem?_drop,
    Nat.add_assoc, Nat.add_assoc]

theorem opens_drop {n j : Nat} (hj : StartCodeAt packet j) (hle : n ≤ j)
    (hzeros : ∀ i, n ≤ i → i < j → packet.getD i 0 = 0) : Opens (packet.drop n) := by
  have hlength := hj.le_length
  obtain ⟨k, rfl⟩ := Nat.exists_eq_add_of_le hle
  refine ⟨k + 2, packet.drop (n + k + 3), Nat.le_add_left 2 k, ?_⟩
  have hrest : packet.drop (n + (k + 2)) = 1 :: packet.drop (n + k + 3) := by
    obtain ⟨hlt, hone⟩ := List.getElem?_eq_some_iff.1 hj.2.2
    rw [drop_eq_getElem_cons (by omega)]
    congr 1
  have hfront : (packet.drop n).take (k + 2) = List.replicate (k + 2) 0 := by
    refine eq_replicate_iff.2 ⟨?_, fun x hx => ?_⟩
    · rw [length_take, length_drop]
      omega
    · obtain ⟨m, hm, rfl⟩ := getElem_of_mem hx
      rw [length_take] at hm
      rw [getElem_take, getElem_drop]
      rcases (by omega : m < k ∨ m = k ∨ m = k + 1) with hlt | rfl | rfl
      · have hzero := hzeros (n + m) (by omega) (by omega)
        rwa [getD_eq_getElem?_getD, getElem?_eq_getElem (by omega)] at hzero
      · exact (List.getElem?_eq_some_iff.1 hj.1).2
      · exact (List.getElem?_eq_some_iff.1 hj.2.1).2
  rw [← take_append_drop (k + 2) (packet.drop n), hfront, drop_drop, hrest]

theorem backUp_between (hpacket : AnnexB packet) {hs : List Nat}
    (hoffsets : nalHeaderOffsets packet = first :: second :: hs)
    (haud : codec.nalType (packet.getD first 0) = codec.audType) :
    ∃ n, n = backUp packet (first + 1) (second - 3) ∧ first < n ∧ n < second ∧
      n ≤ packet.length ∧ Closed (packet.take n) ∧ AnnexB (packet.drop n) := by
  have hpairwise := nalHeaderOffsets_pairwise packet
  rw [hoffsets] at hpairwise
  have hmem (h : Nat) : IsHeader packet h ↔ h ∈ first :: second :: hs := by
    rw [← hoffsets, mem_nalHeaderOffsets]
  obtain ⟨hfirst, i, rfl, hi⟩ := (hmem first).2 mem_cons_self
  obtain ⟨hsecond, j, rfl, hj⟩ := (hmem second).2 (by simp)
  obtain ⟨hbefore, hlater⟩ := pairwise_cons.1 hpairwise
  have hlt := hbefore _ mem_cons_self
  have hafter := hi.add_three_le hj (by omega)
  have hne : i + 3 ≠ j := by
    rintro rfl
    rw [getD_eq_getElem?_getD, hj.1] at haud
    exact nalType_zero_ne_audType codec haud
  obtain ⟨hle, hge, hzeros⟩ := @backUp_spec packet (i + 3 + 1) j (by omega)
  rw [Nat.add_sub_cancel]
  generalize backUp packet (i + 3 + 1) j = n at *
  refine ⟨n, rfl, by omega, by omega, by omega, fun g hg => ?_, opens_drop hj hge hzeros,
    fun g hg => ?_⟩
  · -- There is no header between the two.
    obtain ⟨hgn, hg⟩ := startCodeAt_take.1 hg
    rw [length_take, Nat.min_eq_left (by omega)]
    refine Nat.lt_of_le_of_ne hgn fun heq => ?_
    rcases mem_cons.1 ((hmem (g + 3)).1 ⟨by omega, g, rfl, hg⟩) with h | h
    · omega
    · rcases mem_cons.1 h with h | h
      · omega
      · have hbeyond := (pairwise_cons.1 hlater).1 _ h
        omega
  · have hin := hpacket.closed _ (startCodeAt_drop.1 hg)
    rw [length_drop]
    omega

theorem nalUnits_nil : nalUnits [] = [] := by
  rw [nalUnits, nalHeaderOffsets, nalHeaderOffsetsFrom]
  rfl

theorem nalUnits_take {hs : List Nat} {n : Nat} (hoffsets : nalHeaderOffsets packet = first :: hs)
    (hfirst : first < n) (hrest : ∀ h ∈ hs, n ≤ h) (hn : n ≤ packet.length)
    (hclosed : Closed (packet.take n)) (hopens : Opens (packet.drop n)) :
    ∃ u, nalUnits (packet.take n) = [u] ∧ u.header = packet.getD first 0 := by
  have hlength : (packet.take n).length = n := by rw [length_take, Nat.min_eq_left hn]
  have hsplit := nalHeaderOffsets_append hclosed hopens
  rw [take_append_drop, hoffsets, hlength] at hsplit
  have hmem : ∀ h ∈ nalHeaderOffsets (packet.take n), h < n := fun h hh =>
    hlength ▸ (mem_nalHeaderOffsets.1 hh).1
  rcases hleft : nalHeaderOffsets (packet.take n) with _ | ⟨g, gs⟩
  · rw [hleft, nil_append] at hsplit
    obtain ⟨g, -, hg⟩ := mem_map.1 (hsplit ▸ mem_cons_self)
    omega
  · rw [hleft, cons_append, List.cons.injEq] at hsplit
    obtain ⟨rfl, hsplit⟩ := hsplit
    cases gs with
    | nil =>
      refine ⟨_, by rw [nalUnits, hleft, unitsAt], ?_⟩
      rw [unitAt, ← getD_append_left (b := packet.drop n) (by omega), take_append_drop]
    | cons g gs =>
      have hlt := hmem g (by rw [hleft]; simp)
      have hge := hrest g (by rw [hsplit]; exact mem_cons_self)
      omega

theorem leadingDelimiter_cons (u : NalUnit) (us : List NalUnit) :
    leadingDelimiter codec (u :: us) =
      if codec.nalType u.header = codec.audType then [u] else [] := by
  rw [leadingDelimiter, take_succ_cons, take_zero, filter_singleton]
  by_cases h : codec.nalType u.header = codec.audType
  · rw [if_pos h, beq_iff_eq.2 h, cond_true]
  · rw [if_neg h, beq_eq_false_iff_ne.2 h, cond_false]

theorem insertionPoint_spec (hpacket : AnnexB packet) (codec : NalCodec) :
    let n := insertionPoint packet codec
    Closed (packet.take n) ∧ (packet.drop n = [] ∨ AnnexB (packet.drop n)) ∧
      nalUnits (packet.take n) = leadingDelimiter codec (nalUnits packet) := by
  intro n
  rcases hoffsets : nalHeaderOffsets packet with _ | ⟨first, hs⟩
  · obtain ⟨k, hs, hcons, -⟩ := hpacket.opens.nalHeaderOffsets hpacket.closed
    rw [hoffsets] at hcons
    cases hcons
  obtain ⟨stop, us, hunits⟩ := nalUnits_of_offsets hoffsets
  by_cases haud : codec.nalType (packet.getD first 0) = codec.audType
  · cases hs with
    | nil =>
      -- The packet is a delimiter.
      have hn : n = packet.length := by
        simp only [n, insertionPoint, hoffsets, if_pos haud]
      rw [hn, take_length, drop_length]
      refine ⟨hpacket.closed, .inl rfl, ?_⟩
      rw [nalUnits, hoffsets, unitsAt, leadingDelimiter_cons]
      exact (if_pos haud).symm
    | cons second hs =>
      obtain ⟨m, hm, hfirst, hsecond, hle, hclosed, hrest⟩ := backUp_between hpacket hoffsets haud
      have hn : n = m := by
        simp only [n, insertionPoint, hoffsets, if_pos haud, hm]
      have hlater : ∀ h ∈ second :: hs, m ≤ h := fun h hh => by
        have hpairwise := nalHeaderOffsets_pairwise packet
        rw [hoffsets] at hpairwise
        rcases mem_cons.1 hh with rfl | hh
        · exact hsecond.le
        · have hbeyond := (pairwise_cons.1 (pairwise_cons.1 hpairwise).2).1 h hh
          omega
      obtain ⟨u, hu, hheader⟩ := nalUnits_take hoffsets hfirst hlater hle hclosed hrest.opens
      have happend := nalUnits_append hclosed hrest.opens hrest.closed
      rw [take_append_drop, hu] at happend
      rw [hn]
      refine ⟨hclosed, .inr hrest, ?_⟩
      rw [happend, hu, singleton_append, leadingDelimiter_cons, hheader, if_pos haud]
  · -- There is no delimiter.
    have hn : n = 0 := by
      simp only [n, insertionPoint, hoffsets, if_neg haud]
    rw [hn, take_zero, drop_zero]
    refine ⟨fun i hi => absurd hi.le_length (by simp), .inr hpacket, ?_⟩
    rw [hunits, leadingDelimiter_cons, nalUnits_nil]
    exact (if_neg haud).symm

/-- The units that come out are the packet's, with the sets behind the delimiter. -/
theorem nalUnits_insertParameterSets (hpacket : AnnexB packet) (hsets : AnnexB paramSets)
    (codec : NalCodec) : nalUnits (insertParameterSets packet paramSets codec) =
      leadingDelimiter codec (nalUnits packet) ++ nalUnits paramSets ++
        afterDelimiter codec (nalUnits packet) := by
  obtain ⟨hclosed, hrest, hunits⟩ := insertionPoint_spec hpacket codec
  have happend : nalUnits packet = nalUnits (packet.take (insertionPoint packet codec)) ++
      nalUnits (packet.drop (insertionPoint packet codec)) := by
    rcases hrest with hempty | hrest
    · rw [hempty, nalUnits_nil, append_nil,
        take_of_length_le (drop_eq_nil_iff.1 hempty)]
    · rw [← nalUnits_append hclosed hrest.opens hrest.closed, take_append_drop]
  have hafter : afterDelimiter codec (nalUnits packet) =
      nalUnits (packet.drop (insertionPoint packet codec)) := by
    rw [afterDelimiter, ← hunits, happend, drop_left]
  rw [hafter, ← hunits, insertParameterSets, append_assoc, append_assoc]
  rcases hrest with hempty | hrest
  · rw [hempty, append_nil, nalUnits_nil, append_nil,
      nalUnits_append hclosed hsets.opens hsets.closed]
  · rw [nalUnits_append hclosed hsets.opens.append
        (hsets.closed.append hrest.closed hrest.opens),
      nalUnits_append hsets.closed hrest.opens hrest.closed]

/-- Parameter sets are spliced in at one point, behind an opening delimiter. -/
theorem insertParameterSets_spec (hpacket : AnnexB packet) (hsets : AnnexB paramSets)
    (codec : NalCodec) :
    (∃ n, insertParameterSets packet paramSets codec =
      packet.take n ++ paramSets ++ packet.drop n) ∧
    nalUnits (insertParameterSets packet paramSets codec) =
      leadingDelimiter codec (nalUnits packet) ++ nalUnits paramSets ++
        afterDelimiter codec (nalUnits packet) :=
  ⟨⟨_, rfl⟩, nalUnits_insertParameterSets hpacket hsets codec⟩

/-- A four-byte start code, and a delimiter with zeros at its end. -/
theorem insertParameterSets_spec_delimiter :
    nalUnits (insertParameterSets [0, 0, 0, 1, 9, 0x10, 0, 0, 0, 1, 0x65, 0x88]
        [0, 0, 1, 0x67, 0x42, 0, 0, 0, 1, 0x68] .h264) =
      [⟨9, [0x10]⟩] ++ [⟨0x67, [0x42]⟩, ⟨0x68, []⟩] ++ [⟨0x65, [0x88]⟩] := by
  have hpacket : AnnexB [0, 0, 0, 1, 9, 0x10, 0, 0, 0, 1, 0x65, 0x88] :=
    ⟨⟨3, _, by decide, rfl⟩, closed_of_all (by decide +kernel)⟩
  have hsets : AnnexB [0, 0, 1, 0x67, 0x42, 0, 0, 0, 1, 0x68] :=
    ⟨⟨2, _, by decide, rfl⟩, closed_of_all (by decide +kernel)⟩
  rw [(insertParameterSets_spec hpacket hsets .h264).2]
  decide +kernel

/-! ## Keyframes that can be joined -/

theorem containsNalType_iff {buf : List UInt8} {t : UInt8} :
    containsNalType buf codec t = true ↔ ∃ u ∈ nalUnits buf, codec.nalType u.header = t := by
  have hheaders (hs : List Nat) :
      (unitsAt buf hs).map NalUnit.header = hs.map (buf.getD · 0) := by
    induction hs using unitsAt.induct with
    | case1 => rfl
    | case2 h => rfl
    | case3 h next hs ih => rw [unitsAt, map_cons, ih, map_cons]; rfl
  have hany : containsNalType buf codec t =
      (nalUnits buf).any fun u => codec.nalType u.header == t := by
    have hmap := congrArg (List.any · (codec.nalType · == t)) (hheaders (nalHeaderOffsets buf))
    rw [any_map, any_map] at hmap
    exact hmap.symm
  rw [hany, any_eq_true]
  exact exists_congr fun u => and_congr Iff.rfl beq_iff_eq

theorem opens_of_startsWithStartCode {buf : List UInt8} (h : startsWithStartCode buf = true) :
    Opens buf := by
  rw [startsWithStartCode, Bool.or_eq_true, isPrefixOf_iff_prefix,
    isPrefixOf_iff_prefix] at h
  rcases h with ⟨rest, rfl⟩ | ⟨rest, rfl⟩
  · exact ⟨2, rest, Nat.le_refl 2, rfl⟩
  · exact ⟨3, rest, by decide, rfl⟩

/-- A keyframe with usable parameter sets in it has a sequence parameter set. -/
theorem contains_insertParameterSets (hpacket : AnnexB packet) (hclosed : Closed paramSets)
    (husable : usableParameterSets paramSets codec = true) :
    containsNalType (insertParameterSets packet paramSets codec) codec codec.spsType = true := by
  rw [usableParameterSets, Bool.and_eq_true] at husable
  obtain ⟨u, hu, htype⟩ := containsNalType_iff.1 husable.2
  have hsets : AnnexB paramSets := ⟨opens_of_startsWithStartCode husable.1, hclosed⟩
  refine containsNalType_iff.2 ⟨u, ?_, htype⟩
  rw [nalUnits_insertParameterSets hpacket hsets codec]
  exact mem_append_left _ (mem_append_right _ hu)

theorem contains_insertParameterSets_delimiter :
    containsNalType (insertParameterSets [0, 0, 0, 1, 9, 0x10, 0, 0, 0, 1, 0x65, 0x88]
      [0, 0, 1, 0x67, 0x42] .h264) .h264 7 = true :=
  contains_insertParameterSets ⟨⟨3, _, by decide, rfl⟩, closed_of_all (by decide +kernel)⟩
    (closed_of_all (by decide +kernel)) (by decide +kernel)

end Splice

end Decibell.ParameterSets
