import Decibell.Lib.Bytes
import Decibell.Lib.Framed

/-!
# Packet framing

The codec between the socket and the packets: every frame is a length of four bytes, the highest
first, and that many bytes of body. A longer body than `maxFrameSize`, up to `maxSkipSize`, is
thrown away as it arrives; a length above that is an error.
-/

namespace Decibell

open Lib List

namespace LengthPrefix

/-- Largest frame handed on. -/
def maxFrameSize : Nat := 2 * 1024 * 1024

/-- A frame above `maxFrameSize` up to this is read and thrown away. -/
def maxSkipSize : Nat := 64 * 1024 * 1024

/-- What is awaited of an oversized frame: the tag byte and a varint of 10 bytes at most. -/
def typePeek : Nat := 11

inductive ErrorKind
  | invalidData
deriving DecidableEq, Repr

structure IoError where
  kind : ErrorKind
  message : String
deriving DecidableEq, Repr

/-- The error of a length above `maxSkipSize`. -/
def frameTooLong (length : Nat) : IoError where
  kind := .invalidData
  message := "Frame size " ++ toString length ++ " exceeds maximum " ++ toString maxSkipSize

end LengthPrefix

open LengthPrefix

structure LengthPrefixCodec where
  /-- Bytes of an oversized frame still to discard. -/
  skipRemaining : Nat := 0
deriving DecidableEq, Repr

namespace LengthPrefixCodec

/-! ## The codec -/

/-- The decoder's head: an oversized frame's bytes are dropped as they arrive. -/
def discard (codec : LengthPrefixCodec) (src : List UInt8) : LengthPrefixCodec × List UInt8 :=
  if 0 < codec.skipRemaining then
    let n := min codec.skipRemaining src.length
    ({ codec with skipRemaining := codec.skipRemaining - n }, src.drop n)
  else (codec, src)

theorem length_discard_le (codec : LengthPrefixCodec) (src : List UInt8) :
    (codec.discard src).2.length ≤ src.length := by
  rw [discard]
  split
  · rw [length_drop]; exact Nat.sub_le _ _
  · exact Nat.le_refl _

/-- One call: the next whole frame, nothing yet, or an error. -/
def decode (codec : LengthPrefixCodec) (src : List UInt8) :
    Except LengthPrefix.IoError (Option (List UInt8)) × LengthPrefixCodec × List UInt8 :=
  let head := codec.discard src
  if 0 < head.1.skipRemaining then (.ok none, head)
  else if head.2.length < 4 then (.ok none, head)
  else
    let length := ofBeBytes (head.2.take 4)
    if maxSkipSize < length then (.error (frameTooLong length), head)
    else if maxFrameSize < length then
      if head.2.length < 4 + typePeek then (.ok none, head)
      -- What is already buffered is dropped next; if the whole frame is there, the frame after
      -- it comes out of this same call.
      else decode { head.1 with skipRemaining := length } (head.2.drop 4)
    else if head.2.length < 4 + length then (.ok none, head)
    else (.ok (some ((head.2.drop 4).take length)), head.1, (head.2.drop 4).drop length)
termination_by src.length
decreasing_by
  have hle : head.2.length ≤ src.length := length_discard_le codec src
  change (head.2.drop 4).length < src.length
  rw [List.length_drop]
  omega

/-- Appends an item: its length as a `u32`, then its bytes. -/
def encode (item dst : List UInt8) : List UInt8 :=
  dst ++ beBytes 4 (item.length % 2 ^ 32) ++ item

/-- The bytes of a list of items, sent in order. -/
def encodeAll (items : List (List UInt8)) : List UInt8 :=
  items.foldl (fun dst item => encode item dst) []

/-! ## The parse of a whole stream -/

/-- The frames of a whole stream. An incomplete frame is none; a length above `maxSkipSize` is an
    error. -/
def parse (stream : List UInt8) : Output (List UInt8) LengthPrefix.IoError :=
  if stream.length < 4 then .empty
  else
    let length := ofBeBytes (stream.take 4)
    let body := stream.drop 4
    if maxSkipSize < length then ⟨[], some (frameTooLong length)⟩
    else if body.length < length then .empty
    else if maxFrameSize < length then parse (body.drop length)
    else (parse (body.drop length)).cons (body.take length)
termination_by stream.length
decreasing_by all_goals
  rw [List.length_drop, List.length_drop]
  omega

/-- What is to come out with bytes to skip: the parse behind them. -/
def parseFrom (codec : LengthPrefixCodec) (stream : List UInt8) : Output (List UInt8) LengthPrefix.IoError :=
  parse (stream.drop codec.skipRemaining)

theorem parse_of_short {stream : List UInt8} (h : stream.length < 4) : parse stream = .empty := by
  rw [parse, if_pos h]

@[simp] theorem parse_nil : parse [] = .empty := parse_of_short (Nat.zero_lt_succ 3)

theorem parse_of_tooLong {stream : List UInt8} (hlen : 4 ≤ stream.length)
    (h : maxSkipSize < ofBeBytes (stream.take 4)) :
    parse stream = ⟨[], some (frameTooLong (ofBeBytes (stream.take 4)))⟩ := by
  rw [parse, if_neg (Nat.not_lt.2 hlen)]
  exact if_pos h

theorem parse_of_cut {stream : List UInt8} (hlen : 4 ≤ stream.length)
    (hle : ofBeBytes (stream.take 4) ≤ maxSkipSize)
    (h : stream.length < 4 + ofBeBytes (stream.take 4)) : parse stream = .empty := by
  rw [parse, if_neg (Nat.not_lt.2 hlen)]
  dsimp only
  rw [if_neg (Nat.not_lt.2 hle), if_pos (by rw [length_drop]; omega)]

/-- An oversized frame is skipped whole, even if the stream ends within. -/
theorem parse_of_oversized {stream : List UInt8} (hlen : 4 ≤ stream.length)
    (hle : ofBeBytes (stream.take 4) ≤ maxSkipSize)
    (h : maxFrameSize < ofBeBytes (stream.take 4)) :
    parse stream = parse ((stream.drop 4).drop (ofBeBytes (stream.take 4))) := by
  rcases Nat.lt_or_ge (stream.drop 4).length (ofBeBytes (stream.take 4)) with hcut | hwhole
  · rw [parse_of_cut hlen hle (by rw [length_drop] at hcut; omega),
      drop_eq_nil_of_le (Nat.le_of_lt hcut), parse_nil]
  · rw [parse, if_neg (Nat.not_lt.2 hlen)]
    dsimp only
    rw [if_neg (Nat.not_lt.2 hle), if_neg (Nat.not_lt.2 hwhole), if_pos h]

theorem parse_of_frame {stream : List UInt8} (hlen : 4 ≤ stream.length)
    (hle : ofBeBytes (stream.take 4) ≤ maxFrameSize)
    (h : 4 + ofBeBytes (stream.take 4) ≤ stream.length) :
    parse stream = (parse ((stream.drop 4).drop (ofBeBytes (stream.take 4)))).cons
      ((stream.drop 4).take (ofBeBytes (stream.take 4))) := by
  have hskip : ofBeBytes (stream.take 4) ≤ maxSkipSize := Nat.le_trans hle (by decide)
  rw [parse, if_neg (Nat.not_lt.2 hlen)]
  dsimp only
  rw [if_neg (Nat.not_lt.2 hskip), if_neg (by rw [length_drop]; omega),
    if_neg (Nat.not_lt.2 hle)]

/-! ## Every call agrees with the parse -/

theorem discard_cases (codec : LengthPrefixCodec) (src : List UInt8) :
    (codec.discard src).1.skipRemaining = 0 ∨ (codec.discard src).2 = [] := by
  rw [discard]
  split
  · rcases Nat.le_total codec.skipRemaining src.length with h | h
    · left
      rw [Nat.min_eq_left h]
      exact Nat.sub_self _
    · right
      exact drop_eq_nil_of_le (Nat.le_min.2 ⟨h, Nat.le_refl _⟩)
  · next h => exact .inl (Nat.eq_zero_of_not_pos h)

theorem parseFrom_discard (codec : LengthPrefixCodec) (src more : List UInt8) :
    parseFrom (codec.discard src).1 ((codec.discard src).2 ++ more) =
      parseFrom codec (src ++ more) := by
  have hdrop : ((codec.discard src).2 ++ more).drop (codec.discard src).1.skipRemaining =
      (src ++ more).drop codec.skipRemaining := by
    rw [discard]
    split
    · dsimp only
      rw [← drop_append_of_le_length (Nat.min_le_right _ _), drop_drop]
      congr 1
      omega
    · rfl
  rw [parseFrom, parseFrom, hdrop]

theorem parseFrom_done {codec : LengthPrefixCodec} (h : codec.skipRemaining = 0)
    (stream : List UInt8) : parseFrom codec stream = parse stream := by
  rw [parseFrom, h, drop_zero]

theorem discard_done {codec : LengthPrefixCodec} (h : codec.skipRemaining = 0)
    (src : List UInt8) : codec.discard src = (codec, src) := by
  rw [discard, if_neg (Nat.not_lt.2 (Nat.le_of_eq h))]

/-- What a call has to return to agree with the parse. -/
def Agrees (codec : LengthPrefixCodec) (src : List UInt8) :
    Except LengthPrefix.IoError (Option (List UInt8)) × LengthPrefixCodec × List UInt8 → Prop
  | (.ok (some body), codec', src') =>
    src'.length < src.length ∧
      ∀ more, parseFrom codec (src ++ more) = (parseFrom codec' (src' ++ more)).cons body
  | (.ok none, codec', src') =>
    (∀ more, parseFrom codec (src ++ more) = parseFrom codec' (src' ++ more)) ∧
      parseFrom codec' src' = .empty ∧ (0 < codec'.skipRemaining → src' = []) ∧
      src'.length < 4 + maxFrameSize
  | (.error e, codec', src') =>
    (∀ more, parseFrom codec (src ++ more) = ⟨[], some e⟩) ∧
      ∀ more, decode codec' (src' ++ more) = (.error e, codec', src' ++ more)

theorem Agrees.of_discard {codec codec' : LengthPrefixCodec} {src src' : List UInt8}
    {r : Except LengthPrefix.IoError (Option (List UInt8)) × LengthPrefixCodec × List UInt8}
    (hd : codec.discard src = (codec', src')) (h : Agrees codec' src' r) : Agrees codec src r := by
  have hparse := parseFrom_discard codec src
  have hle := length_discard_le codec src
  rw [hd] at hparse hle
  rcases r with ⟨_ | _ | body, codec'', src''⟩
  · exact ⟨fun more => (hparse more).symm.trans (h.1 more), h.2⟩
  · exact ⟨fun more => (hparse more).symm.trans (h.1 more), h.2⟩
  · exact ⟨Nat.lt_of_lt_of_le h.1 hle, fun more => (hparse more).symm.trans (h.2 more)⟩

theorem agrees_waiting {codec : LengthPrefixCodec} {src : List UInt8}
    (hdone : ¬ 0 < codec.skipRemaining) (hparse : parse src = .empty)
    (hlen : src.length < 4 + maxFrameSize) : Agrees codec src (.ok none, codec, src) :=
  ⟨fun _ => rfl, (parseFrom_done (Nat.eq_zero_of_not_pos hdone) src).trans hparse,
    fun h => absurd h hdone, hlen⟩

theorem length_append_more {src : List UInt8} (h : ¬ src.length < 4) (more : List UInt8) :
    ofBeBytes ((src ++ more).take 4) = ofBeBytes (src.take 4) := by
  rw [take_append_of_le_length (Nat.not_lt.1 h)]

theorem decode_of_discard {codec codec' : LengthPrefixCodec} {src src' : List UInt8}
    (hd : codec.discard src = (codec', src')) :
    decode codec src =
      if 0 < codec'.skipRemaining then (.ok none, codec', src')
      else if src'.length < 4 then (.ok none, codec', src')
      else if maxSkipSize < ofBeBytes (src'.take 4) then
        (.error (frameTooLong (ofBeBytes (src'.take 4))), codec', src')
      else if maxFrameSize < ofBeBytes (src'.take 4) then
        if src'.length < 4 + typePeek then (.ok none, codec', src')
        else decode { codec' with skipRemaining := ofBeBytes (src'.take 4) } (src'.drop 4)
      else if src'.length < 4 + ofBeBytes (src'.take 4) then (.ok none, codec', src')
      else (.ok (some ((src'.drop 4).take (ofBeBytes (src'.take 4)))), codec',
        (src'.drop 4).drop (ofBeBytes (src'.take 4))) := by
  rw [decode, hd]

theorem decode_of_tooLong {codec : LengthPrefixCodec} {src : List UInt8}
    (hdone : codec.skipRemaining = 0) (hlen : 4 ≤ src.length)
    (h : maxSkipSize < ofBeBytes (src.take 4)) :
    decode codec src = (.error (frameTooLong (ofBeBytes (src.take 4))), codec, src) := by
  rw [decode_of_discard (discard_done hdone src), if_neg (Nat.not_lt.2 (Nat.le_of_eq hdone)),
    if_neg (Nat.not_lt.2 hlen), if_pos h]

theorem parseFrom_oversized {codec : LengthPrefixCodec} {src : List UInt8}
    (hdone : ¬ 0 < codec.skipRemaining) (hlen : ¬ src.length < 4)
    (hlong : ¬ maxSkipSize < ofBeBytes (src.take 4)) (hbig : maxFrameSize < ofBeBytes (src.take 4))
    (more : List UInt8) :
    parseFrom codec (src ++ more) =
      parseFrom { codec with skipRemaining := ofBeBytes (src.take 4) } (src.drop 4 ++ more) := by
  have hmore := length_append_more hlen more
  rw [parseFrom_done (Nat.eq_zero_of_not_pos hdone),
    parse_of_oversized (by rw [length_append]; omega)
      (by rw [hmore]; exact Nat.not_lt.1 hlong) (by rw [hmore]; exact hbig), hmore, parseFrom,
    drop_append_of_le_length (Nat.not_lt.1 hlen)]

theorem parseFrom_frame {codec : LengthPrefixCodec} {src : List UInt8}
    (hdone : ¬ 0 < codec.skipRemaining) (hlen : ¬ src.length < 4)
    (hbig : ¬ maxFrameSize < ofBeBytes (src.take 4))
    (hwhole : ofBeBytes (src.take 4) ≤ (src.drop 4).length) (more : List UInt8) :
    parseFrom codec (src ++ more) =
      (parseFrom codec ((src.drop 4).drop (ofBeBytes (src.take 4)) ++ more)).cons
        ((src.drop 4).take (ofBeBytes (src.take 4))) := by
  have hmore := length_append_more hlen more
  have hsize := hwhole
  rw [length_drop] at hsize
  rw [parseFrom_done (Nat.eq_zero_of_not_pos hdone), parseFrom_done (Nat.eq_zero_of_not_pos hdone),
    parse_of_frame (by rw [length_append]; omega) (by rw [hmore]; exact Nat.not_lt.1 hbig)
      (by rw [hmore, length_append]; omega), hmore,
    drop_append_of_le_length (Nat.not_lt.1 hlen), drop_append_of_le_length hwhole,
    take_append_of_le_length hwhole]

theorem decode_agrees (codec : LengthPrefixCodec) (src : List UInt8) :
    Agrees codec src (decode codec src) := by
  have hpeek : typePeek ≤ maxFrameSize := by decide
  rcases hd : codec.discard src with ⟨codec', src'⟩
  have hle : src'.length ≤ src.length := by
    have := length_discard_le codec src
    rwa [hd] at this
  refine .of_discard hd ?_
  rw [decode_of_discard hd]
  by_cases hdone : 0 < codec'.skipRemaining
  · -- The frame being skipped has not ended: everything that arrived is dropped.
    have hnil : src' = [] := by
      have hcases := discard_cases codec src
      rw [hd] at hcases
      exact hcases.resolve_left (Nat.ne_of_gt hdone)
    subst hnil
    rw [if_pos hdone]
    refine ⟨fun more => rfl, ?_, fun _ => rfl, Nat.add_pos_left (by decide) _⟩
    rw [parseFrom, drop_nil, parse_nil]
  rw [if_neg hdone]
  by_cases hlen : src'.length < 4
  · rw [if_pos hlen]
    exact agrees_waiting hdone (parse_of_short hlen) (by omega)
  rw [if_neg hlen]
  have hmore := length_append_more hlen
  by_cases hlong : maxSkipSize < ofBeBytes (src'.take 4)
  · have hlen' : ∀ more, 4 ≤ (src' ++ more).length :=
      fun more => by rw [length_append]; omega
    have hdone' := Nat.eq_zero_of_not_pos hdone
    rw [if_pos hlong]
    refine ⟨fun more => ?_, fun more => ?_⟩
    · rw [parseFrom_done hdone', parse_of_tooLong (hlen' more) (by rw [hmore]; exact hlong), hmore]
    · rw [decode_of_tooLong hdone' (hlen' more) (by rw [hmore]; exact hlong), hmore]
  rw [if_neg hlong]
  by_cases hbig : maxFrameSize < ofBeBytes (src'.take 4)
  · rw [if_pos hbig]
    by_cases hwait : src'.length < 4 + typePeek
    · -- Nothing is taken until the type of the oversized frame can be named.
      rw [if_pos hwait]
      exact agrees_waiting hdone
        (parse_of_cut (Nat.not_lt.1 hlen) (Nat.not_lt.1 hlong) (by omega)) (by omega)
    · have ih := decode_agrees { codec' with skipRemaining := ofBeBytes (src'.take 4) }
        (src'.drop 4)
      have hparse := parseFrom_oversized hdone hlen hlong hbig
      rw [if_neg hwait]
      generalize decode { codec' with skipRemaining := ofBeBytes (src'.take 4) } (src'.drop 4) = r
        at ih
      rcases r with ⟨_ | _ | body, codec'', src''⟩
      · exact ⟨fun more => (hparse more).trans (ih.1 more), ih.2⟩
      · exact ⟨fun more => (hparse more).trans (ih.1 more), ih.2⟩
      · refine ⟨Nat.lt_of_lt_of_le ih.1 ?_, fun more => (hparse more).trans (ih.2 more)⟩
        rw [length_drop]
        exact Nat.sub_le _ _
  rw [if_neg hbig]
  by_cases hcut : src'.length < 4 + ofBeBytes (src'.take 4)
  · rw [if_pos hcut]
    exact agrees_waiting hdone (parse_of_cut (Nat.not_lt.1 hlen) (Nat.not_lt.1 hlong) hcut)
      (by omega)
  · rw [if_neg hcut]
    refine ⟨?_, parseFrom_frame hdone hlen hbig (by rw [length_drop]; omega)⟩
    rw [length_drop, length_drop]
    omega
termination_by src.length
decreasing_by
  rw [length_drop]
  omega

def decoder : Decoder LengthPrefixCodec UInt8 (List UInt8) LengthPrefix.IoError where
  decode := decode
  shrinks {codec src _ _ _} h := by
    have hagrees := decode_agrees codec src
    rw [h] at hagrees
    exact hagrees.1

theorem decode_follows : decoder.Follows parseFrom where
  frame {codec src _ _ _} h := by
    have hagrees := decode_agrees codec src
    rw [show decode codec src = _ from h] at hagrees
    exact hagrees.2
  wait {codec src _ _} h := by
    have hagrees := decode_agrees codec src
    rw [show decode codec src = _ from h] at hagrees
    exact hagrees.1
  waits {codec src _ _} h := by
    have hagrees := decode_agrees codec src
    rw [show decode codec src = _ from h] at hagrees
    exact hagrees.2.1
  fail {codec src _ _ _} h := by
    have hagrees := decode_agrees codec src
    rw [show decode codec src = _ from h] at hagrees
    exact hagrees.1

/-- Between reads nothing of a skipped frame is held, and no whole frame; a failed decoder fails for
    good. -/
def Holds : Option LengthPrefix.IoError → LengthPrefixCodec → List UInt8 → Prop
  | none, codec, src =>
    (0 < codec.skipRemaining → src = []) ∧ src.length < 4 + maxFrameSize
  | some e, codec, src => ∀ more, decode codec (src ++ more) = (.error e, codec, src ++ more)

/-- A reader of the codec, from the start of a connection. -/
def readAll (reads : List (List UInt8)) :
    Output (List UInt8) LengthPrefix.IoError × LengthPrefixCodec × List UInt8 :=
  decoder.feed {} [] reads

theorem readAll_holds (reads : List (List UInt8)) :
    Holds (readAll reads).1.error (readAll reads).2.1 (readAll reads).2.2 := by
  refine Decoder.feed_post ?_ ?_ ⟨fun _ => rfl, Nat.add_pos_left (by decide) _⟩ reads
  · intro codec src codec' src' h
    have hagrees := decode_agrees codec src
    rw [show decode codec src = _ from h] at hagrees
    exact hagrees.2.2
  · intro codec src e codec' src' h
    have hagrees := decode_agrees codec src
    rw [show decode codec src = _ from h] at hagrees
    exact hagrees.2

theorem readAll_eq (reads : List (List UInt8)) : (readAll reads).1 = parse reads.flatten := by
  have hnil : parseFrom {} [] = .empty := parse_nil
  exact (Decoder.feed_eq decode_follows hnil reads).trans (parseFrom_done rfl _)

/-! ## What was encoded -/

theorem encodeAll_eq (items : List (List UInt8)) :
    encodeAll items = items.flatMap fun item => encode item [] := by
  have hfold : ∀ dst : List UInt8, items.foldl (fun dst item => encode item dst) dst =
      dst ++ items.flatMap fun item => encode item [] := by
    induction items with
    | nil => exact fun dst => (append_nil dst).symm
    | cons item items ih =>
      intro dst
      rw [foldl_cons, ih, flatMap_cons, ← append_assoc]
      congr 1
      rw [encode, encode, nil_append, append_assoc]
  exact hfold []

theorem parse_encodeAll {items : List (List UInt8)}
    (h : ∀ item ∈ items, item.length ≤ maxSkipSize) :
    parse (encodeAll items) = ⟨items.filter fun item => item.length ≤ maxFrameSize, none⟩ := by
  rw [encodeAll_eq]
  induction items with
  | nil => exact parse_nil
  | cons item items ih =>
    obtain ⟨hitem, hitems⟩ := forall_mem_cons.1 h
    have hskip : maxSkipSize < 2 ^ 32 := by decide
    have hhead : ∀ rest, (encode item [] ++ rest).take 4 = beBytes 4 item.length := by
      intro rest
      rw [encode, nil_append, Nat.mod_eq_of_lt (by omega), append_assoc]
      exact take_left' (length_beBytes _ _)
    have hbody : ∀ rest, (encode item [] ++ rest).drop 4 = item ++ rest := by
      intro rest
      rw [encode, nil_append, append_assoc]
      exact drop_left' (length_beBytes _ _)
    have hsize : ofBeBytes (beBytes 4 item.length) = item.length :=
      ofBeBytes_beBytes (by omega)
    have hlen : ∀ rest, (encode item [] ++ rest).length = 4 + item.length + rest.length := by
      intro rest
      rw [encode, length_append, length_append, nil_append, length_beBytes]
    rw [flatMap_cons]
    by_cases hbig : item.length ≤ maxFrameSize
    · rw [parse_of_frame (by rw [hlen]; omega) (by rw [hhead, hsize]; exact hbig)
        (by rw [hhead, hsize, hlen]; omega), hhead, hsize, hbody, drop_left, take_left,
        ih hitems, filter_cons_of_pos (by simpa using hbig)]
      rfl
    · rw [parse_of_oversized (by rw [hlen]; omega) (by rw [hhead, hsize]; exact hitem)
        (by rw [hhead, hsize]; omega), hhead, hsize, hbody, drop_left, ih hitems,
        filter_cons_of_neg (by simpa using hbig)]

/-- Packet framing does not depend on how bytes arrive. Whatever the reads, frames and error are
    those of the parse of all; a failed decoder fails on every further call; encoded items within
    the limit come out again; and of a skipped frame nothing is kept, never more than a frame. -/
theorem framing_independent_of_reads :
    (∀ reads, (readAll reads).1 = parse reads.flatten) ∧
    (∀ reads e, (readAll reads).1.error = some e → ∀ more,
      decode (readAll reads).2.1 ((readAll reads).2.2 ++ more) =
        (.error e, (readAll reads).2.1, (readAll reads).2.2 ++ more)) ∧
    (∀ items, (∀ item ∈ items, item.length ≤ maxFrameSize) →
      ∀ reads, reads.flatten = encodeAll items → (readAll reads).1 = ⟨items, none⟩) ∧
    ∀ reads, (readAll reads).1.error = none →
      (0 < (readAll reads).2.1.skipRemaining → (readAll reads).2.2 = []) ∧
      (readAll reads).2.2.length < 4 + maxFrameSize := by
  refine ⟨readAll_eq, fun reads e he => ?_, fun items hitems reads hreads => ?_,
    fun reads hnone => ?_⟩
  · have hholds := readAll_holds reads
    rw [he] at hholds
    exact hholds
  · have hskip : ∀ item ∈ items, item.length ≤ maxSkipSize :=
      fun item hi => Nat.le_trans (hitems item hi) (by decide)
    have hall : items.filter (fun item => item.length ≤ maxFrameSize) = items :=
      List.filter_eq_self.2 fun item hi => decide_eq_true (hitems item hi)
    rw [readAll_eq, hreads, parse_encodeAll hskip, hall]
  · have hholds := readAll_holds reads
    rw [hnone] at hholds
    exact hholds

/-- Two items, read in three pieces. -/
theorem framing_independent_of_reads_three :
    (readAll [[0, 0], [0, 2, 7, 8, 0, 0], [0, 1, 9]]).1 = ⟨[[7, 8], [9]], none⟩ :=
  framing_independent_of_reads.2.2.1 [[7, 8], [9]] (by decide) _ (by decide)

end LengthPrefixCodec

end Decibell
