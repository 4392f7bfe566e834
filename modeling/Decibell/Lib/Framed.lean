import Mathlib.Tactic.Common

/-!
# Decoders fed in pieces

A *decoder* keeps a state of its own and a buffer with the bytes that have arrived. One call looks
at the front of the buffer: it takes out a frame, asks for more bytes, or fails. A reader appends
every piece it reads to the buffer and calls until no more frame comes out.
-/

namespace Lib

/-- What comes out of a stream: frames, and the error that ended it, if any. -/
@[ext]
structure Output (ι ε : Type*) where
  frames : List ι
  error : Option ε

namespace Output

variable {ι ε : Type*}

/-- Nothing so far. -/
def empty : Output ι ε := ⟨[], none⟩

/-- A frame, then the rest. -/
def cons (x : ι) (o : Output ι ε) : Output ι ε := ⟨x :: o.frames, o.error⟩

/-- The frames of an output without an error, then another output. -/
def append (fs : List ι) (o : Output ι ε) : Output ι ε := ⟨fs ++ o.frames, o.error⟩

end Output

/-- A decoder: from state and buffer a call makes a result (a frame, nothing yet, an error), the
    next state, and what is left. -/
structure Decoder (σ β ι ε : Type*) where
  decode : σ → List β → Except ε (Option ι) × σ × List β
  /-- A call that takes out a frame takes bytes. -/
  shrinks : ∀ {s buf x s' buf'}, decode s buf = (.ok (some x), s', buf') →
    buf'.length < buf.length

namespace Decoder

variable {σ β ι ε : Type*} (d : Decoder σ β ι ε)

/-- Calls until no more frame comes out. -/
def drain (s : σ) (buf : List β) : Output ι ε × σ × List β :=
  match h : d.decode s buf with
  | (.ok (some x), s', buf') =>
    have := d.shrinks h
    let r := drain s' buf'
    (r.1.cons x, r.2)
  | (.ok none, s', buf') => (.empty, s', buf')
  | (.error e, s', buf') => (⟨[], some e⟩, s', buf')
termination_by buf.length

/-- The reader appends every piece, and drains the buffer; an error ends it. -/
def feed (s : σ) (buf : List β) : List (List β) → Output ι ε × σ × List β
  | [] => (.empty, s, buf)
  | piece :: reads =>
    let r := d.drain s (buf ++ piece)
    match r.1.error with
    | some _ => r
    | none =>
      let later := feed r.2.1 r.2.2 reads
      (later.1.append r.1.frames, later.2)

/-- A parse of whole streams that every call of the decoder agrees with. -/
structure Follows (parse : σ → List β → Output ι ε) : Prop where
  frame : ∀ {s buf x s' buf'}, d.decode s buf = (.ok (some x), s', buf') →
    ∀ more, parse s (buf ++ more) = (parse s' (buf' ++ more)).cons x
  wait : ∀ {s buf s' buf'}, d.decode s buf = (.ok none, s', buf') →
    ∀ more, parse s (buf ++ more) = parse s' (buf' ++ more)
  /-- A call asks for more only when there is nothing to take out. -/
  waits : ∀ {s buf s' buf'}, d.decode s buf = (.ok none, s', buf') → parse s' buf' = .empty
  fail : ∀ {s buf e s' buf'}, d.decode s buf = (.error e, s', buf') →
    ∀ more, parse s (buf ++ more) = ⟨[], some e⟩

variable {d} {parse : σ → List β → Output ι ε}

theorem drain_of_frame {s s' : σ} {buf buf' : List β} {x : ι}
    (h : d.decode s buf = (.ok (some x), s', buf')) :
    d.drain s buf = ((d.drain s' buf').1.cons x, (d.drain s' buf').2) := by
  rw [drain]
  split
  · next h' => cases h.symm.trans h'; rfl
  · next h' => cases h.symm.trans h'
  · next h' => cases h.symm.trans h'

theorem drain_of_none {s s' : σ} {buf buf' : List β} (h : d.decode s buf = (.ok none, s', buf')) :
    d.drain s buf = (.empty, s', buf') := by
  rw [drain]
  split
  · next h' => cases h.symm.trans h'
  · next h' => cases h.symm.trans h'; rfl
  · next h' => cases h.symm.trans h'

theorem drain_of_fail {s s' : σ} {buf buf' : List β} {e : ε}
    (h : d.decode s buf = (.error e, s', buf')) :
    d.drain s buf = (⟨[], some e⟩, s', buf') := by
  rw [drain]
  split
  · next h' => cases h.symm.trans h'
  · next h' => cases h.symm.trans h'
  · next h' => cases h.symm.trans h'; rfl

/-- Induction along the calls of a drain. -/
theorem drain_induct {P : σ → List β → Prop}
    (frame : ∀ {s buf x s' buf'}, d.decode s buf = (.ok (some x), s', buf') → P s' buf' → P s buf)
    (wait : ∀ {s buf s' buf'}, d.decode s buf = (.ok none, s', buf') → P s buf)
    (fail : ∀ {s buf e s' buf'}, d.decode s buf = (.error e, s', buf') → P s buf)
    (s : σ) (buf : List β) : P s buf := by
  rcases h : d.decode s buf with ⟨_ | _ | x, s', buf'⟩
  · exact fail h
  · exact wait h
  · exact frame h (drain_induct frame wait fail s' buf')
termination_by buf.length
decreasing_by exact d.shrinks h

/-- A buffer drained without an error: the frames begin the parse, and what is left has no more. -/
theorem drain_of_wait (hd : d.Follows parse) {s : σ} {buf : List β}
    (h : (d.drain s buf).1.error = none) :
    (∀ more, parse s (buf ++ more) =
      (parse (d.drain s buf).2.1 ((d.drain s buf).2.2 ++ more)).append (d.drain s buf).1.frames) ∧
    parse (d.drain s buf).2.1 (d.drain s buf).2.2 = .empty := by
  induction s, buf using drain_induct (d := d) with
  | frame hx ih =>
    rw [drain_of_frame hx] at h ⊢
    obtain ⟨hparse, hrest⟩ := ih h
    exact ⟨fun more => by rw [hd.frame hx, hparse]; rfl, hrest⟩
  | wait hx =>
    rw [drain_of_none hx]
    exact ⟨hd.wait hx, hd.waits hx⟩
  | fail hx =>
    rw [drain_of_fail hx] at h
    cases h

theorem drain_of_error (hd : d.Follows parse) {s : σ} {buf : List β}
    (h : (d.drain s buf).1.error ≠ none) (more : List β) :
    parse s (buf ++ more) = (d.drain s buf).1 := by
  induction s, buf using drain_induct (d := d) with
  | frame hx ih =>
    rw [drain_of_frame hx] at h ⊢
    rw [hd.frame hx, ih h]
  | wait hx =>
    rw [drain_of_none hx] at h
    exact absurd rfl h
  | fail hx =>
    rw [drain_of_fail hx]
    exact hd.fail hx more

theorem feed_cons_of_error {s : σ} {buf piece : List β} {reads : List (List β)}
    (h : (d.drain s (buf ++ piece)).1.error ≠ none) :
    d.feed s buf (piece :: reads) = d.drain s (buf ++ piece) := by
  rw [feed]
  split
  · rfl
  · next hnone => exact absurd hnone h

theorem feed_cons_of_wait {s : σ} {buf piece : List β} {reads : List (List β)}
    (h : (d.drain s (buf ++ piece)).1.error = none) :
    d.feed s buf (piece :: reads) =
      let r := d.drain s (buf ++ piece)
      let later := d.feed r.2.1 r.2.2 reads
      (later.1.append r.1.frames, later.2) := by
  rw [feed]
  split
  · next hsome => rw [h] at hsome; cases hsome
  · rfl

/-- Where reads are cut does not matter: the parse of all comes out. -/
theorem feed_eq (hd : d.Follows parse) {s : σ} {buf : List β} (hbuf : parse s buf = .empty)
    (reads : List (List β)) : (d.feed s buf reads).1 = parse s (buf ++ reads.flatten) := by
  induction reads generalizing s buf with
  | nil => rw [List.flatten_nil, List.append_nil, hbuf]; rfl
  | cons piece reads ih =>
    rw [List.flatten_cons, ← List.append_assoc]
    by_cases herr : (d.drain s (buf ++ piece)).1.error = none
    · obtain ⟨hparse, hrest⟩ := drain_of_wait hd herr
      rw [feed_cons_of_wait herr, hparse, ← ih hrest]
    · rw [feed_cons_of_error herr, drain_of_error hd herr]

/-- The last call of a drain asked for more bytes, or failed. -/
theorem drain_post {P : Option ε → σ → List β → Prop}
    (wait : ∀ {s buf s' buf'}, d.decode s buf = (.ok none, s', buf') → P none s' buf')
    (fail : ∀ {s buf e s' buf'}, d.decode s buf = (.error e, s', buf') → P (some e) s' buf')
    (s : σ) (buf : List β) :
    P (d.drain s buf).1.error (d.drain s buf).2.1 (d.drain s buf).2.2 := by
  induction s, buf using drain_induct (d := d) with
  | frame hx ih => rw [drain_of_frame hx]; exact ih
  | wait hx => rw [drain_of_none hx]; exact wait hx
  | fail hx => rw [drain_of_fail hx]; exact fail hx

/-- After any reads: what holds whenever the decoder asks for more, or, once an error ended it,
    whenever it fails. -/
theorem feed_post {P : Option ε → σ → List β → Prop}
    (wait : ∀ {s buf s' buf'}, d.decode s buf = (.ok none, s', buf') → P none s' buf')
    (fail : ∀ {s buf e s' buf'}, d.decode s buf = (.error e, s', buf') → P (some e) s' buf')
    {s : σ} {buf : List β} (hbuf : P none s buf) (reads : List (List β)) :
    P (d.feed s buf reads).1.error (d.feed s buf reads).2.1 (d.feed s buf reads).2.2 := by
  induction reads generalizing s buf with
  | nil => exact hbuf
  | cons piece reads ih =>
    have hlast := drain_post wait fail s (buf ++ piece)
    by_cases herr : (d.drain s (buf ++ piece)).1.error = none
    · rw [feed_cons_of_wait herr]
      rw [herr] at hlast
      exact ih hlast
    · rw [feed_cons_of_error herr]
      exact hlast

end Decoder

end Lib
