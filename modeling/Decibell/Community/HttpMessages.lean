import Decibell.Community.AttachmentHttp

/-!
# Requests as they are sent

`HttpMessage` is a request: its first line, its fields and its body. It is `Delimited` if its
lines are lines, and its body is as long as its Content-Length fields say.

* `Delimited.contentLength`: of a delimited request that is understood the server knows how long
  the body is.
-/

namespace Decibell.Community

open Lib List

/-- A request as it is sent. -/
structure HttpMessage where
  requestLine : HttpBytes
  /-- Names and values, in their order. -/
  fields : List (HttpBytes × HttpBytes)
  body : HttpBytes

namespace HttpMessage

/-- A field: name, colon, value. -/
def fieldLine (field : HttpBytes × HttpBytes) : HttpBytes := field.1 ++ 58 :: field.2

/-- Lines, each with CRLF behind it. -/
def encodeLines (lines : List HttpBytes) : HttpBytes := lines.flatMap (· ++ [13, 10])

variable (m : HttpMessage)

def head : HttpBytes :=
  encodeLines (m.requestLine :: m.fields.map fieldLine) ++ [13, 10]

def encode : HttpBytes := m.head ++ m.body

def IsContentLength (field : HttpBytes × HttpBytes) : Prop :=
  lower (latin1 field.1) = "content-length"

instance (field : HttpBytes × HttpBytes) : Decidable (IsContentLength field) :=
  inferInstanceAs (Decidable (_ = _))

/-- A value is a number in decimal, perhaps with blanks around it. -/
def TellsLength (value : HttpBytes) (n : Nat) : Prop :=
  ∃ before digits after, latin1 value = before ++ digits ++ after ∧
    (∀ c ∈ before ++ after, c = ' ' ∨ c = '\t') ∧
    digits ≠ [] ∧ (∀ c ∈ digits, c.isDigit) ∧ Nat.ofDigitChars 10 digits 0 = n

/-- The body of a request is delimited by Content-Length. -/
structure Delimited : Prop where
  /-- There is no CR in a line. -/
  requestLine : 13 ∉ m.requestLine
  fields : ∀ field ∈ m.fields, 13 ∉ field.1 ∧ 58 ∉ field.1 ∧ 13 ∉ field.2
  tells : ∀ field ∈ m.fields, IsContentLength field → TellsLength field.2 m.body.length
  /-- Only a request without a body may do without one. -/
  told : m.body ≠ [] → ∃ field ∈ m.fields, IsContentLength field
  /-- The length is a 64-bit number. -/
  length : IsInt64 m.body.length

/-! ## Where a head ends -/

variable {m} {l rest : HttpBytes} {n : Nat}

theorem four_le_of_headEnd (h : headEnd l = some n) : 4 ≤ n ∧ n ≤ l.length := by
  induction l using headEnd.induct generalizing n with
  | case1 rest =>
    obtain rfl : 4 = n := by simpa only [headEnd, Option.some.injEq] using h
    simp only [length_cons]
    omega
  | case2 b rest hnot ih =>
    rw [headEnd] at h
    · obtain ⟨k, hk, rfl⟩ := Option.map_eq_some_iff.1 h
      have := ih hk
      rw [length_cons]
      omega
    · exact hnot
  | case3 => cases h

theorem headEnd_append (h : headEnd l = some n) (rest : HttpBytes) :
    headEnd (l ++ rest) = some n := by
  induction l using headEnd.induct generalizing n with
  | case1 => exact h
  | case2 b l hnot ih =>
    rw [headEnd] at h
    · obtain ⟨k, hk, rfl⟩ := Option.map_eq_some_iff.1 h
      have hlen := four_le_of_headEnd hk
      rw [cons_append, headEnd, ih hk]
      · rfl
      · -- The blank line is not at the front: it would be there without the rest too.
        rintro after rfl hl
        rcases l with _ | ⟨c, _ | ⟨d, _ | ⟨e, l⟩⟩⟩ <;>
          simp only [length_cons, length_nil] at hlen <;> try omega
        obtain ⟨rfl, rfl, rfl, -⟩ : c = 10 ∧ d = 13 ∧ e = 10 ∧ _ := by
          simpa only [cons_append, List.cons.injEq] using hl
        exact hnot l rfl rfl
    · exact hnot
  | case3 => cases h

theorem headEnd_line (hl : 13 ∉ l) (t : HttpBytes) :
    headEnd (l ++ t) = (headEnd t).map (· + l.length) := by
  induction l with
  | nil => simp
  | cons b l ih =>
    obtain ⟨hb, hl⟩ := not_or.1 (mt mem_cons.2 hl)
    rw [cons_append, headEnd, ih hl, Option.map_map]
    · rfl
    · rintro rest rfl
      exact absurd rfl hb

theorem headEnd_encodeLines (lines : List HttpBytes) (hne : ∀ l ∈ lines, 13 ∉ l ∧ l ≠ [])
    {t : HttpBytes} : headEnd (13 :: 10 :: (encodeLines lines ++ 13 :: 10 :: t)) =
      some ((encodeLines lines).length + 4) := by
  induction lines with
  | nil => rfl
  | cons l lines ih =>
    obtain ⟨hl, hnil⟩ := hne l (.head _)
    have ih := ih fun l hl => hne l (.tail _ hl)
    -- The line is not blank, so the CRLF before it is not the one we look for.
    have hskip (t : HttpBytes) : headEnd (13 :: 10 :: (l ++ t)) =
        (headEnd (l ++ t)).map (· + 2) := by
      obtain ⟨b, l, rfl⟩ := exists_cons_of_ne_nil hnil
      have hb : b ≠ 13 := fun hb => hl (hb ▸ .head _)
      rw [cons_append, headEnd, headEnd, Option.map_map]
      · rfl
      · rintro rest h
        exact absurd h (by decide)
      · rintro rest - h
        exact hb (List.cons.inj (List.cons.inj h).2).1
    rw [encodeLines, flatMap_cons, ← encodeLines, append_assoc, append_assoc, hskip,
      headEnd_line hl, cons_append, cons_append, nil_append, ih]
    simp only [Option.map_some, Option.some.injEq, length_append, length_cons,
      length_nil]
    omega

theorem fieldLine_ne_nil (field : HttpBytes × HttpBytes) : fieldLine field ≠ [] := by
  simp [fieldLine]

theorem Delimited.fieldLine (h : m.Delimited) {field : HttpBytes × HttpBytes}
    (hf : field ∈ m.fields) : 13 ∉ HttpMessage.fieldLine field := by
  obtain ⟨hname, -, hvalue⟩ := h.fields field hf
  simp only [HttpMessage.fieldLine, mem_append, mem_cons, not_or]
  exact ⟨hname, by decide, hvalue⟩

theorem headEnd_head (h : m.Delimited) (t : HttpBytes) :
    headEnd (m.head ++ t) = some m.head.length := by
  have hlines := headEnd_encodeLines (m.fields.map HttpMessage.fieldLine) (t := t) (by
    intro l hl
    obtain ⟨field, hf, rfl⟩ := mem_map.1 hl
    exact ⟨h.fieldLine hf, fieldLine_ne_nil field⟩)
  have hhead : m.head ++ t = m.requestLine ++ (13 :: 10 ::
      (encodeLines (m.fields.map HttpMessage.fieldLine) ++ 13 :: 10 :: t)) := by
    simp only [head, encodeLines, flatMap_cons, append_assoc, cons_append,
      nil_append]
  rw [hhead, headEnd_line h.requestLine, hlines]
  simp only [head, encodeLines, flatMap_cons, Option.map_some, Option.some.injEq,
    length_append, length_cons, length_nil]
  omega

/-! ## What is read in a head -/

theorem latin1_append (l t : HttpBytes) : latin1 (l ++ t) = latin1 l ++ latin1 t := map_append

theorem toNat_latin1 (b : UInt8) : (Char.ofNat b.toNat).toNat = b.toNat := by
  have hvalid : b.toNat.isValidChar := .inl (Nat.lt_trans b.toNat_lt (by decide))
  rw [Char.ofNat, dif_pos hvalid]
  rfl

theorem mem_latin1 {b : UInt8} : Char.ofNat b.toNat ∈ latin1 l ↔ b ∈ l := by
  rw [latin1, mem_map]
  refine ⟨?_, fun h => ⟨b, h, rfl⟩⟩
  rintro ⟨c, hc, h⟩
  have hnat := congrArg Char.toNat h
  rw [toNat_latin1, toNat_latin1] at hnat
  rwa [← UInt8.toNat_inj.1 hnat]

open HttpRequest

theorem crlfLines_line (hl : 13 ∉ l) (line t : List Char) :
    crlfLines line (latin1 l ++ '\r' :: '\n' :: t) =
      (line.reverse ++ latin1 l) :: crlfLines [] t := by
  induction l generalizing line with
  | nil => simp [latin1, crlfLines]
  | cons b l ih =>
    obtain ⟨hb, hl⟩ := not_or.1 (mt mem_cons.2 hl)
    have hcr : Char.ofNat b.toNat ≠ '\r' := by
      intro h
      have hmem : Char.ofNat (13 : UInt8).toNat ∈ latin1 [b] := mem_singleton.2 h.symm
      exact hb (mem_singleton.1 (mem_latin1.1 hmem))
    change crlfLines line (Char.ofNat b.toNat :: (latin1 l ++ _)) = _
    rw [crlfLines, ih hl, reverse_cons, append_assoc]
    · rfl
    · rintro rest h
      exact absurd h hcr

theorem crlfLines_encodeLines {lines : List HttpBytes} (h : ∀ l ∈ lines, 13 ∉ l) (t : List Char) :
    crlfLines [] (latin1 (encodeLines lines) ++ t) = lines.map latin1 ++ crlfLines [] t := by
  induction lines with
  | nil => rfl
  | cons l lines ih =>
    rw [encodeLines, flatMap_cons, ← encodeLines, latin1_append, latin1_append,
      append_assoc, append_assoc]
    change crlfLines [] (latin1 l ++ '\r' :: '\n' :: (latin1 (encodeLines lines) ++ t)) = _
    rw [crlfLines_line (h l (.head _)), ih fun l hl => h l (.tail _ hl)]
    rfl

theorem crlfLines_head (h : m.Delimited) : crlfLines [] (latin1 m.head) =
    latin1 m.requestLine :: ((m.fields.map fun field => latin1 (HttpMessage.fieldLine field)) ++
      [[]]) := by
  rw [head, latin1_append, crlfLines_encodeLines]
  · rw [map_cons, map_map]
    rfl
  · intro l hl
    rcases mem_cons.1 hl with rfl | hl
    · exact h.requestLine
    · obtain ⟨field, hf, rfl⟩ := mem_map.1 hl
      exact h.fieldLine hf

/-- A field as it is kept. -/
def readField (field : HttpBytes × HttpBytes) : String × String :=
  (lower (latin1 field.1), trimValue (latin1 field.2))

theorem readHeader_fieldLine {field : HttpBytes × HttpBytes} (h : 58 ∉ field.1)
    (headers : List (String × String)) :
    readHeader headers (latin1 (HttpMessage.fieldLine field)) = readField field :: headers := by
  have hname : ∀ c ∈ latin1 field.1, (c ≠ ':') = True := by
    intro c hc
    refine eq_true ?_
    rintro rfl
    exact h (mem_latin1.1 hc)
  have hcut : cutAt ':' (latin1 field.1 ++ ':' :: latin1 field.2) =
      some (latin1 field.1, latin1 field.2) := by
    rw [cutAt, if_pos (mem_append_right _ (.head _)), takeWhile_append_of_pos,
      dropWhile_append_of_pos]
    · simp
    · intro c hc
      simp [hname c hc]
    · intro c hc
      simp [hname c hc]
  have hline : latin1 (HttpMessage.fieldLine field) = latin1 field.1 ++ ':' :: latin1 field.2 :=
    latin1_append _ _
  rw [readHeader, hline, hcut]
  rfl

theorem readHeaders (h : ∀ field ∈ m.fields, 58 ∉ field.1) (headers : List (String × String)) :
    (m.fields.map fun field => latin1 (HttpMessage.fieldLine field)).foldl readHeader headers =
      (m.fields.map readField).reverse ++ headers := by
  revert h
  induction m.fields generalizing headers with
  | nil => exact fun _ => rfl
  | cons field fields ih =>
    intro h
    rw [map_cons, foldl_cons, readHeader_fieldLine (h field (.head _)),
      ih _ fun field hf => h field (.tail _ hf), map_cons, reverse_cons,
      append_assoc]
    rfl

theorem trimValue_of_tells {value : HttpBytes} (h : TellsLength value n) (hn : IsInt64 n) :
    stoll (trimValue (latin1 value)) = some (n : Int) := by
  obtain ⟨before, digits, after, hvalue, hblank, hne, hdigits, rfl⟩ := h
  have hnot {c : Char} (hc : c.isDigit) : c ≠ ' ' ∧ c ≠ '\t' ∧ c ≠ '\r' := by
    refine ⟨?_, ?_, ?_⟩ <;> rintro rfl <;> exact absurd hc (by decide)
  have hfront : (before ++ digits ++ after).dropWhile (· ∈ [' ', '\t']) = digits ++ after := by
    rw [append_assoc, dropWhile_append_of_pos fun c hc => by
      simpa using hblank c (mem_append_left _ hc)]
    obtain ⟨c, cs, rfl⟩ := exists_cons_of_ne_nil hne
    have := hnot (hdigits c (.head _))
    rw [cons_append, dropWhile_cons_of_neg (by simp [this])]
  have hback : (digits ++ after).reverse.dropWhile (· ∈ [' ', '\t', '\r']) = digits.reverse := by
    rw [reverse_append, dropWhile_append_of_pos fun c hc => by
      rcases hblank c (mem_append_right _ (mem_reverse.1 hc)) with rfl | rfl <;> simp]
    obtain ⟨cs, c, rfl⟩ := eq_nil_or_concat digits |>.resolve_left hne
    have := hnot (hdigits c (by simp))
    rw [concat_eq_append, reverse_append]
    exact dropWhile_cons_of_neg (by simp [this])
  rw [trimValue, hvalue, hfront, hback, reverse_reverse, stoll_digits hdigits hne hn]

theorem parseHead_contentLength {head line : List Char} {lines : List (List Char)}
    {req : HttpRequest} (hlines : crlfLines [] head = line :: lines)
    (h : ({} : HttpRequest).parseHead head = some req) : req.contentLength =
      match ((lines.takeWhile (· ≠ [])).foldl readHeader []).lookup "content-length" with
      | some value => (stoll value).getD 0
      | none => 0 := by
  rw [parseHead, hlines] at h
  rcases hmethod : cutAt ' ' line with _ | ⟨method, rest⟩
  · simp only [hmethod, Option.bind_eq_bind, Option.bind_none, reduceCtorEq] at h
  · rcases hpath : cutAt ' ' rest with _ | ⟨path, version⟩
    · simp only [hmethod, hpath, Option.bind_eq_bind, Option.bind_some, Option.bind_none,
        reduceCtorEq] at h
    · simp only [hmethod, hpath, Option.bind_eq_bind, Option.bind_some, Option.pure_def,
        Option.some.injEq] at h
      subst h
      rfl

theorem Delimited.contentLength (h : m.Delimited) {req : HttpRequest}
    (hreq : ({} : HttpRequest).parseHead (latin1 m.head) = some req) :
    req.contentLength = m.body.length := by
  have hfields : (m.fields.map fun field => latin1 (HttpMessage.fieldLine field)).foldl readHeader
      [] = (m.fields.map readField).reverse := by
    rw [readHeaders (fun field hf => (h.fields field hf).2.1), append_nil]
  have hlines : ((m.fields.map fun field => latin1 (HttpMessage.fieldLine field)) ++
      [[]]).takeWhile (· ≠ []) =
        m.fields.map fun field => latin1 (HttpMessage.fieldLine field) := by
    rw [takeWhile_append_of_pos]
    · simp
    · intro l hl
      obtain ⟨field, -, rfl⟩ := mem_map.1 hl
      simp [latin1, fieldLine_ne_nil]
  rw [parseHead_contentLength (crlfLines_head h) hreq, hlines, hfields]
  cases hlookup : (m.fields.map readField).reverse.lookup "content-length" with
  | some value =>
    obtain ⟨field, hf, hname, rfl⟩ : ∃ field ∈ m.fields, IsContentLength field ∧
        trimValue (latin1 field.2) = value := by
      obtain ⟨before, after, hmem, -⟩ := lookup_eq_some_iff.1 hlookup
      have hmem : ("content-length", value) ∈ (m.fields.map readField).reverse := by
        rw [hmem]
        exact mem_append_right _ (.head _)
      obtain ⟨field, hf, hread⟩ := mem_map.1 (mem_reverse.1 hmem)
      exact ⟨field, hf, congrArg Prod.fst hread, congrArg Prod.snd hread⟩
    simp only [trimValue_of_tells (h.tells field hf hname) h.length, Option.getD_some]
  | none =>
    have hbody : m.body = [] := by
      by_contra hbody
      obtain ⟨field, hf, hname⟩ := h.told hbody
      have hne := lookup_eq_none_iff.1 hlookup (readField field)
        (mem_reverse.2 (mem_map_of_mem hf))
      rw [readField, hname] at hne
      simp at hne
    rw [hbody]
    rfl

end HttpMessage

end Decibell.Community
