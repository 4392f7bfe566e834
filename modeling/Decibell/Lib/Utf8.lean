import Mathlib.Data.List.Infix
import Mathlib.Tactic.Common

/-!
# Texts in UTF-8

A text is the encodings of its characters, one after the other. The first byte of an encoding says
how long it is (`sequenceLength`), and is told from the others, which are `isTail`.

* A text that is cut before a byte that is no tail is cut into two texts (`Valid.cut`).
-/

namespace Lib

open List
namespace Utf8

/-- The characters, one after the other. -/
def encode (cs : List Char) : List UInt8 := cs.flatMap String.utf8EncodeChar

/-- The bytes are those of a text. -/
def Valid (s : List UInt8) : Prop := ∃ cs, s = encode cs

/-- `10xxxxxx`: a byte that no character begins with. -/
def isTail (b : UInt8) : Bool := b &&& 0xC0 = 0x80

/-- No tail comes first. -/
def Starts (s : List UInt8) : Prop := ∀ b ∈ s.head?, isTail b = false

/-- The length of the encoding that a byte begins. -/
def sequenceLength (b : UInt8) : Nat :=
  if b < 0x80 then 1 else if b < 0xE0 then 2 else if b < 0xF0 then 3 else 4

/-! ## One character -/

theorem isTail_ofNat (n : Nat) : isTail (UInt8.ofNat (n % 64 + 0x80)) = true := by
  have hall : ∀ n < 64, isTail (UInt8.ofNat (n + 0x80)) = true := by decide
  exact hall _ (Nat.mod_lt n (by decide))

/-- A first byte, and tails. -/
structure IsSequence (s : List UInt8) (b : UInt8) (l : List UInt8) : Prop where
  eq : s = b :: l
  first : isTail b = false
  tails : ∀ x ∈ l, isTail x = true
  length : s.length = sequenceLength b

theorem isSequence_encodeChar (c : Char) : ∃ b l, IsSequence (String.utf8EncodeChar c) b l := by
  have htwo : ∀ n < 32, isTail (UInt8.ofNat (n + 0xC0)) = false ∧
      sequenceLength (UInt8.ofNat (n + 0xC0)) = 2 := by decide
  have hthree : ∀ n < 16, isTail (UInt8.ofNat (n + 0xE0)) = false ∧
      sequenceLength (UInt8.ofNat (n + 0xE0)) = 3 := by decide
  have hfour : ∀ n < 8, isTail (UInt8.ofNat (n + 0xF0)) = false ∧
      sequenceLength (UInt8.ofNat (n + 0xF0)) = 4 := by decide
  have hone : ∀ n < 128, isTail (UInt8.ofNat n) = false ∧
      sequenceLength (UInt8.ofNat n) = 1 := by decide
  rw [String.utf8EncodeChar]
  split
  · rename_i h
    obtain ⟨hfirst, hlength⟩ := hone _ (Nat.lt_succ_of_le h)
    exact ⟨_, _, rfl, hfirst, forall_mem_nil _, hlength.symm⟩
  split
  · obtain ⟨hfirst, hlength⟩ := htwo (c.val.toNat / 64 % 32) (Nat.mod_lt _ (by decide))
    refine ⟨_, _, rfl, hfirst, ?_, hlength.symm⟩
    exact forall_mem_singleton.2 (isTail_ofNat _)
  split
  · obtain ⟨hfirst, hlength⟩ := hthree (c.val.toNat / 4096 % 16) (Nat.mod_lt _ (by decide))
    refine ⟨_, _, rfl, hfirst, ?_, hlength.symm⟩
    exact forall_mem_cons.2 ⟨isTail_ofNat _, forall_mem_singleton.2 (isTail_ofNat _)⟩
  · obtain ⟨hfirst, hlength⟩ := hfour (c.val.toNat / 262144 % 8) (Nat.mod_lt _ (by decide))
    refine ⟨_, _, rfl, hfirst, ?_, hlength.symm⟩
    exact forall_mem_cons.2 ⟨isTail_ofNat _,
      forall_mem_cons.2 ⟨isTail_ofNat _, forall_mem_singleton.2 (isTail_ofNat _)⟩⟩

/-- The first byte tells where the encoding ends. -/
theorem encodeChar_append_inj {c d : Char} {s t : List UInt8}
    (h : String.utf8EncodeChar c ++ s = String.utf8EncodeChar d ++ t) :
    String.utf8EncodeChar c = String.utf8EncodeChar d ∧ s = t := by
  obtain ⟨b, l, hb⟩ := isSequence_encodeChar c
  obtain ⟨b', l', hb'⟩ := isSequence_encodeChar d
  have hhead : b = b' := by
    rw [hb.eq, hb'.eq] at h
    exact (List.cons.inj h).1
  exact append_inj h (by rw [hb.length, hb'.length, hhead])

/-! ## Texts -/

variable {s t : List UInt8}

theorem valid_nil : Valid [] := ⟨[], rfl⟩

theorem encode_append (cs ds : List Char) : encode (cs ++ ds) = encode cs ++ encode ds :=
  flatMap_append

theorem encode_cons (c : Char) (cs : List Char) :
    encode (c :: cs) = String.utf8EncodeChar c ++ encode cs := rfl

/-- ASCII is a text. -/
theorem valid_of_ascii (h : ∀ b ∈ s, b < 0x80) : Valid s := by
  have hchar : ∀ n < 0x80, [UInt8.ofNat n] = String.utf8EncodeChar (Char.ofNat n) := by decide
  induction s with
  | nil => exact ⟨[], rfl⟩
  | cons b s ih =>
    obtain ⟨cs, rfl⟩ := ih fun c hc => h c (.tail _ hc)
    have hb := hchar b.toNat (UInt8.lt_iff_toNat_lt.1 (h b (.head _)))
    rw [UInt8.ofNat_toNat] at hb
    exact ⟨Char.ofNat b.toNat :: cs, congrArg (· ++ encode cs) hb⟩

theorem Valid.append (hs : Valid s) (ht : Valid t) : Valid (s ++ t) := by
  obtain ⟨cs, rfl⟩ := hs
  obtain ⟨ds, rfl⟩ := ht
  exact ⟨cs ++ ds, (encode_append cs ds).symm⟩

/-- A text begins with the first byte of a character. -/
theorem Valid.starts (hs : Valid s) : Starts s := by
  obtain ⟨cs, rfl⟩ := hs
  cases cs with
  | nil => exact fun b hb => absurd hb (Option.not_mem_none b)
  | cons c cs =>
    obtain ⟨b, l, hb⟩ := isSequence_encodeChar c
    rw [encode_cons, hb.eq]
    rintro x hx
    cases hx
    exact hb.first

/-- A text that is cut before no tail is cut into two. -/
theorem Valid.cut (h : Valid (s ++ t)) (ht : Starts t) : Valid s ∧ Valid t := by
  obtain ⟨cs, h⟩ := h
  induction cs generalizing s with
  | nil =>
    obtain ⟨rfl, rfl⟩ := append_eq_nil_iff.1 h
    exact ⟨valid_nil, valid_nil⟩
  | cons c cs ih =>
    rw [encode_cons] at h
    rcases append_eq_append_iff.1 h with ⟨u, hc, hu⟩ | ⟨u, hs, hu⟩
    · -- the cut is in the first character, or right after it
      obtain ⟨b, l, hb⟩ := isSequence_encodeChar c
      cases u with
      | nil =>
        rw [append_nil] at hc
        exact ⟨⟨[c], by rw [← hc, encode_cons]; exact (append_nil _).symm⟩, cs, hu⟩
      | cons x u =>
        cases s with
        | nil => exact ⟨valid_nil, c :: cs, by rw [encode_cons, hc, hu]; rfl⟩
        | cons y s =>
          have hl : l = s ++ x :: u := (List.cons.inj (hb.eq.symm.trans hc)).2
          have htail := hb.tails x (hl ▸ mem_append_right s (.head u))
          rw [ht x (by rw [hu]; rfl)] at htail
          cases htail
    · obtain ⟨hu', ht'⟩ := ih hu.symm
      exact ⟨hs ▸ Valid.append ⟨[c], (append_nil _).symm⟩ hu', ht'⟩

/-- What follows a text in a text is one. -/
theorem Valid.of_append (h : Valid (s ++ t)) (hs : Valid s) : Valid t := by
  obtain ⟨cs, rfl⟩ := hs
  induction cs with
  | nil => exact h
  | cons c cs ih =>
    obtain ⟨ds, h⟩ := h
    cases ds with
    | nil =>
      obtain ⟨b, l, hb⟩ := isSequence_encodeChar c
      rw [encode_cons, hb.eq] at h
      cases h
    | cons d ds =>
      rw [encode_cons, encode_cons, append_assoc] at h
      exact ih ⟨ds, (encodeChar_append_inj h).2⟩

/-- A text within a text is between two texts. -/
theorem Valid.around {u : List UInt8} (h : Valid (s ++ t ++ u)) (ht : Valid t) (hne : t ≠ []) :
    Valid s ∧ Valid u := by
  rw [append_assoc] at h
  have hstarts : Starts (t ++ u) := by
    obtain ⟨x, l, rfl⟩ := exists_cons_of_ne_nil hne
    exact ht.starts
  obtain ⟨hs, htu⟩ := h.cut hstarts
  exact ⟨hs, htu.of_append ht⟩

end Utf8
end Lib
