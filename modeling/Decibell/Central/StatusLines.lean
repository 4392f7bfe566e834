import Decibell.Community.Text
import Decibell.Lib.Utf8
import Mathlib.Algebra.Group.Nat.Defs
import Mathlib.Data.List.DropRight

/-!
# Status lines

What a user writes beside its status is made one line: control characters and separators become
spaces, embeddings, overrides and isolates of the writing direction go, and the ends are trimmed.
The server does it on the bytes of the text, with its own decoder, the client on its characters, and
both count what they keep before they trim.
-/

namespace Decibell.StatusLines

open Lib List

/-! ## The server -/

/-- What becomes a space. -/
def isSpace (cp : Nat) : Bool :=
  cp ≤ 0x20 || cp = 0x7F || (0x80 ≤ cp && cp < 0xA0) || cp = 0x2028 || cp = 0x2029

/-- What goes. -/
def isDropped (cp : Nat) : Bool := (0x202A ≤ cp && cp ≤ 0x202E) || (0x2066 ≤ cp && cp ≤ 0x2069)

/-- The length that a first byte tells, none for one that is no first byte. -/
def lengthOf (c : UInt8) : Nat :=
  if c < 0x80 then 1 else if c >>> 5 = 0x6 then 2 else if c >>> 4 = 0xE then 3
  else if c >>> 3 = 0x1E then 4 else 0

/-- `(cp << 6) | (cc & 0x3F)` for each byte, if all continue a sequence. -/
def continued : Nat → Bytes → Option Nat
  | cp, [] => some cp
  | cp, cc :: s => if isContinuation cc then continued (cp * 64 + cc.toNat % 64) s else none

/-- The code point of the sequence that a byte begins; `c & (0xFF >> (len + 1))` are low bits. -/
def codePoint (c : UInt8) (rest : Bytes) : Option Nat :=
  let len := lengthOf c
  if len = 0 ∨ rest.length + 1 < len then none
  else continued (if len = 1 then c.toNat else c.toNat % 2 ^ (7 - len)) (rest.take (len - 1))

def statusLoop (maxChars : Nat) : Bytes → Bytes → Nat → Bytes
  | [], out, _ => out
  | c :: rest, out, chars =>
    if maxChars ≤ chars then out
    else match codePoint c rest with
      | none => statusLoop maxChars rest out chars
      | some cp =>
        let next := rest.drop (lengthOf c - 1)
        if isSpace cp then
          if out ≠ [] then statusLoop maxChars next (out ++ [0x20]) (chars + 1)
          else statusLoop maxChars next out chars
        else if !isDropped cp then
          statusLoop maxChars next (out ++ (c :: rest).take (lengthOf c)) (chars + 1)
        else statusLoop maxChars next out chars
termination_by s => s.length
decreasing_by all_goals simp only [length_cons, length_drop]; omega

def normalizeStatusLine (s : Bytes) (maxChars : Nat) : Bytes :=
  (statusLoop maxChars s [] 0).rdropWhile (· = 0x20)

/-! ## The client -/

def statusTextLoop (max : Nat) : List Char → List Char → Nat → List Char
  | [], out, _ => out
  | ch :: raw, out, n =>
    if max ≤ n then out
    else if isSpace ch.toNat then
      if out ≠ [] then statusTextLoop max raw (out ++ [' ']) (n + 1)
      else statusTextLoop max raw out n
    else if !isDropped ch.toNat then statusTextLoop max raw (out ++ [ch]) (n + 1)
    else statusTextLoop max raw out n

def normalizeStatusText (raw : List Char) (max : Nat) : List Char :=
  (statusTextLoop max raw [] 0).rdropWhile (· = ' ')

/-- One line: short, with no control character, separator, embedding, override or isolate, and no
space at an end. -/
structure IsLine (max : Nat) (t : List Char) : Prop where
  length_le : t.length ≤ max
  plain : ∀ c ∈ t, isDropped c.toNat = false ∧ (isSpace c.toNat = true → c = ' ')
  head_ne : t.head? ≠ some ' '
  last_ne : t.getLast? ≠ some ' '

/-! ## Bytes and characters -/

theorem codePoint_append {c : UInt8} {l : Bytes} (h : lengthOf c = l.length + 1) (s : Bytes) :
    codePoint c (l ++ s) =
      continued (if l = [] then c.toNat else c.toNat % 2 ^ (6 - l.length)) l := by
  have hlong : ¬(l.length + 1 = 0 ∨ (l ++ s).length + 1 < l.length + 1) := by
    rw [length_append]
    omega
  have hone : l.length + 1 = 1 ↔ l = [] := by rw [Nat.succ_inj, length_eq_zero_iff]
  rw [codePoint, h, if_neg hlong, Nat.add_sub_cancel, take_left, if_congr hone rfl rfl,
    show 7 - (l.length + 1) = 6 - l.length by omega]

/-- The server reads what a character is encoded as. -/
theorem codePoint_encodeChar (ch : Char) (s : Bytes) :
    ∃ c l, String.utf8EncodeChar ch = c :: l ∧ codePoint c (l ++ s) = some ch.toNat ∧
      lengthOf c = l.length + 1 := by
  have hcont (n : Nat) : isContinuation (UInt8.ofNat (n % 64 + 0x80)) = true ∧
      (UInt8.ofNat (n % 64 + 0x80)).toNat % 64 = n % 64 := by
    have hall : ∀ n < 64, isContinuation (UInt8.ofNat (n + 0x80)) = true ∧
        (UInt8.ofNat (n + 0x80)).toNat % 64 = n := by decide
    exact hall _ (Nat.mod_lt n (by decide))
  have hone : ∀ n < 128, lengthOf (UInt8.ofNat n) = 1 ∧ (UInt8.ofNat n).toNat = n := by decide
  have htwo : ∀ n < 32, lengthOf (UInt8.ofNat (n + 0xC0)) = 2 ∧
      (UInt8.ofNat (n + 0xC0)).toNat % 32 = n := by decide
  have hthree : ∀ n < 16, lengthOf (UInt8.ofNat (n + 0xE0)) = 3 ∧
      (UInt8.ofNat (n + 0xE0)).toNat % 16 = n := by decide
  have hfour : ∀ n < 8, lengthOf (UInt8.ofNat (n + 0xF0)) = 4 ∧
      (UInt8.ofNat (n + 0xF0)).toNat % 8 = n := by decide
  have hlt : ch.val.toNat < 0x110000 := by
    rcases ch.valid with h | h <;> omega
  change ∃ c l, _ ∧ codePoint c (l ++ s) = some ch.val.toNat ∧ _
  rw [String.utf8EncodeChar]
  generalize ch.val.toNat = v at hlt
  split
  · obtain ⟨hlength, hnat⟩ := hone v (by omega)
    refine ⟨_, _, rfl, ?_, hlength⟩
    rw [codePoint_append hlength, continued, if_pos rfl, hnat]
  split
  · obtain ⟨hlength, hnat⟩ := htwo (v / 64 % 32) (by omega)
    refine ⟨_, _, rfl, ?_, hlength⟩
    rw [codePoint_append hlength, if_neg (by simp)]
    simp only [length_cons, length_nil, Nat.reduceAdd, Nat.reduceSub, Nat.reducePow, hnat, continued,
      hcont, if_true]
    exact congrArg some (by omega)
  split
  · obtain ⟨hlength, hnat⟩ := hthree (v / 4096 % 16) (by omega)
    refine ⟨_, _, rfl, ?_, hlength⟩
    rw [codePoint_append hlength, if_neg (by simp)]
    simp only [length_cons, length_nil, Nat.reduceAdd, Nat.reduceSub, Nat.reducePow, hnat, continued,
      hcont, if_true]
    exact congrArg some (by omega)
  · obtain ⟨hlength, hnat⟩ := hfour (v / 262144 % 8) (by omega)
    refine ⟨_, _, rfl, ?_, hlength⟩
    rw [codePoint_append hlength, if_neg (by simp)]
    simp only [length_cons, length_nil, Nat.reduceAdd, Nat.reduceSub, Nat.reducePow, hnat, continued,
      hcont, if_true]
    exact congrArg some (by omega)

theorem encode_singleton (c : Char) : Utf8.encode [c] = String.utf8EncodeChar c := append_nil _

theorem encode_eq_nil_iff (cs : List Char) : Utf8.encode cs = [] ↔ cs = [] := by
  cases cs with
  | nil => exact iff_of_true rfl rfl
  | cons c cs =>
    obtain ⟨b, l, h⟩ := Utf8.isSequence_encodeChar c
    rw [Utf8.encode_cons, h.eq]
    exact iff_of_false nofun nofun

/-- The server does on the bytes what the client does on the characters. -/
theorem statusLoop_encode (max : Nat) (cs out : List Char) (n : Nat) :
    statusLoop max (Utf8.encode cs) (Utf8.encode out) n =
      Utf8.encode (statusTextLoop max cs out n) := by
  induction cs generalizing out n with
  | nil => rw [show Utf8.encode [] = [] from rfl, statusLoop, statusTextLoop]
  | cons ch cs ih =>
    obtain ⟨c, l, hch, hcp, hlength⟩ := codePoint_encodeChar ch (Utf8.encode cs)
    have hnext : (l ++ Utf8.encode cs).drop (lengthOf c - 1) = Utf8.encode cs := by
      rw [hlength, Nat.add_sub_cancel, drop_left]
    have htake : (c :: (l ++ Utf8.encode cs)).take (lengthOf c) = String.utf8EncodeChar ch := by
      rw [hlength, hch, ← cons_append, take_left' (length_cons ..)]
    have hkeep (x : Char) : Utf8.encode out ++ String.utf8EncodeChar x = Utf8.encode (out ++ [x]) :=
      by rw [Utf8.encode_append, encode_singleton]
    have hspace : Utf8.encode out ++ [0x20] = Utf8.encode (out ++ [' ']) := hkeep ' '
    rw [Utf8.encode_cons, hch, cons_append, statusLoop, statusTextLoop, hcp]
    simp only [hnext, htake, hkeep, hspace, ne_eq, encode_eq_nil_iff, ih]
    repeat' split
    all_goals rfl

theorem encodeChar_last {c : Char} (hc : c ≠ ' ') :
    ∃ l x, String.utf8EncodeChar c = l ++ [x] ∧ x ≠ 0x20 := by
  obtain ⟨b, l, h⟩ := Utf8.isSequence_encodeChar c
  rcases eq_nil_or_concat' l with rfl | ⟨l, x, rfl⟩
  · refine ⟨[], b, h.eq, fun hb => hc ?_⟩
    obtain ⟨b', l', hch, hcp, -⟩ := codePoint_encodeChar c []
    obtain ⟨rfl, rfl⟩ := cons.inj (hch.symm.trans h.eq)
    rw [hb] at hcp
    exact Char.toNat_inj.1 (Option.some.inj hcp).symm
  · refine ⟨b :: l, x, h.eq, ?_⟩
    rintro rfl
    exact absurd (h.tails 0x20 (mem_append_right _ (.head _))) (by decide)

/-- A character ends with a space if it is one. -/
theorem rdropWhile_encode (t : List Char) :
    (Utf8.encode t).rdropWhile (· = 0x20) = Utf8.encode (t.rdropWhile (· = ' ')) := by
  induction t using reverseRecOn with
  | nil => rfl
  | append_singleton t c ih =>
    rw [Utf8.encode_append, encode_singleton]
    by_cases hc : c = ' '
    · rw [hc, rdropWhile_concat_pos _ _ _ (by simp), ← ih]
      exact rdropWhile_concat_pos _ _ _ (by simp)
    · obtain ⟨l, x, hl, hx⟩ := encodeChar_last hc
      rw [rdropWhile_concat_neg _ _ _ (by simpa using hc), hl, ← append_assoc,
        rdropWhile_concat_neg _ _ _ (by simpa using hx), Utf8.encode_append, encode_singleton, hl,
        append_assoc]

theorem normalizeStatusLine_encode (cs : List Char) (max : Nat) :
    normalizeStatusLine (Utf8.encode cs) max = Utf8.encode (normalizeStatusText cs max) := by
  rw [normalizeStatusLine, normalizeStatusText, ← rdropWhile_encode, ← statusLoop_encode]
  rfl

/-! ## What is left -/

/-- What the loop keeps. -/
def Plain (c : Char) : Prop := isDropped c.toNat = false ∧ (isSpace c.toNat = true → c = ' ')

theorem plain_space : Plain ' ' := ⟨rfl, fun _ => rfl⟩

theorem head?_snoc {out : List Char} {c : Char} (h : out.head? ≠ some ' ')
    (hc : out = [] → c ≠ ' ') : (out ++ [c]).head? ≠ some ' ' := by
  cases out with
  | nil => simpa using hc rfl
  | cons x out => exact h

/-- The loop starts no line with a space, and stops in time. -/
theorem statusTextLoop_spec {max : Nat} (cs : List Char) {out : List Char} (hle : out.length ≤ max)
    (hplain : ∀ c ∈ out, Plain c) (hhead : out.head? ≠ some ' ') :
    (statusTextLoop max cs out out.length).length ≤ max ∧
      (∀ c ∈ statusTextLoop max cs out out.length, Plain c) ∧
      (statusTextLoop max cs out out.length).head? ≠ some ' ' := by
  induction cs generalizing out with
  | nil => exact ⟨hle, hplain, hhead⟩
  | cons ch cs ih =>
    have hsnoc {c : Char} (hc : Plain c) (hfirst : out = [] → c ≠ ' ') (hlt : ¬max ≤ out.length) :=
      @ih (out ++ [c]) (by rw [length_append, length_singleton]; omega)
        (forall_mem_append.2 ⟨hplain, forall_mem_singleton.2 hc⟩) (head?_snoc hhead hfirst)
    simp only [length_append, length_singleton] at hsnoc
    rw [statusTextLoop]
    split
    · exact ⟨hle, hplain, hhead⟩
    rename_i hlt
    split <;> rename_i hspace
    · split <;> rename_i hout
      · exact hsnoc plain_space (fun h => absurd h hout) hlt
      · exact ih hle hplain hhead
    split <;> rename_i hdrop
    · refine hsnoc ⟨by simpa using hdrop, fun h => absurd h hspace⟩ (fun _ hch => ?_) hlt
      exact hspace (hch ▸ rfl)
    · exact ih hle hplain hhead

theorem isLine_normalizeStatusText (cs : List Char) (max : Nat) :
    IsLine max (normalizeStatusText cs max) := by
  obtain ⟨hle, hplain, hhead⟩ : (statusTextLoop max cs [] 0).length ≤ max ∧
      (∀ c ∈ statusTextLoop max cs [] 0, Plain c) ∧
      (statusTextLoop max cs [] 0).head? ≠ some ' ' :=
    statusTextLoop_spec cs (Nat.zero_le max) (forall_mem_nil _) nofun
  have hpre : normalizeStatusText cs max <+: statusTextLoop max cs [] 0 := rdropWhile_prefix _ _
  refine ⟨hpre.length_le.trans hle, fun c hc => hplain c (hpre.subset hc), fun h => hhead ?_,
    fun h => ?_⟩
  · obtain ⟨rest, hrest⟩ := hpre
    rw [← hrest, head?_append, h]
    rfl
  · -- what ends with a space would be cut once more
    obtain ⟨ys, hys⟩ := getLast?_eq_some_iff.1 h
    have hcut : (ys ++ [' ']).rdropWhile (· = ' ') = ys ++ [' '] := by
      rw [← hys, normalizeStatusText, rdropWhile_idempotent]
    rw [rdropWhile_concat_pos _ _ _ (by simp)] at hcut
    have hlong := (List.rdropWhile_prefix (fun c => decide (c = ' ')) ys).length_le
    rw [hcut, length_append, length_singleton] at hlong
    omega

theorem statusTextLoop_self {max : Nat} {t out : List Char} (hplain : ∀ c ∈ t, Plain c)
    (hhead : out = [] → t.head? ≠ some ' ') (hle : out.length + t.length ≤ max) :
    statusTextLoop max t out out.length = out ++ t := by
  induction t generalizing out with
  | nil => exact (append_nil out).symm
  | cons c t ih =>
    have hc := hplain c (.head _)
    have hnext := @ih (out ++ [c]) (fun x hx => hplain x (.tail _ hx))
      (fun h => absurd h (by simp)) (by simpa [Nat.add_right_comm, Nat.add_assoc] using hle)
    rw [length_append, length_singleton, append_assoc, singleton_append] at hnext
    have hlt : ¬max ≤ out.length := by
      rw [length_cons] at hle
      omega
    rw [statusTextLoop, if_neg hlt]
    split <;> rename_i hspace
    · rw [← hc.2 hspace]
      refine (if_pos fun hout => hhead hout ?_).trans hnext
      rw [hc.2 hspace]
      rfl
    · rw [if_pos (by rw [hc.1]; rfl)]
      exact hnext

/-- A line is left as it is. -/
theorem IsLine.normalizeStatusText_eq {max : Nat} {t : List Char} (h : IsLine max t) :
    normalizeStatusText t max = t := by
  have hloop : statusTextLoop max t [] 0 = t :=
    statusTextLoop_self h.plain (fun _ => h.head_ne) ((Nat.zero_add _).trans_le h.length_le)
  rw [normalizeStatusText, hloop, rdropWhile_eq_self_iff]
  intro hne hlast
  exact h.last_ne (by rw [getLast?_eq_some_getLast hne, of_decide_eq_true hlast])

/-- Server and client make the same line of a text, and leave a line as it is. -/
theorem status_lines_agree (cs : List Char) (max : Nat) :
    normalizeStatusLine (Utf8.encode cs) max = Utf8.encode (normalizeStatusText cs max) ∧
      IsLine max (normalizeStatusText cs max) ∧
      normalizeStatusText (normalizeStatusText cs max) max = normalizeStatusText cs max ∧
      normalizeStatusLine (Utf8.encode (normalizeStatusText cs max)) max =
        Utf8.encode (normalizeStatusText cs max) := by
  have hline := isLine_normalizeStatusText cs max
  refine ⟨normalizeStatusLine_encode cs max, hline, hline.normalizeStatusText_eq, ?_⟩
  rw [normalizeStatusLine_encode, hline.normalizeStatusText_eq]

/-- The characters that control the writing direction: marks, embeddings, overrides, isolates. -/
def bidiControls : List Nat :=
  [0x61C, 0x200E, 0x200F, 0x202A, 0x202B, 0x202C, 0x202D, 0x202E, 0x2066, 0x2067, 0x2068, 0x2069]

/-- A mark of the writing direction is kept by both. -/
theorem mark_kept :
    normalizeStatusText [Char.ofNat 0x200E] 128 = [Char.ofNat 0x200E] ∧
      normalizeStatusLine [0xE2, 0x80, 0x8E] 128 = [0xE2, 0x80, 0x8E] ∧
      (Char.ofNat 0x200E).toNat ∈ bidiControls :=
  ⟨by decide, normalizeStatusLine_encode [Char.ofNat 0x200E] 128, by decide⟩

end Decibell.StatusLines
