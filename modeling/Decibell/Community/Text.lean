import Mathlib.Tactic.Common

/-!
# Names as the community server stores them

Display names come from the wire as UTF-8 bytes. `clampUtf8` is the bound every
stored name passes, `slugifyChannelName` makes a channel's id from its name.
-/

namespace Decibell

/-- A byte string. -/
abbrev Bytes := List UInt8

/-- A text of the program, in UTF-8. -/
def utf8 (s : String) : Bytes := s.toUTF8.toList

/-- `10xxxxxx`: a byte inside a UTF-8 sequence. -/
def isContinuation (c : UInt8) : Bool := c &&& 0xC0 = 0x80

/-- Back from `cut` to the nearest byte that continues no sequence, or the start. -/
def cutBack (s : Bytes) : Nat → Nat
  | 0 => 0
  | cut + 1 => if isContinuation (s.getD (cut + 1) 0) then cutBack s cut else cut + 1

/-- A name without ASCII control characters, cut to `maxBytes` between UTF-8 sequences. -/
def clampUtf8 (s : Bytes) (maxBytes : Nat) : Bytes :=
  let out := s.filter fun c => ! (c < 0x20 || c = 0x7F)
  if out.length ≤ maxBytes then out else out.take (cutBack out maxBytes)

/-- The longest prefix of `maxBytes` bytes not cut inside a UTF-8 sequence. -/
def utf8Prefix (s : Bytes) (maxBytes : Nat) : Bytes :=
  if s.length ≤ maxBytes then s else s.take (cutBack s maxBytes)

/-- A byte that a media type may have. -/
def isMimeByte (c : UInt8) : Bool :=
  (97 ≤ c && c ≤ 122) || (65 ≤ c && c ≤ 90) || (48 ≤ c && c ≤ 57) || c = 47 || c = 46 || c = 43 || c = 45

/-- A media type `type/subtype`, or else that of plain bytes. -/
def safeMime (mime : Bytes) : Bytes :=
  if mime ≠ [] ∧ mime.length ≤ 128 ∧ mime.all isMimeByte ∧ mime.count 47 = 1 ∧
      mime.head? ≠ some 47 ∧ mime.getLast? ≠ some 47 then mime
  else utf8 "application/octet-stream"

/-- The byte caps of the names the server stores. -/
def maxRoleNameBytes : Nat := 64
def maxChannelNameBytes : Nat := 64
def maxUsernameBytes : Nat := 64
def maxReasonBytes : Nat := 512
def maxChannelSlugBytes : Nat := 32
def maxAuditTargetBytes : Nat := 128
def maxAuditDetailsBytes : Nat := 512
def maxFilenameBytes : Nat := 255

/-- A byte of a name in its slug: a lower-case letter, a digit, or nothing. -/
def slugChar (c : UInt8) : Option Char :=
  if (97 ≤ c && c ≤ 122) || (48 ≤ c && c ≤ 57) then some (Char.ofNat c.toNat)
  else if 65 ≤ c && c ≤ 90 then some (Char.ofNat (c.toNat + 32))
  else none

/-- The slug of the bytes to read, after `out` (reversed); `lastDash` suppresses a dash. -/
def slugLoop : Bytes → List Char → Bool → List Char
  | [], out, _ => out
  | c :: cs, out, lastDash =>
    let (out, lastDash) := match slugChar c with
      | some ch => (ch :: out, false)
      | none => if lastDash then (out, lastDash) else ('-' :: out, true)
    if maxChannelSlugBytes ≤ out.length then out else slugLoop cs out lastDash

/-- A channel's id from its name: lower-case letters, digits and single dashes. -/
def slugifyChannelName (name : Bytes) : String :=
  let out := (slugLoop name [] true).dropWhile (· = '-')
  if out.isEmpty then "channel" else String.ofList out.reverse

-- "My  Room!"
example : slugifyChannelName [77, 121, 32, 32, 82, 111, 111, 109, 33] = "my-room" := by decide

end Decibell
