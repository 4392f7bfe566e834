import Decibell.Central.Directory
import Decibell.Community.Text
import Decibell.Lib.Paging
import Decibell.Lib.Table
import Mathlib.Data.List.Sort

/-!
# Direct messages as the central server stores them

Two accounts that write to each other are a pair, in the order of their uids. The database has their
messages, and the account that each uid belongs to; a message is read together with the current
names and with the message that it replies to, if that is one of the same pair.
-/

namespace Decibell.Central

open Lib

/-- A row of `dm_messages`. -/
structure DmMessage where
  id : Int
  senderUid : Int
  /-- The names it was sent under. -/
  sender : String := ""
  recipientUid : Int
  recipient : String := ""
  content : Bytes := []
  sentAt : Int := 0
  editedAt : Int := 0
  replyTo : Int := 0
  /-- The sealed body; none for a message in plain text. -/
  envelope : Option Bytes := none
deriving DecidableEq

/-- Two accounts, the smaller uid first. -/
abbrev DmPair := Int × Int

/-- `LEAST` and `GREATEST` of two uids. -/
def pairOf (a b : Int) : DmPair := (min a b, max a b)

def DmMessage.pair (m : DmMessage) : DmPair := pairOf m.senderUid m.recipientUid

/-- A row of `dm_conversations`. -/
structure DmConversation where
  loUid : Int
  hiUid : Int
  lastId : Int
deriving DecidableEq

def DmConversation.pair (c : DmConversation) : DmPair := (c.loUid, c.hiUid)

/-- The tables that direct messages are in. -/
structure DmTables where
  /-- The name of each account. -/
  users : Int → Option String
  messages : Table DmMessage.id
  conversations : Table DmConversation.pair
  /-- The last message that a reader read of a peer; 0 for none. -/
  readCursors : Int → Int → Int

/-- The tables under the schema: `BIGSERIAL` ids and foreign keys. -/
structure DmDb extends DmTables where
  positive : ∀ m ∈ messages.rows, 0 < m.id
  accounts : ∀ m ∈ messages.rows, (users m.senderUid).isSome ∧ (users m.recipientUid).isSome

/-! ## Texts -/

def maxDmContent : Nat := 64 * 1024
def dmPreviewMaxBytes : Nat := 512

/-- `LEFT(s, n)`: the first `n` characters. -/
def left : Bytes → Nat → Bytes
  | [], _ => []
  | c :: s, n =>
    if isContinuation c then c :: left s n
    else match n with
      | 0 => []
      | n + 1 => c :: left s n

/-- `…` -/
def ellipsis : Bytes := [0xE2, 0x80, 0xA6]

/-- A text of at most `maxBytes` bytes, ending in `…` if it was cut. -/
def utf8Preview (s : Bytes) (maxBytes : Nat) : Bytes :=
  if s.length ≤ maxBytes then s else utf8Prefix s (maxBytes - ellipsis.length) ++ ellipsis

/-- A stored text as read: cut to characters, then to bytes. -/
def dmText (s : Bytes) (maxBytes : Nat) : Bytes := utf8Preview (left s (maxBytes + 1)) maxBytes

/-! ## Reading a message -/

/-- A message as the history queries return it. -/
structure DmHistoryRow where
  id : Int
  senderUid : Int
  /-- The sender's current name. -/
  sender : String
  sentSender : String
  sentRecipient : String
  content : Bytes
  timestamp : Int
  editedAt : Int
  replyTo : Int
  replyToSenderUid : Int
  replyToSender : String
  replyToSentSender : String
  replyToSentRecipient : String
  replyToContent : Bytes
  envelope : Bytes
  replyToEnvelope : Bytes

namespace DmTables

variable (t : DmTables)

/-- The message replied to, in the conversation of two users. -/
def parentOf (a b : Int) (m : DmMessage) : Option DmMessage :=
  (t.messages.find? m.replyTo).filter (·.pair = pairOf a b)

/-- A row of the history; none without its sender's account. -/
def dmRowFrom (a b : Int) (m : DmMessage) : Option DmHistoryRow :=
  (t.users m.senderUid).map fun name =>
    let p := t.parentOf a b m
    { id := m.id
      senderUid := m.senderUid
      sender := name
      sentSender := m.sender
      sentRecipient := m.recipient
      content := dmText m.content maxDmContent
      timestamp := m.sentAt
      editedAt := m.editedAt
      replyTo := m.replyTo
      replyToSenderUid := (p.map (·.senderUid)).getD 0
      replyToSender := (p.bind fun p => t.users p.senderUid).getD ""
      replyToSentSender := (p.map (·.sender)).getD ""
      replyToSentRecipient := (p.map (·.recipient)).getD ""
      replyToContent := dmText ((p.map (·.content)).getD []) dmPreviewMaxBytes
      envelope := m.envelope.getD []
      replyToEnvelope := (p.bind (·.envelope)).getD [] }

/-- The messages of two users that a condition on the id selects, oldest first. -/
def selectAsc (a b : Int) (p : Int → Bool) : List DmHistoryRow :=
  ((t.messages.rows.filter fun m => m.pair = pairOf a b ∧ p m.id).insertionSort
    (·.id ≤ ·.id)).filterMap (t.dmRowFrom a b)

/-- The same, the newest first. -/
def selectDesc (a b : Int) (p : Int → Bool) : List DmHistoryRow :=
  ((t.messages.rows.filter fun m => m.pair = pairOf a b ∧ p m.id).insertionSort
    (fun x y => y.id ≤ x.id)).filterMap (t.dmRowFrom a b)

end DmTables

/-! ## On the wire -/

structure DmHistoryMessage where
  id : Int
  sender : String
  content : Bytes
  timestamp : Int
  editedAt : Int
  replyTo : Int
  replyToSender : String
  replyToContent : Bytes
  envelope : Bytes
  replyToEnvelope : Bytes
  senderUid : Int
  replyToSenderUid : Int
  /-- The names that a sealed body was sealed under. -/
  sealedSender : String
  sealedRecipient : String
  replyToSealedSender : String
  replyToSealedRecipient : String

/-- A row as it goes out, with the names its envelope needs. -/
def DmHistoryMessage.ofRow (r : DmHistoryRow) : DmHistoryMessage where
  id := r.id
  sender := r.sender
  content := r.content
  timestamp := r.timestamp
  editedAt := r.editedAt
  replyTo := r.replyTo
  replyToSender := r.replyToSender
  replyToContent := r.replyToContent
  envelope := r.envelope
  replyToEnvelope := r.replyToEnvelope
  senderUid := r.senderUid
  replyToSenderUid := r.replyToSenderUid
  sealedSender := if r.envelope ≠ [] then r.sentSender else ""
  sealedRecipient := if r.envelope ≠ [] then r.sentRecipient else ""
  replyToSealedSender := if r.replyToEnvelope ≠ [] then r.replyToSentSender else ""
  replyToSealedRecipient := if r.replyToEnvelope ≠ [] then r.replyToSentRecipient else ""

def DmHistoryMessage.byteSizeLong (m : DmHistoryMessage) : Nat :=
  intSize 1 m.id + bytesSize 2 m.sender.utf8ByteSize + bytesSize 3 m.content.length +
    intSize 4 m.timestamp + intSize 5 m.editedAt + intSize 6 m.replyTo +
    bytesSize 7 m.replyToSender.utf8ByteSize + bytesSize 8 m.replyToContent.length +
    bytesSize 9 m.envelope.length + bytesSize 10 m.replyToEnvelope.length +
    intSize 11 m.senderUid + intSize 12 m.replyToSenderUid +
    bytesSize 13 m.sealedSender.utf8ByteSize + bytesSize 14 m.sealedRecipient.utf8ByteSize +
    bytesSize 15 m.replyToSealedSender.utf8ByteSize +
    bytesSize 16 m.replyToSealedRecipient.utf8ByteSize

end Decibell.Central
