import Mathlib.Data.List.Sort
import Decibell.Community.Tables
import Decibell.Lib.Wire

/-!
# Channel messages as the clients get them

A row of the `messages` table is read together with what it replies to and the current names
of both senders, and goes out as a `ChannelMessage`, with the attachments that are ready.
`byteSizeLong` is how many bytes that takes.
-/

namespace Decibell

open Lib

/-- A message as the queries return it. -/
structure FetchedMessage where
  id : Int
  channelId : String
  senderUid : Uid
  /-- The member's name, or the one it was sent under once they left. -/
  sender : String
  sentSender : String
  content : Bytes
  timestamp : Int
  editedAt : Int
  replyTo : Int
  replyToSenderUid : Uid
  replyToSender : String
  replyToSentSender : String
  replyToContent : Bytes
  replyToAttachmentKinds : List Nat
  /-- The sealed body, empty in a channel that is not encrypted. -/
  envelope : Bytes
  replyToEnvelope : Bytes
  suppressEmbeds : Bool

namespace Tables

variable (t : Tables)

/-- A user's current name, or the one given for no member. -/
def currentName (uid : Uid) (name : String) : String :=
  ((t.members.find? uid).map DbMember.username).getD name

/-- The message that a message replies to, in the same channel. -/
def parentOf (m : DbMessage) : Option DbMessage :=
  (t.messages.find? m.replyTo).filter (·.channelId = m.channelId)

def attachmentsOf (messageId : Int) : List DbAttachment :=
  (t.attachments.rows.filter (·.messageId = messageId)).insertionSort (·.position ≤ ·.position)

def readMessageRow (m : DbMessage) : FetchedMessage :=
  let p := t.parentOf m
  { id := m.id
    channelId := m.channelId
    senderUid := m.senderUid
    sender := t.currentName m.senderUid m.sender
    sentSender := m.sender
    content := m.content
    timestamp := m.timestamp
    editedAt := m.editedAt
    replyTo := m.replyTo
    replyToSenderUid := (p.map (·.senderUid)).getD 0
    replyToSender := (p.map fun p => t.currentName p.senderUid p.sender).getD ""
    replyToSentSender := (p.map (·.sender)).getD ""
    replyToContent := (p.map (·.content)).getD []
    replyToAttachmentKinds := (p.map fun p => (t.attachmentsOf p.id).map (·.kind)).getD []
    envelope := m.envelope.getD []
    replyToEnvelope := (p.bind (·.envelope)).getD []
    suppressEmbeds := m.suppressEmbeds }

/-- The attachments of a message that can be downloaded. -/
def fetchAttachments (messageId : Int) : List DbAttachment :=
  ((t.attachmentsOf messageId).filter (·.uploadStatus = "ready")).map fun a =>
    { a with filename := clampUtf8 a.filename maxFilenameBytes, mime := safeMime a.mime }

end Tables

/-! ## On the wire -/

/-- An attachment of a message. -/
structure Attachment where
  id : Int
  messageId : Int
  kind : Nat
  filename : Bytes
  mime : Bytes
  sizeBytes : Int
  url : String
  position : Int
  createdAt : Int
  purgedAt : Int
  width : Int
  height : Int
  thumbnailSizeBytes : Int
  thumbnailSizesMask : Int
  durationMs : Int
  placeholder : String
  encrypted : Bool

structure ChannelMessage where
  sender : String
  channelId : String
  content : Bytes
  timestamp : Int
  id : Int
  attachments : List Attachment
  nonce : Bytes := []
  editedAt : Int
  replyTo : Int
  replyToSender : String
  replyToContent : Bytes
  replyToAttachmentKinds : List Nat
  envelope : Bytes
  replyToEnvelope : Bytes
  suppressEmbeds : Bool
  senderUid : Uid
  replyToSenderUid : Uid
  sealedSender : String
  replyToSealedSender : String

def maxChannelMsgBytes : Nat := 64 * 1024
def maxEnvelopeBytes : Nat := maxChannelMsgBytes + 64
def maxReplyPreviewBytes : Nat := 512

/-- What a list or page may take, well under the frame cap. -/
def maxResponseBytes : Nat := 1536 * 1024

def fillAttachment (a : DbAttachment) : Attachment where
  id := a.id
  messageId := a.messageId
  kind := a.kind
  filename := a.filename
  mime := a.mime
  sizeBytes := a.sizeBytes
  url := "/attachments/" ++ toString a.id
  position := a.position
  createdAt := a.createdAt
  purgedAt := a.purgedAt
  width := a.width % 2 ^ 32
  height := a.height % 2 ^ 32
  thumbnailSizeBytes := a.thumbnailSizeBytes % 2 ^ 32
  thumbnailSizesMask := a.thumbnailSizesMask % 2 ^ 32
  durationMs := a.durationMs % 2 ^ 32
  placeholder := a.placeholder
  encrypted := a.encrypted

/-- The message with attachments; a sealed one's preview is all of it. -/
def fillChannelMessage (m : FetchedMessage) (atts : List DbAttachment) : ChannelMessage :=
  let keepsParent := m.replyToEnvelope ≠ [] ∧ m.replyToEnvelope.length ≤ maxEnvelopeBytes
  { sender := m.sender
    channelId := m.channelId
    content := if m.content.length > maxChannelMsgBytes then utf8Prefix m.content maxChannelMsgBytes
      else m.content
    timestamp := m.timestamp
    id := m.id
    attachments := atts.map fillAttachment
    editedAt := m.editedAt
    replyTo := m.replyTo
    replyToSender := m.replyToSender
    replyToContent := utf8Prefix m.replyToContent maxReplyPreviewBytes
    replyToAttachmentKinds := m.replyToAttachmentKinds
    envelope := m.envelope
    replyToEnvelope := if keepsParent then m.replyToEnvelope else []
    suppressEmbeds := m.suppressEmbeds
    senderUid := m.senderUid
    replyToSenderUid := m.replyToSenderUid
    sealedSender := if m.envelope ≠ [] then m.sentSender else ""
    replyToSealedSender := if keepsParent then m.replyToSentSender else "" }

def Attachment.byteSizeLong (a : Attachment) : Nat :=
  intSize 1 a.id + intSize 2 a.messageId + intSize 3 a.kind + bytesSize 4 a.filename.length +
    bytesSize 5 a.mime.length + intSize 6 a.sizeBytes + bytesSize 7 a.url.utf8ByteSize +
    intSize 8 a.position + intSize 9 a.createdAt + intSize 10 a.purgedAt + intSize 11 a.width +
    intSize 12 a.height + intSize 13 a.thumbnailSizeBytes + intSize 14 a.thumbnailSizesMask +
    intSize 15 a.durationMs + bytesSize 16 a.placeholder.utf8ByteSize + boolSize 17 a.encrypted

def ChannelMessage.byteSizeLong (m : ChannelMessage) : Nat :=
  bytesSize 1 m.sender.utf8ByteSize + bytesSize 2 m.channelId.utf8ByteSize +
    bytesSize 3 m.content.length + intSize 4 m.timestamp + intSize 5 m.id +
    (m.attachments.map fun a => messageSize 6 a.byteSizeLong).sum + bytesSize 7 m.nonce.length +
    intSize 8 m.editedAt + intSize 9 m.replyTo + bytesSize 10 m.replyToSender.utf8ByteSize +
    bytesSize 11 m.replyToContent.length + packedSize 12 (m.replyToAttachmentKinds.map Int.ofNat) +
    bytesSize 13 m.envelope.length + bytesSize 14 m.replyToEnvelope.length +
    boolSize 15 m.suppressEmbeds + intSize 16 m.senderUid + intSize 17 m.replyToSenderUid +
    bytesSize 18 m.sealedSender.utf8ByteSize + bytesSize 19 m.replyToSealedSender.utf8ByteSize

end Decibell
