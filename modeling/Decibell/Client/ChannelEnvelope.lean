import Decibell.Client.Envelope

/-!
# Sealed channel messages

The body of a message in an encrypted channel is sealed with the channel's epoch key, for the
channel and the sender; the epoch stands in the header. A key blob carries an epoch key from member
to member, in a direct message's envelope.

* `parseKeyBlobContent_iff`: parsing a key blob inverts building it.
-/

namespace Decibell.ChannelEnvelope

open Lib Envelope
open List (append_assoc append_inj cons_ne_nil drop_drop drop_left' length_append length_drop
  length_replicate length_take take_append_drop take_left' take_one)

/-- Header byte of a body that binds the name. -/
def versionV1 : UInt8 := 2

/-- Header byte of a body that binds the uid. -/
def version : UInt8 := 4

def headerLen : Nat := 1 + 4 + saltLen
def contentChannelKey : UInt8 := 2
def infoDomainV1 : Bytes := ascii "decibell-channel-v1"
def infoDomainV2 : Bytes := ascii "decibell-channel-v2"

abbrev Key32 := Vector UInt8 32

inductive OpenError where
  | malformed
  | bad
  | unsupportedContent (tag : UInt8)
deriving DecidableEq

/-- Who sent a body, as the server stamped it. -/
structure Sender where
  uid : Int64
  sealedName : Bytes

def parseEpoch (wire : Bytes) : Except OpenError UInt32 :=
  if wire.length < headerLen + tagLen ||
      wire.head? ≠ some version && wire.head? ≠ some versionV1 then .error .malformed
  else .ok (ofLe32 (wire.drop 1))

def senderBytes (v : UInt8) (sender : Sender) : Except OpenError Bytes :=
  if v = version ∧ 0 < sender.uid then .ok (le64 sender.uid)
  else if v = versionV1 ∧ sender.sealedName ≠ [] then .ok sender.sealedName
  else .error .bad

def info (v : UInt8) (channelId sender : Bytes) : Bytes :=
  (if v = version then infoDomainV2 else infoDomainV1) ++ [0] ++ channelId ++ [0] ++ sender

def aad (header channelId sender : Bytes) : Bytes := header ++ channelId ++ [0] ++ sender

def headerBytes (v : UInt8) (epoch : UInt32) (salt : Bytes) : Bytes := [v] ++ le32 epoch ++ salt

section Sealing

variable {Priv Pub Key Nonce : Type} (p : Primitives Priv Pub Key Nonce)

def schedule (v : UInt8) (epochKey : Key32) (salt channelId sender : Bytes) : Key × Nonce :=
  p.derive epochKey.toList salt (info v channelId sender)

def sealWith (salt : Vector UInt8 saltLen) (v : UInt8) (epoch : UInt32) (epochKey : Key32)
    (channelId sender : Bytes) (tag : UInt8) (content : Bytes) : Except String Bytes :=
  if maxTextLen < content.length then .error "message too long to seal"
  else
    let header := headerBytes v epoch salt.toList
    let (key, nonce) := schedule p v epochKey salt.toList channelId sender
    match p.encrypt key nonce (tag :: content) (aad header channelId sender) with
    | none => .error "AEAD seal failed"
    | some body => .ok (header ++ body)

def sealTagged (salt : Vector UInt8 saltLen) (epoch : UInt32) (epochKey : Key32)
    (channelId : Bytes) (senderUid : Int64) (tag : UInt8) (content : Bytes) :
    Except String Bytes :=
  if senderUid ≤ 0 then .error "can't seal without your account uid"
  else sealWith p salt version epoch epochKey channelId (le64 senderUid) tag content

/-- Opens a body with the key of the epoch that its header names. -/
def openTagged (epochKey : Key32) (channelId : Bytes) (sender : Sender) (wire : Bytes) :
    Except OpenError (UInt8 × Bytes) :=
  match parseEpoch wire with
  | .error e => .error e
  | .ok _ =>
    let header := wire.take headerLen
    match senderBytes (wire.headD 0) sender with
    | .error e => .error e
    | .ok sender =>
      let (key, nonce) := schedule p (wire.headD 0) epochKey (header.drop 5) channelId sender
      match p.decrypt key nonce (wire.drop headerLen) (aad header channelId sender) with
      | none => .error .bad
      | some [] => .error .malformed
      | some (tag :: content) => .ok (tag, content)

def openText (epochKey : Key32) (channelId : Bytes) (sender : Sender) (wire : Bytes) :
    Except OpenError String :=
  match openTagged p epochKey channelId sender wire with
  | .error e => .error e
  | .ok (tag, content) =>
    if tag = contentText then
      match fromUtf8? content with
      | some text => .ok text
      | none => .error .bad
    else .error (.unsupportedContent tag)

end Sealing

/-- What a key blob has inside. -/
def keyBlobContent (channelId : Bytes) (epoch : UInt32) (key : Key32) : Bytes :=
  [contentChannelKey] ++ le32 epoch ++ key.toList ++ channelId

def parseKeyBlobContent (content channelId : Bytes) : Option (UInt32 × Key32) :=
  if h : content.length = 1 + 4 + 32 + channelId.length ∧ content.head? = some contentChannelKey ∧
      content.drop 37 = channelId then
    some (ofLe32 (content.drop 1), ⟨((content.drop 5).take 32).toArray, by
      rw [List.size_toArray, List.length_take, List.length_drop]
      omega⟩)
  else none

/-! ## The encodings -/

section Encodings

variable {v : UInt8} {epoch : UInt32} {salt body : Bytes}

theorem length_headerBytes (hsalt : salt.length = saltLen) :
    (headerBytes v epoch salt).length = headerLen := by
  rw [headerBytes, length_append, length_append, length_le32, hsalt]
  rfl

theorem take_wire (hsalt : salt.length = saltLen) :
    (headerBytes v epoch salt ++ body).take headerLen = headerBytes v epoch salt :=
  take_left' (length_headerBytes hsalt)

theorem drop_wire (hsalt : salt.length = saltLen) :
    (headerBytes v epoch salt ++ body).drop headerLen = body :=
  drop_left' (length_headerBytes hsalt)

theorem drop_headerBytes : (headerBytes v epoch salt).drop 5 = salt := by
  refine drop_left' ?_
  rw [length_append, length_le32]
  rfl

theorem parseEpoch_wire (hv : v = version ∨ v = versionV1) (hsalt : salt.length = saltLen)
    (hbody : tagLen ≤ body.length) :
    parseEpoch (headerBytes v epoch salt ++ body) = .ok epoch := by
  have hlong : ¬(headerBytes v epoch salt ++ body).length < headerLen + tagLen := by
    rw [length_append, length_headerBytes hsalt]
    omega
  have hversion : ¬((headerBytes v epoch salt ++ body).head? ≠ some version ∧
      (headerBytes v epoch salt ++ body).head? ≠ some versionV1) := by
    rintro ⟨hne, hne'⟩
    rcases hv with rfl | rfl
    · exact hne rfl
    · exact hne' rfl
  have hepoch : ofLe32 ((headerBytes v epoch salt ++ body).drop 1) = epoch := by
    rw [headerBytes, append_assoc, append_assoc, drop_left' (by rfl)]
    exact ofLe32_le32 epoch _
  rw [parseEpoch, if_neg, hepoch]
  rw [Bool.or_eq_true, decide_eq_true_eq, Bool.and_eq_true, decide_eq_true_eq,
    decide_eq_true_eq]
  exact not_or.2 ⟨hlong, hversion⟩

theorem of_parseEpoch {wire : Bytes} (h : parseEpoch wire = .ok epoch) :
    headerLen + tagLen ≤ wire.length ∧
      (wire.head? = some version ∨ wire.head? = some versionV1) := by
  rw [parseEpoch] at h
  split at h
  · cases h
  · next hok =>
    rw [Bool.or_eq_true, decide_eq_true_eq, Bool.and_eq_true, decide_eq_true_eq,
      decide_eq_true_eq] at hok
    obtain ⟨hlong, hversion⟩ := not_or.1 hok
    refine ⟨Nat.le_of_not_lt hlong, ?_⟩
    by_contra hne
    exact hversion (not_or.1 hne)

theorem parseEpoch_ne_ok_of_parseHeader {wire : Bytes} {hdr : Header}
    (h : parseHeader wire = .ok hdr) : parseEpoch wire ≠ .ok epoch := by
  intro hepoch
  obtain ⟨-, hhead, hv⟩ := of_parseHeader h
  obtain ⟨-, hv'⟩ := of_parseEpoch hepoch
  rw [hhead] at hv'
  rcases hv with hv | hv <;> rcases hv' with hv' | hv' <;>
    exact absurd (hv.symm.trans (Option.some.inj hv')) (by decide)

theorem of_senderBytes {sender : Sender} {b : Bytes} (h : senderBytes v sender = .ok b) :
    v = version ∧ b = le64 sender.uid ∨ v = versionV1 ∧ b = sender.sealedName := by
  rw [senderBytes] at h
  split at h
  · next hnew =>
    cases h
    exact .inl ⟨hnew.1, rfl⟩
  · split at h
    · next hold =>
      cases h
      exact .inr ⟨hold.1, rfl⟩
    · cases h

end Encodings

/-! ## What is opened -/

section Opening

variable {Priv Pub Key Nonce : Type} {p : Primitives Priv Pub Key Nonce}
  {salt : Vector UInt8 saltLen} {v : UInt8} {epoch : UInt32} {epochKey : Key32}
  {channelId sent : Bytes} {tag : UInt8} {content wire : Bytes}

theorem sealWith_eq_ok
    (h : sealWith p salt v epoch epochKey channelId sent tag content = .ok wire) :
    ∃ body, p.encrypt (schedule p v epochKey salt.toList channelId sent).1
        (schedule p v epochKey salt.toList channelId sent).2 (tag :: content)
        (aad (headerBytes v epoch salt.toList) channelId sent) = some body ∧
      wire = headerBytes v epoch salt.toList ++ body := by
  rw [sealWith] at h
  split at h
  · cases h
  · dsimp only at h
    split at h
    · cases h
    · next body hbody =>
      cases h
      exact ⟨body, hbody, rfl⟩

theorem openTagged_eq_ok {sender : Sender}
    (h : openTagged p epochKey channelId sender wire = .ok (tag, content)) :
    ∃ epoch sent, parseEpoch wire = .ok epoch ∧
      senderBytes (wire.headD 0) sender = .ok sent ∧
      p.decrypt
        (schedule p (wire.headD 0) epochKey ((wire.take headerLen).drop 5) channelId sent).1
        (schedule p (wire.headD 0) epochKey ((wire.take headerLen).drop 5) channelId sent).2
        (wire.drop headerLen) (aad (wire.take headerLen) channelId sent) =
          some (tag :: content) := by
  rw [openTagged] at h
  split at h
  · cases h
  · next epoch hepoch =>
    dsimp only at h
    split at h
    · cases h
    · next sent hsent =>
      split at h
      · cases h
      · cases h
      · next tag' content' hplain =>
        cases h
        exact ⟨epoch, sent, hepoch, hsent, hplain⟩

theorem openTagged_of_sealed (hp : p.Ideal)
    (hseal : sealWith p salt v epoch epochKey channelId sent tag content = .ok wire)
    {sender : Sender} (hsender : senderBytes v sender = .ok sent) :
    parseEpoch wire = .ok epoch ∧
      openTagged p epochKey channelId sender wire = .ok (tag, content) := by
  obtain ⟨body, hbody, rfl⟩ := sealWith_eq_ok hseal
  have hv : v = version ∨ v = versionV1 :=
    (of_senderBytes hsender).elim (fun h => .inl h.1) fun h => .inr h.1
  have hsalt : salt.toList.length = saltLen := Vector.length_toList
  have hepoch : parseEpoch (headerBytes v epoch salt.toList ++ body) = .ok epoch :=
    parseEpoch_wire hv hsalt (hp.tag_le hbody)
  refine ⟨hepoch, ?_⟩
  have hhead : (headerBytes v epoch salt.toList ++ body).headD 0 = v := rfl
  rw [openTagged, hepoch, hhead, take_wire hsalt, drop_wire hsalt]
  dsimp only
  rw [hsender, drop_headerBytes]
  dsimp only
  rw [hp.cipher.decrypt_iff.2 hbody]

/-- **A sealed body is opened in its own context only**: with the header, key, channel and sender it
    was sealed with. -/
theorem openTagged_bound (hp : p.Ideal)
    (hseal : sealWith p salt v epoch epochKey channelId sent tag content = .ok wire)
    {wire' : Bytes} (hbody : wire'.drop headerLen = wire.drop headerLen) {epochKey' : Key32}
    {channelId' : Bytes} {sender : Sender} {tag' : UInt8} {content' : Bytes}
    (hopen : openTagged p epochKey' channelId' sender wire' = .ok (tag', content')) :
    wire' = wire ∧ tag' = tag ∧ content' = content ∧ epochKey' = epochKey ∧
      ∃ sent', senderBytes v sender = .ok sent' ∧
        channelId' ++ ([0] ++ sent') = channelId ++ ([0] ++ sent) := by
  obtain ⟨body, hencrypt, rfl⟩ := sealWith_eq_ok hseal
  obtain ⟨epoch', sent', hepoch, hsent, hdecrypt⟩ := openTagged_eq_ok hopen
  have hsalt : salt.toList.length = saltLen := Vector.length_toList
  rw [hbody, drop_wire hsalt] at hdecrypt
  obtain ⟨hkey, hnonce, hplain, haad⟩ := hp.cipher.bound hencrypt hdecrypt
  obtain ⟨hlong, -⟩ := of_parseEpoch hepoch
  rw [aad, aad, append_assoc, append_assoc, append_assoc,
    append_assoc] at haad
  obtain ⟨hheader, hcontext⟩ := append_inj haad (by
    rw [length_headerBytes hsalt, length_take]
    omega)
  have hwire : wire' = headerBytes v epoch salt.toList ++ body := by
    rw [← take_append_drop headerLen wire', ← hheader, hbody, drop_wire hsalt]
  subst hwire
  obtain ⟨rfl, rfl⟩ := List.cons.inj hplain
  obtain ⟨hsecret, -, -⟩ := hp.derive_injective (Prod.ext hkey hnonce)
  exact ⟨rfl, rfl, rfl, (Vector.toList_inj.1 hsecret).symm, sent', hsent, hcontext.symm⟩

end Opening

/-! ## Key blobs -/

section Blobs

variable {channelId content : Bytes} {epoch : UInt32} {key : Key32}

theorem parseKeyBlobContent_keyBlobContent :
    parseKeyBlobContent (keyBlobContent channelId epoch key) channelId = some (epoch, key) := by
  have hkey : key.toList.length = 32 := Vector.length_toList
  have hepoch : ofLe32 ((keyBlobContent channelId epoch key).drop 1) = epoch := by
    rw [keyBlobContent, append_assoc, append_assoc, drop_left' (by rfl)]
    exact ofLe32_le32 epoch _
  have hbytes : ((keyBlobContent channelId epoch key).drop 5).take 32 = key.toList := by
    rw [keyBlobContent, append_assoc (_ ++ _),
      drop_left' (by rw [length_append, length_le32]; rfl), take_left' hkey]
  have hchannel : (keyBlobContent channelId epoch key).drop 37 = channelId := by
    refine drop_left' ?_
    rw [length_append, length_append, length_le32, hkey]
    rfl
  have hlength : (keyBlobContent channelId epoch key).length = 1 + 4 + 32 + channelId.length := by
    rw [keyBlobContent, length_append, length_append, length_append, length_le32,
      hkey]
    rfl
  rw [parseKeyBlobContent, dif_pos ⟨hlength, rfl, hchannel⟩, hepoch]
  refine congrArg some (Prod.ext rfl (Vector.toList_inj.1 ?_))
  exact hbytes

/-- **Parsing a key blob inverts building it.** -/
theorem parseKeyBlobContent_iff :
    parseKeyBlobContent content channelId = some (epoch, key) ↔
      content = keyBlobContent channelId epoch key := by
  constructor
  · intro h
    rw [parseKeyBlobContent] at h
    split at h
    · next hparts =>
      obtain ⟨hlength, hhead, hchannel⟩ := hparts
      obtain ⟨rfl, rfl⟩ := Prod.mk.inj (Option.some.inj h)
      -- The parts of the content, one behind the other.
      have hparts : content = content.take 1 ++ ((content.drop 1).take 4 ++
          ((content.drop 5).take 32 ++ content.drop 37)) := by
        have h37 : content.drop 37 = (content.drop 5).drop 32 := by rw [drop_drop]
        have h5 : content.drop 5 = (content.drop 1).drop 4 := by rw [drop_drop]
        rw [h37, take_append_drop, h5, take_append_drop, take_append_drop]
      have htag : content.take 1 = [contentChannelKey] := by
        rw [take_one, hhead]
        rfl
      have hepoch : le32 (ofLe32 (content.drop 1)) = (content.drop 1).take 4 := by
        refine le32_ofLe32 ?_
        rw [length_drop]
        omega
      rw [keyBlobContent, hepoch, append_assoc, append_assoc, ← htag]
      conv_lhs => rw [hparts, hchannel]
      rfl
    · cases h
  · rintro rfl
    exact parseKeyBlobContent_keyBlobContent

end Blobs

/-! ## Both formats -/

section Formats

variable {Priv Pub Key Nonce : Type}

/-- What is sealed is opened in its own context only: under no other header, key id, version,
    sender, recipient or channel, nor in the other format. -/
structure Binds (p : Primitives Priv Pub Key Nonce) : Prop where
  /-- The recipient, and the sender again, open a direct message. -/
  dm_opened : ∀ (salt : Vector UInt8 saltLen) (alice bob : Priv) (ka kb : UInt32)
    (parties : Parties) (text : String) (wire : Bytes),
    sealText p salt alice parties.senderUid ka (p.publicKey bob) parties.recipientUid kb text =
      .ok wire →
    Envelope.openText p bob kb (p.publicKey alice) ka parties false wire = .ok text ∧
      Envelope.openText p alice ka (p.publicKey bob) kb parties true wire = .ok text
  dm_bound : ∀ (salt : Vector UInt8 saltLen) (alice mine : Priv) (bob theirs : Pub)
    (senderUid recipientUid : Int64) (ka kb myKid peerKid : UInt32) (parties : Parties)
    (iAmSender : Bool) (plain plain' wire wire' : Bytes),
    sealBytes p salt alice senderUid ka bob recipientUid kb plain = .ok wire →
    wire'.drop Envelope.headerLen = wire.drop Envelope.headerLen →
    openBytes p mine myKid theirs peerKid parties iAmSender wire' = .ok plain' →
    wire' = wire ∧ plain' = plain ∧ parties.senderUid = senderUid ∧
      parties.recipientUid = recipientUid ∧
      (if iAmSender then (myKid, peerKid) else (peerKid, myKid)) = (ka, kb)
  /-- A message that binds the names is opened under these, never under uids. -/
  dm_names_bound : ∀ (salt : Vector UInt8 saltLen) (alice mine : Priv) (bob theirs : Pub)
    (sender recipient : Bytes) (ka kb myKid peerKid : UInt32) (parties : Parties)
    (iAmSender : Bool) (plain plain' wire wire' : Bytes),
    Envelope.sealWith p salt Envelope.versionV1 (.names sender recipient) alice ka bob kb plain =
      .ok wire →
    wire'.drop Envelope.headerLen = wire.drop Envelope.headerLen →
    openBytes p mine myKid theirs peerKid parties iAmSender wire' = .ok plain' →
    wire' = wire ∧ plain' = plain ∧ parties.senderName = sender ∧
      (0 ∉ sender ∧ 0 ∉ recipient ∧ 0 ∉ parties.recipientName →
        parties.recipientName = recipient) ∧
      (if iAmSender then (myKid, peerKid) else (peerKid, myKid)) = (ka, kb)
  /-- A direct message is not reflected to its author. -/
  dm_not_reflected : ∀ (salt : Vector UInt8 saltLen) (alice mine : Priv) (bob theirs : Pub)
    (senderUid recipientUid : Int64) (ka kb myKid peerKid : UInt32) (parties : Parties)
    (iAmSender : Bool) (plain plain' wire wire' : Bytes), senderUid ≠ recipientUid →
    sealBytes p salt alice senderUid ka bob recipientUid kb plain = .ok wire →
    wire'.drop Envelope.headerLen = wire.drop Envelope.headerLen →
    parties.senderUid = recipientUid →
    openBytes p mine myKid theirs peerKid parties iAmSender wire' ≠ .ok plain'
  /-- Who has the epoch key opens a channel's message. -/
  channel_opened : ∀ (salt : Vector UInt8 saltLen) (epoch : UInt32) (epochKey : Key32)
    (channelId : Bytes) (sender : Sender) (tag : UInt8) (content wire : Bytes),
    sealTagged p salt epoch epochKey channelId sender.uid tag content = .ok wire →
    parseEpoch wire = .ok epoch ∧
      openTagged p epochKey channelId sender wire = .ok (tag, content)
  channel_bound : ∀ (salt : Vector UInt8 saltLen) (epoch : UInt32) (epochKey epochKey' : Key32)
    (channelId channelId' : Bytes) (senderUid : Int64) (sender : Sender) (tag tag' : UInt8)
    (content content' wire wire' : Bytes),
    sealTagged p salt epoch epochKey channelId senderUid tag content = .ok wire →
    wire'.drop headerLen = wire.drop headerLen →
    openTagged p epochKey' channelId' sender wire' = .ok (tag', content') →
    wire' = wire ∧ tag' = tag ∧ content' = content ∧ parseEpoch wire' = .ok epoch ∧
      epochKey' = epochKey ∧ channelId' = channelId ∧ sender.uid = senderUid
  channel_names_bound : ∀ (salt : Vector UInt8 saltLen) (epoch : UInt32)
    (epochKey epochKey' : Key32) (channelId channelId' name : Bytes) (sender : Sender)
    (tag tag' : UInt8) (content content' wire wire' : Bytes),
    sealWith p salt versionV1 epoch epochKey channelId name tag content = .ok wire →
    wire'.drop headerLen = wire.drop headerLen →
    openTagged p epochKey' channelId' sender wire' = .ok (tag', content') →
    wire' = wire ∧ tag' = tag ∧ content' = content ∧ epochKey' = epochKey ∧
      (0 ∉ channelId ∧ 0 ∉ channelId' → channelId' = channelId ∧ sender.sealedName = name)
  /-- What is opened as a direct message is not opened as a channel's. -/
  formats_apart : ∀ (mine : Priv) (theirs : Pub) (myKid peerKid : UInt32) (parties : Parties)
    (iAmSender : Bool) (epochKey : Key32) (channelId : Bytes) (sender : Sender)
    (plain wire : Bytes) (inner : UInt8 × Bytes),
    openBytes p mine myKid theirs peerKid parties iAmSender wire = .ok plain →
    openTagged p epochKey channelId sender wire ≠ .ok inner
  blob : ∀ (channelId content : Bytes) (epoch : UInt32) (key : Key32),
    parseKeyBlobContent content channelId = some (epoch, key) ↔
      content = keyBlobContent channelId epoch key

variable {p : Primitives Priv Pub Key Nonce}

theorem sealBytes_eq_ok {salt : Vector UInt8 saltLen} {alice : Priv}
    {senderUid recipientUid : Int64} {ka kb : UInt32} {bob : Pub} {plain wire : Bytes}
    (h : sealBytes p salt alice senderUid ka bob recipientUid kb plain = .ok wire) :
    0 < senderUid ∧ 0 < recipientUid ∧
      Envelope.sealWith p salt Envelope.version (.uids senderUid recipientUid) alice ka bob kb
        plain = .ok wire := by
  rw [sealBytes] at h
  split at h
  · cases h
  · next huids =>
    obtain ⟨hsender, hrecipient⟩ := not_or.1 huids
    exact ⟨Int64.not_le.1 hsender, Int64.not_le.1 hrecipient, h⟩

theorem openText_of_openBytes {mine : Priv} {theirs : Pub} {myKid peerKid : UInt32}
    {parties : Parties} {iAmSender : Bool} {wire : Bytes} {text : String}
    (h : openBytes p mine myKid theirs peerKid parties iAmSender wire =
      .ok (contentText :: asBytes text)) :
    Envelope.openText p mine myKid theirs peerKid parties iAmSender wire = .ok text := by
  rw [Envelope.openText, h]
  dsimp only
  rw [if_pos rfl, fromUtf8?_asBytes]

theorem dm_opened (hp : p.Ideal) {salt : Vector UInt8 saltLen} {alice bob : Priv}
    {ka kb : UInt32} {parties : Parties} {text : String} {wire : Bytes}
    (h : sealText p salt alice parties.senderUid ka (p.publicKey bob) parties.recipientUid kb
      text = .ok wire) :
    Envelope.openText p bob kb (p.publicKey alice) ka parties false wire = .ok text ∧
      Envelope.openText p alice ka (p.publicKey bob) kb parties true wire = .ok text := by
  rw [sealText] at h
  split at h
  · cases h
  · obtain ⟨hsender, hrecipient, hseal⟩ := sealBytes_eq_ok h
    have hbind : Bind.forVersion Envelope.version parties =
        .ok (.uids parties.senderUid parties.recipientUid) := if_pos ⟨rfl, hsender, hrecipient⟩
    have hplain : contentText :: asBytes text ≠ [] := cons_ne_nil _ _
    exact ⟨openText_of_openBytes (openBytes_of_sealed hp hseal hbind hplain (hp.agree bob alice)
        rfl),
      openText_of_openBytes (openBytes_of_sealed hp hseal hbind hplain rfl rfl)⟩

theorem dm_bound (hp : p.Ideal) {salt : Vector UInt8 saltLen} {alice mine : Priv}
    {bob theirs : Pub} {senderUid recipientUid : Int64} {ka kb myKid peerKid : UInt32}
    {parties : Parties} {iAmSender : Bool} {plain plain' wire wire' : Bytes}
    (hseal : sealBytes p salt alice senderUid ka bob recipientUid kb plain = .ok wire)
    (hbody : wire'.drop Envelope.headerLen = wire.drop Envelope.headerLen)
    (hopen : openBytes p mine myKid theirs peerKid parties iAmSender wire' = .ok plain') :
    wire' = wire ∧ plain' = plain ∧ parties.senderUid = senderUid ∧
      parties.recipientUid = recipientUid ∧
      (if iAmSender then (myKid, peerKid) else (peerKid, myKid)) = (ka, kb) := by
  obtain ⟨-, -, hseal⟩ := sealBytes_eq_ok hseal
  obtain ⟨rfl, rfl, hkids, b, hbind, hsender, hinfo⟩ := openBytes_bound hp hseal hbody hopen
  rcases of_forVersion hbind with ⟨-, rfl⟩ | ⟨hversion, -⟩
  · have huid := le64_injective hsender
    exact ⟨rfl, rfl, huid, info_uids_injective hinfo huid, hkids⟩
  · exact absurd hversion (by decide)

/-- What is shared is a commutative sum; what is derived or encrypted keeps all it is of. -/
def idealPrimitives : Primitives Nat Nat (Bytes × Bytes × Bytes) Unit where
  publicKey := id
  diffieHellman a b := some (List.replicate (a + b) 0)
  derive shared salt info := ((shared, salt, info), ())
  encrypt := codeEncrypt tagLen
  decrypt := codeDecrypt tagLen

theorem ideal_idealPrimitives : idealPrimitives.Ideal where
  agree a b := congrArg (fun n => some (List.replicate n 0)) (Nat.add_comm a b)
  derive_injective h := by
    obtain ⟨hkey, -⟩ := Prod.mk.inj h
    simpa only [Prod.mk.injEq] using hkey
  cipher := idealCipher_code tagLen
  tag_le h := by
    rw [← Option.some.inj h, length_replicate]
    exact Nat.le_add_right _ _

end Formats

end Decibell.ChannelEnvelope
