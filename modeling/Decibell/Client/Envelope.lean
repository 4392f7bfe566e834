import Decibell.Community.Text
import Decibell.Lib.Bytes
import Decibell.Lib.IdealCipher

/-!
# Sealed direct messages

The body of a direct message is sealed for the pair of its accounts: a key and a nonce are derived
from what the two share, a salt and the context (`Bind`), and the header and the sender are bound as
associated data. Key agreement, derivation and cipher are arguments, and ideal where that is said.
-/

namespace Decibell.Envelope

open Lib Option
open List (append_assoc append_inj append_inj' drop_left' length_append length_take mem_cons_of_mem
  mem_cons_self take_append_drop take_left')

/-- Header byte of an envelope that binds the names. -/
def versionV1 : UInt8 := 1

/-- Header byte of an envelope that binds the uids. -/
def version : UInt8 := 3

def saltLen : Nat := 32
def headerLen : Nat := 1 + 4 + 4 + saltLen
def tagLen : Nat := 16
def contentText : UInt8 := 1
def maxTextLen : Nat := 64 * 1024

def ascii (s : String) : Bytes := s.toList.map fun c => UInt8.ofNat c.toNat

def infoDomainV1 : Bytes := ascii "decibell-dm-v1"
def infoDomainV2 : Bytes := ascii "decibell-dm-v2"

/-- The bytes of a text. -/
def asBytes (s : String) : Bytes := s.toUTF8.data.toList

/-- The text that bytes are, if they are one. -/
def fromUtf8? (b : Bytes) : Option String := String.fromUTF8? ⟨⟨b⟩⟩

theorem fromUtf8?_asBytes (s : String) : fromUtf8? (asBytes s) = some s :=
  dif_pos s.isValidUTF8

def le32 (n : UInt32) : Bytes := leBytes 4 n.toNat

def le64 (n : Int64) : Bytes := leBytes 8 n.toUInt64.toNat

def ofLe32 (b : Bytes) : UInt32 := .ofNat (ofLeBytes (b.take 4))

@[simp] theorem length_le32 (n : UInt32) : (le32 n).length = 4 := length_leBytes 4 _

@[simp] theorem length_le64 (n : Int64) : (le64 n).length = 8 := length_leBytes 8 _

theorem ofLe32_le32 (n : UInt32) (rest : Bytes) : ofLe32 (le32 n ++ rest) = n := by
  rw [ofLe32, take_left' (length_le32 n), le32, ofLeBytes_leBytes n.toNat_lt,
    UInt32.ofNat_toNat]

theorem le32_ofLe32 {b : Bytes} (h : 4 ≤ b.length) : le32 (ofLe32 b) = b.take 4 := by
  have hlength : (b.take 4).length = 4 := by
    rw [length_take]
    omega
  have hlt := ofLeBytes_lt (b.take 4)
  rw [hlength] at hlt
  rw [le32, ofLe32, UInt32.toNat_ofNat', Nat.mod_eq_of_lt (show _ < 2 ^ 32 from hlt)]
  have hbytes := leBytes_ofLeBytes (b.take 4)
  rwa [hlength] at hbytes

theorem le64_injective {m n : Int64} (h : le64 m = le64 n) : m = n := by
  have heq := congrArg ofLeBytes h
  rw [le64, le64, ofLeBytes_leBytes m.toUInt64.toNat_lt, ofLeBytes_leBytes n.toUInt64.toNat_lt]
    at heq
  exact congrArg Int64.ofUInt64 (UInt64.toNat_inj.1 heq)

structure Header where
  version : UInt8
  senderKeyId : UInt32
  recipientKeyId : UInt32
deriving DecidableEq

/-- Who a message is between: the uids, and the names of old envelopes. -/
structure Parties where
  senderUid : Int64
  recipientUid : Int64
  senderName : Bytes
  recipientName : Bytes

inductive OpenError where
  | malformed
  | keyMismatch
  | bad
  | unsupportedContent (tag : UInt8)
deriving DecidableEq

def parseHeader (wire : Bytes) : Except OpenError Header :=
  if wire.length < headerLen + tagLen ||
      wire.head? ≠ some version && wire.head? ≠ some versionV1 then .error .malformed
  else .ok ⟨wire.headD 0, ofLe32 (wire.drop 1), ofLe32 (wire.drop 5)⟩

/-- What keys and associated data bind: the sender and the recipient. -/
inductive Bind where
  | names (sender recipient : Bytes)
  | uids (sender recipient : Int64)

namespace Bind

def forVersion (v : UInt8) (p : Parties) : Except OpenError Bind :=
  if v = Envelope.version ∧ 0 < p.senderUid ∧ 0 < p.recipientUid then
    .ok (.uids p.senderUid p.recipientUid)
  else if v = versionV1 ∧ p.senderName ≠ [] ∧ p.recipientName ≠ [] then
    .ok (.names p.senderName p.recipientName)
  else .error .bad

/-- The lower of two with what belongs to it, and the higher. -/
def inOrder {α : Type} [LE α] [DecidableLE α] (a b : α) (ka kb : UInt32) :
    (α × UInt32) × (α × UInt32) :=
  if a ≤ b then ((a, ka), (b, kb)) else ((b, kb), (a, ka))

def info (senderKid recipientKid : UInt32) : Bind → Bytes
  | .uids sender recipient =>
    let ((lo, loKid), (hi, hiKid)) := inOrder sender recipient senderKid recipientKid
    infoDomainV2 ++ [0] ++ le64 lo ++ le64 hi ++ le32 loKid ++ le32 hiKid
  | .names sender recipient =>
    let ((lo, loKid), (hi, hiKid)) := inOrder sender recipient senderKid recipientKid
    infoDomainV1 ++ [0] ++ lo ++ [0] ++ hi ++ [0] ++ le32 loKid ++ le32 hiKid

def sender : Bind → Bytes
  | .uids sender _ => le64 sender
  | .names sender _ => sender

def aad (header : Bytes) (b : Bind) : Bytes := header ++ b.sender

end Bind

def headerBytes (v : UInt8) (senderKid recipientKid : UInt32) (salt : Bytes) : Bytes :=
  [v] ++ le32 senderKid ++ le32 recipientKid ++ salt

/-- Key agreement, key derivation and the cipher. -/
structure Primitives (Priv Pub Key Nonce : Type) where
  publicKey : Priv → Pub
  /-- What two keys share: nothing for a point of low order. -/
  diffieHellman : Priv → Pub → Option Bytes
  /-- HKDF: the secret, the salt and the info. -/
  derive : Bytes → Bytes → Bytes → Key × Nonce
  encrypt : Key → Nonce → (msg aad : Bytes) → Option Bytes
  decrypt : Key → Nonce → (msg aad : Bytes) → Option Bytes

/-- Both sides share the same, keys are derived injectively, and the cipher is ideal. -/
structure Primitives.Ideal {Priv Pub Key Nonce : Type} (p : Primitives Priv Pub Key Nonce) :
    Prop where
  agree : ∀ a b, p.diffieHellman a (p.publicKey b) = p.diffieHellman b (p.publicKey a)
  derive_injective : ∀ {s salt info s' salt' info'},
    p.derive s salt info = p.derive s' salt' info' → s = s' ∧ salt = salt' ∧ info = info'
  cipher : IdealCipher p.encrypt p.decrypt
  tag_le : ∀ {k n m a c}, p.encrypt k n m a = some c → tagLen ≤ c.length

section Sealing

variable {Priv Pub Key Nonce : Type} (p : Primitives Priv Pub Key Nonce)

def schedule (myPriv : Priv) (peerPub : Pub) (salt : Bytes) (b : Bind)
    (senderKid recipientKid : UInt32) : Option (Key × Nonce) :=
  (p.diffieHellman myPriv peerPub).map fun shared =>
    p.derive shared salt (b.info senderKid recipientKid)

def sealWith (salt : Vector UInt8 saltLen) (v : UInt8) (b : Bind) (myPriv : Priv)
    (senderKid : UInt32) (peerPub : Pub) (recipientKid : UInt32) (plain : Bytes) :
    Except String Bytes :=
  if maxTextLen + 1 < plain.length then .error "content too long to seal"
  else
    match schedule p myPriv peerPub salt.toList b senderKid recipientKid with
    | none => .error "peer public key is not contributory"
    | some (key, nonce) =>
      let header := headerBytes v senderKid recipientKid salt.toList
      match p.encrypt key nonce plain (b.aad header) with
      | none => .error "AEAD seal failed"
      | some body => .ok (header ++ body)

def sealBytes (salt : Vector UInt8 saltLen) (myPriv : Priv) (senderUid : Int64)
    (senderKid : UInt32) (peerPub : Pub) (recipientUid : Int64) (recipientKid : UInt32)
    (plain : Bytes) : Except String Bytes :=
  if senderUid ≤ 0 ∨ recipientUid ≤ 0 then .error "can't seal without both accounts' uids"
  else
    sealWith p salt version (.uids senderUid recipientUid) myPriv senderKid peerPub recipientKid
      plain

def sealText (salt : Vector UInt8 saltLen) (myPriv : Priv) (senderUid : Int64) (senderKid : UInt32)
    (peerPub : Pub) (recipientUid : Int64) (recipientKid : UInt32) (text : String) :
    Except String Bytes :=
  if maxTextLen < (asBytes text).length then .error "message too long to seal"
  else
    sealBytes p salt myPriv senderUid senderKid peerPub recipientUid recipientKid
      (contentText :: asBytes text)

/-- Opens an envelope; `iAmSender` says whose the own key is. -/
def openBytes (myPriv : Priv) (myKid : UInt32) (peerPub : Pub) (peerKid : UInt32)
    (parties : Parties) (iAmSender : Bool) (wire : Bytes) : Except OpenError Bytes :=
  match parseHeader wire with
  | .error e => .error e
  | .ok hdr =>
    let (senderKid, recipientKid) := if iAmSender then (myKid, peerKid) else (peerKid, myKid)
    if hdr.senderKeyId ≠ senderKid ∨ hdr.recipientKeyId ≠ recipientKid then .error .keyMismatch
    else
      match Bind.forVersion hdr.version parties with
      | .error e => .error e
      | .ok b =>
        let header := wire.take headerLen
        match schedule p myPriv peerPub (header.drop 9) b senderKid recipientKid with
        | none => .error .bad
        | some (key, nonce) =>
          match p.decrypt key nonce (wire.drop headerLen) (b.aad header) with
          | none => .error .bad
          | some plain => if plain = [] then .error .malformed else .ok plain

def openText (myPriv : Priv) (myKid : UInt32) (peerPub : Pub) (peerKid : UInt32)
    (parties : Parties) (iAmSender : Bool) (wire : Bytes) : Except OpenError String :=
  match openBytes p myPriv myKid peerPub peerKid parties iAmSender wire with
  | .error e => .error e
  | .ok [] => .error .malformed
  | .ok (tag :: text) =>
    if tag = contentText then
      match fromUtf8? text with
      | some text => .ok text
      | none => .error .bad
    else .error (.unsupportedContent tag)

end Sealing

/-! ## The encodings -/

section Encodings

variable {v : UInt8} {ka kb : UInt32} {salt body : Bytes}

theorem length_headerBytes (hsalt : salt.length = saltLen) :
    (headerBytes v ka kb salt).length = headerLen := by
  rw [headerBytes, length_append, length_append, length_append, length_le32,
    length_le32, hsalt]
  rfl

theorem take_wire (hsalt : salt.length = saltLen) :
    (headerBytes v ka kb salt ++ body).take headerLen = headerBytes v ka kb salt :=
  take_left' (length_headerBytes hsalt)

theorem drop_wire (hsalt : salt.length = saltLen) :
    (headerBytes v ka kb salt ++ body).drop headerLen = body :=
  drop_left' (length_headerBytes hsalt)

theorem drop_headerBytes : (headerBytes v ka kb salt).drop 9 = salt := by
  refine drop_left' ?_
  rw [length_append, length_append, length_le32, length_le32]
  rfl

theorem parseHeader_wire (hv : v = version ∨ v = versionV1) (hsalt : salt.length = saltLen)
    (hbody : tagLen ≤ body.length) :
    parseHeader (headerBytes v ka kb salt ++ body) = .ok ⟨v, ka, kb⟩ := by
  have hlong : ¬(headerBytes v ka kb salt ++ body).length < headerLen + tagLen := by
    rw [length_append, length_headerBytes hsalt]
    omega
  have hversion : ¬((headerBytes v ka kb salt ++ body).head? ≠ some version ∧
      (headerBytes v ka kb salt ++ body).head? ≠ some versionV1) := by
    rintro ⟨hne, hne'⟩
    rcases hv with rfl | rfl
    · exact hne rfl
    · exact hne' rfl
  have hsender : ofLe32 ((headerBytes v ka kb salt ++ body).drop 1) = ka := by
    rw [headerBytes, append_assoc, append_assoc, append_assoc,
      drop_left' (by rfl)]
    exact ofLe32_le32 ka _
  have hrecipient : ofLe32 ((headerBytes v ka kb salt ++ body).drop 5) = kb := by
    rw [headerBytes, append_assoc, append_assoc (_ ++ _),
      drop_left' (by rw [length_append, length_le32]; rfl)]
    exact ofLe32_le32 kb _
  rw [parseHeader, if_neg, hsender, hrecipient]
  · rfl
  · rw [Bool.or_eq_true, decide_eq_true_eq, Bool.and_eq_true, decide_eq_true_eq,
      decide_eq_true_eq]
    exact not_or.2 ⟨hlong, hversion⟩

theorem of_parseHeader {wire : Bytes} {hdr : Header} (h : parseHeader wire = .ok hdr) :
    headerLen + tagLen ≤ wire.length ∧ wire.head? = some hdr.version ∧
      (hdr.version = version ∨ hdr.version = versionV1) := by
  rw [parseHeader] at h
  split at h
  · cases h
  · next hok =>
    cases h
    rw [Bool.or_eq_true, decide_eq_true_eq, Bool.and_eq_true, decide_eq_true_eq,
      decide_eq_true_eq] at hok
    obtain ⟨hlong, hversion⟩ := not_or.1 hok
    cases wire with
    | nil => exact absurd (show ([] : Bytes).length < headerLen + tagLen by decide) hlong
    | cons w wire =>
      refine ⟨Nat.le_of_not_lt hlong, rfl, ?_⟩
      by_contra hne
      obtain ⟨hne, hne'⟩ := not_or.1 hne
      exact hversion ⟨fun heq => hne (some.inj heq), fun heq => hne' (some.inj heq)⟩

end Encodings

section Binding

variable {ka kb ka' kb' : UInt32}

theorem inOrder_injective {α : Type} [LE α] [DecidableLE α] (hrefl : ∀ a : α, a ≤ a)
    {a b b' : α}
    (hlo : (Bind.inOrder a b ka kb).1.1 = (Bind.inOrder a b' ka' kb').1.1)
    (hhi : (Bind.inOrder a b ka kb).2.1 = (Bind.inOrder a b' ka' kb').2.1) : b = b' := by
  rw [Bind.inOrder, Bind.inOrder] at hlo hhi
  split at hlo <;> split at hlo
  · rwa [if_pos ‹_›, if_pos ‹_›] at hhi
  · next hnot =>
    have heq : a = b' := hlo
    exact absurd (heq ▸ hrefl a) hnot
  · next hnot _ =>
    have heq : b = a := hlo
    exact absurd (heq ▸ hrefl b) hnot
  · exact hlo

theorem info_uids_injective {s r s' r' : Int64}
    (h : (Bind.uids s r).info ka kb = (Bind.uids s' r').info ka' kb') (hs : s = s') :
    r = r' := by
  subst hs
  rw [Bind.info, Bind.info] at h
  dsimp only at h
  obtain ⟨h, -⟩ := append_inj' h (by rw [length_le32, length_le32])
  obtain ⟨h, -⟩ := append_inj' h (by rw [length_le32, length_le32])
  obtain ⟨h, hhi⟩ := append_inj' h (by rw [length_le64, length_le64])
  obtain ⟨-, hlo⟩ := append_inj' h (by rw [length_le64, length_le64])
  exact inOrder_injective Int64.le_refl (le64_injective hlo) (le64_injective hhi)

theorem append_zero_injective {a b rest rest' : Bytes} (ha : 0 ∉ a) (hb : 0 ∉ b)
    (h : a ++ ([0] ++ rest) = b ++ ([0] ++ rest')) : a = b ∧ rest = rest' := by
  induction a generalizing b with
  | nil =>
    cases b with
    | nil => exact ⟨rfl, List.cons.inj h |>.2⟩
    | cons c b => exact absurd (List.cons.inj h).1 fun heq => hb (heq ▸ mem_cons_self)
  | cons c a ih =>
    cases b with
    | nil => exact absurd (List.cons.inj h).1 fun heq => ha (heq ▸ mem_cons_self)
    | cons d b =>
      obtain ⟨rfl, htail⟩ := List.cons.inj h
      obtain ⟨rfl, hrest⟩ := ih (fun hmem => ha (mem_cons_of_mem _ hmem))
        (fun hmem => hb (mem_cons_of_mem _ hmem)) htail
      exact ⟨rfl, hrest⟩

theorem info_names_injective {s r s' r' : Bytes} (hzero : 0 ∉ s ∧ 0 ∉ r ∧ 0 ∉ r')
    (h : (Bind.names s r).info ka kb = (Bind.names s' r').info ka' kb') (hs : s = s') :
    r = r' := by
  subst hs
  have hfree (r : Bytes) (hr : 0 ∉ r) (k l : UInt32) :
      0 ∉ (Bind.inOrder s r k l).1.1 ∧ 0 ∉ (Bind.inOrder s r k l).2.1 := by
    rw [Bind.inOrder]
    split
    · exact ⟨hzero.1, hr⟩
    · exact ⟨hr, hzero.1⟩
  rw [Bind.info, Bind.info] at h
  dsimp only at h
  obtain ⟨h, -⟩ := append_inj' h (by rw [length_le32, length_le32])
  obtain ⟨h, -⟩ := append_inj' h (by rw [length_le32, length_le32])
  obtain ⟨h, -⟩ := append_inj' h rfl
  simp only [append_assoc] at h
  obtain ⟨-, h⟩ := append_inj h rfl
  obtain ⟨-, h⟩ := append_inj h rfl
  obtain ⟨hlo, hhi⟩ := append_zero_injective (hfree r hzero.2.1 ka kb).1
    (hfree r' hzero.2.2 ka' kb').1 h
  exact inOrder_injective List.le_refl hlo hhi

theorem of_forVersion {v : UInt8} {parties : Parties} {b : Bind}
    (h : Bind.forVersion v parties = .ok b) :
    v = version ∧ b = .uids parties.senderUid parties.recipientUid ∨
      v = versionV1 ∧ b = .names parties.senderName parties.recipientName := by
  rw [Bind.forVersion] at h
  split at h
  · next hnew =>
    cases h
    exact .inl ⟨hnew.1, rfl⟩
  · split at h
    · next hold =>
      cases h
      exact .inr ⟨hold.1, rfl⟩
    · cases h

end Binding

/-! ## What is opened -/

section Opening

variable {Priv Pub Key Nonce : Type} {p : Primitives Priv Pub Key Nonce}
  {salt : Vector UInt8 saltLen} {v : UInt8} {b : Bind} {myPriv : Priv} {peerPub : Pub}
  {ka kb : UInt32} {plain wire : Bytes}

theorem schedule_of_shared {shared : Bytes} (h : p.diffieHellman myPriv peerPub = some shared)
    (salt : Bytes) (b : Bind) (ka kb : UInt32) :
    schedule p myPriv peerPub salt b ka kb = some (p.derive shared salt (b.info ka kb)) := by
  rw [schedule, h]
  rfl

theorem sealWith_eq_ok (h : sealWith p salt v b myPriv ka peerPub kb plain = .ok wire) :
    ∃ shared body, p.diffieHellman myPriv peerPub = some shared ∧
      p.encrypt (p.derive shared salt.toList (b.info ka kb)).1
        (p.derive shared salt.toList (b.info ka kb)).2 plain
        (b.aad (headerBytes v ka kb salt.toList)) = some body ∧
      wire = headerBytes v ka kb salt.toList ++ body := by
  rw [sealWith] at h
  split at h
  · cases h
  · rw [schedule] at h
    cases hshared : p.diffieHellman myPriv peerPub with
    | none =>
      rw [hshared] at h
      cases h
    | some shared =>
      rw [hshared] at h
      dsimp only [map_some] at h
      split at h
      · cases h
      · next body hbody =>
        cases h
        exact ⟨shared, body, rfl, hbody, rfl⟩

theorem openBytes_eq_ok {parties : Parties} {myKid peerKid : UInt32} {iAmSender : Bool}
    (h : openBytes p myPriv myKid peerPub peerKid parties iAmSender wire = .ok plain) :
    ∃ hdr b shared, parseHeader wire = .ok hdr ∧
      (hdr.senderKeyId, hdr.recipientKeyId) =
        (if iAmSender then (myKid, peerKid) else (peerKid, myKid)) ∧
      Bind.forVersion hdr.version parties = .ok b ∧
      p.diffieHellman myPriv peerPub = some shared ∧
      p.decrypt
        (p.derive shared ((wire.take headerLen).drop 9)
          (b.info hdr.senderKeyId hdr.recipientKeyId)).1
        (p.derive shared ((wire.take headerLen).drop 9)
          (b.info hdr.senderKeyId hdr.recipientKeyId)).2
        (wire.drop headerLen) (b.aad (wire.take headerLen)) = some plain := by
  rw [openBytes] at h
  split at h
  · cases h
  · next hdr hhdr =>
    generalize (if iAmSender then (myKid, peerKid) else (peerKid, myKid)) = kids at h ⊢
    obtain ⟨senderKid, recipientKid⟩ := kids
    dsimp only at h
    split at h
    · cases h
    · next hkids =>
      obtain ⟨hsender, hrecipient⟩ := not_or.1 hkids
      obtain rfl := not_ne_iff.1 hsender
      obtain rfl := not_ne_iff.1 hrecipient
      split at h
      · cases h
      · next b hb =>
        rw [schedule] at h
        cases hshared : p.diffieHellman myPriv peerPub with
        | none =>
          rw [hshared] at h
          cases h
        | some shared =>
          rw [hshared] at h
          dsimp only [map_some] at h
          split at h
          · cases h
          · next plain' hplain =>
            split at h
            · cases h
            · cases h
              exact ⟨hdr, b, shared, hhdr, rfl, hb, rfl, hplain⟩

variable {a bob : Priv}

theorem openBytes_of_sealed (hp : p.Ideal)
    (hseal : sealWith p salt v b a ka peerPub kb plain = .ok wire) {parties : Parties}
    (hbind : Bind.forVersion v parties = .ok b) (hplain : plain ≠ []) {mine : Priv}
    {theirs : Pub} (hshared : p.diffieHellman mine theirs = p.diffieHellman a peerPub)
    {myKid peerKid : UInt32} {iAmSender : Bool}
    (hkids : (if iAmSender then (myKid, peerKid) else (peerKid, myKid)) = (ka, kb)) :
    openBytes p mine myKid theirs peerKid parties iAmSender wire = .ok plain := by
  obtain ⟨shared, body, hagree, hbody, rfl⟩ := sealWith_eq_ok hseal
  have hv : v = version ∨ v = versionV1 :=
    (of_forVersion hbind).elim (fun h => .inl h.1) fun h => .inr h.1
  have hsalt : salt.toList.length = saltLen := Vector.length_toList
  rw [openBytes, parseHeader_wire hv hsalt (hp.tag_le hbody), hkids]
  dsimp only
  rw [if_neg (by simp), hbind, take_wire hsalt, drop_wire hsalt, drop_headerBytes]
  dsimp only
  rw [schedule_of_shared (hshared.trans hagree)]
  dsimp only
  rw [hp.cipher.decrypt_iff.2 hbody]
  exact if_neg hplain

/-- **A sealed body is opened in its own context only**: with the header it was sealed with, the key
    ids of the two, and what was bound. -/
theorem openBytes_bound (hp : p.Ideal)
    (hseal : sealWith p salt v b a ka peerPub kb plain = .ok wire) {wire' plain' : Bytes}
    (hbody : wire'.drop headerLen = wire.drop headerLen) {parties : Parties} {mine : Priv}
    {theirs : Pub} {myKid peerKid : UInt32} {iAmSender : Bool}
    (hopen : openBytes p mine myKid theirs peerKid parties iAmSender wire' = .ok plain') :
    wire' = wire ∧ plain' = plain ∧
      (if iAmSender then (myKid, peerKid) else (peerKid, myKid)) = (ka, kb) ∧
      ∃ b', Bind.forVersion v parties = .ok b' ∧ b'.sender = b.sender ∧
        b'.info ka kb = b.info ka kb := by
  obtain ⟨shared, body, -, hencrypt, rfl⟩ := sealWith_eq_ok hseal
  obtain ⟨hdr, b', shared', hhdr, hkids, hb', -, hdecrypt⟩ := openBytes_eq_ok hopen
  have hsalt : salt.toList.length = saltLen := Vector.length_toList
  rw [hbody, drop_wire hsalt] at hdecrypt
  obtain ⟨hkey, hnonce, rfl, haad⟩ := hp.cipher.bound hencrypt hdecrypt
  obtain ⟨hlong, hhead, hv⟩ := of_parseHeader hhdr
  -- The associated data start with the header, which has one length.
  obtain ⟨hheader, hsender⟩ := append_inj haad (by
    rw [length_headerBytes hsalt, length_take]
    omega)
  have hwire : wire' = headerBytes v ka kb salt.toList ++ body := by
    rw [← take_append_drop headerLen wire', ← hheader, hbody, drop_wire hsalt]
  subst hwire
  have hversion : hdr.version = v := (some.inj hhead).symm
  rw [hversion] at hv
  have hparse := @parseHeader_wire v ka kb _ _ hv hsalt (hp.tag_le hencrypt)
  cases hhdr.symm.trans hparse
  obtain ⟨-, -, hinfo⟩ := hp.derive_injective (Prod.ext hkey hnonce)
  exact ⟨rfl, rfl, hkids.symm, b', hb', hsender.symm, hinfo.symm⟩

end Opening

end Decibell.Envelope
