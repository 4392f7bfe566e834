import Decibell.Media.VideoPackets

/-!
# Sealed frames

In an encrypted channel a video frame is sealed as a whole before it is cut into packets, with the
key that its sender has in the current epoch; a receiver opens what its packets gave. AES-256-GCM
is an argument.

* `openVideoFrame_seal`: a receiver that has the key opens a frame as it was sealed.
-/

namespace Decibell.Media

open Lib List Option

variable {Key : Type}

/-- AES-256-GCM, with the tag at the end of the ciphertext. -/
structure FrameCipher (Key : Type) where
  encrypt : Key → (nonce msg aad : Bytes) → Option Bytes
  decrypt : Key → (nonce msg aad : Bytes) → Option Bytes

/-- What is encrypted is decrypted with the same key, nonce and data; tags have 16 bytes. -/
structure FrameCipher.Correct (cipher : FrameCipher Key) : Prop where
  decrypt_encrypt : ∀ key nonce msg aad ct, cipher.encrypt key nonce msg aad = some ct →
    cipher.decrypt key nonce ct aad = some msg
  length_encrypt : ∀ key nonce msg aad ct, cipher.encrypt key nonce msg aad = some ct →
    ct.length = msg.length + 16

inductive Kind where
  | voice
  | streamAudio
  | video
deriving DecidableEq

structure MemberKeys (Key : Type) where
  voice : Key
  streamAudio : Key
  video : Key

def MemberKeys.key (keys : MemberKeys Key) : Kind → Key
  | .voice => keys.voice
  | .streamAudio => keys.streamAudio
  | .video => keys.video

structure EpochKeys (Key : Type) where
  epoch : UInt32
  members : Bytes → Option (MemberKeys Key)

/-- The current epoch, and the previous with the time it ended. -/
structure KeyRing (Key : Type) where
  username : Bytes
  current : Option (EpochKeys Key)
  previous : Option (EpochKeys Key × Instant)
  quarantined : Bool

def previousEpochGrace : Duration := fromSecs 2

def videoSealOverhead : Nat := 4 + 4 + 16

namespace KeyRing

variable (ring : KeyRing Key)

def ownKey (kind : Kind) : Option (UInt32 × Key) :=
  if ring.quarantined then none
  else do
    let cur ← ring.current
    let keys ← cur.members ring.username
    some (cur.epoch, keys.key kind)

def peerKey (now : Instant) (username : Bytes) (epoch : UInt32) (kind : Kind) : Option Key :=
  match ring.current.filter (·.epoch = epoch) with
  | some cur => (cur.members username).map (·.key kind)
  | none =>
    match ring.previous.filter fun p =>
        p.1.epoch = epoch && decide (durationSince now p.2 ≤ previousEpochGrace) with
    | some prev => (prev.1.members username).map (·.key kind)
    | none => none

end KeyRing

/-- A name in a packet: cut, or zero-padded. -/
def nameBytes (username : Bytes) : Bytes :=
  username.take senderIdSize ++ List.replicate (senderIdSize - username.length) 0

def videoAad (username : Bytes) (frameId : UInt32) (isKeyframe : Bool) (codec : UInt8) : Bytes :=
  [packetTypeVideoSealed] ++ nameBytes username ++ leBytes 4 frameId.toNat ++
    [if isKeyframe then 1 else 0, codec]

def videoNonce (salt frameId : UInt32) : Bytes :=
  leBytes 4 salt.toNat ++ leBytes 4 frameId.toNat ++ List.replicate 4 0

/-- Seals a frame. There is nothing if the ring cannot send. -/
def sealVideoFrame (cipher : FrameCipher Key) (ring : KeyRing Key) (streamSalt frameId : UInt32)
    (isKeyframe : Bool) (codec : UInt8) (frame : Bytes) : Option Bytes := do
  let (epoch, key) ← ring.ownKey .video
  let ct ← cipher.encrypt key (videoNonce streamSalt frameId) frame
    (videoAad ring.username frameId isKeyframe codec)
  some (leBytes 4 epoch.toNat ++ leBytes 4 streamSalt.toNat ++ ct)

def openVideoFrame (cipher : FrameCipher Key) (ring : KeyRing Key) (now : Instant) (sender : Bytes)
    (frameId : UInt32) (isKeyframe : Bool) (codec : UInt8) (sealed : Bytes) : Option Bytes :=
  if sealed.length < videoSealOverhead then none
  else do
    let epoch : UInt32 := .ofNat (ofLeBytes (sealed.take 4))
    let salt : UInt32 := .ofNat (ofLeBytes ((sealed.drop 4).take 4))
    let key ← ring.peerKey now sender epoch .video
    cipher.decrypt key (videoNonce salt frameId) (sealed.drop 8)
      (videoAad sender frameId isKeyframe codec)

/-- The second ring has the key with which the first one seals. -/
def KeyRing.OpensFor (receiver : KeyRing Key) (now : Instant) (sender : KeyRing Key) : Prop :=
  ∀ epoch key, sender.ownKey .video = some (epoch, key) →
    receiver.peerKey now sender.username epoch .video = some key

theorem length_sealVideoFrame {cipher : FrameCipher Key} (hcipher : cipher.Correct)
    {ring : KeyRing Key} {salt frameId : UInt32} {isKeyframe : Bool} {codec : UInt8}
    {frame sealed : Bytes}
    (h : sealVideoFrame cipher ring salt frameId isKeyframe codec frame = some sealed) :
    sealed.length = frame.length + videoSealOverhead := by
  rw [sealVideoFrame, bind_eq_bind, bind_eq_some_iff] at h
  obtain ⟨⟨epoch, key⟩, -, h⟩ := h
  dsimp only at h
  rw [bind_eq_bind, bind_eq_some_iff] at h
  obtain ⟨ct, hct, hsealed⟩ := h
  obtain rfl := some.inj hsealed
  rw [length_append, length_append, length_leBytes, length_leBytes,
    hcipher.length_encrypt _ _ _ _ _ hct, videoSealOverhead]
  omega

theorem openVideoFrame_seal {cipher : FrameCipher Key} (hcipher : cipher.Correct)
    {sender receiver : KeyRing Key} {now : Instant} (hkey : receiver.OpensFor now sender)
    {salt frameId : UInt32} {isKeyframe : Bool} {codec : UInt8} {frame sealed : Bytes}
    (hseal : sealVideoFrame cipher sender salt frameId isKeyframe codec frame = some sealed) :
    openVideoFrame cipher receiver now sender.username frameId isKeyframe codec sealed =
      some frame := by
  rw [sealVideoFrame, bind_eq_bind, bind_eq_some_iff] at hseal
  obtain ⟨⟨epoch, key⟩, hown, hseal⟩ := hseal
  dsimp only at hseal
  rw [bind_eq_bind, bind_eq_some_iff] at hseal
  obtain ⟨ct, hct, hsealed⟩ := hseal
  obtain rfl := some.inj hsealed
  have hlength := hcipher.length_encrypt _ _ _ _ _ hct
  have hepoch : (leBytes 4 epoch.toNat ++ leBytes 4 salt.toNat ++ ct).take 4 =
      leBytes 4 epoch.toNat := by
    rw [append_assoc, take_left' (length_leBytes 4 _)]
  have hsalt : ((leBytes 4 epoch.toNat ++ leBytes 4 salt.toNat ++ ct).drop 4).take 4 =
      leBytes 4 salt.toNat := by
    rw [append_assoc, drop_left' (length_leBytes 4 _),
      take_left' (length_leBytes 4 _)]
  have hrest : (leBytes 4 epoch.toNat ++ leBytes 4 salt.toNat ++ ct).drop 8 = ct :=
    drop_left' (by rw [length_append, length_leBytes, length_leBytes])
  have hlong : ¬(leBytes 4 epoch.toNat ++ leBytes 4 salt.toNat ++ ct).length <
      videoSealOverhead := by
    rw [length_append, length_append, length_leBytes, length_leBytes, hlength,
      videoSealOverhead]
    omega
  rw [openVideoFrame, if_neg hlong, hepoch, hsalt, hrest, ofLeBytes_leBytes epoch.toNat_lt,
    ofLeBytes_leBytes salt.toNat_lt, UInt32.ofNat_toNat, UInt32.ofNat_toNat]
  dsimp only
  rw [hkey epoch key hown]
  exact hcipher.decrypt_encrypt _ _ _ _ _ hct

end Decibell.Media
