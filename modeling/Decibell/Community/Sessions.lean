import Decibell.Community.Authz
import Decibell.Lib.Run
import Mathlib.Algebra.Group.Nat.Defs
import Mathlib.Data.Finset.Basic

/-!
# Sessions, voice channels and streams

The sessions of a community server, and what they bring into its voice channels. An account may have
several sessions, each in a voice channel of its own. A stream is kept under its channel and
account, with the session that owns it; so are its watchers, its last thumbnail under the account
alone.
-/

namespace Decibell

open Function

/-- The codecs of a stream; `unknown` is what an old client sends. -/
inductive VideoCodec
  | unknown
  | h264Hw
  | h264Sw
  | h265
  | av1
deriving DecidableEq

/-- What a client can encode and decode. -/
structure ClientCapabilities where
  encode : List VideoCodec := []
  decode : List VideoCodec := []

/-- A session, as long as somebody refers to it. -/
structure SessionManager.Session where
  authenticated : Bool := false
  uid : Uid := 0
  username : String := ""
  currentVoiceChannel : String := ""
  isMuted : Bool := false
  isDeafened : Bool := false
  capabilities : ClientCapabilities := {}

/-- The MLS group of a voice channel. -/
structure MlsGroupState where
  epoch : Nat := 0
  groupInfo : Bytes

/-- A stream, with the channel and account it is kept under. -/
structure StreamInfo where
  channelId : String
  uid : Uid
  hasAudio : Bool
  fps : Nat := 0
  width : Nat := 0
  height : Nat := 0
  currentCodec : VideoCodec := .h264Hw
  enforcedCodec : VideoCodec := .unknown
  owner : Nat
  ownerName : String
deriving DecidableEq

abbrev StreamInfo.key (r : StreamInfo) : String × Uid := (r.channelId, r.uid)

/-- The channels, and what users may do, beside the sessions. -/
structure VoiceEnv where
  getChannel : String → Option DbChannel
  check : Action → AuthCtx → AuthResult

/-- Every channel is a voice channel where everybody may do everything. -/
def VoiceEnv.unrestricted : VoiceEnv where
  getChannel id := some { id, name := [], type := .voice, position := 0 }
  check _ _ := .allow

/-- Sessions are named by numbers, in turn; an empty set is no entry. -/
structure SessionManager where
  nextSession : Nat := 0
  session : Nat → SessionManager.Session := fun _ => {}
  sessions : Finset Nat := ∅
  /-- The sessions that left, and are not destroyed yet. -/
  lingering : Finset Nat := ∅
  sessionsByUser : Uid → List Nat := fun _ => []
  voiceChannels : String → Finset Nat := fun _ => ∅
  mlsGroups : String → Option MlsGroupState := fun _ => none
  activeStreams : Lib.Table StreamInfo.key := .empty
  streamWatchers : String → Uid → Finset Nat := fun _ _ => ∅
  latestThumbnails : Uid → Option Bytes := fun _ => none
  maxStreamsPerChannel : Nat := 8

namespace SessionManager

variable (st : SessionManager) (s : Nat)

/-! ## Voice channels -/

def eraseVoice (channelId : String) : SessionManager :=
  { st with voiceChannels := update st.voiceChannels channelId ((st.voiceChannels channelId).erase s) }

def mlsDropIfEmptyLocked (channelId : String) : SessionManager :=
  if st.voiceChannels channelId = ∅ then
    { st with mlsGroups := update st.mlsGroups channelId none }
  else st

/-- The session watches nothing in the channel any more. -/
def unwatch (channelId : String) : SessionManager :=
  { st with streamWatchers := update st.streamWatchers channelId fun streamer =>
      (st.streamWatchers channelId streamer).erase s }

def leaveVoiceChannel (currentChannel : String) : SessionManager :=
  if currentChannel = "" then st
  else ((st.eraseVoice s currentChannel).mlsDropIfEmptyLocked currentChannel).unwatch s
    currentChannel

def joinVoiceChannel (newChannel oldChannel : String) : SessionManager :=
  let st := st.leaveVoiceChannel s oldChannel
  { st with voiceChannels :=
      update st.voiceChannels newChannel (insert s (st.voiceChannels newChannel)) }

def isInVoiceChannel (channelId : String) : Bool := s ∈ st.voiceChannels channelId

def setSession (f : Session → Session) : SessionManager :=
  { st with session := update st.session s (f (st.session s)) }

/-! ## Streams -/

/-- The owner of a stream, unless it is destroyed. -/
def lock (owner : Nat) : Option Nat :=
  if owner ∈ st.sessions ∨ owner ∈ st.lingering then some owner else none

/-- The session may end the stream: it owns it, or nobody does. -/
def mayEnd (r : StreamInfo) : Bool := st.lock r.owner = none ∨ st.lock r.owner = some s

def hasActiveStream (channelId : String) (uid : Uid) : Bool :=
  (st.activeStreams.find? (channelId, uid)).isSome

def stopStream (channelId : String) : SessionManager :=
  let uid := (st.session s).uid
  match st.activeStreams.find? (channelId, uid) with
  | none => st
  | some r =>
    if st.mayEnd s r then
      { st with
        activeStreams := st.activeStreams.deleteWhere (·.key = (channelId, uid))
        streamWatchers := update st.streamWatchers channelId
          (update (st.streamWatchers channelId) uid ∅)
        latestThumbnails := update st.latestThumbnails uid none }
    else st

structure StartStreamRequest where
  channelId : String
  hasAudio : Bool
  targetFps : Nat
  resolutionWidth : Nat
  resolutionHeight : Nat
  chosenCodec : VideoCodec
  enforcedCodec : VideoCodec

def startStream (req : StartStreamRequest) (chosenCodec : VideoCodec) : SessionManager :=
  let streams := st.activeStreams.rows.filter (·.channelId = req.channelId)
  if st.maxStreamsPerChannel > 0 ∧ streams.length ≥ st.maxStreamsPerChannel then st
  else { st with activeStreams := st.activeStreams.upsert {
    channelId := req.channelId
    uid := (st.session s).uid
    hasAudio := req.hasAudio
    fps := req.targetFps
    width := req.resolutionWidth
    height := req.resolutionHeight
    currentCodec := chosenCodec
    enforcedCodec := req.enforcedCodec
    owner := s
    ownerName := (st.session s).username } }

/-- The stream is locked to a codec that the session cannot decode. -/
def watcherBlockedByEnforcement (channelId : String) (streamer : Uid) : Bool :=
  match st.activeStreams.find? (channelId, streamer) with
  | none => false
  | some r => r.enforcedCodec ≠ .unknown ∧ r.enforcedCodec ∉ (st.session s).capabilities.decode

def addWatcher (channelId : String) (streamer : Uid) : SessionManager :=
  let watchers := update (st.streamWatchers channelId) streamer
    (insert s (st.streamWatchers channelId streamer))
  { st with streamWatchers := update st.streamWatchers channelId watchers }

def removeWatcher (channelId : String) (streamer : Uid) : SessionManager :=
  let watchers := update (st.streamWatchers channelId) streamer
    ((st.streamWatchers channelId streamer).erase s)
  { st with streamWatchers := update st.streamWatchers channelId watchers }

/-! ## Connections -/

def connect : SessionManager :=
  { st with
    nextSession := st.nextSession + 1
    session := update st.session st.nextSession {}
    sessions := insert st.nextSession st.sessions }

/-- A session that signed in goes by its account. -/
def authenticate (uid : Uid) (username : String) : SessionManager :=
  if s ∈ st.sessions ∧ (st.session s).authenticated = false then
    let byUser := if s ∈ st.sessionsByUser uid then st.sessionsByUser uid
      else st.sessionsByUser uid ++ [s]
    { st.setSession s ({ · with authenticated := true, uid, username }) with
      sessionsByUser := update st.sessionsByUser uid byUser }
  else st

/-- A session that left is not referred to any more. -/
def destroy : SessionManager := { st with lingering := st.lingering.erase s }

/-- The session owned a stream of its account, or nobody did. -/
def ownsLiveStream : Bool :=
  st.activeStreams.rows.any fun r => r.uid = (st.session s).uid ∧ st.mayEnd s r

/-- A session is gone: out of its channel, its streams end, it watches nothing. -/
def leave : SessionManager :=
  if s ∉ st.sessions then st
  else
    let uid := (st.session s).uid
    { st with
      sessions := st.sessions.erase s
      lingering := insert s st.lingering
      sessionsByUser :=
        if uid = 0 then st.sessionsByUser
        else update st.sessionsByUser uid ((st.sessionsByUser uid).erase s)
      voiceChannels := fun channelId => (st.voiceChannels channelId).erase s
      mlsGroups := fun channelId =>
        if st.voiceChannels channelId ≠ ∅ ∧ (st.voiceChannels channelId).erase s = ∅ then none
        else st.mlsGroups channelId
      activeStreams := st.activeStreams.deleteWhere fun r => r.uid = uid ∧ st.mayEnd s r
      streamWatchers := fun channelId streamer =>
        if streamer = uid ∧ st.ownsLiveStream s then ∅
        else (st.streamWatchers channelId streamer).erase s
      latestThumbnails :=
        if st.ownsLiveStream s then update st.latestThumbnails uid none
        else st.latestThumbnails }

/-! ## Requests -/

def maxCodecEntries : Nat := 16
def maxStreamThumbBytes : Nat := 256 * 1024
def maxMlsBlob : Nat := 256 * 1024

/-- Keeps what the client says it can do, when it says so. -/
def setCapabilities : Option ClientCapabilities → SessionManager
  | none => st
  | some capabilities => st.setSession s ({ · with capabilities })

def joinVoice (env : VoiceEnv) (targetChannel : String)
    (capabilities : Option ClientCapabilities) : SessionManager :=
  let session := st.session s
  match env.getChannel targetChannel with
  | none => st
  | some ch =>
    if ch.type ≠ .voice then st
    else if ! (env.check .connectVoice { user := session.uid, channelId := targetChannel }).ok then st
    else if capabilities.any fun caps =>
        caps.encode.length > maxCodecEntries ∨ caps.decode.length > maxCodecEntries then st
    else
      let st := st.setCapabilities s capabilities
      let old := session.currentVoiceChannel
      -- A stream is bound to the channel it was started in.
      let st := if old ≠ "" ∧ old ≠ targetChannel then st.stopStream s old else st
      (st.joinVoiceChannel s targetChannel old).setSession s
        ({ · with currentVoiceChannel := targetChannel })

/-- A voice channel the session may join, with no more codecs than there may be. -/
def MayJoinVoice (env : VoiceEnv) (targetChannel : String)
    (capabilities : Option ClientCapabilities) : Prop :=
  (∃ ch, env.getChannel targetChannel = some ch ∧ ch.type = .voice) ∧
    (env.check .connectVoice { user := (st.session s).uid, channelId := targetChannel }).ok ∧
    ∀ caps ∈ capabilities, caps.encode.length ≤ maxCodecEntries ∧ caps.decode.length ≤ maxCodecEntries

theorem joinVoice_of_mayJoinVoice {env : VoiceEnv} {target : String}
    {caps : Option ClientCapabilities} (h : st.MayJoinVoice s env target caps) :
    st.joinVoice s env target caps =
      let st₁ := st.setCapabilities s caps
      let old := (st.session s).currentVoiceChannel
      let st₂ := if old ≠ "" ∧ old ≠ target then st₁.stopStream s old else st₁
      (st₂.joinVoiceChannel s target old).setSession s
        ({ · with currentVoiceChannel := target }) := by
  obtain ⟨⟨ch, hch, htype⟩, hcheck, hcodecs⟩ := h
  have hfew : ¬ (caps.any fun caps =>
      decide (caps.encode.length > maxCodecEntries ∨ caps.decode.length > maxCodecEntries)) := by
    rw [Option.any_eq_true]
    rintro ⟨caps, hcaps, hmany⟩
    have hle := hcodecs caps hcaps
    have hmany := of_decide_eq_true hmany
    omega
  simp only [joinVoice, hch, htype, hcheck, hfew, ne_eq, not_true_eq_false, if_false, Bool.not_true,
    Bool.false_eq_true]

theorem joinVoice_of_not_mayJoinVoice {env : VoiceEnv} {target : String}
    {caps : Option ClientCapabilities} (h : ¬ st.MayJoinVoice s env target caps) :
    st.joinVoice s env target caps = st := by
  unfold joinVoice
  dsimp only
  split
  · rfl
  rename_i ch hch
  split
  · rfl
  rename_i htype
  split
  · rfl
  rename_i hcheck
  split
  · rfl
  rename_i hcodecs
  refine absurd ⟨⟨ch, hch, Decidable.not_not.1 htype⟩, by simpa using hcheck, ?_⟩ h
  rintro codecs ⟨⟩
  simpa using hcodecs

def leaveVoice : SessionManager :=
  let current := (st.session s).currentVoiceChannel
  ((st.stopStream s current).leaveVoiceChannel s current).setSession s
    ({ · with currentVoiceChannel := "", isMuted := false, isDeafened := false })

def startStreamReq (env : VoiceEnv) (req : StartStreamRequest) : SessionManager :=
  let session := st.session s
  if session.currentVoiceChannel = "" ∨ req.channelId ≠ session.currentVoiceChannel then st
  else if ! (env.check .stream { user := session.uid, channelId := req.channelId }).ok then st
  else st.startStream s req (if req.chosenCodec = .unknown then .h264Hw else req.chosenCodec)

def watchStream (env : VoiceEnv) (channelId : String) (streamer : Uid) : SessionManager :=
  let session := st.session s
  if session.currentVoiceChannel = "" ∨ channelId ≠ session.currentVoiceChannel then st
  else if ! (env.check .viewChannel { user := session.uid, channelId }).ok then st
  else if streamer ≤ 0 ∨ ! st.hasActiveStream channelId streamer then st
  else if st.watcherBlockedByEnforcement s channelId streamer then st
  else st.addWatcher s channelId streamer

def stopWatching (channelId : String) (streamer : Uid) : SessionManager :=
  if streamer ≤ 0 then st else st.removeWatcher s channelId streamer

def streamThumbnailUpdate (channelId : String) (thumbnail : Bytes) : SessionManager :=
  let uid := (st.session s).uid
  if thumbnail.length ≤ maxStreamThumbBytes ∧ st.hasActiveStream channelId uid then
    { st with latestThumbnails := update st.latestThumbnails uid (some thumbnail) }
  else st

def handleStreamCodecChanged (channelId : String) (streamer : Uid) (newCodec : VideoCodec)
    (newWidth newHeight newFps : Nat) : SessionManager :=
  if streamer ≠ (st.session s).uid then st
  else
    let activeStreams := st.activeStreams.updateWhere (·.key = (channelId, streamer)) ({ · with
      currentCodec := newCodec, width := newWidth, height := newHeight, fps := newFps })
    { st with activeStreams }

def onMemberRenamed (uid : Uid) (name : String) : SessionManager :=
  let activeStreams := st.activeStreams.updateWhere (·.uid = uid) ({ · with ownerName := name })
  let session := fun s => if s ∈ st.sessionsByUser uid then
    { st.session s with username := name } else st.session s
  { st with activeStreams, session }

/-- Moves a session that is in another voice channel. -/
def moveSession (channelId : String) : SessionManager :=
  let old := (st.session s).currentVoiceChannel
  if old = "" ∨ old = channelId then st
  else ((st.stopStream s old).joinVoiceChannel s channelId old).setSession s
    ({ · with currentVoiceChannel := channelId })

/-- Moves the sessions of a user that are in another voice channel. -/
def moveToVoiceChannel (uid : Uid) (channelId : String) : SessionManager :=
  (st.sessionsByUser uid).foldl (fun st s => st.moveSession s channelId) st

def disconnectSession : SessionManager :=
  if (st.session s).currentVoiceChannel = "" then st else st.leaveVoice s

def disconnectFromVoice (uid : Uid) : SessionManager :=
  (st.sessionsByUser uid).foldl disconnectSession st

/-! ## MLS delivery -/

/-- The answer to a creation or a commit. -/
structure MlsCommitRes where
  success : Bool
  message : String
  epoch : Nat
deriving DecidableEq

/-- Creates the group of a channel, at epoch 0. -/
def mlsCreate (channelId : String) (groupInfo : Bytes) : Option SessionManager :=
  match st.mlsGroups channelId with
  | some _ => none
  | none => some { st with mlsGroups := update st.mlsGroups channelId (some { groupInfo }) }

/-- A channel's group moves to the next 64-bit epoch; else says which it is. -/
def mlsCommit (channelId : String) (epoch : Nat) (groupInfo : Bytes) :
    Bool × Nat × SessionManager :=
  match st.mlsGroups channelId with
  | none => (false, 0, st)
  | some g =>
    if epoch ≠ (g.epoch + 1) % 2 ^ 64 then (false, g.epoch, st)
    else
      let g := { epoch, groupInfo := if groupInfo.isEmpty then g.groupInfo else groupInfo }
      (true, epoch, { st with mlsGroups := update st.mlsGroups channelId (some g) })

def mlsGroupCreate (channelId : String) (groupInfo : Bytes) : MlsCommitRes × SessionManager :=
  if ! st.isInVoiceChannel s channelId then (⟨false, "Not in that voice channel.", 0⟩, st)
  else if groupInfo.isEmpty ∨ groupInfo.length > maxMlsBlob then
    (⟨false, "Bad group info.", 0⟩, st)
  else match st.mlsCreate channelId groupInfo with
    | none => (⟨false, "exists", ((st.mlsGroups channelId).map (·.epoch)).getD 0⟩, st)
    | some st => (⟨true, "", 0⟩, st)

structure MlsCommitReq where
  channelId : String
  epoch : Nat
  commit : Bytes
  groupInfo : Bytes

/-- An accepted commit, as relayed to the channel's other sessions. -/
structure MlsCommitBroadcast where
  channelId : String
  epoch : Nat
  senderUid : Uid
  commit : Bytes
  recipients : Finset Nat

def mlsCommitReq (req : MlsCommitReq) :
    MlsCommitRes × Option MlsCommitBroadcast × SessionManager :=
  if ! st.isInVoiceChannel s req.channelId then
    (⟨false, "Not in that voice channel.", 0⟩, none, st)
  else if req.commit.isEmpty ∨ req.commit.length > maxMlsBlob ∨ req.groupInfo.length > maxMlsBlob then
    (⟨false, "Bad commit.", 0⟩, none, st)
  else match st.mlsCommit req.channelId req.epoch req.groupInfo with
    | (false, epoch, st) =>
      let noGroup := epoch = 0 ∧ (st.mlsGroups req.channelId).isNone
      (⟨false, if noGroup then "no_group" else "stale_epoch", epoch⟩, none, st)
    | (true, epoch, st) => (⟨true, "", epoch⟩, some {
        channelId := req.channelId
        epoch
        senderUid := (st.session s).uid
        commit := req.commit
        recipients := (st.voiceChannels req.channelId).erase s }, st)

/-- The session's object is there, and signed in: it is served. -/
def serves : Bool := (st.lock s).isSome ∧ (st.session s).authenticated

end SessionManager

/-! ## Runs -/

/-- Connections come, sign in, go and are destroyed; sessions send requests; members are renamed,
    moved or disconnected. -/
inductive SessionAct
  | connect
  | authenticate (s : Nat) (uid : Uid) (username : String)
  | leave (s : Nat)
  | destroy (s : Nat)
  | joinVoice (s : Nat) (env : VoiceEnv) (targetChannel : String)
      (capabilities : Option ClientCapabilities)
  | leaveVoice (s : Nat)
  | startStream (s : Nat) (env : VoiceEnv) (req : SessionManager.StartStreamRequest)
  | stopStream (s : Nat) (channelId : String)
  | watchStream (s : Nat) (env : VoiceEnv) (channelId : String) (streamer : Uid)
  | stopWatching (s : Nat) (channelId : String) (streamer : Uid)
  | streamThumbnailUpdate (s : Nat) (channelId : String) (thumbnail : Bytes)
  | streamCodecChanged (s : Nat) (channelId : String) (streamer : Uid) (newCodec : VideoCodec)
      (newWidth newHeight newFps : Nat)
  | mlsGroupCreate (s : Nat) (channelId : String) (groupInfo : Bytes)
  | mlsCommit (s : Nat) (req : SessionManager.MlsCommitReq)
  | renamed (uid : Uid) (name : String)
  | moveToVoiceChannel (uid : Uid) (channelId : String)
  | disconnectFromVoice (uid : Uid)

namespace SessionManager

/-- The requests of a session. -/
def dispatch (st : SessionManager) (s : Nat) (f : SessionManager) : SessionManager :=
  if st.serves s then f else st

theorem dispatch_of_serves {st f : SessionManager} {s : Nat} (h : st.serves s) :
    st.dispatch s f = f := if_pos h

theorem dispatch_of_not_serves {st f : SessionManager} {s : Nat} (h : ¬ st.serves s) :
    st.dispatch s f = st := if_neg h

def perform (st : SessionManager) : SessionAct → SessionManager
  | .connect => st.connect
  | .authenticate s uid username => st.authenticate s uid username
  | .leave s => st.leave s
  | .destroy s => st.destroy s
  | .joinVoice s env target caps => st.dispatch s (st.joinVoice s env target caps)
  | .leaveVoice s => st.dispatch s (st.leaveVoice s)
  | .startStream s env req => st.dispatch s (st.startStreamReq s env req)
  | .stopStream s channelId => st.dispatch s (st.stopStream s channelId)
  | .watchStream s env channelId streamer => st.dispatch s (st.watchStream s env channelId streamer)
  | .stopWatching s channelId streamer => st.dispatch s (st.stopWatching s channelId streamer)
  | .streamThumbnailUpdate s channelId thumbnail =>
    st.dispatch s (st.streamThumbnailUpdate s channelId thumbnail)
  | .streamCodecChanged s channelId streamer codec width height fps =>
    st.dispatch s (st.handleStreamCodecChanged s channelId streamer codec width height fps)
  | .mlsGroupCreate s channelId groupInfo =>
    st.dispatch s (st.mlsGroupCreate s channelId groupInfo).2
  | .mlsCommit s req => st.dispatch s (st.mlsCommitReq s req).2.2
  | .renamed uid name => st.onMemberRenamed uid name
  | .moveToVoiceChannel uid channelId => st.moveToVoiceChannel uid channelId
  | .disconnectFromVoice uid => st.disconnectFromVoice uid

end SessionManager

/-- The runs, from a server without sessions. -/
def sessionSystem : Lib.System SessionManager SessionAct where
  init st := ∃ maxStreamsPerChannel, st = { maxStreamsPerChannel }
  step st a st' := st' = st.perform a

end Decibell
