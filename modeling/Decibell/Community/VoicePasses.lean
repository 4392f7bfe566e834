import Decibell.Community.VoiceGroups

/-!
# Voice passes

A moderator may move a member into a voice channel that the member could not see or join. The
member then holds a pass for it, as long as a session of theirs is there: the last to leave
gives it back.

* `passes_held`: so it is in every run in which no session joins a channel after it has left the
  server.
-/

namespace Decibell

open Lib Function SessionManager List

/-- The session manager, and the passes of the database object. -/
structure VoiceServer where
  manager : SessionManager := {}
  voicePasses : Uid → Finset String := fun _ => ∅

/-- What a move finds: what a request does, and what the member may do there. -/
structure MoveEnv extends VoiceEnv where
  isMember : Bool
  channelPermissions : Uid → String → Permissions

instance (st : SessionManager) (s : Nat) (env : VoiceEnv) (target : String)
    (caps : Option ClientCapabilities) : Decidable (st.MayJoinVoice s env target caps) :=
  decidable_of_iff
    ((env.getChannel target).any (·.type = .voice) ∧
      (env.check .connectVoice { user := (st.session s).uid, channelId := target }).ok ∧
      ∀ codecs ∈ caps, codecs.encode.length ≤ maxCodecEntries ∧
        codecs.decode.length ≤ maxCodecEntries)
    (and_congr_left fun _ => by
      rw [Option.any_eq_true]
      exact exists_congr fun ch => and_congr_right fun _ => decide_eq_true_iff)

namespace VoiceServer

variable (v : VoiceServer) (s : Nat)

def grantVoicePass (uid : Uid) (channelId : String) : VoiceServer :=
  { v with voicePasses := update v.voicePasses uid (insert channelId (v.voicePasses uid)) }

def revokeVoicePass (uid : Uid) (channelId : String) : VoiceServer :=
  { v with voicePasses := update v.voicePasses uid ((v.voicePasses uid).erase channelId) }

def isIn (uid : Uid) (channelId : String) : Prop :=
  ∃ s ∈ v.manager.voiceChannels channelId, (v.manager.session s).uid = uid

instance (uid : Uid) (channelId : String) : Decidable (v.isIn uid channelId) :=
  inferInstanceAs (Decidable (∃ s ∈ v.manager.voiceChannels channelId, _))

def releaseVoicePassIfLeft (uid : Uid) (channelId : String) : VoiceServer :=
  if uid = 0 ∨ channelId = "" then v
  else if v.isIn uid channelId then v
  else v.revokeVoicePass uid channelId

/-- Joining a channel releases the pass of the one left. -/
def releaseOld (uid : Uid) (new old : String) : VoiceServer :=
  if old ≠ "" ∧ old ≠ new then v.releaseVoicePassIfLeft uid old else v

def joinVoice (env : VoiceEnv) (target : String) (caps : Option ClientCapabilities) :
    VoiceServer :=
  let session := v.manager.session s
  let v' := { v with manager := v.manager.joinVoice s env target caps }
  if v.manager.MayJoinVoice s env target caps then
    v'.releaseOld session.uid target session.currentVoiceChannel
  else v'

def leaveVoice : VoiceServer :=
  let session := v.manager.session s
  { v with manager := v.manager.leaveVoice s }.releaseVoicePassIfLeft session.uid
    session.currentVoiceChannel

/-- A session is gone, with its user's passes that no other session holds. -/
def leave : VoiceServer :=
  if s ∉ v.manager.sessions then v
  else
    let uid := (v.manager.session s).uid
    let v' := { v with manager := v.manager.leave s }
    if uid = 0 then v'
    else { v' with voicePasses := update v.voicePasses uid <| (v.voicePasses uid).filter fun ch =>
      ch = "" ∨ s ∉ v.manager.voiceChannels ch ∨ v'.isIn uid ch }

/-- Moves a session that is in another voice channel; whether it was. -/
def moveSession (channelId : String) : Bool × VoiceServer :=
  let session := v.manager.session s
  let old := session.currentVoiceChannel
  if old = "" ∨ old = channelId then (false, v)
  else (true, { v with manager := v.manager.moveSession s channelId }.releaseOld session.uid
    channelId old)

/-- Moves a user's sessions in other voice channels, and counts them. -/
def moveToVoiceChannel (uid : Uid) (channelId : String) : Nat × VoiceServer :=
  (v.manager.sessionsByUser uid).foldl (fun (moved, v) s =>
    let (moves, v) := v.moveSession s channelId
    (if moves then moved + 1 else moved, v)) (0, v)

def disconnectSession : VoiceServer :=
  if (v.manager.session s).currentVoiceChannel = "" then v else v.leaveVoice s

def disconnectFromVoice (uid : Uid) : VoiceServer :=
  (v.manager.sessionsByUser uid).foldl disconnectSession v

/-- The channel of the first session of a user that is in one. -/
def voiceChannelOf (uid : Uid) : String :=
  (((v.manager.sessionsByUser uid).map fun s => (v.manager.session s).currentVoiceChannel).find?
    (· ≠ "")).getD ""

/-- The right to go into a channel. -/
def kInto : Permissions := Perms.kViewChannel ||| Perms.kConnectVoice

/-- Moves a member, with a pass if they may not go themselves. -/
def voiceMove (env : MoveEnv) (target : Uid) (dest : String) : VoiceServer :=
  let user := (v.manager.session s).uid
  let current := v.voiceChannelOf target
  if ! (env.check .moveMember { user, channelId := current, target }).ok then v
  else if ! env.isMember then v
  else
    match env.getChannel dest with
    | none => v
    | some ch =>
      if ch.type ≠ .voice ∨ ! (env.check .viewChannel { user, channelId := dest }).ok then v
      else if current = "" ∨ current = dest then v
      else
        let pass := env.channelPermissions target dest &&& kInto ≠ kInto
        let v := if pass then v.grantVoicePass target dest else v
        let (moved, v) := v.moveToVoiceChannel target dest
        if moved = 0 ∧ pass then v.revokeVoicePass target dest else v

/-- What the requests of a session do. -/
def dispatch (f : VoiceServer) : VoiceServer := if v.manager.serves s then f else v

end VoiceServer

/-! ## Runs -/

/-- What happens to sessions; a move by a moderator; a member's removal or ban; an eviction by newer
    sessions. -/
inductive VoiceAct
  | session (a : SessionAct)
  | voiceMove (s : Nat) (env : MoveEnv) (target : Uid) (dest : String)
  | removeMember (uid : Uid)
  | evict (uid : Uid) (s : Nat)

namespace VoiceServer

def perform (v : VoiceServer) : VoiceAct → VoiceServer
  | .session (.joinVoice s env target caps) => v.dispatch s (v.joinVoice s env target caps)
  | .session (.leaveVoice s) => v.dispatch s (v.leaveVoice s)
  | .session (.leave s) => v.leave s
  | .session (.moveToVoiceChannel uid channelId) => (v.moveToVoiceChannel uid channelId).2
  | .session (.disconnectFromVoice uid) => v.disconnectFromVoice uid
  | .session a => { v with manager := v.manager.perform a }
  | .voiceMove s env target dest => v.dispatch s (v.voiceMove s env target dest)
  | .removeMember uid => { v with voicePasses := update v.voicePasses uid ∅ }
  | .evict uid s =>
    let sessionsByUser :=
      update v.manager.sessionsByUser uid ((v.manager.sessionsByUser uid).erase s)
    { v with manager := { v.manager with sessionsByUser } }

/-- Who holds a pass has a session in the channel that has not left. -/
def PassesHeld (v : VoiceServer) : Prop :=
  ∀ uid channelId, channelId ∈ v.voicePasses uid →
    ∃ s ∈ v.manager.sessions, (v.manager.session s).uid = uid ∧
      s ∈ v.manager.voiceChannels channelId

end VoiceServer

/-- An account's uid is positive, and no channel has an empty id. -/
def VoiceAct.Proper : VoiceAct → Prop
  | session (.authenticate _ uid _) => 0 < uid
  | session (.joinVoice _ env _ _) => env.getChannel "" = none
  | voiceMove _ env _ _ => env.getChannel "" = none
  | session (.moveToVoiceChannel _ channelId) => channelId ≠ ""
  | _ => True

/-- The runs, from a server without sessions. -/
def voiceSystem : System VoiceServer VoiceAct where
  init v := ∃ maxStreamsPerChannel, v = { manager := { maxStreamsPerChannel } }
  step v a v' := a.Proper ∧ v' = v.perform a

/-- No session joins a voice channel after it has left the server. -/
def VoiceServer.Connected (v : VoiceServer) : VoiceAct → Prop
  | .session (.joinVoice s env target caps) =>
    v.manager.serves s → v.manager.MayJoinVoice s env target caps → s ∈ v.manager.sessions
  | _ => True

/-! ## What the requests do to who is where -/

namespace SessionManager

variable {st st' st'' : SessionManager} {s : Nat}

structure SameMembers (st st' : SessionManager) : Prop where
  nextSession : st'.nextSession = st.nextSession
  sessions : st'.sessions = st.sessions
  sessionsByUser : st'.sessionsByUser = st.sessionsByUser
  voiceChannels : st'.voiceChannels = st.voiceChannels
  authenticated : ∀ s, (st'.session s).authenticated = (st.session s).authenticated
  uid : ∀ s, (st'.session s).uid = (st.session s).uid
  current : ∀ s, (st'.session s).currentVoiceChannel = (st.session s).currentVoiceChannel

theorem SameMembers.refl : SameMembers st st :=
  ⟨rfl, rfl, rfl, rfl, fun _ => rfl, fun _ => rfl, fun _ => rfl⟩

theorem SameMembers.trans (h : SameMembers st st') (h' : SameMembers st' st'') :
    SameMembers st st'' where
  nextSession := h'.nextSession.trans h.nextSession
  sessions := h'.sessions.trans h.sessions
  sessionsByUser := h'.sessionsByUser.trans h.sessionsByUser
  voiceChannels := h'.voiceChannels.trans h.voiceChannels
  authenticated s := (h'.authenticated s).trans (h.authenticated s)
  uid s := (h'.uid s).trans (h.uid s)
  current s := (h'.current s).trans (h.current s)

theorem sameMembers_of_session (h : st'.session = st.session) (hn : st'.nextSession = st.nextSession)
    (hs : st'.sessions = st.sessions) (hu : st'.sessionsByUser = st.sessionsByUser)
    (hv : st'.voiceChannels = st.voiceChannels) : SameMembers st st' :=
  ⟨hn, hs, hu, hv, fun _ => by rw [h], fun _ => by rw [h], fun _ => by rw [h]⟩

theorem sameMembers_stopStream (st : SessionManager) (s : Nat) (channelId : String) :
    SameMembers st (st.stopStream s channelId) := by
  unfold stopStream
  dsimp only
  split
  · exact .refl
  split
  · exact sameMembers_of_session rfl rfl rfl rfl rfl
  · exact .refl

theorem sameMembers_setCapabilities (st : SessionManager) (s : Nat)
    (caps : Option ClientCapabilities) : SameMembers st (st.setCapabilities s caps) := by
  cases caps with
  | none => exact .refl
  | some caps =>
    have hsession : ∀ s', ((st.setCapabilities s (some caps)).session s') =
        if s' = s then { st.session s with capabilities := caps } else st.session s' :=
      fun s' => update_apply ..
    refine ⟨rfl, rfl, rfl, rfl, fun s' => ?_, fun s' => ?_, fun s' => ?_⟩ <;>
      · rw [hsession]
        split
        · rename_i heq
          rw [heq]
        · rfl

/-- A session went from one voice channel to another; empty is none. -/
structure Moved (st st' : SessionManager) (s : Nat) (new old : String) : Prop where
  nextSession : st'.nextSession = st.nextSession
  sessions : st'.sessions = st.sessions
  sessionsByUser : st'.sessionsByUser = st.sessionsByUser
  voiceChannels : ∀ channelId s', s' ∈ st'.voiceChannels channelId ↔
    (s' ∈ st.voiceChannels channelId ∧ ¬ (s' = s ∧ channelId = old ∧ old ≠ "")) ∨
      (s' = s ∧ channelId = new ∧ new ≠ "")
  authenticated : ∀ s', (st'.session s').authenticated = (st.session s').authenticated
  uid : ∀ s', (st'.session s').uid = (st.session s').uid
  current : ∀ s', (st'.session s').currentVoiceChannel =
    if s' = s then new else (st.session s').currentVoiceChannel

theorem sessionFields_setSession (f : Session → Session) (s' : Nat) :
    (st.setSession s f).session s' = if s' = s then f (st.session s) else st.session s' :=
  update_apply ..

theorem leaveVoiceChannel_fields (st : SessionManager) (s : Nat) (current : String) :
    (st.leaveVoiceChannel s current).nextSession = st.nextSession ∧
    (st.leaveVoiceChannel s current).sessions = st.sessions ∧
    (st.leaveVoiceChannel s current).sessionsByUser = st.sessionsByUser ∧
    (st.leaveVoiceChannel s current).session = st.session := by
  unfold leaveVoiceChannel mlsDropIfEmptyLocked
  split
  · exact ⟨rfl, rfl, rfl, rfl⟩
  split
  · exact ⟨rfl, rfl, rfl, rfl⟩
  · exact ⟨rfl, rfl, rfl, rfl⟩

theorem mem_voiceChannels_leaveVoiceChannel {old channelId : String} {s' : Nat} :
    s' ∈ (st.leaveVoiceChannel s old).voiceChannels channelId ↔
      s' ∈ st.voiceChannels channelId ∧ ¬ (s' = s ∧ channelId = old ∧ old ≠ "") := by
  rw [voiceChannels_leaveVoiceChannel]
  split
  · rename_i hold
    rw [Finset.mem_erase, and_comm]
    exact and_congr_right fun _ => not_congr (iff_self_and.2 fun _ => hold)
  · rename_i hold
    exact (and_iff_left fun h => hold h.2).symm

theorem current_setSession (st : SessionManager) (s : Nat) (new : String) {f : Session → Session}
    (hauth : ∀ x, (f x).authenticated = x.authenticated) (huid : ∀ x, (f x).uid = x.uid)
    (hnew : ∀ x, (f x).currentVoiceChannel = new) (s' : Nat) :
    ((st.setSession s f).session s').authenticated = (st.session s').authenticated ∧
    ((st.setSession s f).session s').uid = (st.session s').uid ∧
    ((st.setSession s f).session s').currentVoiceChannel =
      if s' = s then new else (st.session s').currentVoiceChannel := by
  rw [sessionFields_setSession]
  by_cases heq : s' = s
  · rw [if_pos heq, if_pos heq, heq]
    exact ⟨hauth _, huid _, hnew _⟩
  · rw [if_neg heq, if_neg heq]
    exact ⟨rfl, rfl, rfl⟩

theorem moved_join {new old : String} (h : SameMembers st st') (hnew : new ≠ "") :
    Moved st ((st'.joinVoiceChannel s new old).setSession s
      ({ · with currentVoiceChannel := new })) s new old := by
  obtain ⟨hn, hs, hu, hsession⟩ := leaveVoiceChannel_fields st' s old
  have hfields := current_setSession (st'.joinVoiceChannel s new old) s new
    (f := ({ · with currentVoiceChannel := new })) (fun _ => rfl) (fun _ => rfl) (fun _ => rfl)
  have hjoined : ∀ s', (st'.joinVoiceChannel s new old).session s' = st'.session s' :=
    fun s' => congrFun hsession s'
  refine ⟨hn.trans h.nextSession, hs.trans h.sessions, hu.trans h.sessionsByUser, ?_,
    fun s' => ?_, fun s' => ?_, fun s' => ?_⟩
  · intro channelId s'
    have hmem : s' ∈ (st'.joinVoiceChannel s new old).voiceChannels channelId ↔
        (s' ∈ st'.voiceChannels channelId ∧ ¬ (s' = s ∧ channelId = old ∧ old ≠ "")) ∨
          (s' = s ∧ channelId = new) := by
      rw [voiceChannels_joinVoiceChannel]
      split
      · rename_i heq
        rw [Finset.mem_insert, mem_voiceChannels_leaveVoiceChannel, and_iff_left heq, or_comm]
      · rename_i hne
        rw [mem_voiceChannels_leaveVoiceChannel, or_iff_left fun heq => hne heq.2]
    rw [← h.voiceChannels, and_iff_left hnew]
    exact hmem
  · rw [(hfields s').1, hjoined, h.authenticated]
  · rw [(hfields s').2.1, hjoined, h.uid]
  · rw [(hfields s').2.2, hjoined, h.current]

theorem moved_leaveVoice (st : SessionManager) (s : Nat) :
    Moved st (st.leaveVoice s) s "" (st.session s).currentVoiceChannel := by
  have h := sameMembers_stopStream st s (st.session s).currentVoiceChannel
  unfold leaveVoice
  dsimp only
  generalize (st.session s).currentVoiceChannel = old at h ⊢
  generalize st.stopStream s old = st' at h ⊢
  obtain ⟨hn, hs, hu, hsession⟩ := leaveVoiceChannel_fields st' s old
  have hfields := current_setSession (st'.leaveVoiceChannel s old) s ""
    (f := ({ · with currentVoiceChannel := "", isMuted := false, isDeafened := false }))
    (fun _ => rfl) (fun _ => rfl) (fun _ => rfl)
  refine ⟨hn.trans h.nextSession, hs.trans h.sessions, hu.trans h.sessionsByUser, ?_,
    fun s' => ?_, fun s' => ?_, fun s' => ?_⟩
  · intro channelId s'
    rw [← h.voiceChannels, or_iff_left fun heq => heq.2.2 rfl]
    exact mem_voiceChannels_leaveVoiceChannel
  · rw [(hfields s').1, hsession, h.authenticated]
  · rw [(hfields s').2.1, hsession, h.uid]
  · rw [(hfields s').2.2, hsession, h.current]

theorem moved_joinVoice (st : SessionManager) (s : Nat) {env : VoiceEnv} {target : String}
    {caps : Option ClientCapabilities} (h : st.MayJoinVoice s env target caps)
    (hproper : env.getChannel "" = none) :
    Moved st (st.joinVoice s env target caps) s target (st.session s).currentVoiceChannel := by
  have hne : target ≠ "" := by
    rintro rfl
    obtain ⟨ch, hch, _⟩ := h.1
    cases hproper.symm.trans hch
  rw [st.joinVoice_of_mayJoinVoice s h]
  refine moved_join ?_ hne
  split
  · exact (sameMembers_setCapabilities st s caps).trans (sameMembers_stopStream _ s _)
  · exact sameMembers_setCapabilities st s caps

theorem moved_moveSession (st : SessionManager) (s : Nat) {channelId : String}
    (hold : ¬ ((st.session s).currentVoiceChannel = "" ∨
      (st.session s).currentVoiceChannel = channelId)) (hne : channelId ≠ "") :
    Moved st (st.moveSession s channelId) s channelId (st.session s).currentVoiceChannel := by
  unfold moveSession
  dsimp only
  rw [if_neg hold]
  exact moved_join (sameMembers_stopStream st s _) hne

end SessionManager

/-! ## The invariant -/

/-- Who is where, and who holds passes, but for exempt ones. -/
structure PassInv (exempt : Uid → String → Prop) (v : VoiceServer) : Prop where
  fresh : ∀ s ∈ v.manager.sessions, s < v.manager.nextSession
  nodup : ∀ uid, (v.manager.sessionsByUser uid).Nodup
  users : ∀ uid, ∀ s ∈ v.manager.sessionsByUser uid, s ∈ v.manager.sessions ∧
    (v.manager.session s).authenticated ∧ (v.manager.session s).uid = uid ∧ uid ≠ 0
  joined : ∀ channelId, ∀ s ∈ v.manager.voiceChannels channelId, s ∈ v.manager.sessions ∧
    (v.manager.session s).authenticated ∧ (v.manager.session s).currentVoiceChannel = channelId ∧
      channelId ≠ ""
  held : ∀ uid channelId, channelId ∈ v.voicePasses uid →
    uid ≠ 0 ∧ (exempt uid channelId ∨ v.isIn uid channelId)

namespace PassInv

variable {exempt : Uid → String → Prop} {v : VoiceServer} {s : Nat}

theorem of_sameMembers (h : PassInv exempt v) {st' : SessionManager}
    (hsame : SameMembers v.manager st') : PassInv exempt { v with manager := st' } := by
  refine ⟨?_, ?_, ?_, ?_, ?_⟩ <;>
    simp only [VoiceServer.isIn, hsame.nextSession, hsame.sessions, hsame.sessionsByUser,
      hsame.voiceChannels, hsame.authenticated, hsame.uid, hsame.current]
  · exact h.fresh
  · exact h.nodup
  · exact h.users
  · exact h.joined
  · exact h.held

theorem mono (h : PassInv exempt v) {exempt' : Uid → String → Prop}
    (himp : ∀ uid ch, exempt uid ch → exempt' uid ch) : PassInv exempt' v :=
  ⟨h.fresh, h.nodup, h.users, h.joined, fun uid ch hpass =>
    ⟨(h.held uid ch hpass).1, (h.held uid ch hpass).2.imp_left (himp uid ch)⟩⟩

theorem revoke {uid : Uid} {channelId : String}
    (h : PassInv (fun uid' ch => exempt uid' ch ∨ uid' = uid ∧ ch = channelId) v) :
    PassInv exempt (v.revokeVoicePass uid channelId) := by
  refine ⟨h.fresh, h.nodup, h.users, h.joined, fun uid' ch hpass => ?_⟩
  have hpass : ch ∈ update v.voicePasses uid ((v.voicePasses uid).erase channelId) uid' := hpass
  by_cases huid : uid' = uid
  · rw [huid, update_self, Finset.mem_erase] at hpass
    rw [huid]
    obtain ⟨hpos, (hexempt | ⟨_, heq⟩) | hin⟩ := h.held uid ch hpass.2
    · exact ⟨hpos, .inl hexempt⟩
    · exact absurd heq hpass.1
    · exact ⟨hpos, .inr hin⟩
  · rw [update_of_ne huid] at hpass
    obtain ⟨hpos, (hexempt | ⟨heq, _⟩) | hin⟩ := h.held uid' ch hpass
    · exact ⟨hpos, .inl hexempt⟩
    · exact absurd heq huid
    · exact ⟨hpos, .inr hin⟩

theorem of_isIn {uid : Uid} {channelId : String}
    (h : PassInv (fun uid' ch => exempt uid' ch ∨ uid' = uid ∧ ch = channelId) v)
    (hin : v.isIn uid channelId) : PassInv exempt v := by
  refine ⟨h.fresh, h.nodup, h.users, h.joined, fun uid' ch hpass => ?_⟩
  obtain ⟨hpos, (hexempt | ⟨rfl, rfl⟩) | hin'⟩ := h.held uid' ch hpass
  · exact ⟨hpos, .inl hexempt⟩
  · exact ⟨hpos, .inr hin⟩
  · exact ⟨hpos, .inr hin'⟩

theorem release {uid : Uid} {channelId : String}
    (h : PassInv (fun uid' ch => exempt uid' ch ∨ uid' = uid ∧ ch = channelId) v)
    (hne : channelId ≠ "") : PassInv exempt (v.releaseVoicePassIfLeft uid channelId) := by
  unfold VoiceServer.releaseVoicePassIfLeft
  split
  · rename_i hzero
    have hzero := hzero.resolve_right hne
    refine ⟨h.fresh, h.nodup, h.users, h.joined, fun uid' ch hpass => ?_⟩
    obtain ⟨hpos, (hexempt | ⟨heq, _⟩) | hin⟩ := h.held uid' ch hpass
    · exact ⟨hpos, .inl hexempt⟩
    · exact absurd (heq.trans hzero) hpos
    · exact ⟨hpos, .inr hin⟩
  split
  · rename_i hin
    exact h.of_isIn hin
  · exact h.revoke

/-- A session goes elsewhere: only its old channel's pass may be in vain. -/
theorem moved (h : PassInv exempt v) {st' : SessionManager} {new old : String}
    (hm : Moved v.manager st' s new old) (hold : old = (v.manager.session s).currentVoiceChannel)
    (hlive : new ≠ "" → s ∈ v.manager.sessions ∧ (v.manager.session s).authenticated) :
    PassInv (fun uid' ch => exempt uid' ch ∨
        (uid' = (v.manager.session s).uid ∧ ch = old) ∧ old ≠ "" ∧ old ≠ new)
      { v with manager := st' } := by
  refine ⟨?_, ?_, ?_, ?_, ?_⟩
  · intro s' hs'
    dsimp only at hs' ⊢
    rw [hm.nextSession]
    rw [hm.sessions] at hs'
    exact h.fresh s' hs'
  · dsimp only
    rw [hm.sessionsByUser]
    exact h.nodup
  · intro uid s' hs'
    dsimp only at hs' ⊢
    rw [hm.sessions, hm.authenticated, hm.uid]
    rw [hm.sessionsByUser] at hs'
    exact h.users uid s' hs'
  · intro channelId s' hs'
    dsimp only at hs' ⊢
    rw [hm.sessions, hm.authenticated, hm.current]
    rcases (hm.voiceChannels channelId s').1 hs' with ⟨hmem, hleft⟩ | ⟨rfl, rfl, hne⟩
    · obtain ⟨hsessions, hauth, hcurrent, hne⟩ := h.joined channelId s' hmem
      refine ⟨hsessions, hauth, ?_, hne⟩
      rw [if_neg]
      · exact hcurrent
      · -- the session has left the only channel that it was in
        rintro rfl
        rw [hcurrent] at hold
        exact hleft ⟨rfl, hold.symm, hold ▸ hne⟩
    · rw [if_pos rfl]
      exact ⟨(hlive hne).1, (hlive hne).2, rfl, hne⟩
  · intro uid ch hpass
    obtain ⟨hpos, hexempt | ⟨s', hmem, huid⟩⟩ := h.held uid ch hpass
    · exact ⟨hpos, .inl (.inl hexempt)⟩
    refine ⟨hpos, ?_⟩
    have hin : s' ∈ st'.voiceChannels ch → VoiceServer.isIn { v with manager := st' } uid ch :=
      fun hmem => ⟨s', hmem, (hm.uid s').trans huid⟩
    by_cases hleft : s' = s ∧ ch = old ∧ old ≠ ""
    · obtain ⟨rfl, rfl, hne⟩ := hleft
      by_cases heq : ch = new
      · exact .inr (hin ((hm.voiceChannels ch s').2 (.inr ⟨rfl, heq, heq ▸ hne⟩)))
      · exact .inl (.inr ⟨⟨huid.symm, rfl⟩, hne, heq⟩)
    · exact .inr (hin ((hm.voiceChannels ch s').2 (.inl ⟨hmem, hleft⟩)))

theorem movedAndReleased (h : PassInv exempt v) {st' : SessionManager} {new old : String}
    (hm : Moved v.manager st' s new old) (hold : old = (v.manager.session s).currentVoiceChannel)
    (hlive : new ≠ "" → s ∈ v.manager.sessions ∧ (v.manager.session s).authenticated) :
    PassInv exempt
      (VoiceServer.releaseOld { v with manager := st' } (v.manager.session s).uid new old) := by
  have hmoved := h.moved hm hold hlive
  unfold VoiceServer.releaseOld
  split
  · rename_i hne
    exact (hmoved.mono fun uid ch => Or.imp_right And.left).release hne.1
  · rename_i hsame
    exact hmoved.mono fun uid ch => fun hexempt => hexempt.resolve_right fun hleft => hsame hleft.2

theorem joinVoice (h : PassInv exempt v) {env : VoiceEnv} {target : String}
    {caps : Option ClientCapabilities} (hproper : env.getChannel "" = none)
    (hserves : v.manager.serves s)
    (hlive : v.manager.MayJoinVoice s env target caps → s ∈ v.manager.sessions) :
    PassInv exempt (v.joinVoice s env target caps) := by
  have hauth : (v.manager.session s).authenticated := (of_decide_eq_true hserves).2
  unfold VoiceServer.joinVoice
  dsimp only
  split
  · rename_i hmay
    exact h.movedAndReleased (moved_joinVoice _ s hmay hproper) rfl fun _ => ⟨hlive hmay, hauth⟩
  · rename_i hmay
    rw [v.manager.joinVoice_of_not_mayJoinVoice s hmay]
    exact h

theorem leaveVoice (h : PassInv exempt v) : PassInv exempt (v.leaveVoice s) := by
  have hmoved := h.moved (moved_leaveVoice v.manager s) rfl fun hne => absurd rfl hne
  unfold VoiceServer.leaveVoice
  dsimp only
  by_cases hne : (v.manager.session s).currentVoiceChannel = ""
  · rw [VoiceServer.releaseVoicePassIfLeft, if_pos (.inr hne)]
    exact hmoved.mono fun uid ch hexempt => hexempt.resolve_right fun hleft => hleft.2.1 hne
  · exact (hmoved.mono fun uid ch => Or.imp_right And.left).release hne

/-- A session that is gone is nowhere; its user keeps passes other sessions hold. -/
theorem leave (h : PassInv exempt v) : PassInv exempt (v.leave s) := by
  unfold VoiceServer.leave
  split
  · exact h
  rename_i hmem
  rw [not_not] at hmem
  have hsessions : (v.manager.leave s).sessions = v.manager.sessions.erase s := by
    rw [SessionManager.leave, if_neg (not_not.2 hmem)]
  have hnext : (v.manager.leave s).nextSession = v.manager.nextSession := by
    rw [SessionManager.leave, if_neg (not_not.2 hmem)]
  have hsession : (v.manager.leave s).session = v.manager.session := by
    rw [SessionManager.leave, if_neg (not_not.2 hmem)]
  have hchannels : ∀ ch, (v.manager.leave s).voiceChannels ch = (v.manager.voiceChannels ch).erase s := by
    rw [SessionManager.leave, if_neg (not_not.2 hmem)]
    exact fun _ => rfl
  have hbyUser : (v.manager.leave s).sessionsByUser =
      if (v.manager.session s).uid = 0 then v.manager.sessionsByUser
      else update v.manager.sessionsByUser (v.manager.session s).uid
        ((v.manager.sessionsByUser (v.manager.session s).uid).erase s) := by
    rw [SessionManager.leave, if_neg (not_not.2 hmem)]
  have husers : ∀ uid, (v.manager.leave s).sessionsByUser uid =
      (v.manager.sessionsByUser uid).erase s := by
    intro uid
    -- the session is among those of its user alone
    have hother : uid ≠ (v.manager.session s).uid ∨ (v.manager.session s).uid = 0 →
        s ∉ v.manager.sessionsByUser uid := by
      intro hother hs
      obtain ⟨_, _, huid, hpos⟩ := h.users uid s hs
      rcases hother with hne | hzero
      · exact hne huid.symm
      · exact hpos (huid.symm.trans hzero)
    rw [hbyUser]
    split
    · rename_i hzero
      exact (erase_of_not_mem (hother (.inr hzero))).symm
    · by_cases heq : uid = (v.manager.session s).uid
      · rw [heq, update_self]
      · rw [update_of_ne heq, erase_of_not_mem (hother (.inl heq))]
  have hleft : PassInv (fun uid ch => exempt uid ch ∨ uid = (v.manager.session s).uid ∧
      s ∈ v.manager.voiceChannels ch) { v with manager := v.manager.leave s } := by
    refine ⟨?_, ?_, ?_, ?_, ?_⟩
    · intro s' hs'
      dsimp only at hs' ⊢
      rw [hsessions, Finset.mem_erase] at hs'
      rw [hnext]
      exact h.fresh s' hs'.2
    · intro uid
      dsimp only
      rw [husers]
      exact (h.nodup uid).erase s
    · intro uid s' hs'
      dsimp only at hs' ⊢
      rw [husers, (h.nodup uid).mem_erase_iff] at hs'
      rw [hsessions, hsession, Finset.mem_erase, and_assoc]
      exact ⟨hs'.1, h.users uid s' hs'.2⟩
    · intro ch s' hs'
      dsimp only at hs' ⊢
      rw [hchannels, Finset.mem_erase] at hs'
      rw [hsessions, hsession, Finset.mem_erase, and_assoc]
      exact ⟨hs'.1, h.joined ch s' hs'.2⟩
    · intro uid ch hpass
      obtain ⟨hpos, hexempt | ⟨s', hs', huid⟩⟩ := h.held uid ch hpass
      · exact ⟨hpos, .inl (.inl hexempt)⟩
      refine ⟨hpos, ?_⟩
      by_cases heq : s' = s
      · rw [heq] at hs' huid
        exact .inl (.inr ⟨huid.symm, hs'⟩)
      · refine .inr ⟨s', ?_, (congrFun hsession s' ▸ huid)⟩
        dsimp only
        rw [hchannels]
        exact Finset.mem_erase.2 ⟨heq, hs'⟩
  dsimp only
  split
  · rename_i hzero
    refine ⟨hleft.fresh, hleft.nodup, hleft.users, hleft.joined, fun uid ch hpass => ?_⟩
    obtain ⟨hpos, (hexempt | ⟨heq, _⟩) | hin⟩ := hleft.held uid ch hpass
    · exact ⟨hpos, .inl hexempt⟩
    · exact absurd (heq.trans hzero) hpos
    · exact ⟨hpos, .inr hin⟩
  · refine ⟨hleft.fresh, hleft.nodup, hleft.users, hleft.joined, fun uid ch hpass => ?_⟩
    have hpass : ch ∈ update v.voicePasses (v.manager.session s).uid _ uid := hpass
    by_cases huid : uid = (v.manager.session s).uid
    · rw [huid, update_self, Finset.mem_filter] at hpass
      rw [huid]
      obtain ⟨hpos, (hexempt | ⟨_, hs⟩) | hin⟩ := hleft.held _ ch hpass.1
      · exact ⟨hpos, .inl hexempt⟩
      · obtain hempty | hnot | hin := hpass.2
        · exact absurd hempty (h.joined ch s hs).2.2.2
        · exact absurd hs hnot
        · exact ⟨hpos, .inr hin⟩
      · exact ⟨hpos, .inr hin⟩
    · rw [update_of_ne huid] at hpass
      obtain ⟨hpos, (hexempt | ⟨heq, _⟩) | hin⟩ := hleft.held uid ch hpass
      · exact ⟨hpos, .inl hexempt⟩
      · exact absurd heq huid
      · exact ⟨hpos, .inr hin⟩

theorem moveSession (h : PassInv exempt v) {channelId : String} (hne : channelId ≠ "")
    (hlive : s ∈ v.manager.sessions ∧ (v.manager.session s).authenticated) :
    PassInv exempt (v.moveSession s channelId).2 := by
  unfold VoiceServer.moveSession
  dsimp only
  split
  · exact h
  · rename_i hold
    exact h.movedAndReleased (moved_moveSession v.manager s hold hne) rfl fun _ => hlive

theorem disconnectSession (h : PassInv exempt v) : PassInv exempt (v.disconnectSession s) := by
  unfold VoiceServer.disconnectSession
  split
  · exact h
  · exact h.leaveVoice

theorem disconnectFromVoice (h : PassInv exempt v) {uid : Uid} :
    PassInv exempt (v.disconnectFromVoice uid) := by
  unfold VoiceServer.disconnectFromVoice
  generalize v.manager.sessionsByUser uid = l
  induction l generalizing v with
  | nil => exact h
  | cons s l ih => exact ih h.disconnectSession

end PassInv

/-! ## Moving a member -/

namespace VoiceServer

variable {v : VoiceServer} {s : Nat} {uid : Uid} {channelId : String}

theorem manager_releaseVoicePassIfLeft (v : VoiceServer) (uid : Uid) (channelId : String) :
    (v.releaseVoicePassIfLeft uid channelId).manager = v.manager := by
  unfold releaseVoicePassIfLeft
  split
  · rfl
  split
  · rfl
  · rfl

theorem manager_releaseOld (v : VoiceServer) (uid : Uid) (new old : String) :
    (v.releaseOld uid new old).manager = v.manager := by
  unfold releaseOld
  split
  · exact manager_releaseVoicePassIfLeft v uid old
  · rfl

theorem manager_moveSession (v : VoiceServer) (s : Nat) (channelId : String) :
    (v.moveSession s channelId).2.manager = v.manager.moveSession s channelId := by
  unfold moveSession
  dsimp only
  split
  · rename_i hold
    rw [SessionManager.moveSession, if_pos hold]
  · exact manager_releaseOld _ _ _ _

theorem isIn_moveSession (hne : channelId ≠ "") (huid : (v.manager.session s).uid = uid)
    (h : (v.moveSession s channelId).1 = true ∨ v.isIn uid channelId) :
    (v.moveSession s channelId).2.isIn uid channelId := by
  by_cases hold : (v.manager.session s).currentVoiceChannel = "" ∨
      (v.manager.session s).currentVoiceChannel = channelId
  · have hrun : v.moveSession s channelId = (false, v) := if_pos hold
    rw [hrun] at h ⊢
    exact h.resolve_left Bool.false_ne_true
  · have hm := moved_moveSession v.manager s hold hne
    have hmanager := manager_moveSession v s channelId
    have hmem : ∀ s', (s' ∈ v.manager.voiceChannels channelId ∨ s' = s) →
        s' ∈ (v.manager.moveSession s channelId).voiceChannels channelId := by
      rintro s' (hs' | rfl)
      · refine (hm.voiceChannels channelId s').2 (.inl ⟨hs', ?_⟩)
        exact fun hleft => hold (.inr hleft.2.1.symm)
      · exact (hm.voiceChannels channelId s').2 (.inr ⟨rfl, rfl, hne⟩)
    unfold isIn at h ⊢
    rw [hmanager]
    rcases h with _ | ⟨s', hs', huid'⟩
    · exact ⟨s, hmem s (.inr rfl), (hm.uid s).trans huid⟩
    · exact ⟨s', hmem s' (.inl hs'), (hm.uid s').trans huid'⟩

theorem moveSessions_inv {exempt : Uid → String → Prop} (hne : channelId ≠ "") (l : List Nat)
    (moved : Nat) (h : PassInv exempt v) (hl : ∀ s ∈ l, s ∈ v.manager.sessionsByUser uid)
    (hin : moved = 0 ∨ v.isIn uid channelId) :
    let r := l.foldl (fun (moved, v) s =>
      let (moves, v) := v.moveSession s channelId
      (if moves then moved + 1 else moved, v)) (moved, v)
    PassInv exempt r.2 ∧ (r.1 = 0 ∨ r.2.isIn uid channelId) := by
  induction l generalizing v moved with
  | nil => exact ⟨h, hin⟩
  | cons s l ih =>
    obtain ⟨hsessions, hauth, huid, _⟩ := h.users uid s (hl s mem_cons_self)
    have hbyUser : (v.moveSession s channelId).2.manager.sessionsByUser = v.manager.sessionsByUser := by
      rw [manager_moveSession]
      by_cases hold : (v.manager.session s).currentVoiceChannel = "" ∨
          (v.manager.session s).currentVoiceChannel = channelId
      · rw [SessionManager.moveSession, if_pos hold]
      · exact (moved_moveSession v.manager s hold hne).sessionsByUser
    have hstay := isIn_moveSession (v := v) hne huid
    have hl' : ∀ s' ∈ l, s' ∈ (v.moveSession s channelId).2.manager.sessionsByUser uid := by
      rw [hbyUser]
      exact fun s' hs' => hl s' (mem_cons_of_mem _ hs')
    have hin' : (if (v.moveSession s channelId).1 = true then moved + 1 else moved) = 0 ∨
        (v.moveSession s channelId).2.isIn uid channelId := by
      cases hmoves : (v.moveSession s channelId).1 with
      | true => exact .inr (hstay (.inl hmoves))
      | false => exact hin.imp id fun hin => hstay (.inr hin)
    exact ih _ (h.moveSession hne ⟨hsessions, hauth⟩) hl' hin'

theorem ne_zero_of_voiceChannelOf {exempt : Uid → String → Prop} (h : PassInv exempt v)
    (hne : v.voiceChannelOf uid ≠ "") : uid ≠ 0 := by
  cases hl : v.manager.sessionsByUser uid with
  | nil =>
    rw [voiceChannelOf, hl] at hne
    exact absurd rfl hne
  | cons s l => exact (h.users uid s (hl ▸ mem_cons_self)).2.2.2

end VoiceServer

namespace PassInv

variable {exempt : Uid → String → Prop} {v : VoiceServer} {s : Nat}

theorem grant (h : PassInv exempt v) {uid : Uid} (hpos : uid ≠ 0) (channelId : String) :
    PassInv (fun uid' ch => exempt uid' ch ∨ uid' = uid ∧ ch = channelId)
      (v.grantVoicePass uid channelId) := by
  refine ⟨h.fresh, h.nodup, h.users, h.joined, fun uid' ch hpass => ?_⟩
  have hpass : ch ∈ update v.voicePasses uid (insert channelId (v.voicePasses uid)) uid' := hpass
  by_cases huid : uid' = uid
  · rw [huid, update_self, Finset.mem_insert] at hpass
    rw [huid]
    rcases hpass with rfl | hpass
    · exact ⟨hpos, .inl (.inr ⟨rfl, rfl⟩)⟩
    · exact ⟨hpos, (h.held uid ch hpass).2.imp_left .inl⟩
  · rw [update_of_ne huid] at hpass
    exact ⟨(h.held uid' ch hpass).1, (h.held uid' ch hpass).2.imp_left .inl⟩

theorem voiceMove (h : PassInv exempt v) {env : MoveEnv} {target : Uid} {dest : String}
    (hproper : env.getChannel "" = none) : PassInv exempt (v.voiceMove s env target dest) := by
  unfold VoiceServer.voiceMove
  dsimp only
  split
  · exact h
  split
  · exact h
  split
  · exact h
  rename_i ch hch
  split
  · exact h
  split
  · exact h
  rename_i hcurrent
  have hne : dest ≠ "" := by
    rintro rfl
    cases hproper.symm.trans hch
  rw [not_or] at hcurrent
  have hpos := VoiceServer.ne_zero_of_voiceChannelOf h hcurrent.1
  by_cases hpass : env.channelPermissions target dest &&& VoiceServer.kInto ≠ VoiceServer.kInto
  · -- the pass is granted first; then somebody is moved, or it is revoked
    rw [if_pos hpass]
    obtain ⟨hinv, hin⟩ := VoiceServer.moveSessions_inv hne (v.manager.sessionsByUser target) 0
      (h.grant hpos dest) (fun _ hs => hs) (.inl rfl)
    split
    · exact hinv.revoke
    · rename_i hmoved
      exact hinv.of_isIn (hin.resolve_left fun hzero => hmoved ⟨hzero, hpass⟩)
  · rw [if_neg hpass, if_neg fun hmoved => hpass hmoved.2]
    exact (VoiceServer.moveSessions_inv hne (v.manager.sessionsByUser target) 0 h
      (fun _ hs => hs) (.inl rfl)).1

end PassInv

/-! ## Every request -/

/-- What leaves the sessions where they are. -/
def aboutMembers : SessionAct → Bool
  | .connect | .authenticate .. | .leave _ | .joinVoice .. | .leaveVoice _ |
    .moveToVoiceChannel .. | .disconnectFromVoice _ => true
  | _ => false

namespace SessionManager

variable {st st' : SessionManager}

theorem sameMembers_dispatch {s : Nat} (h : SameMembers st st') :
    SameMembers st (st.dispatch s st') := by
  unfold dispatch
  split
  · exact h
  · exact .refl

theorem sameMembers_renamed (st : SessionManager) (uid : Uid) (name : String) :
    SameMembers st (st.onMemberRenamed uid name) := by
  refine ⟨rfl, rfl, rfl, rfl, fun s => ?_, fun s => ?_, fun s => ?_⟩ <;>
    · dsimp only [onMemberRenamed]
      split <;> rfl

theorem sameMembers_mlsGroupCreate (st : SessionManager) (s : Nat) (channelId : String)
    (groupInfo : Bytes) : SameMembers st (st.mlsGroupCreate s channelId groupInfo).2 := by
  unfold mlsGroupCreate mlsCreate
  split
  · exact .refl
  split
  · exact .refl
  split
  · exact .refl
  · rename_i hcreate
    split at hcreate
    · cases hcreate
    · cases hcreate
      exact sameMembers_of_session rfl rfl rfl rfl rfl

theorem sameMembers_mlsCommitReq (st : SessionManager) (s : Nat) (req : MlsCommitReq) :
    SameMembers st (st.mlsCommitReq s req).2.2 := by
  have hcommit : SameMembers st (st.mlsCommit req.channelId req.epoch req.groupInfo).2.2 := by
    unfold mlsCommit
    split
    · exact .refl
    dsimp only
    split
    · exact .refl
    · exact sameMembers_of_session rfl rfl rfl rfl rfl
  unfold mlsCommitReq
  split
  · exact .refl
  split
  · exact .refl
  split <;>
    · rename_i heq
      rw [heq] at hcommit
      exact hcommit

theorem sameMembers_perform {a : SessionAct} (h : aboutMembers a = false) :
    SameMembers st (st.perform a) := by
  cases a with
  | destroy s => exact sameMembers_of_session rfl rfl rfl rfl rfl
  | startStream s env req =>
    refine sameMembers_dispatch ?_
    unfold startStreamReq startStream
    dsimp only
    split
    · exact .refl
    split
    · exact .refl
    split
    · exact .refl
    · exact sameMembers_of_session rfl rfl rfl rfl rfl
  | stopStream s channelId => exact sameMembers_dispatch (sameMembers_stopStream st s channelId)
  | watchStream s env channelId streamer =>
    refine sameMembers_dispatch ?_
    unfold watchStream
    dsimp only
    split
    · exact .refl
    split
    · exact .refl
    split
    · exact .refl
    split
    · exact .refl
    · exact sameMembers_of_session rfl rfl rfl rfl rfl
  | stopWatching s channelId streamer =>
    refine sameMembers_dispatch ?_
    unfold stopWatching
    split
    · exact .refl
    · exact sameMembers_of_session rfl rfl rfl rfl rfl
  | streamThumbnailUpdate s channelId thumbnail =>
    refine sameMembers_dispatch ?_
    unfold streamThumbnailUpdate
    dsimp only
    split
    · exact sameMembers_of_session rfl rfl rfl rfl rfl
    · exact .refl
  | streamCodecChanged s channelId streamer codec width height fps =>
    refine sameMembers_dispatch ?_
    unfold handleStreamCodecChanged
    split
    · exact .refl
    · exact sameMembers_of_session rfl rfl rfl rfl rfl
  | mlsGroupCreate s channelId groupInfo =>
    exact sameMembers_dispatch (sameMembers_mlsGroupCreate st s channelId groupInfo)
  | mlsCommit s req => exact sameMembers_dispatch (sameMembers_mlsCommitReq st s req)
  | renamed uid name => exact sameMembers_renamed st uid name
  | connect | authenticate | leave | joinVoice | leaveVoice | moveToVoiceChannel
  | disconnectFromVoice => cases h

end SessionManager

namespace PassInv

variable {exempt : Uid → String → Prop} {v : VoiceServer}

theorem connect (h : PassInv exempt v) : PassInv exempt { v with manager := v.manager.connect } := by
  -- the new session has a new number, so those there were are as before
  have hold : ∀ s ∈ v.manager.sessions, v.manager.connect.session s = v.manager.session s :=
    fun s hs => update_of_ne (Nat.ne_of_lt (h.fresh s hs)) ..
  have hmem : ∀ s ∈ v.manager.sessions, s ∈ v.manager.connect.sessions :=
    fun s hs => Finset.mem_insert_of_mem hs
  refine ⟨?_, h.nodup, ?_, ?_, ?_⟩
  · intro s hs
    rcases Finset.mem_insert.1 hs with rfl | hs
    · exact Nat.lt_succ_self _
    · exact Nat.lt_succ_of_lt (h.fresh s hs)
  · intro uid s hs
    obtain ⟨hsessions, husers⟩ := h.users uid s hs
    dsimp only
    rw [hold s hsessions]
    exact ⟨hmem s hsessions, husers⟩
  · intro ch s hs
    obtain ⟨hsessions, hjoined⟩ := h.joined ch s hs
    dsimp only
    rw [hold s hsessions]
    exact ⟨hmem s hsessions, hjoined⟩
  · intro uid ch hpass
    refine ⟨(h.held uid ch hpass).1, (h.held uid ch hpass).2.imp_right ?_⟩
    rintro ⟨s, hs, huid⟩
    refine ⟨s, hs, ?_⟩
    dsimp only
    rw [hold s (h.joined ch s hs).1]
    exact huid

theorem authenticate (h : PassInv exempt v) {s : Nat} {uid : Uid} {username : String}
    (hpos : 0 < uid) :
    PassInv exempt { v with manager := v.manager.authenticate s uid username } := by
  unfold SessionManager.authenticate
  split
  swap
  · exact h
  rename_i hnew
  -- whoever is listed or in a channel had signed in before
  have hold : ∀ s' f, (v.manager.session s').authenticated →
      (v.manager.setSession s f).session s' = v.manager.session s' := by
    intro s' f hauth
    rw [sessionFields_setSession, if_neg]
    rintro rfl
    rw [hnew.2] at hauth
    cases hauth
  have hlisted : ∀ uid', s ∉ v.manager.sessionsByUser uid' := by
    intro uid' hs
    rw [(h.users uid' s hs).2.1] at hnew
    cases hnew.2
  dsimp only
  rw [if_neg (hlisted uid)]
  refine ⟨h.fresh, ?_, ?_, ?_, ?_⟩
  · intro uid'
    dsimp only
    by_cases heq : uid' = uid
    · rw [heq, update_self, nodup_append]
      refine ⟨h.nodup uid, nodup_singleton s, ?_⟩
      rintro s' hs' s'' hs'' rfl
      exact hlisted uid (mem_singleton.1 hs'' ▸ hs')
    · rw [update_of_ne heq]
      exact h.nodup uid'
  · intro uid' s' hs'
    dsimp only at hs'
    have hcases : s' ∈ v.manager.sessionsByUser uid' ∨ uid' = uid ∧ s' = s := by
      by_cases heq : uid' = uid
      · rw [heq, update_self, mem_append, mem_singleton] at hs'
        rw [heq]
        exact hs'.imp_right fun hs' => ⟨rfl, hs'⟩
      · rw [update_of_ne heq] at hs'
        exact .inl hs'
    rcases hcases with hs' | ⟨rfl, rfl⟩
    · obtain ⟨hsessions, hauth, husers⟩ := h.users uid' s' hs'
      dsimp only
      rw [hold s' _ hauth]
      exact ⟨hsessions, hauth, husers⟩
    · dsimp only
      rw [sessionFields_setSession, if_pos rfl]
      exact ⟨hnew.1, rfl, rfl, hpos.ne'⟩
  · intro ch s' hs'
    obtain ⟨hsessions, hauth, hjoined⟩ := h.joined ch s' hs'
    dsimp only
    rw [hold s' _ hauth]
    exact ⟨hsessions, hauth, hjoined⟩
  · intro uid' ch hpass
    refine ⟨(h.held uid' ch hpass).1, (h.held uid' ch hpass).2.imp_right ?_⟩
    rintro ⟨s', hs', huid⟩
    refine ⟨s', hs', ?_⟩
    dsimp only
    rw [hold s' _ (h.joined ch s' hs').2.1]
    exact huid

theorem evict (h : PassInv exempt v) {uid : Uid} {s : Nat} :
    PassInv exempt (v.perform (.evict uid s)) := by
  have hsub : ∀ uid', List.Sublist (update v.manager.sessionsByUser uid
      ((v.manager.sessionsByUser uid).erase s) uid') (v.manager.sessionsByUser uid') := by
    intro uid'
    by_cases heq : uid' = uid
    · rw [heq, update_self]
      exact erase_sublist
    · rw [update_of_ne heq]
  exact ⟨h.fresh, fun uid' => (h.nodup uid').sublist (hsub uid'),
    fun uid' s' hs' => h.users uid' s' ((hsub uid').mem hs'), h.joined, h.held⟩

theorem removeMember (h : PassInv exempt v) {uid : Uid} :
    PassInv exempt (v.perform (.removeMember uid)) := by
  refine ⟨h.fresh, h.nodup, h.users, h.joined, fun uid' ch hpass => ?_⟩
  have hpass : ch ∈ update v.voicePasses uid ∅ uid' := hpass
  by_cases heq : uid' = uid
  · rw [heq, update_self] at hpass
    exact absurd hpass (Finset.notMem_empty ch)
  · rw [update_of_ne heq] at hpass
    exact h.held uid' ch hpass

theorem dispatch (h : PassInv exempt v) {s : Nat} {f : VoiceServer}
    (hf : v.manager.serves s → PassInv exempt f) : PassInv exempt (v.dispatch s f) := by
  unfold VoiceServer.dispatch
  split
  · rename_i hserves
    exact hf hserves
  · exact h

theorem perform (h : PassInv exempt v) {a : VoiceAct} (hproper : a.Proper) (hlive : v.Connected a) :
    PassInv exempt (v.perform a) := by
  have hsame : ∀ b, aboutMembers b = false → PassInv exempt { v with manager := v.manager.perform b } :=
    fun b hb => h.of_sameMembers (sameMembers_perform hb)
  cases a with
  | session a =>
    cases a with
    | connect => exact h.connect
    | authenticate s uid username => exact h.authenticate hproper
    | leave s => exact h.leave
    | joinVoice s env target caps =>
      exact h.dispatch fun hserves => h.joinVoice hproper hserves (hlive hserves)
    | leaveVoice s => exact h.dispatch fun _ => h.leaveVoice
    | moveToVoiceChannel uid channelId =>
      exact (VoiceServer.moveSessions_inv hproper _ 0 h (fun _ hs => hs) (.inl rfl)).1
    | disconnectFromVoice uid => exact h.disconnectFromVoice
    | destroy | startStream | stopStream | watchStream | stopWatching | streamThumbnailUpdate
    | streamCodecChanged | mlsGroupCreate | mlsCommit | renamed => exact hsame _ rfl
  | voiceMove s env target dest => exact h.dispatch fun _ => h.voiceMove hproper
  | removeMember uid => exact h.removeMember
  | evict uid s => exact h.evict

end PassInv

variable {v : VoiceServer}

theorem passInv_of_reachable (h : (voiceSystem.given VoiceServer.Connected).Reachable v) :
    PassInv (fun _ _ => False) v := by
  refine System.reachable_invariant ?_ ?_ h
  · rintro _ ⟨maxStreamsPerChannel, rfl⟩
    exact ⟨fun s hs => absurd hs (Finset.notMem_empty s), fun _ => nodup_nil,
      fun _ _ hs => absurd hs not_mem_nil, fun _ s hs => absurd hs (Finset.notMem_empty s),
      fun _ ch hpass => absurd hpass (Finset.notMem_empty ch)⟩
  · rintro v a _ hv ⟨⟨hproper, rfl⟩, hlive⟩
    exact hv.perform hproper hlive

/-- In every run in which no session joins a voice channel after it left the server, who holds a
    pass has a session in the channel, connected and signed in. -/
theorem passes_held (h : (voiceSystem.given VoiceServer.Connected).Reachable v) :
    v.PassesHeld := by
  have hinv := passInv_of_reachable h
  intro uid channelId hpass
  obtain ⟨s, hs, huid⟩ := (hinv.held uid channelId hpass).2.resolve_left id
  exact ⟨s, (hinv.joined channelId s hs).1, huid, hs⟩

/-! ## Two runs -/

/-- Every id but the empty one is a voice channel open to all. -/
def openVoice : VoiceEnv where
  getChannel id := if id = "" then none else some { id, name := [], type := .voice, position := 0 }
  check _ _ := .allow

/-- A move of a member who may not go to the channel. -/
def moveIn : MoveEnv := { openVoice with isMember := true, channelPermissions := fun _ _ => 0 }

/-- The state after some requests. -/
def VoiceServer.after (acts : List VoiceAct) : VoiceServer := acts.foldl VoiceServer.perform {}

/-- A user is in a channel. -/
def joinedRun : List VoiceAct :=
  [.session .connect, .session (.authenticate 0 7 "a"), .session (.joinVoice 0 openVoice "c" none)]

/-- The user is moved to another. -/
def movedRun : List VoiceAct :=
  joinedRun ++ [.session .connect, .session (.authenticate 1 9 "b"), .voiceMove 1 moveIn 7 "d"]

theorem movedRun_reachable :
    (voiceSystem.given VoiceServer.Connected).Reachable (.after movedRun) :=
  have ha : (0 : Uid) < 7 := by decide
  have hb : (0 : Uid) < 9 := by decide
  have hstart : (voiceSystem.given VoiceServer.Connected).Reachable {} := .init ⟨8, rfl⟩
  have hsigned : (voiceSystem.given VoiceServer.Connected).Reachable
      (.after [.session .connect, .session (.authenticate 0 7 "a")]) :=
    .step (.session (.authenticate 0 7 "a")) (.step (.session .connect) hstart
      ⟨⟨trivial, rfl⟩, trivial⟩) ⟨⟨ha, rfl⟩, trivial⟩
  have hjoined : (voiceSystem.given VoiceServer.Connected).Reachable (.after joinedRun) :=
    .step (.session (.joinVoice 0 openVoice "c" none)) hsigned
      ⟨⟨rfl, rfl⟩, fun _ _ => by decide⟩
  .step (.voiceMove 1 moveIn 7 "d") (.step (.session (.authenticate 1 9 "b"))
    (.step (.session .connect) hjoined ⟨⟨trivial, rfl⟩, trivial⟩) ⟨⟨hb, rfl⟩, trivial⟩)
    ⟨⟨rfl, rfl⟩, trivial⟩

/-- The user holds a pass, and is there. -/
theorem passes_held_movedRun :
    "d" ∈ (VoiceServer.after movedRun).voicePasses 7 ∧
    ∃ s ∈ (VoiceServer.after movedRun).manager.sessions,
      ((VoiceServer.after movedRun).manager.session s).uid = 7 ∧
        s ∈ (VoiceServer.after movedRun).manager.voiceChannels "d" :=
  have hpass : "d" ∈ (VoiceServer.after movedRun).voicePasses 7 := by decide
  ⟨hpass, passes_held movedRun_reachable 7 "d" hpass⟩

/-- A session that left the server still joins a channel. Later another of the user is moved there,
    and leaves. -/
def strayRun : List VoiceAct :=
  [.session .connect, .session (.authenticate 0 7 "a"), .session (.leave 0),
    .session (.joinVoice 0 openVoice "d" none), .session .connect,
    .session (.authenticate 1 7 "a"), .session (.joinVoice 1 openVoice "c" none),
    .session .connect, .session (.authenticate 2 9 "b"), .voiceMove 2 moveIn 7 "d",
    .session (.leaveVoice 1)]

theorem reachable_after {acts : List VoiceAct} (h : ∀ a ∈ acts, a.Proper) (hv : voiceSystem.Reachable v) :
    voiceSystem.Reachable (acts.foldl VoiceServer.perform v) := by
  induction acts generalizing v with
  | nil => exact hv
  | cons a acts ih =>
    exact ih (fun b hb => h b (mem_cons_of_mem _ hb))
      (.step a hv ⟨h a mem_cons_self, rfl⟩)

/-- The pass is still there, with no session of the user in its channel. -/
theorem pass_without_session :
    voiceSystem.Reachable (.after strayRun) ∧ ¬ (VoiceServer.after strayRun).PassesHeld := by
  constructor
  · refine reachable_after ?_ (.init ⟨8, rfl⟩)
    unfold strayRun
    simp only [List.forall_mem_cons, VoiceAct.Proper]
    exact ⟨trivial, by decide, trivial, rfl, trivial, by decide, rfl, trivial, by decide, rfl,
      trivial, fun _ h => absurd h List.not_mem_nil⟩
  · intro h
    have hnone : ∀ s ∈ (VoiceServer.after strayRun).manager.sessions,
        ¬ (((VoiceServer.after strayRun).manager.session s).uid = 7 ∧
          s ∈ (VoiceServer.after strayRun).manager.voiceChannels "d") := by
      decide
    obtain ⟨s, hs, hin⟩ := h 7 "d" (by decide)
    exact hnone s hs hin

end Decibell
