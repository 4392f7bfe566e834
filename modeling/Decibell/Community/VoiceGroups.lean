import Decibell.Community.Sessions

/-!
# The MLS groups of the voice channels

The sessions in a voice channel share an MLS group, and the server puts its commits in order: each
moves the group to the next epoch, and two that want to move it to the same one cannot both be
accepted. The group goes when the channel is empty.
-/

namespace Decibell

open Lib Function SessionManager List

/-- The session manager; for the record, each channel's epochs since it was empty, latest first. -/
structure GroupRun where
  manager : SessionManager
  accepted : String → List Nat := fun _ => []
  relayed : String → List Nat := fun _ => []

namespace GroupRun

/-- The epochs a request has accepted in a channel: one, or none. -/
def acceptedBy (st : SessionManager) (channelId : String) : SessionAct → List Nat
  | .mlsGroupCreate s id groupInfo =>
    if id = channelId ∧ st.serves s ∧ (st.mlsGroupCreate s id groupInfo).1.success then
      [(st.mlsGroupCreate s id groupInfo).1.epoch]
    else []
  | .mlsCommit s req =>
    if req.channelId = channelId ∧ st.serves s ∧ (st.mlsCommitReq s req).1.success then
      [(st.mlsCommitReq s req).1.epoch]
    else []
  | _ => []

/-- The epochs of the commits a request has relayed in a channel. -/
def relayedBy (st : SessionManager) (channelId : String) : SessionAct → List Nat
  | .mlsCommit s req =>
    if st.serves s then
      ((st.mlsCommitReq s req).2.1.toList.filter (·.channelId = channelId)).map (·.epoch)
    else []
  | _ => []

def perform (r : GroupRun) (a : SessionAct) : GroupRun :=
  let manager := r.manager.perform a
  { manager
    accepted := fun channelId =>
      if manager.voiceChannels channelId = ∅ then []
      else acceptedBy r.manager channelId a ++ r.accepted channelId
    relayed := fun channelId =>
      if manager.voiceChannels channelId = ∅ then []
      else relayedBy r.manager channelId a ++ r.relayed channelId }

end GroupRun

/-- The runs, from a server without sessions. -/
def groupSystem : System GroupRun SessionAct where
  init r := ∃ maxStreamsPerChannel, r = { manager := { maxStreamsPerChannel } }
  step r a r' := r' = r.perform a

namespace GroupRun

/-- A session alone in a channel with a group does not rejoin, and no epoch wraps. -/
def Orderly (r : GroupRun) : SessionAct → Prop
  | .joinVoice s env targetChannel caps =>
    r.manager.serves s → r.manager.MayJoinVoice s env targetChannel caps →
      (r.manager.session s).currentVoiceChannel = targetChannel →
      (r.manager.voiceChannels targetChannel).erase s = ∅ → r.manager.mlsGroups targetChannel = none
  | .mlsCommit _ req =>
    ∀ g, r.manager.mlsGroups req.channelId = some g → req.epoch = (g.epoch + 1) % 2 ^ 64 →
      g.epoch + 1 < 2 ^ 64
  | _ => True

/-- The epochs since the channel was empty are 0, 1, 2, …; all but the first were relayed. -/
def InOrder (r : GroupRun) (channelId : String) : Prop :=
  ∃ n, r.accepted channelId = (List.range n).reverse ∧
    r.relayed channelId = (r.accepted channelId).dropLast

end GroupRun

/-! ## Who is in a channel, and its group -/

namespace SessionManager

variable {st st' st'' : SessionManager}

/-- A group exists only while somebody is in the channel. -/
def GroupsJoined (st : SessionManager) : Prop :=
  ∀ channelId, st.mlsGroups channelId ≠ none → st.voiceChannels channelId ≠ ∅

/-- Only some channels gained sessions; others keep their group while somebody stays. -/
structure Tidy (gains : String → Prop) (st st' : SessionManager) : Prop where
  gained : ∀ channelId, gains channelId → st'.mlsGroups channelId = st.mlsGroups channelId
  shrunk : ∀ channelId, ¬ gains channelId →
    st'.voiceChannels channelId ⊆ st.voiceChannels channelId ∧
      (st'.voiceChannels channelId ≠ ∅ → st'.mlsGroups channelId = st.mlsGroups channelId)

variable {gains : String → Prop}

theorem Tidy.kept (h : Tidy gains st st') {channelId : String}
    (hne : st'.voiceChannels channelId ≠ ∅) : st'.mlsGroups channelId = st.mlsGroups channelId := by
  by_cases hg : gains channelId
  · exact h.gained channelId hg
  · exact (h.shrunk channelId hg).2 hne

theorem Tidy.trans (h : Tidy gains st st') (h' : Tidy gains st' st'') : Tidy gains st st'' where
  gained channelId hg := (h'.gained channelId hg).trans (h.gained channelId hg)
  shrunk channelId hg := by
    obtain ⟨hsub, hkept⟩ := h.shrunk channelId hg
    obtain ⟨hsub', hkept'⟩ := h'.shrunk channelId hg
    refine ⟨hsub'.trans hsub, fun hne => (hkept' hne).trans (hkept fun hempty => hne ?_)⟩
    rw [hempty] at hsub'
    exact Finset.subset_empty.1 hsub'

/-- Nothing about the channels changed. -/
structure SameVoice (st st' : SessionManager) : Prop where
  voiceChannels : st'.voiceChannels = st.voiceChannels
  mlsGroups : st'.mlsGroups = st.mlsGroups

theorem SameVoice.tidy (h : SameVoice st st') : Tidy gains st st' where
  gained channelId _ := by rw [h.mlsGroups]
  shrunk channelId _ := by
    rw [h.voiceChannels, h.mlsGroups]
    exact ⟨Finset.Subset.refl _, fun _ => rfl⟩

theorem SameVoice.groupsJoined (h : SameVoice st st') (hj : st.GroupsJoined) : st'.GroupsJoined := by
  rw [GroupsJoined, h.voiceChannels, h.mlsGroups]
  exact hj

theorem SameVoice.trans (h : SameVoice st st') (h' : SameVoice st' st'') : SameVoice st st'' :=
  ⟨h'.voiceChannels.trans h.voiceChannels, h'.mlsGroups.trans h.mlsGroups⟩

theorem sameVoice_setSession (st : SessionManager) (s : Nat) (f : Session → Session) :
    SameVoice st (st.setSession s f) := ⟨rfl, rfl⟩

theorem sameVoice_stopStream (st : SessionManager) (s : Nat) (channelId : String) :
    SameVoice st (st.stopStream s channelId) := by
  unfold stopStream
  dsimp only
  split
  · exact ⟨rfl, rfl⟩
  split
  · exact ⟨rfl, rfl⟩
  · exact ⟨rfl, rfl⟩

theorem voiceChannels_mlsDropIfEmptyLocked (st : SessionManager) (channelId : String) :
    (st.mlsDropIfEmptyLocked channelId).voiceChannels = st.voiceChannels := by
  unfold mlsDropIfEmptyLocked
  split <;> rfl

theorem mlsGroups_mlsDropIfEmptyLocked (st : SessionManager) (dropped channelId : String) :
    (st.mlsDropIfEmptyLocked dropped).mlsGroups channelId =
      if channelId = dropped ∧ st.voiceChannels channelId = ∅ then none
      else st.mlsGroups channelId := by
  unfold mlsDropIfEmptyLocked
  by_cases hch : channelId = dropped
  · subst hch
    simp only [true_and]
    split
    · exact update_self ..
    · rfl
  · have hne : ¬ (channelId = dropped ∧ st.voiceChannels channelId = ∅) := fun h => hch h.1
    rw [if_neg hne]
    split
    · exact update_of_ne hch ..
    · rfl

theorem voiceChannels_eraseVoice (st : SessionManager) (s : Nat) (erased channelId : String) :
    (st.eraseVoice s erased).voiceChannels channelId =
      if channelId = erased then (st.voiceChannels channelId).erase s
      else st.voiceChannels channelId := by
  by_cases hch : channelId = erased
  · subst hch
    rw [if_pos rfl]
    exact update_self ..
  · rw [if_neg hch]
    exact update_of_ne hch ..

theorem voiceChannels_leaveVoiceChannel (st : SessionManager) (s : Nat) (current channelId : String) :
    (st.leaveVoiceChannel s current).voiceChannels channelId =
      if channelId = current ∧ current ≠ "" then (st.voiceChannels channelId).erase s
      else st.voiceChannels channelId := by
  unfold leaveVoiceChannel
  by_cases hcur : current = ""
  · rw [if_pos hcur, if_neg fun h => h.2 hcur]
  · rw [if_neg hcur, unwatch]
    simp only [voiceChannels_mlsDropIfEmptyLocked, voiceChannels_eraseVoice, ne_eq, hcur,
      not_false_eq_true, and_true]

theorem mlsGroups_leaveVoiceChannel (st : SessionManager) (s : Nat) (current channelId : String) :
    (st.leaveVoiceChannel s current).mlsGroups channelId =
      if channelId = current ∧ current ≠ "" ∧ (st.voiceChannels channelId).erase s = ∅ then none
      else st.mlsGroups channelId := by
  unfold leaveVoiceChannel
  by_cases hcur : current = ""
  · rw [if_pos hcur, if_neg fun h => h.2.1 hcur]
  · rw [if_neg hcur, unwatch]
    simp only [mlsGroups_mlsDropIfEmptyLocked, voiceChannels_eraseVoice, ne_eq, hcur,
      not_false_eq_true, true_and]
    by_cases hch : channelId = current
    · simp only [if_pos hch, eraseVoice]
    · rw [if_neg fun h => hch h.1, if_neg fun h => hch h.1, eraseVoice]

theorem tidy_leaveVoiceChannel (gains : String → Prop) (st : SessionManager) (s : Nat) {current : String}
    (hgains : ¬ gains current) : Tidy gains st (st.leaveVoiceChannel s current) where
  gained channelId hg := by
    rw [mlsGroups_leaveVoiceChannel, if_neg]
    rintro ⟨rfl, _⟩
    exact hgains hg
  shrunk channelId _ := by
    rw [voiceChannels_leaveVoiceChannel, mlsGroups_leaveVoiceChannel]
    by_cases hcur : channelId = current ∧ current ≠ ""
    · rw [if_pos hcur]
      refine ⟨Finset.erase_subset _ _, fun hne => if_neg ?_⟩
      rintro ⟨_, _, hempty⟩
      exact hne hempty
    · rw [if_neg hcur]
      exact ⟨Finset.Subset.refl _, fun _ => if_neg fun h => hcur ⟨h.1, h.2.1⟩⟩

theorem groupsJoined_leaveVoiceChannel (h : st.GroupsJoined) (s : Nat) (current : String) :
    (st.leaveVoiceChannel s current).GroupsJoined := by
  intro channelId hg
  rw [mlsGroups_leaveVoiceChannel] at hg
  rw [voiceChannels_leaveVoiceChannel]
  split at hg
  · exact absurd rfl hg
  · rename_i hne
    split
    · rename_i hcur
      exact fun hempty => hne ⟨hcur.1, hcur.2, hempty⟩
    · exact h channelId hg

theorem voiceChannels_joinVoiceChannel (st : SessionManager) (s : Nat) (new old channelId : String) :
    (st.joinVoiceChannel s new old).voiceChannels channelId =
      if channelId = new then insert s ((st.leaveVoiceChannel s old).voiceChannels channelId)
      else (st.leaveVoiceChannel s old).voiceChannels channelId := by
  unfold joinVoiceChannel
  by_cases hch : channelId = new
  · subst hch
    rw [if_pos rfl]
    exact update_self ..
  · rw [if_neg hch]
    exact update_of_ne hch ..

/-- Joining keeps a channel's group, unless the session was alone in it. -/
theorem tidy_joinVoiceChannel (st : SessionManager) (s : Nat) {new old : String}
    (h : old = new → (st.voiceChannels new).erase s = ∅ → st.mlsGroups new = none) :
    Tidy (· = new) st (st.joinVoiceChannel s new old) where
  gained channelId hch := by
    subst hch
    refine (mlsGroups_leaveVoiceChannel st s old channelId).trans ?_
    split
    · rename_i hold
      exact (h hold.1.symm hold.2.2).symm
    · rfl
  shrunk channelId hch := by
    rw [voiceChannels_joinVoiceChannel, if_neg hch]
    exact (tidy_leaveVoiceChannel (fun _ => False) st s id).shrunk channelId id

theorem groupsJoined_joinVoiceChannel (h : st.GroupsJoined) (s : Nat) (new old : String) :
    (st.joinVoiceChannel s new old).GroupsJoined := by
  intro channelId hg
  rw [voiceChannels_joinVoiceChannel]
  split
  · exact Finset.insert_ne_empty _ _
  · exact groupsJoined_leaveVoiceChannel h s old channelId hg

theorem tidy_leave (st : SessionManager) (s : Nat) : Tidy (fun _ => False) st (st.leave s) where
  gained _ hg := hg.elim
  shrunk channelId _ := by
    unfold leave
    split
    · exact ⟨Finset.Subset.refl _, fun _ => rfl⟩
    · exact ⟨Finset.erase_subset _ _, fun hne => if_neg fun h => hne h.2⟩

theorem groupsJoined_leave (h : st.GroupsJoined) (s : Nat) : (st.leave s).GroupsJoined := by
  intro channelId
  unfold leave
  split
  · exact h channelId
  · dsimp only
    split
    · exact fun hg => absurd rfl hg
    · rename_i hne
      exact fun hg hempty => hne ⟨h channelId hg, hempty⟩

/-! ## What the requests do to the channels -/

theorem tidy_leaveVoice (st : SessionManager) (s : Nat) :
    Tidy (fun _ => False) st (st.leaveVoice s) := by
  unfold leaveVoice
  generalize (st.session s).currentVoiceChannel = current
  exact (sameVoice_stopStream st s current).tidy.trans
    ((tidy_leaveVoiceChannel _ _ s id).trans (sameVoice_setSession _ s _).tidy)

theorem groupsJoined_leaveVoice (h : st.GroupsJoined) (s : Nat) :
    (st.leaveVoice s).GroupsJoined := by
  unfold leaveVoice
  generalize (st.session s).currentVoiceChannel = current
  exact (sameVoice_setSession _ s _).groupsJoined
    (groupsJoined_leaveVoiceChannel ((sameVoice_stopStream st s current).groupsJoined h) s current)

theorem tidy_move (st : SessionManager) (s : Nat) {new old : String}
    {st₁ : SessionManager} (h₁ : SameVoice st st₁) (f : Session → Session)
    (h : old = new → (st.voiceChannels new).erase s = ∅ → st.mlsGroups new = none) :
    Tidy (· = new) st ((st₁.joinVoiceChannel s new old).setSession s f) := by
  refine h₁.tidy.trans ((tidy_joinVoiceChannel st₁ s ?_).trans (sameVoice_setSession _ s f).tidy)
  rw [h₁.voiceChannels, h₁.mlsGroups]
  exact h

theorem groupsJoined_move (h : st.GroupsJoined) (s : Nat) {new old : String}
    {st₁ : SessionManager} (h₁ : SameVoice st st₁) (f : Session → Session) :
    ((st₁.joinVoiceChannel s new old).setSession s f).GroupsJoined :=
  (sameVoice_setSession _ s f).groupsJoined
    (groupsJoined_joinVoiceChannel (h₁.groupsJoined h) s new old)

theorem joinVoice_cases (st : SessionManager) (s : Nat) (env : VoiceEnv) (target : String)
    (caps : Option ClientCapabilities) : st.joinVoice s env target caps = st ∨
      ∃ st₁, SameVoice st st₁ ∧ st.MayJoinVoice s env target caps ∧
        st.joinVoice s env target caps =
          (st₁.joinVoiceChannel s target (st.session s).currentVoiceChannel).setSession s
            ({ · with currentVoiceChannel := target }) := by
  by_cases h : st.MayJoinVoice s env target caps
  swap
  · exact .inl (st.joinVoice_of_not_mayJoinVoice s h)
  refine .inr ⟨_, ?_, h, st.joinVoice_of_mayJoinVoice s h⟩
  have hcaps : SameVoice st (st.setCapabilities s caps) := by
    cases caps <;> exact ⟨rfl, rfl⟩
  split
  · exact hcaps.trans (sameVoice_stopStream _ s _)
  · exact hcaps

theorem tidy_foldl {f : SessionManager → Nat → SessionManager}
    (h : ∀ st s, Tidy gains st (f st s)) (l : List Nat) (st : SessionManager) :
    Tidy gains st (l.foldl f st) := by
  induction l generalizing st with
  | nil => exact SameVoice.tidy ⟨rfl, rfl⟩
  | cons s l ih => exact (h st s).trans (ih (f st s))

theorem groupsJoined_foldl {f : SessionManager → Nat → SessionManager}
    (h : ∀ st s, st.GroupsJoined → (f st s).GroupsJoined) (l : List Nat) (hj : st.GroupsJoined) :
    (l.foldl f st).GroupsJoined := by
  induction l generalizing st with
  | nil => exact hj
  | cons s l ih => exact ih (h st s hj)

theorem tidy_moveToVoiceChannel (st : SessionManager) (uid : Uid) (channelId : String) :
    Tidy (· = channelId) st (st.moveToVoiceChannel uid channelId) := by
  refine tidy_foldl (fun st s => ?_) _ st
  unfold moveSession
  dsimp only
  split
  · exact SameVoice.tidy ⟨rfl, rfl⟩
  · rename_i hold
    exact tidy_move st s (sameVoice_stopStream st s _) _ fun h => absurd (.inr h) hold

theorem groupsJoined_moveToVoiceChannel (h : st.GroupsJoined) (uid : Uid) (channelId : String) :
    (st.moveToVoiceChannel uid channelId).GroupsJoined := by
  refine groupsJoined_foldl (fun st s hj => ?_) _ h
  unfold moveSession
  dsimp only
  split
  · exact hj
  · exact groupsJoined_move hj s (sameVoice_stopStream st s _) _

theorem tidy_disconnectFromVoice (st : SessionManager) (uid : Uid) :
    Tidy (fun _ => False) st (st.disconnectFromVoice uid) := by
  refine tidy_foldl (fun st s => ?_) _ st
  unfold disconnectSession
  split
  · exact SameVoice.tidy ⟨rfl, rfl⟩
  · exact tidy_leaveVoice st s

theorem groupsJoined_disconnectFromVoice (h : st.GroupsJoined) (uid : Uid) :
    (st.disconnectFromVoice uid).GroupsJoined := by
  refine groupsJoined_foldl (fun st s hj => ?_) _ h
  unfold disconnectSession
  split
  · exact hj
  · exact groupsJoined_leaveVoice hj s

/-- Stream requests, and new connections, leave the channels alone. -/
def aboutGroups : SessionAct → Bool
  | .leave _ | .joinVoice .. | .leaveVoice _ | .mlsGroupCreate .. | .mlsCommit .. |
    .moveToVoiceChannel .. | .disconnectFromVoice _ => true
  | _ => false

theorem sameVoice_dispatch {s : Nat} (h : SameVoice st st') : SameVoice st (st.dispatch s st') := by
  unfold dispatch
  split
  · exact h
  · exact ⟨rfl, rfl⟩

theorem sameVoice_perform {a : SessionAct} (h : aboutGroups a = false) :
    SameVoice st (st.perform a) := by
  cases a with
  | connect => exact ⟨rfl, rfl⟩
  | authenticate s uid username =>
    rw [perform, authenticate]
    split
    · exact ⟨rfl, rfl⟩
    · exact ⟨rfl, rfl⟩
  | destroy s => exact ⟨rfl, rfl⟩
  | startStream s env req =>
    refine sameVoice_dispatch ?_
    unfold startStreamReq startStream
    dsimp only
    split
    · exact ⟨rfl, rfl⟩
    split
    · exact ⟨rfl, rfl⟩
    split
    · exact ⟨rfl, rfl⟩
    · exact ⟨rfl, rfl⟩
  | stopStream s channelId => exact sameVoice_dispatch (sameVoice_stopStream st s channelId)
  | watchStream s env channelId streamer =>
    refine sameVoice_dispatch ?_
    unfold watchStream
    dsimp only
    split
    · exact ⟨rfl, rfl⟩
    split
    · exact ⟨rfl, rfl⟩
    split
    · exact ⟨rfl, rfl⟩
    split
    · exact ⟨rfl, rfl⟩
    · exact ⟨rfl, rfl⟩
  | stopWatching s channelId streamer =>
    refine sameVoice_dispatch ?_
    unfold stopWatching
    split
    · exact ⟨rfl, rfl⟩
    · exact ⟨rfl, rfl⟩
  | streamThumbnailUpdate s channelId thumbnail =>
    refine sameVoice_dispatch ?_
    unfold streamThumbnailUpdate
    dsimp only
    split
    · exact ⟨rfl, rfl⟩
    · exact ⟨rfl, rfl⟩
  | streamCodecChanged s channelId streamer codec width height fps =>
    refine sameVoice_dispatch ?_
    unfold handleStreamCodecChanged
    split
    · exact ⟨rfl, rfl⟩
    · exact ⟨rfl, rfl⟩
  | renamed uid name => exact ⟨rfl, rfl⟩
  | leave | joinVoice | leaveVoice | mlsGroupCreate | mlsCommit | moveToVoiceChannel
  | disconnectFromVoice => cases h

def putGroup (st : SessionManager) (channelId : String) (g : MlsGroupState) : SessionManager :=
  { st with mlsGroups := update st.mlsGroups channelId (some g) }

theorem mlsGroups_putGroup (st : SessionManager) (id : String) (g : MlsGroupState)
    (channelId : String) : (st.putGroup id g).mlsGroups channelId =
      if channelId = id then some g else st.mlsGroups channelId := by
  simp only [putGroup, update_apply]

/-- A group's creation does nothing, or it is there at epoch 0. -/
inductive GroupCreated (st : SessionManager) (s : Nat) (channelId : String) :
    MlsCommitRes → SessionManager → Prop
  | refused (message : String) (epoch : Nat) :
    GroupCreated st s channelId ⟨false, message, epoch⟩ st
  | created (g : MlsGroupState) (hin : s ∈ st.voiceChannels channelId)
    (hnone : st.mlsGroups channelId = none) (hepoch : g.epoch = 0) :
    GroupCreated st s channelId ⟨true, "", 0⟩ (st.putGroup channelId g)

theorem groupCreated {s : Nat} {channelId : String} {groupInfo : Bytes} {res : MlsCommitRes}
    (h : st.mlsGroupCreate s channelId groupInfo = (res, st')) :
    GroupCreated st s channelId res st' := by
  unfold mlsGroupCreate mlsCreate at h
  split at h
  · cases h
    exact .refused _ _
  rename_i hin
  split at h
  · cases h
    exact .refused _ _
  cases hg : st.mlsGroups channelId with
  | some g =>
    rw [hg] at h
    cases h
    exact .refused _ _
  | none =>
    rw [hg] at h
    cases h
    exact .created _ (by simpa [isInVoiceChannel] using hin) hg rfl

/-- A commit does nothing, or is relayed at the next epoch. -/
inductive Committed (st : SessionManager) (s : Nat) (req : MlsCommitReq) :
    MlsCommitRes → Option MlsCommitBroadcast → SessionManager → Prop
  | refused (message : String) (epoch : Nat) :
    Committed st s req ⟨false, message, epoch⟩ none st
  | accepted (g g' : MlsGroupState) (b : MlsCommitBroadcast)
    (hin : s ∈ st.voiceChannels req.channelId) (hg : st.mlsGroups req.channelId = some g)
    (hreq : g'.epoch = req.epoch) (hepoch : req.epoch = (g.epoch + 1) % 2 ^ 64) (hchannel : b.channelId = req.channelId)
    (hrelayed : b.epoch = g'.epoch) :
    Committed st s req ⟨true, "", g'.epoch⟩ (some b) (st.putGroup req.channelId g')

theorem committed {s : Nat} {req : MlsCommitReq} {res : MlsCommitRes}
    {broadcast : Option MlsCommitBroadcast}
    (h : st.mlsCommitReq s req = (res, broadcast, st')) :
    Committed st s req res broadcast st' := by
  unfold mlsCommitReq mlsCommit at h
  split at h
  · cases h
    exact .refused _ _
  rename_i hin
  split at h
  · cases h
    exact .refused _ _
  cases hg : st.mlsGroups req.channelId with
  | none =>
    rw [hg] at h
    cases h
    exact .refused _ _
  | some g =>
    rw [hg] at h
    dsimp only at h
    by_cases hepoch : req.epoch ≠ (g.epoch + 1) % 2 ^ 64
    · rw [if_pos hepoch] at h
      cases h
      exact .refused _ _
    · rw [if_neg hepoch] at h
      cases h
      exact .accepted g ⟨req.epoch, if req.groupInfo.isEmpty then g.groupInfo else req.groupInfo⟩ _
        (by simpa [isInVoiceChannel] using hin) hg rfl (Decidable.not_not.1 hepoch) rfl rfl

end SessionManager

/-! ## The epochs of a run -/

namespace GroupRun

variable {r : GroupRun}

/-- The epochs of a group, the last one first. -/
def epochsOf : Option MlsGroupState → List Nat
  | none => []
  | some g => (List.range (g.epoch + 1)).reverse

/-- What holds in every state of an orderly run. -/
structure Ok (r : GroupRun) : Prop where
  joined : r.manager.GroupsJoined
  accepted : ∀ channelId, r.accepted channelId = epochsOf (r.manager.mlsGroups channelId)
  relayed : ∀ channelId, r.relayed channelId = (epochsOf (r.manager.mlsGroups channelId)).dropLast

theorem ok_of_tidy (gains : String → Prop) {a : SessionAct} (h : Ok r)
    (htidy : Tidy gains r.manager (r.manager.perform a))
    (hjoined : (r.manager.perform a).GroupsJoined)
    (haccepted : ∀ channelId, acceptedBy r.manager channelId a = [])
    (hrelayed : ∀ channelId, relayedBy r.manager channelId a = []) : Ok (r.perform a) := by
  refine ⟨hjoined, fun channelId => ?_, fun channelId => ?_⟩
  all_goals
    by_cases hempty : (r.manager.perform a).voiceChannels channelId = ∅
    · have hnone : (r.manager.perform a).mlsGroups channelId = none := by
        by_contra hg
        exact hjoined channelId hg hempty
      simp only [perform, if_pos hempty, hnone, epochsOf, dropLast_nil]
    · simp only [perform, if_neg hempty, haccepted, hrelayed, nil_append, htidy.kept hempty,
        h.accepted, h.relayed]

theorem ok_of_accepted {a : SessionAct} {id : String} {g : MlsGroupState} (h : Ok r)
    (hne : r.manager.voiceChannels id ≠ ∅)
    (hperform : r.manager.perform a = r.manager.putGroup id g)
    (haccepted : acceptedBy r.manager id a ++ r.accepted id = epochsOf (some g))
    (hrelayed : relayedBy r.manager id a ++ r.relayed id = (epochsOf (some g)).dropLast)
    (hother : ∀ channelId ≠ id,
      acceptedBy r.manager channelId a = [] ∧ relayedBy r.manager channelId a = []) :
    Ok (r.perform a) := by
  have hjoined : (r.manager.perform a).GroupsJoined := by
    rw [hperform]
    intro channelId hg
    by_cases hch : channelId = id
    · exact hch ▸ hne
    · rw [mlsGroups_putGroup, if_neg hch] at hg
      exact h.joined channelId hg
  have hmembers : ∀ channelId,
      (r.manager.putGroup id g).voiceChannels channelId = r.manager.voiceChannels channelId :=
    fun _ => rfl
  refine ⟨hjoined, fun channelId => ?_, fun channelId => ?_⟩
  all_goals
    by_cases hch : channelId = id
    · subst hch
      simp only [perform, hperform, hmembers, if_neg hne, mlsGroups_putGroup, if_true, haccepted,
        hrelayed]
    · obtain ⟨hacc, hrel⟩ := hother channelId hch
      simp only [perform, hperform, hmembers, hacc, hrel, nil_append, mlsGroups_putGroup,
        if_neg hch]
      by_cases hempty : r.manager.voiceChannels channelId = ∅
      · have hnone : r.manager.mlsGroups channelId = none := by
          by_contra hg
          exact h.joined channelId hg hempty
        simp only [if_pos hempty, hnone, epochsOf, dropLast_nil]
      · simp only [if_neg hempty, h.accepted, h.relayed]

theorem ok_same {a : SessionAct} (h : Ok r) (hsame : SameVoice r.manager (r.manager.perform a))
    (haccepted : ∀ channelId, acceptedBy r.manager channelId a = [])
    (hrelayed : ∀ channelId, relayedBy r.manager channelId a = []) : Ok (r.perform a) :=
  ok_of_tidy (fun _ => False) h hsame.tidy (hsame.groupsJoined h.joined) haccepted hrelayed

theorem ok_mlsGroupCreate (h : Ok r) (s : Nat) (channelId : String) (groupInfo : Bytes) :
    Ok (r.perform (.mlsGroupCreate s channelId groupInfo)) := by
  by_cases hserves : r.manager.serves s = true
  swap
  · refine ok_same h ?_ (fun id => if_neg fun h => hserves h.2.1) fun _ => rfl
    rw [SessionManager.perform, dispatch_of_not_serves hserves]
    exact ⟨rfl, rfl⟩
  obtain ⟨⟨res, st'⟩, hreq⟩ : ∃ p, r.manager.mlsGroupCreate s channelId groupInfo = p := ⟨_, rfl⟩
  have hperform : r.manager.perform (.mlsGroupCreate s channelId groupInfo) = st' := by
    rw [SessionManager.perform, dispatch_of_serves hserves, hreq]
  have hacc : ∀ id, acceptedBy r.manager id (.mlsGroupCreate s channelId groupInfo) =
      if channelId = id ∧ res.success then [res.epoch] else [] := by
    intro id
    simp only [acceptedBy, hreq, hserves, true_and]
  have hcreated := groupCreated hreq
  clear hreq
  cases hcreated with
  | refused message epoch =>
    exact ok_same h (hperform.symm ▸ ⟨rfl, rfl⟩) (fun id => by simp [hacc]) fun _ => rfl
  | created g hin hnone hepoch =>
    refine ok_of_accepted h (Finset.ne_empty_of_mem hin) hperform ?_ ?_ fun id hne => ?_
    · rw [hacc, h.accepted, hnone, if_pos ⟨rfl, rfl⟩, epochsOf, epochsOf, hepoch]
      rfl
    · rw [h.relayed, hnone, epochsOf, epochsOf, hepoch]
      rfl
    · rw [hacc, if_neg fun h => hne h.1.symm]
      exact ⟨rfl, rfl⟩

theorem ok_mlsCommit (h : Ok r) (s : Nat) (req : MlsCommitReq)
    (hbound : ∀ g, r.manager.mlsGroups req.channelId = some g →
      req.epoch = (g.epoch + 1) % 2 ^ 64 → g.epoch + 1 < 2 ^ 64) :
    Ok (r.perform (.mlsCommit s req)) := by
  by_cases hserves : r.manager.serves s = true
  swap
  · refine ok_same h ?_ (fun id => if_neg fun h => hserves h.2.1) fun _ => if_neg hserves
    rw [SessionManager.perform, dispatch_of_not_serves hserves]
    exact ⟨rfl, rfl⟩
  obtain ⟨⟨res, broadcast, st'⟩, hreq⟩ : ∃ p, r.manager.mlsCommitReq s req = p := ⟨_, rfl⟩
  have hperform : r.manager.perform (.mlsCommit s req) = st' := by
    rw [SessionManager.perform, dispatch_of_serves hserves, hreq]
  have hacc : ∀ id, acceptedBy r.manager id (.mlsCommit s req) =
      if req.channelId = id ∧ res.success then [res.epoch] else [] := by
    intro id
    simp only [acceptedBy, hreq, hserves, true_and]
  have hrel : ∀ id, relayedBy r.manager id (.mlsCommit s req) =
      (broadcast.toList.filter (·.channelId = id)).map (·.epoch) := by
    intro id
    simp only [relayedBy, hreq, hserves, if_true]
  have hcommitted := committed hreq
  clear hreq
  cases hcommitted with
  | refused message epoch =>
    exact ok_same h (hperform.symm ▸ ⟨rfl, rfl⟩) (fun id => by simp [hacc]) fun id => by simp [hrel]
  | accepted g g' b hin hg hreq hepoch hchannel hrelayed =>
    have hnext : g'.epoch = g.epoch + 1 := by
      rw [hreq, hepoch, Nat.mod_eq_of_lt (hbound g hg hepoch)]
    have hrange : epochsOf (some g') = g'.epoch :: epochsOf (some g) := by
      rw [epochsOf, epochsOf, hnext, range_succ, reverse_append]
      rfl
    have hcons : epochsOf (some g) ≠ [] := by
      rw [epochsOf, range_succ, reverse_append]
      exact cons_ne_nil _ _
    refine ok_of_accepted h (Finset.ne_empty_of_mem hin) hperform ?_ ?_ fun id hne => ?_
    · rw [hacc, h.accepted, hg, if_pos ⟨rfl, rfl⟩, hrange]
      rfl
    · rw [hrel, h.relayed, hg, hrange, dropLast_cons_of_ne_nil hcons]
      simp [hchannel, hrelayed]
    · have hid : b.channelId ≠ id := fun heq => hne (heq.symm.trans hchannel)
      refine ⟨?_, ?_⟩
      · rw [hacc, if_neg fun h => hne h.1.symm]
      · rw [hrel]
        simp [hid]

theorem ok_step (h : Ok r) (a : SessionAct) (ha : Orderly r a) : Ok (r.perform a) := by
  cases a with
  | leave s =>
    exact ok_of_tidy _ h (tidy_leave r.manager s) (groupsJoined_leave h.joined s) (fun _ => rfl)
      fun _ => rfl
  | joinVoice s env target caps =>
    by_cases hserves : r.manager.serves s = true
    swap
    · refine ok_same h ?_ (fun _ => rfl) fun _ => rfl
      rw [SessionManager.perform, dispatch_of_not_serves hserves]
      exact ⟨rfl, rfl⟩
    have hperform : r.manager.perform (.joinVoice s env target caps) =
        r.manager.joinVoice s env target caps := if_pos hserves
    rcases joinVoice_cases r.manager s env target caps with hsame | ⟨st₁, h₁, hmay, hmove⟩
    · refine ok_same h ?_ (fun _ => rfl) fun _ => rfl
      rw [hperform, hsame]
      exact ⟨rfl, rfl⟩
    · refine ok_of_tidy (· = target) h ?_ ?_ (fun _ => rfl) fun _ => rfl
      · rw [hperform, hmove]
        exact tidy_move r.manager s h₁ _ (ha hserves hmay)
      · rw [hperform, hmove]
        exact groupsJoined_move h.joined s h₁ _
  | leaveVoice s =>
    by_cases hserves : r.manager.serves s = true
    · have hperform : r.manager.perform (.leaveVoice s) = r.manager.leaveVoice s := if_pos hserves
      refine ok_of_tidy (fun _ => False) h ?_ ?_ (fun _ => rfl) fun _ => rfl
      · rw [hperform]
        exact tidy_leaveVoice r.manager s
      · rw [hperform]
        exact groupsJoined_leaveVoice h.joined s
    · refine ok_same h ?_ (fun _ => rfl) fun _ => rfl
      rw [SessionManager.perform, dispatch_of_not_serves hserves]
      exact ⟨rfl, rfl⟩
  | mlsGroupCreate s channelId groupInfo => exact ok_mlsGroupCreate h s channelId groupInfo
  | mlsCommit s req => exact ok_mlsCommit h s req ha
  | moveToVoiceChannel uid channelId =>
    exact ok_of_tidy _ h (tidy_moveToVoiceChannel r.manager uid channelId)
      (groupsJoined_moveToVoiceChannel h.joined uid channelId) (fun _ => rfl) fun _ => rfl
  | disconnectFromVoice uid =>
    exact ok_of_tidy _ h (tidy_disconnectFromVoice r.manager uid)
      (groupsJoined_disconnectFromVoice h.joined uid) (fun _ => rfl) fun _ => rfl
  | _ => exact ok_same h (sameVoice_perform rfl) (fun _ => rfl) fun _ => rfl

theorem ok_of_reachable (h : (groupSystem.given Orderly).Reachable r) : Ok r := by
  refine System.reachable_invariant (I := Ok) ?_ ?_ h
  · rintro r ⟨_, rfl⟩
    exact ⟨fun _ hg => absurd rfl hg, fun _ => rfl, fun _ => rfl⟩
  · rintro r a r' hok ⟨rfl, ha⟩
    exact ok_step hok a ha

theorem epochsOf_eq_nil {g : Option MlsGroupState} : epochsOf g = [] ↔ g = none := by
  cases g with
  | none => exact ⟨fun _ => rfl, fun _ => rfl⟩
  | some g =>
    refine ⟨fun h => ?_, nofun⟩
    rw [epochsOf, reverse_eq_nil_iff, range_eq_nil] at h
    exact absurd h (Nat.succ_ne_zero _)

/-- A channel's commits are in order, as long as nobody alone in it joins again: a group has
    somebody in its channel, accepted and relayed epochs follow each other from 0, and a group stays
    while somebody does. -/
theorem epochs_in_order (h : (groupSystem.given Orderly).Reachable r) :
    r.manager.GroupsJoined ∧ (∀ channelId, InOrder r channelId) ∧
      ∀ a, Orderly r a → ∀ channelId, r.manager.mlsGroups channelId ≠ none →
        (r.perform a).manager.voiceChannels channelId ≠ ∅ →
        (r.perform a).manager.mlsGroups channelId ≠ none := by
  have hok := ok_of_reachable h
  refine ⟨hok.joined, fun channelId => ?_, fun a ha channelId hg hne hnone => ?_⟩
  · rw [InOrder, hok.relayed, hok.accepted]
    cases r.manager.mlsGroups channelId with
    | none => exact ⟨0, rfl, rfl⟩
    | some g => exact ⟨g.epoch + 1, rfl, rfl⟩
  · have hlater := (ok_step hok a ha).accepted channelId
    have hne' : (r.manager.perform a).voiceChannels channelId ≠ ∅ := hne
    rw [hnone, epochsOf] at hlater
    simp only [perform, if_neg hne', List.append_eq_nil_iff] at hlater
    rw [hok.accepted, epochsOf_eq_nil] at hlater
    exact hg hlater.2

/-! ## Two runs -/

/-- The state after some requests. -/
def after (acts : List SessionAct) : GroupRun := acts.foldl perform { manager := {} }

def created : List SessionAct :=
  [.connect, .authenticate 0 1 "a", .joinVoice 0 .unrestricted "v" none, .mlsGroupCreate 0 "v" [1]]

theorem reachable_created : (groupSystem.given Orderly).Reachable (after created) := by
  refine .step (.mlsGroupCreate 0 "v" [1]) (.step (.joinVoice 0 .unrestricted "v" none)
    (.step (.authenticate 0 1 "a") (.step .connect (.init ⟨8, rfl⟩) ⟨rfl, trivial⟩)
      ⟨rfl, trivial⟩) ⟨rfl, ?_⟩) ⟨rfl, trivial⟩
  exact fun _ _ h => absurd h (by decide)

/-- One commit in a channel with a single session. -/
theorem epochs_in_order_commit :
    InOrder (after (created ++ [.mlsCommit 0 ⟨"v", 1, [1], []⟩])) "v" := by
  refine (epochs_in_order (.step (.mlsCommit 0 ⟨"v", 1, [1], []⟩) reachable_created
    ⟨rfl, fun g hg _ => ?_⟩)).2.1 "v"
  cases hg
  decide

/-- The session joins its channel again: the group is gone, and epoch 0 accepted once more. -/
theorem rejoin_drops_group :
    (∀ acts, groupSystem.Reachable (after acts)) ∧
      (after created).manager.mlsGroups "v" ≠ none ∧
      (after (created ++ [.joinVoice 0 .unrestricted "v" none])).manager.voiceChannels "v" = {0} ∧
      (after (created ++ [.joinVoice 0 .unrestricted "v" none])).manager.mlsGroups "v" = none ∧
      (after (created ++ [.joinVoice 0 .unrestricted "v" none,
        .mlsGroupCreate 0 "v" [1]])).accepted "v" = [0, 0] := by
  refine ⟨fun acts => ?_, nofun, by decide, rfl, by decide⟩
  have hfold : ∀ (acts : List SessionAct) (r : GroupRun), groupSystem.Reachable r →
      groupSystem.Reachable (acts.foldl perform r) := by
    intro acts
    induction acts with
    | nil => exact fun r hr => hr
    | cons a acts ih => exact fun r hr => ih _ (.step a hr rfl)
  exact hfold acts _ (.init ⟨8, rfl⟩)

end GroupRun
end Decibell
