import Decibell.Community.Sessions

/-!
# Streams of sibling sessions

An account may stream from several of its sessions at once, each in a voice channel of its own.
`KeepsOthers`: what the other sessions stream, who watches it and its thumbnail stay.
-/

namespace Decibell

open Lib Function

/-- What ends a session's stream: its disconnecting, stopping, leaving or joining, or its being
    moved or disconnected. -/
inductive Departure
  | disconnect
  | stopStream (channelId : String)
  | leaveVoice
  | joinVoice (env : VoiceEnv) (targetChannel : String) (capabilities : Option ClientCapabilities)
  | moved (channelId : String)
  | disconnected

namespace SessionManager

variable (st : SessionManager) (s : Nat)

def depart : Departure → SessionManager
  | .disconnect => st.perform (.leave s)
  | .stopStream channelId => st.perform (.stopStream s channelId)
  | .leaveVoice => st.perform (.leaveVoice s)
  | .joinVoice env target caps => st.perform (.joinVoice s env target caps)
  | .moved channelId => st.moveSession s channelId
  | .disconnected => st.disconnectSession s

/-- The streams of the live sessions other than `s`. -/
def othersStreams : List StreamInfo :=
  st.activeStreams.rows.filter fun r => r.owner ∈ st.sessions ∧ r.owner ≠ s

/-- Those of the account of `s`. -/
def siblingStreams : List StreamInfo :=
  (st.othersStreams s).filter (·.uid = (st.session s).uid)

/-- The streams of live sessions but `s` have their watchers, `s` aside, and thumbnails. -/
structure KeepsOthers (st st' : SessionManager) (s : Nat) : Prop where
  streams : st'.othersStreams s = st.othersStreams s
  watchers : ∀ r ∈ st.othersStreams s,
    (st'.streamWatchers r.channelId r.uid).erase s = (st.streamWatchers r.channelId r.uid).erase s
  thumbnails : ∀ r ∈ st.othersStreams s, st'.latestThumbnails r.uid = st.latestThumbnails r.uid

/-! ## When the others are kept -/

def EndsStream (channelId : String) : Prop :=
  ∃ r, st.activeStreams.find? (channelId, (st.session s).uid) = some r ∧ st.mayEnd s r

def stoppedChannel : Departure → String
  | .stopStream channelId => channelId
  | _ => (st.session s).currentVoiceChannel

/-- The departure stops a stream, short of a disconnect. -/
def Stops : Departure → Prop
  | .disconnect => False
  | .stopStream _ | .leaveVoice => st.serves s
  | .joinVoice env target caps =>
    st.serves s ∧ st.MayJoinVoice s env target caps ∧
      (st.session s).currentVoiceChannel ≠ "" ∧ (st.session s).currentVoiceChannel ≠ target
  | .moved channelId =>
    (st.session s).currentVoiceChannel ≠ "" ∧ (st.session s).currentVoiceChannel ≠ channelId
  | .disconnected => (st.session s).currentVoiceChannel ≠ ""

/-- No stream of the session ends; or no sibling streams; or the account has no thumbnail and, if
    the session disconnects, its siblings no other watcher. -/
def SparesSiblings : Departure → Prop
  | .disconnect =>
    s ∈ st.sessions → st.ownsLiveStream s → ∀ r ∈ st.siblingStreams s,
      (st.streamWatchers r.channelId r.uid).erase s = ∅ ∧ st.latestThumbnails r.uid = none
  | d =>
    st.Stops s d → st.EndsStream s (st.stoppedChannel s d) → ∀ r ∈ st.siblingStreams s,
      st.latestThumbnails r.uid = none

variable {st s} {st₁ st₂ : SessionManager}

theorem mem_othersStreams {r : StreamInfo} : r ∈ st.othersStreams s ↔
    r ∈ st.activeStreams.rows ∧ r.owner ∈ st.sessions ∧ r.owner ≠ s := by
  simp [othersStreams]

theorem mem_siblingStreams {r : StreamInfo} : r ∈ st.siblingStreams s ↔
    r ∈ st.othersStreams s ∧ r.uid = (st.session s).uid := by
  simp [siblingStreams]

theorem mayEnd_of_mem_othersStreams {r : StreamInfo} (h : r ∈ st.othersStreams s) :
    st.mayEnd s r = false := by
  obtain ⟨-, hlive, hne⟩ := mem_othersStreams.1 h
  have hlock : st.lock r.owner = some r.owner := if_pos (.inl hlive)
  simp [mayEnd, hlock, hne]

theorem keepsOthers_refl : KeepsOthers st st s := ⟨rfl, fun _ _ => rfl, fun _ _ => rfl⟩

/-! ## Stopping a stream -/

/-- Streams and thumbnails are as before, and watchers, `s` aside. -/
structure SameStreams (s : Nat) (st st' : SessionManager) : Prop where
  sessions : st'.sessions = st.sessions
  activeStreams : st'.activeStreams = st.activeStreams
  streamWatchers : ∀ channelId streamer,
    (st'.streamWatchers channelId streamer).erase s = (st.streamWatchers channelId streamer).erase s
  latestThumbnails : st'.latestThumbnails = st.latestThumbnails

theorem SameStreams.refl : SameStreams s st st := ⟨rfl, rfl, fun _ _ => rfl, rfl⟩

theorem SameStreams.trans (h : SameStreams s st st₁) (h' : SameStreams s st₁ st₂) :
    SameStreams s st st₂ where
  sessions := h'.sessions.trans h.sessions
  activeStreams := h'.activeStreams.trans h.activeStreams
  streamWatchers channelId streamer :=
    (h'.streamWatchers channelId streamer).trans (h.streamWatchers channelId streamer)
  latestThumbnails := h'.latestThumbnails.trans h.latestThumbnails

theorem SameStreams.keepsOthers_iff (h : SameStreams s st₁ st₂) :
    KeepsOthers st st₂ s ↔ KeepsOthers st st₁ s := by
  have hothers : st₂.othersStreams s = st₁.othersStreams s := by
    rw [othersStreams, othersStreams, h.activeStreams, h.sessions]
  constructor
  · intro hk
    refine ⟨hothers ▸ hk.streams, fun r hr => ?_, fun r hr => ?_⟩
    · rw [← h.streamWatchers, hk.watchers r hr]
    · rw [← h.latestThumbnails, hk.thumbnails r hr]
  · intro hk
    refine ⟨hothers.trans hk.streams, fun r hr => ?_, fun r hr => ?_⟩
    · rw [h.streamWatchers, hk.watchers r hr]
    · rw [h.latestThumbnails, hk.thumbnails r hr]

theorem sameStreams_setSession (f : Session → Session) : SameStreams s st (st.setSession s f) :=
  ⟨rfl, rfl, fun _ _ => rfl, rfl⟩

theorem sameStreams_mlsDropIfEmptyLocked (channelId : String) :
    SameStreams s st (st.mlsDropIfEmptyLocked channelId) := by
  unfold mlsDropIfEmptyLocked
  split <;> exact ⟨rfl, rfl, fun _ _ => rfl, rfl⟩

theorem sameStreams_unwatch (channelId : String) : SameStreams s st (st.unwatch s channelId) where
  sessions := rfl
  activeStreams := rfl
  latestThumbnails := rfl
  streamWatchers ch streamer := by
    simp only [unwatch]
    by_cases hch : ch = channelId
    · subst hch
      rw [update_self, Finset.erase_idem]
    · rw [update_of_ne hch]

theorem sameStreams_leaveVoiceChannel (channelId : String) :
    SameStreams s st (st.leaveVoiceChannel s channelId) := by
  unfold leaveVoiceChannel
  split
  · exact .refl
  · have herase : SameStreams s st (st.eraseVoice s channelId) := ⟨rfl, rfl, fun _ _ => rfl, rfl⟩
    exact (herase.trans (sameStreams_mlsDropIfEmptyLocked channelId)).trans
      (sameStreams_unwatch channelId)

theorem sameStreams_joinVoiceChannel (new old : String) :
    SameStreams s st (st.joinVoiceChannel s new old) :=
  (sameStreams_leaveVoiceChannel old).trans ⟨rfl, rfl, fun _ _ => rfl, rfl⟩

theorem stopStream_of_not_endsStream {channelId : String} (h : ¬ st.EndsStream s channelId) :
    st.stopStream s channelId = st := by
  unfold stopStream
  dsimp only
  split
  · rfl
  · rename_i r hr
    exact if_neg fun hmay => h ⟨r, hr, hmay⟩

/-- The session's stream is gone, with watchers and thumbnail. -/
def endStream (st : SessionManager) (s : Nat) (channelId : String) : SessionManager :=
  { st with
    activeStreams := st.activeStreams.deleteWhere (·.key = (channelId, (st.session s).uid))
    streamWatchers := update st.streamWatchers channelId
      (update (st.streamWatchers channelId) (st.session s).uid ∅)
    latestThumbnails := update st.latestThumbnails (st.session s).uid none }

theorem stopStream_of_endsStream {channelId : String} (h : st.EndsStream s channelId) :
    st.stopStream s channelId = st.endStream s channelId := by
  obtain ⟨r, hr, hmay⟩ := h
  simp only [stopStream, hr, hmay, if_true, endStream]

theorem key_ne_of_mem_othersStreams {channelId : String} {r : StreamInfo}
    (h : st.EndsStream s channelId) (hr : r ∈ st.othersStreams s) :
    r.key ≠ (channelId, (st.session s).uid) := by
  obtain ⟨ended, hended, hmay⟩ := h
  obtain ⟨hmem, hkey⟩ := Table.find?_eq_some.1 hended
  intro heq
  have hsame : r = ended := st.activeStreams.eq_of_key (mem_othersStreams.1 hr).1 hmem (heq.trans hkey.symm)
  rw [← hsame, mayEnd_of_mem_othersStreams hr] at hmay
  exact Bool.false_ne_true hmay

/-- Stopping a stream keeps what is others', but for the account's thumbnail. -/
theorem keepsOthers_stopStream_iff (st : SessionManager) (s : Nat) (channelId : String) :
    KeepsOthers st (st.stopStream s channelId) s ↔
      (st.EndsStream s channelId → ∀ r ∈ st.siblingStreams s, st.latestThumbnails r.uid = none) := by
  by_cases hends : st.EndsStream s channelId
  swap
  · rw [stopStream_of_not_endsStream hends]
    exact ⟨fun _ h => absurd h hends, fun _ => keepsOthers_refl⟩
  rw [stopStream_of_endsStream hends]
  constructor
  · intro hk _ r hr
    obtain ⟨hothers, huid⟩ := mem_siblingStreams.1 hr
    rw [← hk.thumbnails r hothers, huid]
    exact update_self ..
  · intro hnone
    refine ⟨?_, fun r hr => ?_, fun r hr => ?_⟩
    · -- Only the stream under its key goes, and that is not of another session.
      refine (List.filter_filter ..).trans (List.filter_congr fun r hmem => ?_)
      by_cases hother : r.owner ∈ st.sessions ∧ r.owner ≠ s
      · have hr : r ∈ st.othersStreams s := mem_othersStreams.2 ⟨hmem, hother⟩
        have hkey := key_ne_of_mem_othersStreams hends hr
        simp [endStream, hother, hkey]
      · simp only [endStream, hother, decide_false, Bool.false_and]
    · have hkey := key_ne_of_mem_othersStreams hends hr
      congr 1
      simp only [endStream]
      by_cases hch : r.channelId = channelId
      · subst hch
        have huid : r.uid ≠ (st.session s).uid := fun huid => hkey (by rw [StreamInfo.key, huid])
        rw [update_self, update_of_ne huid]
      · rw [update_of_ne hch]
    · simp only [endStream]
      by_cases huid : r.uid = (st.session s).uid
      · rw [hnone hends r (mem_siblingStreams.2 ⟨hr, huid⟩), huid, update_self]
      · rw [update_of_ne huid]

/-! ## Disconnecting -/

/-- Disconnecting keeps others' streams, but takes the siblings' watchers and thumbnail along with a
    stream. -/
theorem keepsOthers_leave_iff (st : SessionManager) (s : Nat) :
    KeepsOthers st (st.leave s) s ↔ st.SparesSiblings s .disconnect := by
  by_cases hlive : s ∈ st.sessions
  swap
  · rw [leave, if_pos hlive]
    exact ⟨fun _ h => absurd h hlive, fun _ => keepsOthers_refl⟩
  rw [leave, if_neg (not_not_intro hlive)]
  have hstreams : ∀ r ∈ st.activeStreams.rows,
      (decide (r.owner ∈ st.sessions.erase s ∧ r.owner ≠ s) &&
        ! decide (r.uid = (st.session s).uid ∧ st.mayEnd s r)) =
      decide (r.owner ∈ st.sessions ∧ r.owner ≠ s) := by
    intro r hmem
    by_cases hother : r.owner ∈ st.sessions ∧ r.owner ≠ s
    · have hmay := mayEnd_of_mem_othersStreams (mem_othersStreams.2 ⟨hmem, hother⟩)
      simp [hother, hmay]
    · have herase : ¬ (r.owner ∈ st.sessions.erase s ∧ r.owner ≠ s) :=
        fun h => hother ⟨Finset.mem_of_mem_erase h.1, h.2⟩
      simp only [hother, herase, decide_false, Bool.false_and]
  constructor
  · intro hk _ howns r hr
    obtain ⟨hothers, huid⟩ := mem_siblingStreams.1 hr
    have hwatchers := hk.watchers r hothers
    have hthumbnail := hk.thumbnails r hothers
    simp only [huid, howns, and_self, if_true, update_self] at hwatchers hthumbnail
    rw [huid, ← hwatchers, ← hthumbnail]
    exact ⟨Finset.erase_empty s, rfl⟩
  · intro hspares
    refine ⟨?_, fun r hr => ?_, fun r hr => ?_⟩
    · exact (List.filter_filter ..).trans (List.filter_congr hstreams)
    · dsimp only
      split
      · rename_i hown
        rw [(hspares hlive hown.2 r (mem_siblingStreams.2 ⟨hr, hown.1⟩)).1, Finset.erase_empty]
      · exact Finset.erase_idem
    · dsimp only
      split
      · rename_i howns
        by_cases huid : r.uid = (st.session s).uid
        · rw [(hspares hlive howns r (mem_siblingStreams.2 ⟨hr, huid⟩)).2, huid, update_self]
        · rw [update_of_ne huid]
      · rfl

/-! ## Every departure -/

theorem stopStream_setCapabilities (st : SessionManager) (s : Nat) (caps : Option ClientCapabilities)
    (channelId : String) : (st.setCapabilities s caps).stopStream s channelId =
      (st.stopStream s channelId).setCapabilities s caps := by
  cases caps with
  | none => rfl
  | some caps =>
    have huid : ((st.setCapabilities s (some caps)).session s).uid = (st.session s).uid := by
      simp only [setCapabilities, setSession, update_self]
    by_cases hends : st.EndsStream s channelId
    · have hends' : (st.setCapabilities s (some caps)).EndsStream s channelId := by
        rw [EndsStream, huid]
        exact hends
      rw [stopStream_of_endsStream hends, stopStream_of_endsStream hends', endStream, huid]
      rfl
    · have hends' : ¬ (st.setCapabilities s (some caps)).EndsStream s channelId := by
        rw [EndsStream, huid]
        exact hends
      rw [stopStream_of_not_endsStream hends, stopStream_of_not_endsStream hends']

theorem sameStreams_setCapabilities (caps : Option ClientCapabilities) :
    SameStreams s st (st.setCapabilities s caps) := by
  cases caps with
  | none => exact .refl
  | some caps => exact ⟨rfl, rfl, fun _ _ => rfl, rfl⟩

theorem sameStreams_leaveVoice :
    SameStreams s (st.stopStream s (st.session s).currentVoiceChannel) (st.leaveVoice s) := by
  unfold leaveVoice
  exact (sameStreams_leaveVoiceChannel _).trans (sameStreams_setSession _)

theorem sameStreams_depart (st : SessionManager) (s : Nat) {d : Departure} (hd : d ≠ .disconnect) :
    (st.Stops s d → SameStreams s (st.stopStream s (st.stoppedChannel s d)) (st.depart s d)) ∧
      (¬ st.Stops s d → SameStreams s st (st.depart s d)) := by
  cases d with
  | disconnect => exact absurd rfl hd
  | stopStream channelId =>
    refine ⟨fun h => ?_, fun h => ?_⟩
    · rw [depart, perform, dispatch_of_serves h]
      exact .refl
    · rw [depart, perform, dispatch_of_not_serves h]
      exact .refl
  | leaveVoice =>
    refine ⟨fun h => ?_, fun h => ?_⟩
    · rw [depart, perform, dispatch_of_serves h]
      exact sameStreams_leaveVoice
    · rw [depart, perform, dispatch_of_not_serves h]
      exact .refl
  | joinVoice env target caps =>
    have hmoved : ∀ st₁, SameStreams s st₁ ((st₁.joinVoiceChannel s target
        (st.session s).currentVoiceChannel).setSession s
          ({ · with currentVoiceChannel := target })) :=
      fun st₁ => (sameStreams_joinVoiceChannel _ _).trans (sameStreams_setSession _)
    refine ⟨fun ⟨hserves, hmay, hold⟩ => ?_, fun h => ?_⟩
    · rw [depart, perform, dispatch_of_serves hserves, joinVoice_of_mayJoinVoice _ _ hmay]
      dsimp only
      rw [if_pos hold, stopStream_setCapabilities]
      exact (sameStreams_setCapabilities caps).trans (hmoved _)
    · rw [depart, perform, dispatch]
      split
      swap
      · exact .refl
      rename_i hserves
      by_cases hmay : st.MayJoinVoice s env target caps
      · rw [joinVoice_of_mayJoinVoice _ _ hmay]
        dsimp only
        rw [if_neg fun hold => h ⟨hserves, hmay, hold⟩]
        exact (sameStreams_setCapabilities caps).trans (hmoved _)
      · rw [joinVoice_of_not_mayJoinVoice _ _ hmay]
        exact .refl
  | moved channelId =>
    refine ⟨fun h => ?_, fun h => ?_⟩
    · rw [depart, moveSession, if_neg (not_or.2 h)]
      exact (sameStreams_joinVoiceChannel _ _).trans (sameStreams_setSession _)
    · rw [depart, moveSession, if_pos (Decidable.not_not.1 fun hn => h (not_or.1 hn))]
      exact .refl
  | disconnected =>
    refine ⟨fun h => ?_, fun h => ?_⟩
    · rw [depart, disconnectSession, if_neg h]
      exact sameStreams_leaveVoice
    · rw [depart, disconnectSession, if_pos (Decidable.not_not.1 h)]
      exact .refl

/-- A departing session, in any way and state, keeps the other live sessions' streams, watchers and
    thumbnails exactly when it spares its siblings. -/
theorem keepsOthers_depart_iff (st : SessionManager) (s : Nat) (d : Departure) :
    KeepsOthers st (st.depart s d) s ↔ st.SparesSiblings s d := by
  by_cases hd : d = .disconnect
  · subst hd
    exact keepsOthers_leave_iff st s
  obtain ⟨hstops, hnot⟩ := sameStreams_depart st s hd
  have hspares : st.SparesSiblings s d ↔ (st.Stops s d →
      st.EndsStream s (st.stoppedChannel s d) → ∀ r ∈ st.siblingStreams s,
        st.latestThumbnails r.uid = none) := by
    cases d with
    | disconnect => exact absurd rfl hd
    | _ => exact Iff.rfl
  rw [hspares]
  by_cases h : st.Stops s d
  · rw [(hstops h).keepsOthers_iff, keepsOthers_stopStream_iff]
    exact ⟨fun hk _ => hk, fun hk => hk h⟩
  · rw [(hnot h).keepsOthers_iff]
    exact ⟨fun _ hs => absurd hs h, fun _ => keepsOthers_refl⟩

/-! ## A run -/

def streamIn (channelId : String) : StartStreamRequest :=
  ⟨channelId, true, 30, 1280, 720, .h264Hw, .unknown⟩

/-- An account streams from session 0 and, in another channel, from 1, where somebody watches. -/
def siblingsRun : List SessionAct :=
  [.connect, .connect, .connect, .authenticate 0 1 "a", .authenticate 1 1 "a",
    .authenticate 2 2 "b", .joinVoice 0 .unrestricted "v" none,
    .startStream 0 .unrestricted (streamIn "v"), .joinVoice 1 .unrestricted "w" none,
    .startStream 1 .unrestricted (streamIn "w"), .streamThumbnailUpdate 1 "w" [1],
    .joinVoice 2 .unrestricted "w" none, .watchStream 2 .unrestricted "w" 1]

theorem reachable_foldl {acts : List SessionAct} (h : sessionSystem.Reachable st) :
    sessionSystem.Reachable (acts.foldl perform st) := by
  induction acts generalizing st with
  | nil => exact h
  | cons a acts ih => exact ih (.step a h rfl)

/-- Session 0 disconnects, or stops: session 1 loses its viewer and thumbnail, or its thumbnail. -/
theorem siblings_lose_viewers :
    let st := siblingsRun.foldl perform {}
    sessionSystem.Reachable st ∧ ¬ KeepsOthers st (st.depart 0 .disconnect) 0 ∧
      ¬ KeepsOthers st (st.depart 0 (.stopStream "v")) 0 := by
  refine ⟨reachable_foldl (.init ⟨8, rfl⟩), fun h => ?_, fun h => ?_⟩
  · have hlost : ∃ r ∈ (siblingsRun.foldl perform {}).othersStreams 0,
        (((siblingsRun.foldl perform {}).depart 0 .disconnect).streamWatchers
          r.channelId r.uid).erase 0 ≠
        ((siblingsRun.foldl perform {}).streamWatchers r.channelId r.uid).erase 0 := by
      decide +kernel
    obtain ⟨r, hr, hne⟩ := hlost
    exact hne (h.watchers r hr)
  · have hlost : ∃ r ∈ (siblingsRun.foldl perform {}).othersStreams 0,
        ((siblingsRun.foldl perform {}).depart 0 (.stopStream "v")).latestThumbnails r.uid ≠
        (siblingsRun.foldl perform {}).latestThumbnails r.uid := by
      decide +kernel
    obtain ⟨r, hr, hne⟩ := hlost
    exact hne (h.thumbnails r hr)

end SessionManager
end Decibell
