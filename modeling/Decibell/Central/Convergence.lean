import Decibell.Central.Watching

/-!
# Presence converges

What a connection was last told of an account that it watches is how the account is, once everything
that is on its way has arrived: its status, its message, its name and its picture when it is
visible; offline, with the stored picture, otherwise.
-/

namespace Decibell.Central

open Function Lib List SessionManager

/-! ## Answers -/

section Answers

variable {d : SessionManager} {stored : Int → String} {x target : Int} {t : Told}
  {part : PresenceUpdate}

/-- The account, when it is signed in and visible. -/
def SessionManager.shownAccount (d : SessionManager) (x : Int) : Option Account :=
  (d.accounts x).filter (·.presence.visible)

/-- The picture that an answer gives an account. -/
def SessionManager.answeredVersion (d : SessionManager) (stored : Int → String) (x : Int) : String :=
  match d.accounts x with
  | some other => other.presence.avatarVersion
  | none => stored x

/-- What is told of an account once it is answered. -/
def answered (d : SessionManager) (stored : Int → String) (x : Int) (t : Told) : Told :=
  match d.shownAccount x with
  | some other => Told.shown (fillPresence x other.presence)
  | none => { t with status := none, avatarVersion := d.answeredVersion stored x }

/-- A part of an answer says how the accounts are that it covers, only those. -/
structure Covers (d : SessionManager) (stored : Int → String) (part : PresenceUpdate) : Prop where
  users : ∀ x, part.users.find? (·.uid = x) = if x ∈ part.coveredUids then
    (d.shownAccount x).map fun other => fillPresence x other.presence else none
  avatars : ∀ x, part.avatars.find? (·.uid = x) =
    if x ∈ part.coveredUids ∧ d.shownAccount x = none ∧ d.answeredVersion stored x ≠ "" then
      some { uid := x, version := d.answeredVersion stored x } else none

theorem covers_empty : Covers d stored {} where
  users _ := rfl
  avatars _ := by simp

theorem answerFor_shown {other : Account} (h : d.shownAccount target = some other) :
    (d.answerFor stored target part).1 =
      { part with
        coveredUids := part.coveredUids ++ [target]
        users := part.users ++ [fillPresence target other.presence] } := by
  unfold SessionManager.answerFor
  rw [shownAccount] at h
  rw [h]

theorem answerFor_hidden (h : d.shownAccount target = none) :
    (d.answerFor stored target part).1 =
      if d.answeredVersion stored target = "" then
        { part with coveredUids := part.coveredUids ++ [target] }
      else
        { part with
          coveredUids := part.coveredUids ++ [target]
          avatars := part.avatars ++
            [{ uid := target, version := d.answeredVersion stored target }] } := by
  unfold SessionManager.answerFor
  rw [shownAccount] at h
  rw [h]
  unfold answeredVersion
  dsimp only
  split <;> split <;> simp_all

theorem Covers.answerFor (h : Covers d stored part) (target : Int) :
    Covers d stored (d.answerFor stored target part).1 ∧
      (d.answerFor stored target part).1.coveredUids = part.coveredUids ++ [target] := by
  cases hshown : d.shownAccount target with
  | some other =>
    rw [answerFor_shown hshown]
    refine ⟨⟨fun x => ?_, fun x => ?_⟩, rfl⟩
    · rw [find?_append, h.users x]
      by_cases hx : target = x
      · subst hx
        by_cases hmem : target ∈ part.coveredUids <;> simp [hmem, hshown, fillPresence]
      · have hx' : x ≠ target := Ne.symm hx
        simp [fillPresence, hx, hx']
    · rw [h.avatars x]
      by_cases hx : x = target
      · subst hx
        simp [hshown]
      · simp [hx]
  | none =>
    have husers : ∀ x, part.users.find? (·.uid = x) = if x ∈ part.coveredUids ++ [target] then
        (d.shownAccount x).map fun other => fillPresence x other.presence else none := by
      intro x
      rw [h.users x]
      by_cases hx : x = target
      · subst hx
        simp [hshown]
      · simp [hx]
    rw [answerFor_hidden hshown]
    split
    · next hempty =>
      refine ⟨⟨husers, fun x => ?_⟩, rfl⟩
      rw [h.avatars x]
      by_cases hx : x = target
      · subst hx
        simp [hempty]
      · simp [hx]
    · next hempty =>
      refine ⟨⟨husers, fun x => ?_⟩, rfl⟩
      rw [find?_append, h.avatars x]
      by_cases hx : target = x
      · subst hx
        by_cases hmem : target ∈ part.coveredUids <;> simp [hmem, hshown, hempty]
      · have hx' : x ≠ target := Ne.symm hx
        simp [hx, hx']

theorem Covers.update (h : Covers d stored part) :
    t.update x part = if x ∈ part.coveredUids then answered d stored x t else t := by
  unfold Told.update
  split
  · next hmem =>
    rw [h.users x, h.avatars x, if_pos hmem]
    unfold answered
    cases hshown : d.shownAccount x with
    | some other => rfl
    | none =>
      by_cases hempty : d.answeredVersion stored x = "" <;> simp [hmem, hempty]
  · rfl

theorem answered_answered : answered d stored x (answered d stored x t) = answered d stored x t := by
  unfold answered
  split <;> rfl

theorem tells_answers_from (targets : List Int) (bytes : Nat) (h : Covers d stored part) :
    telling.tells x t (d.answers stored targets part bytes) =
      if x ∈ part.coveredUids ∨ x ∈ targets then answered d stored x t else t := by
  induction targets generalizing part bytes t with
  | nil =>
    unfold SessionManager.answers
    split
    · next hnone => simp [hnone]
    · refine h.update.trans ?_
      simp
  | cons target rest ih =>
    unfold SessionManager.answers
    split
    · -- The part is long enough: another one begins.
      have hempty : Covers d stored {} := covers_empty
      obtain ⟨hnext, hcovered⟩ := hempty.answerFor target
      dsimp only
      rw [Telling.tells_cons, ih _ hnext, hcovered]
      change (if _ then answered d stored x (t.update x part) else t.update x part) = _
      rw [h.update]
      by_cases hpart : x ∈ part.coveredUids
      · simp [hpart, answered_answered]
      · simp [hpart]
    · obtain ⟨hnext, hcovered⟩ := h.answerFor target
      dsimp only
      rw [ih _ hnext, hcovered]
      simp [or_assoc]

theorem tells_answers (targets : List Int) :
    telling.tells x t (d.answers stored targets {} 0) =
      if x ∈ targets then answered d stored x t else t := by
  rw [tells_answers_from targets 0 covers_empty]
  simp

end Answers

/-! ## What is still to come -/

/-- Packets that leave what is told right when it is right. -/
def Settles (uid : Int) (V : Option Presence) (ps : List Packet) : Prop :=
  ∀ t, Shows V t → Shows V (telling.tells uid t ps)

/-- The same for its picture. -/
def SettlesPicture (uid : Int) (version : String) (ps : List Packet) : Prop :=
  ∀ t : Told, t.avatarVersion = version → (telling.tells uid t ps).avatarVersion = version

section Settles

variable {uid : Int} {V : Option Presence} {version : String} {ps ps' : List Packet}
  {f : Told → Told}

theorem settles_nil : Settles uid V [] := fun _ ht => ht

theorem settlesPicture_nil : SettlesPicture uid version [] := fun _ ht => ht

theorem Settles.rest (h : Settles uid V ps)
    (hps : ∀ t, telling.tells uid t ps = telling.tells uid (f t) ps') : Settles uid V ps' := by
  obtain ⟨hstatus, hname, -⟩ := keepsOrSets_tells uid ps'
  intro t ht
  have hall := h t ht
  rw [hps] at hall
  unfold Shows at ht hall ⊢
  cases hV : V.filter (·.visible) with
  | some p =>
    rw [hV] at ht hall
    exact ⟨hstatus.of_comp hall.1 ht.1, hname.of_comp hall.2 ht.2⟩
  | none =>
    rw [hV] at ht hall
    exact hstatus.of_comp hall ht

theorem SettlesPicture.rest (h : SettlesPicture uid version ps)
    (hps : ∀ t, telling.tells uid t ps = telling.tells uid (f t) ps') :
    SettlesPicture uid version ps' := by
  obtain ⟨-, -, hpicture⟩ := keepsOrSets_tells uid ps'
  intro t ht
  have hall := h t ht
  rw [hps] at hall
  exact hpicture.of_comp hall ht

end Settles

/-! ## The system -/

/-- A request to watch between its two critical sections. -/
structure Subscription where
  uid : Int
  /-- The accounts that are to be answered. -/
  added : List Int
  /-- The stored pictures, once they are read. -/
  stored : Option (Int → String) := none
  /-- How many threads had deliveries before the first section; for the history only. -/
  since : Nat

/-- Where a connection's handler is, between two steps of a request. -/
inductive Request
  /-- A sign-in whose presence is read. -/
  | signIn (login : LoginResult) (presence : Presence)
  | watch (r : Subscription)

/-- A new picture that is stored and not told yet. -/
structure AvatarPush where
  uid : Int
  version : String
  sender : Nat

structure PresenceState where
  directory : SessionManager := {}
  nextSession : Nat := 0
  /-- Whom each connection's handler signed in; 0 for nobody. -/
  uids : Nat → Int := fun _ => 0
  requests : Nat → Option Request := fun _ => none
  /-- The version of each account's picture in the database. -/
  stored : Int → String := fun _ => ""
  pushes : List AvatarPush := []
  wire : Wire Packet := {}

/-- The critical sections, what is read and written outside of them, and the deliveries. -/
inductive PresenceAct
  | join
  | readProfile (s : Nat) (login : LoginResult) (profile : Presence)
  | bind (s : Nat)
  | leave (s : Nat)
  | retire (s : Nat) (reason : CloseReason)
  | watch (s : Nat) (uids : List Int)
  | readStored (s : Nat)
  | answer (s : Nat)
  | setIdle (s : Nat) (idle : Bool)
  | updatePresence (uid : Int) (change : PresenceChange)
  | expireStatusMessage (uid : Int)
  | pushUserRenamed (uid : Int) (username : String) (sender : Nat)
  | setAvatar (uid : Int) (version : String) (sender : Nat)
  | pushAvatarChanged (k : Nat)
  | deliver (k : Nat)

namespace PresenceState

variable (st : PresenceState)

def setRequest (s : Nat) (r : Option Request) : PresenceState :=
  { st with requests := update st.requests s r }

/-- A section of a thread that delivers what it gathered once the lock is released. -/
def afterSection (r : SessionManager × Fanout) : PresenceState :=
  { st with directory := r.1, wire := st.wire.send r.2.run }

/-- A connection on which nobody is signed in yet. -/
def readProfile (s : Nat) (login : LoginResult) (profile : Presence) : PresenceState :=
  if st.uids s = 0 ∧ st.requests s = none then
    let presence := { profile with username := login.username, avatarVersion := st.stored login.uid }
    st.setRequest s (some (.signIn login presence))
  else st

/-- The answer is posted under the lock. -/
def bind (now : Clock) (s : Nat) : PresenceState :=
  match st.requests s with
  | some (.signIn login presence) =>
    let bound := st.directory.bindLogin now s login presence
    { st.setRequest s none with
      directory := bound.manager
      uids := if bound.ok then update st.uids s login.uid else st.uids
      wire := (st.wire.post s bound.answer.toList).send bound.out.run }
  | _ => st

/-- The first section of a request to watch. -/
def watch (s : Nat) (uids : List Int) : PresenceState :=
  if 0 < st.uids s ∧ st.requests s = none then
    let (directory, added) := st.directory.watch s (st.uids s) uids
    let st' := { st with directory }
    if added = [] then st'
    else st'.setRequest s (some (.watch { uid := st.uids s, added, since := st.wire.threads }))
  else st

def readStored (s : Nat) : PresenceState :=
  match st.requests s with
  | some (.watch r) => st.setRequest s (some (.watch { r with stored := some st.stored }))
  | _ => st

/-- The second section, once the stored pictures are read. -/
def answer (s : Nat) : PresenceState :=
  match st.requests s with
  | some (.watch { uid, added, stored := some stored, .. }) =>
    { st.setRequest s none with
      wire := st.wire.post s (st.directory.watchAnswer s uid added stored) }
  | _ => st

def setAvatar (uid : Int) (version : String) (sender : Nat) : PresenceState :=
  { st with
    stored := update st.stored uid version
    pushes := st.pushes ++ [{ uid, version, sender }] }

def pushAvatarChanged (k : Nat) : PresenceState :=
  match st.pushes[k]? with
  | none => st
  | some push =>
    { st.afterSection (st.directory.pushAvatarChanged push.uid push.version push.sender) with
      pushes := st.pushes.eraseIdx k }

def perform (now : Clock) : PresenceAct → PresenceState
  | .join =>
    { st.afterSection (st.directory.join st.nextSession, []) with nextSession := st.nextSession + 1 }
  | .readProfile s login profile => st.readProfile s login profile
  | .bind s => st.bind now s
  | .leave s => st.afterSection (st.directory.leave now s)
  | .retire s reason => st.afterSection (st.directory.retire now s reason)
  | .watch s uids => st.watch s uids
  | .readStored s => st.readStored s
  | .answer s => st.answer s
  | .setIdle s idle => st.afterSection (st.directory.setIdle now s idle)
  | .updatePresence uid change => st.afterSection (st.directory.updatePresence now uid change.apply)
  | .expireStatusMessage uid => st.afterSection (st.directory.expireStatusMessage now uid)
  | .pushUserRenamed uid username sender =>
    st.afterSection (st.directory.pushUserRenamed uid username sender)
  | .setAvatar uid version sender => st.setAvatar uid version sender
  | .pushAvatarChanged k => st.pushAvatarChanged k
  | .deliver k => { st with wire := st.wire.deliver k }

/-- No step is pending. -/
def Quiet : Prop := (∀ s, st.requests s = none) ∧ st.pushes = [] ∧ st.wire.pending = []

/-- What a connection was last told of an account. -/
def lastTold (s : Nat) (uid : Int) : Told := telling.tells uid {} (st.wire.queue s)

/-- A connection was last told how an account is. -/
def RightlyTold (s : Nat) (uid : Int) : Prop :=
  match (st.directory.presenceOf uid).filter (·.visible) with
  | some p => st.lastTold s uid =
      { status := some (p.effective, p.statusText, p.statusEmoji)
        username := p.username
        avatarVersion := p.avatarVersion }
  | none => (st.lastTold s uid).status = none ∧ (st.lastTold s uid).avatarVersion = st.stored uid

/-- A new picture of the account has still to be told. -/
def Pushing (uid : Int) : Prop := ∃ push ∈ st.pushes, push.uid = uid

/-- A step taken in time.

    * A delivery comes after those gathered before it about the account for the connection.
    * When watching is answered, nothing older about those accounts has still to be delivered.
    * A picture that was read, or is told last, is stored, unless a newer one is to be told. -/
def Timely : PresenceAct → Prop
  | .deliver k => st.wire.InOrder telling k
  | .answer s => ∀ r stored, st.requests s = some (.watch r) → r.stored = some stored →
      ∀ x ∈ r.added, st.wire.Clear telling s r.since x ∧
        (st.directory.accounts x = none → stored x = st.stored x ∨ st.Pushing x)
  | .bind s => ∀ login presence, st.requests s = some (.signIn login presence) →
      st.directory.accounts login.uid = none →
        presence.avatarVersion = st.stored login.uid ∨ st.Pushing login.uid
  | .pushAvatarChanged k => ∀ push, st.pushes[k]? = some push →
      push.version = st.stored push.uid ∨ ∃ push' ∈ st.pushes.eraseIdx k, push'.uid = push.uid
  | _ => True

end PresenceState

/-- The runs; each step has the time at which it is taken. -/
def presenceSystem : System PresenceState (Clock × PresenceAct) where
  init st := ∃ stored, st = { stored }
  step st a st' := st' = st.perform a.1 a.2

/-! ## The invariant -/

variable {st : PresenceState} {s : Nat} {uid : Int}

/-- An answer about an account is still to come for a connection. -/
def PresenceState.Awaits (st : PresenceState) (s : Nat) (uid : Int) (r : Subscription) : Prop :=
  st.requests s = some (.watch r) ∧ uid ∈ r.added

/-- A connection's request is of whom its handler signed in. -/
def RequestOk (uid : Int) (threads : Nat) : Option Request → Prop
  | some (.signIn ..) => uid = 0
  | some (.watch r) => r.uid = uid ∧ 0 < uid ∧ r.since ≤ threads
  | none => True

/-- What watchers are told is right in the end, once answered, and pending packets leave it right;
    so are the pictures, unless a new one is to be told. -/
structure Converging (st : PresenceState) : Prop where
  consistent : st.directory.Consistent
  started : st.wire.Started
  places : ∀ s c, st.directory.sessions s = some c → (c.uid = 0 ∧ c.watching = []) ∨ c.uid = st.uids s
  requests : ∀ s, RequestOk (st.uids s) st.wire.threads (st.requests s)
  pictures : ∀ uid, ¬ st.Pushing uid → ∀ p ∈ st.directory.presenceOf uid,
    p.avatarVersion = st.stored uid
  told : ∀ s uid, s ∈ st.directory.watchers uid → (∀ r, ¬ st.Awaits s uid r) →
    Shows (st.directory.presenceOf uid) (st.wire.told telling {} s uid) ∧
      (¬ st.Pushing uid → (st.wire.told telling {} s uid).avatarVersion = st.stored uid)
  settles : ∀ s uid r, s ∈ st.directory.watchers uid → st.Awaits s uid r →
    Settles uid (st.directory.presenceOf uid) (st.wire.late s r.since) ∧
      (¬ st.Pushing uid → SettlesPicture uid (st.stored uid) (st.wire.late s r.since))

/-- Nobody signs in: connections were there, or have lost their place. -/
def Remains (d d' : SessionManager) : Prop :=
  ∀ s c', d'.sessions s = some c' → (c'.uid = 0 ∧ c'.watching = []) ∨
    ∃ c, d.sessions s = some c ∧ c'.uid = c.uid ∧ c'.watching = c.watching

theorem remains_join (d : SessionManager) (s : Nat) : Remains d (d.join s) := by
  intro s' c' hc'
  unfold SessionManager.join at hc'
  split at hc'
  · change update d.sessions _ _ s' = some c' at hc'
    rw [update_apply] at hc'
    split at hc'
    · cases hc'
      exact .inl ⟨rfl, rfl⟩
    · exact .inr ⟨c', hc', rfl, rfl⟩
  · exact .inr ⟨c', hc', rfl, rfl⟩

namespace Converging

variable {d' : SessionManager} {out : Fanout} {fresh : Int → String → Prop}

theorem section_step (h : Converging st) {uids : Nat → Int}
    (hannounces : Announces st.directory d' out fresh) (hconsistent : d'.Consistent)
    (hplaces : ∀ s c, d'.sessions s = some c → (c.uid = 0 ∧ c.watching = []) ∨ c.uid = uids s)
    (huids : ∀ s, st.requests s ≠ none → uids s = st.uids s)
    (hfresh : ∀ uid v, fresh uid v → ¬ st.Pushing uid → v = st.stored uid) :
    Converging { st with directory := d', uids, wire := st.wire.send out.run } := by
  have hpictures : ∀ uid, ¬ st.Pushing uid → ∀ p ∈ d'.presenceOf uid,
      p.avatarVersion = st.stored uid := by
    intro uid hpushing p' hp'
    rcases hannounces.pictures uid p' hp' with ⟨p, hp, heq⟩ | hv
    · exact heq.trans (h.pictures uid hpushing p hp)
    · exact hfresh uid _ hv hpushing
  -- What the section tells of a picture is the stored one, unless it tells nothing of it.
  have hpicture : ∀ {uid m}, Says uid (st.directory.presenceOf uid) (d'.presenceOf uid)
      (fresh uid) m → ¬ st.Pushing uid → ∀ t : Told, t.avatarVersion = st.stored uid →
        (m.elim t (t.tell uid)).avatarVersion = st.stored uid := by
    intro uid m hsaid hpushing t ht
    rcases hsaid.picture t with hkept | ⟨p, hp, heq⟩ | hv
    · exact hkept.trans ht
    · exact heq.trans (hpictures uid hpushing p hp)
    · exact hfresh uid _ hv hpushing
  refine ⟨hconsistent, h.started.send, hplaces, ?_, hpictures, ?_, ?_⟩
  · intro s
    have hrequest := h.requests s
    change RequestOk (uids s) (st.wire.threads + 1) (st.requests s)
    cases hr : st.requests s with
    | none => trivial
    | some request =>
      rw [huids s (by rw [hr]; exact nofun)]
      rw [hr] at hrequest
      cases request with
      | signIn login presence => exact hrequest
      | watch r => exact ⟨hrequest.1, hrequest.2.1, Nat.le_succ_of_le hrequest.2.2⟩
  · intro s uid hs hawaits
    obtain ⟨hshows, hversion⟩ := h.told s uid (hannounces.watchers uid s hs) hawaits
    obtain ⟨m, hsaid, htells⟩ := hannounces.tells hs
    dsimp only
    rw [Wire.told_send, htells]
    exact ⟨hsaid.shows _ hshows, fun hpushing => hpicture hsaid hpushing _ (hversion hpushing)⟩
  · intro s uid r hs hawaits
    obtain ⟨hshows, hversion⟩ := h.settles s uid r (hannounces.watchers uid s hs) hawaits
    obtain ⟨m, hsaid, htells⟩ := hannounces.tells hs
    have hsince : r.since ≤ st.wire.threads := by
      have hrequest := h.requests s
      rw [hawaits.1] at hrequest
      exact hrequest.2.2
    dsimp only
    rw [Wire.late_send hsince]
    constructor
    · intro t ht
      rw [Telling.tells_append, htells]
      exact hsaid.again _ (keepsOrSets_tells uid _).1 hshows t ht
    · intro hpushing t ht
      rw [Telling.tells_append, htells]
      exact hpicture hsaid hpushing _ (hversion hpushing t ht)

theorem afterSection (h : Converging st) {r : SessionManager × Fanout}
    (hannounces : Announces st.directory r.1 r.2 fun _ _ => False) (hconsistent : r.1.Consistent)
    (hremains : Remains st.directory r.1) : Converging (st.afterSection r) := by
  refine h.section_step hannounces hconsistent ?_ (fun _ _ => rfl) fun _ _ hv => hv.elim
  intro s c' hc'
  rcases hremains s c' hc' with hnone | ⟨c, hc, huid, hwatching⟩
  · exact .inl hnone
  · rw [huid, hwatching]
    exact h.places s c hc

theorem setRequest {o : Option Request} (h : Converging st) (ho : ∀ r, o ≠ some (.watch r))
    (hs : ∀ r, st.requests s ≠ some (.watch r)) (hok : RequestOk (st.uids s) st.wire.threads o) :
    Converging (st.setRequest s o) := by
  have hawaits : ∀ s' uid r, (st.setRequest s o).Awaits s' uid r ↔ st.Awaits s' uid r := by
    intro s' uid r
    unfold PresenceState.Awaits PresenceState.setRequest
    dsimp only
    rw [update_apply]
    split
    · next heq =>
      rw [heq]
      exact ⟨fun hr => absurd hr.1 (ho r), fun hr => absurd hr.1 (hs r)⟩
    · rfl
  refine ⟨h.consistent, h.started, h.places, ?_, h.pictures, ?_, ?_⟩
  · intro s'
    change RequestOk _ _ (update st.requests s o s')
    rw [update_apply]
    split
    · next heq =>
      rw [heq]
      exact hok
    · exact h.requests s'
  · exact fun s' uid hs' hno => h.told s' uid hs' fun r hr => hno r ((hawaits s' uid r).2 hr)
  · exact fun s' uid r hs' hr => h.settles s' uid r hs' ((hawaits s' uid r).1 hr)

theorem post {ps : List Packet} (h : Converging st) (hps : ∀ q ∈ ps, q.about = []) :
    Converging { st with wire := st.wire.post s ps } := by
  refine ⟨h.consistent, h.started.post, h.places, h.requests, h.pictures, ?_, h.settles⟩
  intro s' uid hs' hno
  have hsame : ∀ t, telling.tells uid t ps = t := by
    refine fun t => Telling.tells_of_skip fun q hq habout => ?_
    change uid ∈ q.about at habout
    rw [hps q hq] at habout
    cases habout
  dsimp only
  rw [Wire.told_post_of_same hsame]
  exact h.told s' uid hs' hno

/-! ### Connections -/

theorem join (h : Converging st) (now : Clock) : Converging (st.perform now .join) := by
  have hjoin : Converging (st.afterSection (st.directory.join st.nextSession, [])) :=
    h.afterSection announces_join h.consistent.join (remains_join _ _)
  exact ⟨hjoin.consistent, hjoin.started, hjoin.places, hjoin.requests, hjoin.pictures,
    hjoin.told, hjoin.settles⟩

end Converging

theorem remains_of_same {d d' : SessionManager} (h : d'.sessions = d.sessions) : Remains d d' := by
  intro s c' hc'
  exact .inr ⟨c', h ▸ hc', rfl, rfl⟩

theorem remains_of_forgotten {d d' : SessionManager} (h : d'.sessions = update d.sessions s none) :
    Remains d d' := by
  intro s' c' hc'
  rw [h, update_apply] at hc'
  split at hc'
  · cases hc'
  · exact .inr ⟨c', hc', rfl, rfl⟩

theorem sessions_updatePresence {d : SessionManager} {now : Clock} {change : Presence → Presence} :
    (d.updatePresence now uid change).1.sessions = d.sessions := by
  unfold updatePresence
  split <;> rfl

theorem sessions_expireStatusMessage {d : SessionManager} {now : Clock} :
    (d.expireStatusMessage now uid).1.sessions = d.sessions := by
  unfold expireStatusMessage
  split
  · rfl
  split
  · rfl
  · exact sessions_updatePresence

theorem sessions_pushUserRenamed {d : SessionManager} {username : String} {sender : Nat} :
    (d.pushUserRenamed uid username sender).1.sessions = d.sessions := by
  unfold pushUserRenamed
  dsimp only
  split <;> rfl

theorem sessions_pushAvatarChanged {d : SessionManager} {version : String} {sender : Nat} :
    (d.pushAvatarChanged uid version sender).1.sessions = d.sessions := by
  unfold pushAvatarChanged
  dsimp only
  split <;> rfl

theorem remains_setIdle {d : SessionManager} {now : Clock} {idle : Bool} :
    Remains d (d.setIdle now s idle).1 := by
  have hset : ∀ d' : SessionManager,
      d'.sessions = (d.setConnection s fun c => { c with idle }).sessions → Remains d d' := by
    intro d' hd' s' c' hc'
    rw [hd'] at hc'
    rcases places_setConnection hc' with ⟨rfl, c, hc, rfl⟩ | hc
    · exact .inr ⟨c, hc, rfl, rfl⟩
    · exact .inr ⟨c', hc, rfl, rfl⟩
  unfold SessionManager.setIdle
  split
  · exact remains_of_same rfl
  split
  · exact remains_of_same rfl
  dsimp only
  split
  · exact hset _ rfl
  · exact hset _ rfl

/-! ### Signing in -/

section Bind

variable {d : SessionManager} {now : Clock} {device : String} {presence : Presence}
  {reply : Packet} {rebuild : Presence → Packet}

/-- After a sign-in its own connection has the account, that of the same device has lost it, the
    others are as before. -/
theorem places_bind {conn : Connection} (hs : d.sessions s = some conn) (huid : ¬ 0 < conn.uid)
    {s' : Nat} {c' : Connection}
    (hc' : (d.bind now s uid device presence reply rebuild).manager.sessions s' = some c') :
    (c'.uid = 0 ∧ c'.watching = []) ∨
      (s' = s ∧ (d.bind now s uid device presence reply rebuild).ok = true ∧ c'.uid = uid) ∨
        ((s' = s → (d.bind now s uid device presence reply rebuild).ok = false) ∧
          d.sessions s' = some c') := by
  have hset : ∀ (d₁ : SessionManager) (bound : SessionManager.Bound), bound.ok = true →
      bound.manager.sessions = (d₁.setConnection s fun c =>
        { c with uid, deviceId := device, idle := false }).sessions →
      (∀ c, d₁.sessions s' = some c → (c.uid = 0 ∧ c.watching = []) ∨ d.sessions s' = some c) →
      bound.manager.sessions s' = some c' → (c'.uid = 0 ∧ c'.watching = []) ∨
        (s' = s ∧ bound.ok = true ∧ c'.uid = uid) ∨
          ((s' = s → bound.ok = false) ∧ d.sessions s' = some c') := by
    intro d₁ bound hok hsessions hd₁ hc'
    rw [hsessions] at hc'
    change update d₁.sessions s _ s' = some c' at hc'
    rw [update_apply] at hc'
    split at hc'
    · next heq =>
      obtain ⟨c, -, rfl⟩ := Option.map_eq_some_iff.1 hc'
      exact .inr (.inl ⟨heq, hok, rfl⟩)
    · next hne =>
      rcases hd₁ c' hc' with hlost | hc
      · exact .inl hlost
      · exact .inr (.inr ⟨fun heq => absurd heq hne, hc⟩)
  unfold SessionManager.bind at hc' ⊢
  rw [hs] at hc' ⊢
  dsimp only at hc' ⊢
  rw [if_neg huid] at hc' ⊢
  dsimp only at hc' ⊢
  split at hc'
  · exact hset d _ rfl rfl (fun c hc => .inr hc) hc'
  split at hc'
  · next a ha old hold =>
    refine hset (d.strip old) _ rfl rfl (fun c hc => ?_) hc'
    cases holdc : d.sessions old with
    | none =>
      unfold SessionManager.strip at hc
      rw [holdc] at hc
      exact .inr hc
    | some oldc =>
      rw [strip_sessions holdc, update_apply] at hc
      split at hc
      · cases hc
        exact .inl ⟨rfl, rfl⟩
      · exact .inr hc
  split at hc'
  · next hfull =>
    rw [if_pos hfull]
    exact .inr (.inr ⟨fun _ => rfl, hc'⟩)
  · next hroom =>
    rw [if_neg hroom]
    exact hset d _ rfl rfl (fun c hc => .inr hc) hc'

theorem placed_bindLogin {uids : Nat → Int} {login : LoginResult} (huid : uids s = 0)
    (hplaces : ∀ s c, d.sessions s = some c → (c.uid = 0 ∧ c.watching = []) ∨ c.uid = uids s)
    {s' : Nat} {c' : Connection}
    (hc' : (d.bindLogin now s login presence).manager.sessions s' = some c') :
    (c'.uid = 0 ∧ c'.watching = []) ∨ c'.uid =
      (if (d.bindLogin now s login presence).ok then update uids s login.uid else uids) s' := by
  cases hconn : d.sessions s with
  | none =>
    have hnot : d.bindLogin now s login presence = { manager := d } := by
      unfold SessionManager.bindLogin SessionManager.bind
      dsimp only
      rw [hconn]
    rw [hnot] at hc' ⊢
    exact hplaces s' c' hc'
  | some conn =>
    have hout : ¬ 0 < conn.uid := by
      rcases hplaces s conn hconn with ⟨hzero, -⟩ | hzero <;> omega
    rcases places_bind hconn hout hc' with hlost | ⟨rfl, hok, hbound⟩ | ⟨hnot, hc⟩
    · exact .inl hlost
    · have hok : (d.bindLogin now s' login presence).ok = true := hok
      rw [if_pos hok, update_self]
      exact .inr hbound
    · rcases hplaces s' c' hc with hlost | hsame
      · exact .inl hlost
      · refine .inr (hsame.trans ?_)
        split
        · next hok =>
          rw [update_of_ne]
          rintro rfl
          exact Bool.false_ne_true ((hnot rfl).symm.trans hok)
        · rfl

theorem answer_bind {q : Packet}
    (hq : q ∈ (d.bind now s uid device presence reply rebuild).answer) :
    q = reply ∨ ∃ p, q = rebuild p := by
  have hbeside : ∀ (d₁ : SessionManager) a replaced out,
      q ∈ (d₁.bindBeside now s uid device presence a reply rebuild replaced out).answer →
        q = reply ∨ ∃ p, q = rebuild p := by
    intro d₁ a replaced out hq
    have heq := Option.some.inj hq
    split at heq
    · exact .inr ⟨_, heq.symm⟩
    · exact .inl heq.symm
  unfold SessionManager.bind at hq
  split at hq
  · cases hq
  dsimp only at hq
  split at hq
  · exact .inl (Option.some.inj hq).symm
  split at hq
  · exact hbeside _ _ _ _ hq
  split at hq
  · cases hq
  · exact hbeside _ _ _ _ hq

end Bind

namespace Converging

theorem readProfile {login : LoginResult} {profile : Presence} (h : Converging st) :
    Converging (st.readProfile s login profile) := by
  unfold PresenceState.readProfile
  split
  · next hfree =>
    exact h.setRequest (fun _ => nofun) (fun _ hr => by rw [hfree.2] at hr; cases hr) hfree.1
  · exact h

theorem bind {now : Clock} (h : Converging st) (htimely : st.Timely (.bind s)) :
    Converging (st.bind now s) := by
  unfold PresenceState.bind
  split
  swap
  · exact h
  next login presence hr =>
  have huid : st.uids s = 0 := by
    have hrequest := h.requests s
    rw [hr] at hrequest
    exact hrequest
  have hout : ∀ c, st.directory.sessions s = some c → ¬ 0 < c.uid := by
    intro c hc hpos
    rcases h.places s c hc with ⟨hzero, -⟩ | hzero <;> omega
  have hanswer : ∀ q ∈ (st.directory.bindLogin now s login presence).answer.toList,
      q.about = [] := by
    intro q hq
    rcases answer_bind (Option.mem_toList.1 hq) with rfl | ⟨p, rfl⟩ <;> rfl
  have hfree : Converging (st.setRequest s none) :=
    h.setRequest (fun _ => nofun) (fun _ hr' => by rw [hr] at hr'; cases hr') trivial
  refine (hfree.post (s := s) hanswer).section_step (announces_bind hout) (h.consistent.bind login.uid_pos login.device_named)
    ?_ ?_ ?_
  · exact fun s' c' hc' => placed_bindLogin huid h.places hc'
  · intro s' hs'
    change update st.requests s none s' ≠ none at hs'
    split
    · refine update_of_ne ?_ ..
      rintro rfl
      exact hs' (update_self ..)
    · rfl
  · rintro x v ⟨rfl, hgone, rfl⟩ hpushing
    exact (htimely login presence hr hgone).resolve_right hpushing

end Converging

/-! ### Watching -/

/-- The first section of watching: only this connection begins to watch, and whom is to be answered.
    -/
theorem watch_spec (d : SessionManager) (s : Nat) (uid : Int) (uids : List Int) :
    (d.watch s uid uids).1.accounts = d.accounts ∧
      (∀ s' c', (d.watch s uid uids).1.sessions s' = some c' →
        d.sessions s' = some c' ∨ s' = s ∧ c'.uid = uid) ∧
      ∀ s' x, s' ∈ (d.watch s uid uids).1.watchers x →
        s' ∈ d.watchers x ∨ s' = s ∧ x ∈ (d.watch s uid uids).2 := by
  unfold SessionManager.watch
  split
  · exact ⟨rfl, fun _ _ hc' => .inl hc', fun _ _ hs' => .inl hs'⟩
  next conn hs =>
  split
  · exact ⟨rfl, fun _ _ hc' => .inl hc', fun _ _ hs' => .inl hs'⟩
  next huid =>
  have huid : conn.uid = uid := Decidable.not_not.1 huid
  refine ⟨rfl, fun s' c' hc' => ?_, fun s' x hs' => ?_⟩
  · change update d.sessions s _ s' = some c' at hc'
    rw [update_apply] at hc'
    split at hc'
    · next heq =>
      obtain ⟨c, hc, rfl⟩ := Option.map_eq_some_iff.1 hc'
      cases hs.symm.trans hc
      exact .inr ⟨heq, huid⟩
    · exact .inl hc'
  · change s' ∈ (if x ∈ SessionManager.watchSet uids then
      if x ∈ conn.watching then d.watchers x else d.watchers x ++ [s]
        else if x ∈ conn.watching then removeFrom (d.watchers x) s else d.watchers x) at hs'
    split at hs'
    · next hnext =>
      split at hs'
      · exact .inl hs'
      · next hnew =>
        rcases mem_append.1 hs' with hs' | hs'
        · exact .inl hs'
        · exact .inr ⟨mem_singleton.1 hs', mem_filter.2 ⟨hnext, by simpa using hnew⟩⟩
    · split at hs'
      · exact .inl (mem_removeFrom.1 hs').1
      · exact .inl hs'

namespace Converging

theorem watch {uids : List Int} (h : Converging st) : Converging (st.watch s uids) := by
  unfold PresenceState.watch
  split
  swap
  · exact h
  next hfree =>
  obtain ⟨hpos, hnone⟩ := hfree
  obtain ⟨haccounts, hsessions, hwatchers⟩ :=
    watch_spec st.directory s (st.uids s) uids
  have hconsistent : (st.directory.watch s (st.uids s) uids).1.Consistent := h.consistent.watch
  generalize st.directory.watch s (st.uids s) uids = r at *
  obtain ⟨d', added⟩ := r
  dsimp only at *
  have hpresence : ∀ x, d'.presenceOf x = st.directory.presenceOf x := by
    intro x
    unfold presenceOf
    rw [haccounts]
  have hplaces : ∀ s' c', d'.sessions s' = some c' →
      (c'.uid = 0 ∧ c'.watching = []) ∨ c'.uid = st.uids s' := by
    intro s' c' hc'
    rcases hsessions s' c' hc' with hc | ⟨rfl, huid⟩
    · exact h.places s' c' hc
    · exact .inr huid
  have hpictures : ∀ x, ¬ st.Pushing x → ∀ p ∈ d'.presenceOf x, p.avatarVersion = st.stored x := by
    intro x
    rw [hpresence]
    exact h.pictures x
  have hwas : ∀ x r, ¬ st.Awaits s x r := fun x r hr => by rw [PresenceState.Awaits, hnone] at hr; cases hr.1
  split
  · next hnew =>
    refine ⟨hconsistent, h.started, hplaces, h.requests, hpictures, fun s' x hs' => ?_,
      fun s' x r hs' => ?_⟩
    all_goals
      dsimp only
      rw [hpresence]
      have hs' : s' ∈ st.directory.watchers x := (hwatchers s' x hs').resolve_right fun hin => by
        rw [hnew] at hin
        cases hin.2
    · exact h.told s' x hs'
    · exact h.settles s' x r hs'
  next hnew =>
  refine ⟨hconsistent, h.started, hplaces, fun s' => ?_, hpictures, fun s' x hs' hno => ?_,
    fun s' x r hs' hr => ?_⟩
  · change RequestOk _ _ (update st.requests s _ s')
    rw [update_apply]
    split
    · next heq =>
      subst heq
      exact ⟨rfl, hpos, Nat.le_refl _⟩
    · exact h.requests s'
  · change Shows (d'.presenceOf x) _ ∧ _
    rw [hpresence]
    refine h.told s' x ((hwatchers s' x hs').resolve_right ?_) fun r hr => ?_
    · rintro ⟨rfl, hadded⟩
      exact hno _ ⟨update_self .., hadded⟩
    · by_cases heq : s' = s
      · exact hwas x r (heq ▸ hr)
      · exact hno r ⟨(update_of_ne heq ..).trans hr.1, hr.2⟩
  · change Settles x (d'.presenceOf x) _ ∧ _
    rw [hpresence]
    obtain ⟨hrequest, hadded⟩ := hr
    change update st.requests s _ s' = _ at hrequest
    rw [update_apply] at hrequest
    split at hrequest
    · -- Nothing is gathered for it since then.
      cases hrequest
      change Settles x _ (st.wire.late s' st.wire.threads) ∧ (_ → SettlesPicture x _
        (st.wire.late s' st.wire.threads))
      rw [Wire.late_threads h.started]
      exact ⟨settles_nil, fun _ => settlesPicture_nil⟩
    · next hne =>
      exact h.settles s' x r ((hwatchers s' x hs').resolve_right fun hin => hne hin.1)
        ⟨hrequest, hadded⟩

theorem readStored (h : Converging st) : Converging (st.readStored s) := by
  unfold PresenceState.readStored
  split
  swap
  · exact h
  next r hr =>
  have hok := h.requests s
  rw [hr] at hok
  have hback : ∀ s' x r', (st.setRequest s (some (.watch { r with stored := some st.stored }))).Awaits
      s' x r' → ∃ r₀, st.Awaits s' x r₀ ∧ r₀.since = r'.since := by
    rintro s' x r' ⟨hr', hx⟩
    change update st.requests s _ s' = _ at hr'
    rw [update_apply] at hr'
    split at hr'
    · next heq =>
      cases hr'
      exact ⟨r, ⟨heq ▸ hr, hx⟩, rfl⟩
    · exact ⟨r', ⟨hr', hx⟩, rfl⟩
  refine ⟨h.consistent, h.started, h.places, fun s' => ?_, h.pictures, fun s' x hs' hno => ?_,
    fun s' x r' hs' hr' => ?_⟩
  · change RequestOk _ _ (update st.requests s _ s')
    rw [update_apply]
    split
    · next heq =>
      rw [heq]
      exact hok
    · exact h.requests s'
  · refine h.told s' x hs' fun r' hr' => ?_
    by_cases heq : s' = s
    · subst heq
      cases hr.symm.trans hr'.1
      exact hno _ ⟨update_self .., hr'.2⟩
    · exact hno r' ⟨(update_of_ne heq ..).trans hr'.1, hr'.2⟩
  · obtain ⟨r₀, hr₀, hsince⟩ := hback s' x r' hr'
    rw [← hsince]
    exact h.settles s' x r₀ hs' hr₀

/-- What is told of an answered account, if the answer's picture is right. -/
theorem shows_answered {d : SessionManager} {stored : Int → String} {t : Told} :
    Shows (d.presenceOf uid) (answered d stored uid t) := by
  unfold answered shownAccount presenceOf
  cases ha : d.accounts uid with
  | none => rfl
  | some a =>
    by_cases hvisible : a.presence.visible
    · rw [Option.filter_some, if_pos hvisible]
      exact (shows_visible hvisible).2 ⟨rfl, rfl⟩
    · rw [Option.filter_some, if_neg hvisible]
      exact (shows_invisible (by simpa using hvisible)).2 rfl

theorem picture_answered {d : SessionManager} {stored : Int → String} {t : Told} {version : String}
    (hthere : ∀ p ∈ d.presenceOf uid, p.avatarVersion = version)
    (hgone : d.accounts uid = none → stored uid = version) :
    (answered d stored uid t).avatarVersion = version := by
  unfold answered shownAccount answeredVersion
  unfold presenceOf at hthere
  cases ha : d.accounts uid with
  | none => exact hgone ha
  | some a =>
    rw [ha] at hthere
    by_cases hvisible : a.presence.visible
    · rw [Option.filter_some, if_pos hvisible]
      exact hthere _ rfl
    · rw [Option.filter_some, if_neg hvisible]
      exact hthere _ rfl

theorem tells_watchAnswer {d : SessionManager} {added : List Int} {stored : Int → String} {x : Int}
    {t : Told} : telling.tells x t (d.watchAnswer s uid added stored) = t ∨
      x ∈ added ∧ telling.tells x t (d.watchAnswer s uid added stored) = answered d stored x t := by
  unfold watchAnswer
  split
  · exact .inl rfl
  split
  · exact .inl rfl
  · rw [tells_answers]
    split
    · next hmem => exact .inr ⟨(mem_filter.1 hmem).1, rfl⟩
    · exact .inl rfl

theorem tells_watchAnswer_of_mem (h : Converging st) {r : Subscription} {stored : Int → String}
    (hr : st.requests s = some (.watch r)) {x : Int} (hx : x ∈ r.added)
    (hs : s ∈ st.directory.watchers x) {t : Told} :
    telling.tells x t (st.directory.watchAnswer s r.uid r.added stored) =
      answered st.directory stored x t := by
  obtain ⟨conn, hconn, hwatching⟩ := (h.consistent.watched x s).1 hs
  have hok := h.requests s
  rw [hr] at hok
  have huid : conn.uid = r.uid := by
    rcases h.places s conn hconn with ⟨-, hnone⟩ | huid
    · rw [hnone] at hwatching
      cases hwatching
    · exact huid.trans hok.1.symm
  unfold watchAnswer
  rw [hconn]
  dsimp only
  rw [if_neg (not_not_intro huid), tells_answers,
    if_pos (mem_filter.2 ⟨hx, decide_eq_true hwatching⟩)]

theorem answer (h : Converging st) (htimely : st.Timely (.answer s)) :
    Converging (st.answer s) := by
  unfold PresenceState.answer
  split
  swap
  · exact h
  next uid added stored since hr =>
  have hback : ∀ {s' x r'}, s' ≠ s → (st.setRequest s none).Awaits s' x r' → st.Awaits s' x r' :=
    fun hne hr' => ⟨(update_of_ne hne ..).symm.trans hr'.1, hr'.2⟩
  refine ⟨h.consistent, h.started.post, h.places, fun s' => ?_, h.pictures, fun s' x hs' hno => ?_,
    fun s' x r' hs' hr' => ?_⟩
  · change RequestOk _ _ (update st.requests s none s')
    rw [update_apply]
    split
    · trivial
    · exact h.requests s'
  · dsimp only
    by_cases hne : s' ≠ s
    · rw [Wire.told_post_of_ne hne]
      refine h.told s' x hs' fun r' hr' => hno r' ⟨(update_of_ne hne ..).trans hr'.1, hr'.2⟩
    obtain rfl : s' = s := not_not.1 hne
    by_cases hx : x ∈ added
    · -- The account is answered, and what is pending about it was gathered since.
      obtain ⟨hclear, hgone⟩ := htimely _ stored hr rfl x hx
      obtain ⟨hshows, hversion⟩ := h.settles s' x _ hs' ⟨hr, hx⟩
      rw [Wire.told_post hclear, h.tells_watchAnswer_of_mem hr hx hs']
      refine ⟨hshows _ shows_answered, fun hpushing => hversion hpushing _ ?_⟩
      exact picture_answered (h.pictures x hpushing) fun hnone => (hgone hnone).resolve_right hpushing
    · have hsame : ∀ t, telling.tells x t (st.directory.watchAnswer s' uid added stored) = t :=
        fun t => tells_watchAnswer.resolve_right fun hin => hx hin.1
      rw [Wire.told_post_of_same hsame]
      refine h.told s' x hs' fun r' hr' => ?_
      cases hr.symm.trans hr'.1
      exact hx hr'.2
  · by_cases hne : s' ≠ s
    · exact h.settles s' x r' hs' (hback hne hr')
    · obtain rfl : s' = s := not_not.1 hne
      have hnone := hr'.1
      change update st.requests s' none s' = _ at hnone
      rw [update_self] at hnone
      cases hnone

/-! ### Pictures and deliveries -/

theorem setAvatar {uid : Int} {version : String} {sender : Nat} (h : Converging st) :
    Converging (st.setAvatar uid version sender) := by
  -- For the account whose picture it is nothing is said of it until it is told.
  have hold : ∀ x, ¬ (st.setAvatar uid version sender).Pushing x →
      ¬ st.Pushing x ∧ (st.setAvatar uid version sender).stored x = st.stored x := by
    intro x hpushing
    refine ⟨fun ⟨push, hmem, hx⟩ => hpushing ⟨push, mem_append_left _ hmem, hx⟩, ?_⟩
    refine update_of_ne ?_ ..
    rintro rfl
    exact hpushing ⟨_, mem_append_right _ (mem_singleton.2 rfl), rfl⟩
  refine ⟨h.consistent, h.started, h.places, h.requests, fun x hpushing => ?_,
    fun s x hs hno => ?_, fun s x r hs hr => ?_⟩
  · rw [(hold x hpushing).2]
    exact h.pictures x (hold x hpushing).1
  · refine ⟨(h.told s x hs hno).1, fun hpushing => ?_⟩
    rw [(hold x hpushing).2]
    exact (h.told s x hs hno).2 (hold x hpushing).1
  · refine ⟨(h.settles s x r hs hr).1, fun hpushing => ?_⟩
    rw [(hold x hpushing).2]
    exact (h.settles s x r hs hr).2 (hold x hpushing).1

theorem deliver {k : Nat} (h : Converging st) (htimely : st.Timely (.deliver k)) :
    Converging { st with wire := st.wire.deliver k } := by
  refine ⟨h.consistent, h.started.deliver, h.places, fun s => ?_, h.pictures,
    fun s x hs hno => ?_, fun s x r hs hr => ?_⟩
  · dsimp only
    rw [Wire.threads_deliver]
    exact h.requests s
  · dsimp only
    rw [Wire.told_deliver htimely]
    exact h.told s x hs hno
  · obtain ⟨hshows, hversion⟩ := h.settles s x r hs hr
    rcases Wire.deliver_cases htimely s with ⟨-, hlate⟩ | ⟨d, -, hlate⟩
    · dsimp only
      rw [hlate]
      exact ⟨hshows, hversion⟩
    · obtain ⟨f, hf⟩ : ∃ f : Told → Told, ∀ t, telling.tells x t (st.wire.late s r.since) =
          telling.tells x (f t) ((st.wire.deliver k).late s r.since) := ⟨_, hlate r.since x⟩
      exact ⟨hshows.rest hf, fun hpushing => (hversion hpushing).rest hf⟩

theorem tells_pushAvatarChanged {d : SessionManager} {version : String} {sender : Nat} {t : Told}
    (hs : s ∈ d.watchers uid) : (telling.tells uid t (packetsTo s
      (d.pushAvatarChanged uid version sender).2.run)).avatarVersion = version := by
  have hnamed : ∀ {out : Fanout} {username}, Carries (d.watchers uid)
      (some (.avatarChanged uid username version)) out →
        (telling.tells uid t (packetsTo s out.run)).avatarVersion = version := by
    intro out username hout
    rw [Telling.tells_of_same (p := .avatarChanged uid username version) 
      (fun t => @tell_tell uid t (.avatarChanged uid username version)) ?_
      (mem_packetsTo.2 (hout.heard _ rfl s hs))]
    · exact congrArg Told.avatarVersion (if_pos rfl)
    · intro q hq habout
      refine (Option.some.inj ((hout.only s q (mem_packetsTo.1 hq)).resolve_left ?_)).symm
      intro hnil
      change uid ∈ q.about at habout
      rw [hnil] at habout
      cases habout
  unfold pushAvatarChanged
  dsimp only
  split
  · exact hnamed (Carries.tell carries_nil)
  · exact hnamed carries_withOwn

theorem picture_pushAvatarChanged {d : SessionManager} {version : String} {sender : Nat}
    {p : Presence} (hp : p ∈ (d.pushAvatarChanged uid version sender).1.presenceOf uid) :
    p.avatarVersion = version := by
  unfold pushAvatarChanged at hp
  dsimp only at hp
  split at hp
  · next hnone =>
    rw [presenceOf, hnone] at hp
    cases hp
  · rw [presenceOf_setAccount] at hp
    cases hp
    rfl

theorem pushAvatarChanged {k : Nat} (h : Converging st) (htimely : st.Timely (.pushAvatarChanged k)) :
    Converging (st.pushAvatarChanged k) := by
  unfold PresenceState.pushAvatarChanged
  split
  · exact h
  next push hk =>
  have hmem : push ∈ st.pushes := mem_of_getElem? hk
  have hpushed : Converging (st.afterSection
      (st.directory.pushAvatarChanged push.uid push.version push.sender)) := by
    refine h.section_step announces_pushAvatarChanged h.consistent.pushAvatarChanged ?_
      (fun _ _ => rfl) fun x v ⟨hx, _⟩ hpushing => absurd ⟨push, hmem, hx.symm⟩ hpushing
    intro s c hc
    rw [sessions_pushAvatarChanged] at hc
    exact h.places s c hc
  -- An account for which nothing is left to be told: either it was so before, or this was the last.
  have hlast : ∀ x, (¬ ∃ push' ∈ st.pushes.eraseIdx k, push'.uid = x) →
      ¬ st.Pushing x ∨ x = push.uid ∧ push.version = st.stored x := by
    intro x hnone
    by_cases hx : x = push.uid
    · exact .inr ⟨hx, (htimely push hk).elim (hx ▸ ·) fun hmore => absurd (hx ▸ hmore) hnone⟩
    · refine .inl fun ⟨push', hmem', hx'⟩ => hnone ⟨push', ?_, hx'⟩
      refine (mem_eraseIdx_iff_getElem?.2 ?_)
      obtain ⟨i, hi⟩ := mem_iff_getElem?.1 hmem'
      refine ⟨i, ?_, hi⟩
      rintro rfl
      cases hk.symm.trans hi
      exact hx hx'.symm
  refine ⟨hpushed.consistent, hpushed.started, hpushed.places, hpushed.requests,
    fun x hpushing => ?_, fun s x hs hno => ?_, fun s x r hs hr => ?_⟩
  · rcases hlast x hpushing with hbefore | ⟨rfl, hversion⟩
    · exact hpushed.pictures x hbefore
    · exact fun p hp => (picture_pushAvatarChanged hp).trans hversion
  · refine ⟨(hpushed.told s x hs hno).1, fun hpushing => ?_⟩
    rcases hlast x hpushing with hbefore | ⟨rfl, hversion⟩
    · exact (hpushed.told s x hs hno).2 hbefore
    · change (Wire.told telling {} (st.wire.send _) s _).avatarVersion = _
      rw [Wire.told_send, tells_pushAvatarChanged (announces_pushAvatarChanged.watchers _ _ hs)]
      exact hversion
  · refine ⟨(hpushed.settles s x r hs hr).1, fun hpushing => ?_⟩
    rcases hlast x hpushing with hbefore | ⟨rfl, hversion⟩
    · exact (hpushed.settles s x r hs hr).2 hbefore
    · intro t _
      have hok := h.requests s
      have hrequest : st.requests s = some (.watch r) := hr.1
      rw [hrequest] at hok
      change (telling.tells _ t ((st.wire.send _).late s r.since)).avatarVersion = _
      rw [Wire.late_send hok.2.2, Telling.tells_append,
        tells_pushAvatarChanged (announces_pushAvatarChanged.watchers _ _ hs)]
      exact hversion

theorem perform {now : Clock} {a : PresenceAct} (h : Converging st) (htimely : st.Timely a) :
    Converging (st.perform now a) := by
  cases a with
  | join => exact h.join now
  | readProfile s login profile => exact h.readProfile
  | bind s => exact h.bind htimely
  | leave s =>
    exact h.afterSection announces_leave h.consistent.leave
      (remains_of_forgotten leave_sessions)
  | retire s reason =>
    exact h.afterSection announces_retire h.consistent.retire
      (remains_of_forgotten retire_sessions)
  | watch s uids => exact h.watch
  | readStored s => exact h.readStored
  | answer s => exact h.answer htimely
  | setIdle s idle => exact h.afterSection announces_setIdle h.consistent.setIdle remains_setIdle
  | updatePresence uid change =>
    exact h.afterSection (announces_updatePresence change.username_apply change.avatarVersion_apply)
      (h.consistent.updatePresence change.idle_apply) (remains_of_same sessions_updatePresence)
  | expireStatusMessage uid =>
    exact h.afterSection announces_expireStatusMessage h.consistent.expireStatusMessage
      (remains_of_same sessions_expireStatusMessage)
  | pushUserRenamed uid username sender =>
    exact h.afterSection announces_pushUserRenamed h.consistent.pushUserRenamed
      (remains_of_same sessions_pushUserRenamed)
  | setAvatar uid version sender => exact h.setAvatar
  | pushAvatarChanged k => exact h.pushAvatarChanged htimely
  | deliver k => exact h.deliver htimely

end Converging

theorem converging_init {stored : Int → String} : Converging { stored } where
  consistent := consistent_empty
  started _ hd := by cases hd
  places _ _ hc := by cases hc
  requests _ := trivial
  pictures _ _ _ hp := by cases hp
  told _ _ hs := by cases hs
  settles _ _ _ hs := by cases hs

theorem Converging.rightlyTold (h : Converging st) (hquiet : st.Quiet)
    (hs : s ∈ st.directory.watchers uid) : st.RightlyTold s uid := by
  obtain ⟨hrequests, hpushes, hpending⟩ := hquiet
  have hawaits : ∀ r, ¬ st.Awaits s uid r := fun r hr => by
    have hrequest := hr.1
    rw [hrequests s] at hrequest
    cases hrequest
  have hpushing : ¬ st.Pushing uid := by
    rintro ⟨push, hmem, -⟩
    rw [hpushes] at hmem
    cases hmem
  have htold := h.told s uid hs hawaits
  rw [Wire.told_quiet hpending] at htold
  obtain ⟨hshows, hversion⟩ := htold
  have hversion := hversion hpushing
  have hpicture := h.pictures uid hpushing
  unfold PresenceState.RightlyTold PresenceState.lastTold
  unfold Shows at hshows
  cases hV : (st.directory.presenceOf uid).filter (·.visible) with
  | none =>
    rw [hV] at hshows
    exact ⟨hshows, hversion⟩
  | some p =>
    rw [hV] at hshows
    obtain ⟨hp, -⟩ := Option.filter_eq_some_iff.1 hV
    generalize telling.tells uid {} (st.wire.queue s) = t at hshows hversion
    obtain ⟨status, username, avatarVersion⟩ := t
    obtain ⟨hstatus, hname⟩ := hshows
    dsimp only at hstatus hname hversion ⊢
    rw [hstatus, hname, hversion, hpicture p hp]

/-- In every run of steps taken in time, once nothing is pending each connection was last told of
    each account it watches how that is. -/
theorem watchers_converge
    (h : (presenceSystem.given fun st a => st.Timely a.2).Reachable st) (hquiet : st.Quiet)
    (s : Nat) (uid : Int) (hs : s ∈ st.directory.watchers uid) : st.RightlyTold s uid := by
  refine Converging.rightlyTold ?_ hquiet hs
  refine System.reachable_invariant (I := Converging) ?_ ?_ h
  · rintro _ ⟨stored, rfl⟩
    exact converging_init
  · rintro st a _ hst ⟨rfl, htimely⟩
    exact hst.perform htimely

/-- The steps of a run, all at one time. -/
def PresenceState.run (st : PresenceState) (as : List PresenceAct) : PresenceState :=
  as.foldl (fun st a => st.perform {} a) st

def PresenceState.TimelyRun (st : PresenceState) : List PresenceAct → Prop
  | [] => True
  | a :: as => st.Timely a ∧ (st.perform {} a).TimelyRun as

theorem PresenceState.reachable_timelyRun {as : List PresenceAct}
    (h : (presenceSystem.given fun st a => st.Timely a.2).Reachable st) (has : st.TimelyRun as) :
    (presenceSystem.given fun st a => st.Timely a.2).Reachable (st.run as) := by
  induction as generalizing st with
  | nil => exact h
  | cons a as ih => exact ih (.step ({}, a) h ⟨rfl, has.1⟩) has.2

/-- Account 12 watches account 11, which then goes idle. -/
def watchedIdle : List PresenceAct :=
  let login (uid : Int) (huid : 0 < uid) : LoginResult :=
    { uid, uid_pos := huid, username := "ann", deviceId := "laptop", device_named := by decide }
  [.join, .readProfile 0 (login 11 (by decide)) {}, .bind 0,
    .join, .readProfile 1 (login 12 (by decide)) {}, .bind 1,
    .watch 1 [11], .readStored 1, .answer 1, .setIdle 0 true, .deliver 0, .deliver 0]

theorem watchers_converge_watchedIdle : (PresenceState.run {} watchedIdle).RightlyTold 1 11 := by
  have hbind : ∀ st : PresenceState, ∀ s, (∃ login presence,
      st.requests s = some (.signIn login presence) ∧
        presence.avatarVersion = st.stored login.uid) → st.Timely (.bind s) := by
    rintro st s ⟨login, presence, hr, hpicture⟩ login' presence' hr' _
    cases hr.symm.trans hr'
    exact .inl hpicture
  refine watchers_converge (PresenceState.reachable_timelyRun (.init ⟨_, rfl⟩) ?_)
    ⟨fun s => ?_, by decide, by decide⟩ 1 11 (by decide)
  · refine ⟨trivial, trivial, hbind _ _ ⟨_, _, rfl, rfl⟩, trivial, trivial,
      hbind _ _ ⟨_, _, rfl, rfl⟩, trivial, trivial, ?_, trivial, ?_, ?_, trivial⟩
    · -- Nothing is pending when the request is answered, and the account is there.
      intro r stored hr hstored x hx
      refine ⟨fun d hd => (List.not_mem_nil hd).elim, fun hgone => ?_⟩
      have hadded : r.added = [11] := by
        cases hr
        rfl
      rw [hadded, List.mem_singleton] at hx
      subst hx
      exact absurd hgone (by decide)
    · exact fun _ _ _ hmem => (List.not_mem_nil hmem).elim
    · exact fun _ _ _ hmem => (List.not_mem_nil hmem).elim
  · match s with
    | 0 => rfl
    | 1 => rfl
    | _ + 2 => rfl

/-- What the watchers are told converges in every run. -/
def Converges : Prop :=
  ∀ st, presenceSystem.Reachable st → st.Quiet →
    ∀ s uid, s ∈ st.directory.watchers uid → st.RightlyTold s uid

theorem PresenceState.reachable_run {as : List PresenceAct} (h : presenceSystem.Reachable st) :
    presenceSystem.Reachable (st.run as) := by
  induction as generalizing st with
  | nil => exact h
  | cons a as ih => exact ih (.step ({}, a) h rfl)

/-- Account 11 is signed in on two devices, 12 on one that watches 11. -/
def watchedAccount : List PresenceAct :=
  let login (uid : Int) (huid : 0 < uid) (device : String) (hdevice : device ≠ "") : LoginResult :=
    { uid, uid_pos := huid, username := "ann", deviceId := device, device_named := hdevice }
  [.join, .readProfile 0 (login 11 (by decide) "laptop" (by decide)) {}, .bind 0,
    .join, .readProfile 1 (login 11 (by decide) "tablet" (by decide)) {}, .bind 1,
    .join, .readProfile 2 (login 12 (by decide) "watch" (by decide)) {}, .bind 2,
    .watch 2 [11], .readStored 2, .answer 2]

/-- The second device goes idle, then the first comes back, whose news is overtaken. -/
def overtakenIdle : List PresenceAct :=
  watchedAccount ++ [.setIdle 0 true, .setIdle 1 true, .setIdle 0 false, .deliver 3] ++
    List.replicate 5 (.deliver 0)

/-- The watcher goes on to see the account away. -/
theorem not_converges : ¬ Converges := by
  intro h
  have hquiet : (PresenceState.run {} overtakenIdle).Quiet := by
    refine ⟨fun s => ?_, by decide, by decide⟩
    match s with
    | 0 => rfl
    | 1 => rfl
    | 2 => rfl
    | _ + 3 => rfl
  have hpresence : ((PresenceState.run {} overtakenIdle).directory.presenceOf 11).filter (·.visible) =
      some { username := "ann" } := by decide
  have htold := h _ (PresenceState.reachable_run (.init ⟨_, rfl⟩)) hquiet 2 11 (by decide)
  rw [PresenceState.RightlyTold, hpresence] at htold
  exact absurd htold (by decide)

end Decibell.Central
