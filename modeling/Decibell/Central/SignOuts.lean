import Decibell.Central.CallSafety
import Decibell.Central.Devices

/-!
# Signing devices out

What sign-ins, sign-outs and password changes of all connections come to when each database
transaction, each password check and each call of the directory is a step of its own.
-/

open Function Lib List

namespace Decibell.Central

variable {H : Type}

/-! ## The requests -/

/-- A sign-in that the database has accepted. -/
structure Admission extends LoginResult where
  /-- The sign-in behind it. -/
  origin : Origin
  /-- The step that accepted it. -/
  step : Nat

/-- Which connections a sign-out is about. -/
inductive SignOutKind
  /-- Those of some devices. -/
  | devices (gone : List String)
  /-- Those of all other devices than the one that asked. -/
  | allOthers (keepDevice : String)
  /-- The password was changed. -/
  | password

/-- A committed sign-out of devices, or password change. -/
structure SignOut where
  uid : Int
  uid_pos : 0 < uid
  /-- The connection that asked, which stays. -/
  keep : Nat
  kind : SignOutKind
  /-- The step that committed it. -/
  step : Nat

/-- What a connection is doing for its request. -/
inductive Doing (H : Type)
  | nothing
  | readCredentials (uid : Int) (password : String) (device : DeviceLogin)
  | verifyPassword (uid : Int) (password : String) (stored : H) (device : DeviceLogin) (read : Nat)
  | signInDevice (uid : Int) (huid : 0 < uid) (device : DeviceLogin) (read : Nat)
  | resumeSession (token : ResumeToken) (deviceId : String)
  | bind (login : Admission)
  | retireReplaced (old : Nat)
  | signOutDevices (ids : List Int) (allOthers : Bool)
  | readPassword (current : String)
  | verifyCurrent (current : String) (checked : H)
  | changePassword (checked : H)
  | closeSessions (r : SignOut)
  | answer (r : SignOut)
  | forgetDevice

/-- A connection's sign-in, and what it is doing. -/
structure Handler (H : Type) where
  login : Option Admission := none
  doing : Doing H := .nothing

/-- The server's state. Steps are numbered. -/
structure SignInState (H : Type) where
  db : Db H
  directory : SessionManager := {}
  nextSession : Nat := 0
  handler : Nat → Handler H := fun _ => {}
  /-- The sign-outs committed, those that have closed their connections, and those answered. -/
  committed : List SignOut := []
  closed : List SignOut := []
  answered : List SignOut := []
  step : Nat := 1

/-- The time, what is read of the account, and a new password's hash. -/
structure Surroundings (H : Type) where
  unix : Int := 0
  clock : Clock := {}
  username : String := ""
  presence : Presence := {}
  hash : H

inductive SignInAct (H : Type)
  | join
  | leave (s : Nat) (clock : Clock)
  /-- A sign-in with the name of an account. -/
  | login (s : Nat) (uid : Int) (password : String) (device : DeviceLogin)
  | resume (s : Nat) (token : ResumeToken) (deviceId : String)
  | signOutDevices (s : Nat) (ids : List Int) (allOthers : Bool)
  | changePassword (s : Nat) (current next : String)
  | logOut (s : Nat)
  /-- The next step of the request that a connection is working on. -/
  | next (s : Nat) (sur : Surroundings H)
  /-- The database fails the request. -/
  | fail (s : Nat)

namespace SignInState

variable (verify : String → H → Bool) (st : SignInState H)

def setHandler (s : Nat) (h : Handler H) : SignInState H :=
  { st with handler := update st.handler s h }

/-- The connection goes on with its request. -/
def goOn (s : Nat) (doing : Doing H) : SignInState H :=
  st.setHandler s { st.handler s with doing }

/-- A sign-out is committed; its connections are to be closed. -/
def commit (s : Nat) (db : Db H) (r : SignOut) : SignInState H :=
  { st.goOn s (.closeSessions r) with db, committed := r :: st.committed }

/-- What a sign-in comes to once the directory has seen it. -/
def bound (s : Nat) (sur : Surroundings H) (login : Admission) : SignInState H :=
  let b := st.directory.bindLogin sur.clock s login.toLoginResult sur.presence
  let st := { st with directory := b.manager }
  if b.ok then
    st.setHandler s
      { login := some login, doing := b.replaced.elim .nothing Doing.retireReplaced }
  else st.goOn s .nothing

/-- The connections of a sign-out are closed. -/
def close (s : Nat) (sur : Surroundings H) (r : SignOut) : SignInState H :=
  let d := match r.kind with
    | .devices gone => st.directory.closeDeviceSessions sur.clock r.uid gone (some r.keep) .signedOut
    | .allOthers _ => st.directory.closeOtherSessions sur.clock r.uid (some r.keep) .signedOut
    | .password => st.directory.closeOtherSessions sur.clock r.uid (some r.keep) .passwordChanged
  { st.goOn s (.answer r) with directory := d.1, closed := r :: st.closed }

/-- The next step of the request of a connection. -/
def next [DecidableEq H] (s : Nat) (sur : Surroundings H) : SignInState H :=
  match (st.handler s).doing, (st.handler s).login with
  | .readCredentials uid password device, _ =>
    match st.db.users uid with
    | some user => st.goOn s (.verifyPassword uid password user.passwordHash device st.step)
    | none => st.goOn s .nothing
  | .verifyPassword uid password stored device read, _ =>
    if verify password stored then
      if huid : 0 < uid then st.goOn s (.signInDevice uid huid device read) else st.goOn s .nothing
    else st.goOn s .nothing
  | .signInDevice uid huid device read, _ =>
    let origin := { read, row := st.step }
    match st.db.signInDevice uid device sur.unix origin with
    | .ok db =>
      { st.goOn s (.bind { uid, uid_pos := huid, username := sur.username
                           deviceId := device.deviceId, device_named := device.device_named
                           origin, step := st.step }) with db }
    | .error _ => st.goOn s .nothing
  | .resumeSession token deviceId, _ =>
    match h : st.db.resumeSession token deviceId sur.unix with
    | .ok (db, row) =>
      have hok := (Db.EachRow.resumeSession (P := fun _ _ _ => True)
        (fun _ _ _ _ _ => trivial) h).2.2
      { st.goOn s (.bind { uid := token.uid, uid_pos := hok.1, username := sur.username
                           deviceId := token.deviceId, device_named := hok.2
                           origin := row.origin, step := st.step }) with db }
    | .error _ => st.goOn s .nothing
  | .bind login, _ => st.bound s sur login
  | .retireReplaced old, _ =>
    { st.goOn s .nothing with directory := (st.directory.retire sur.clock old .replaced).1 }
  | .signOutDevices ids allOthers, some login =>
    let (db, gone) := st.db.signOutDevices login.uid login.deviceId ids allOthers
    st.commit s db { uid := login.uid, uid_pos := login.uid_pos, keep := s, step := st.step
                     kind := if allOthers then .allOthers login.deviceId else .devices gone }
  | .readPassword current, some login =>
    match st.db.users login.uid with
    | some user => st.goOn s (.verifyCurrent current user.passwordHash)
    | none => st.goOn s .nothing
  | .verifyCurrent current checked, _ =>
    st.goOn s (if verify current checked then .changePassword checked else .nothing)
  | .changePassword checked, some login =>
    match st.db.changePassword login.uid checked sur.hash sur.unix login.deviceId st.step
        login.origin with
    | some db => st.commit s db { uid := login.uid, uid_pos := login.uid_pos, keep := s
                                  kind := .password, step := st.step }
    | none => st.goOn s .nothing
  | .closeSessions r, _ => st.close s sur r
  | .answer r, _ => { st.goOn s .nothing with answered := r :: st.answered }
  | .forgetDevice, some login =>
    { st.goOn s .nothing with db := st.db.forgetDevice login.uid login.deviceId }
  | _, _ => st.goOn s .nothing

def advance : SignInState H := { st with step := st.step + 1 }

/-- A connection that is there and has no request begins one. -/
def begin (s : Nat) (signedIn : Bool) (doing : Doing H) : SignInState H :=
  match st.handler s with
  | { login, doing := .nothing } =>
    if s < st.nextSession ∧ login.isSome = signedIn then st.goOn s doing else st
  | _ => st

/-- The database can fail a request until its last transaction. -/
def Doing.canFail : Doing H → Bool
  | .bind _ | .retireReplaced _ | .closeSessions _ | .answer _ => false
  | _ => true

def perform [DecidableEq H] (st : SignInState H) : SignInAct H → SignInState H
  | .join =>
    { st with directory := st.directory.join st.nextSession, nextSession := st.nextSession + 1 }
  | .leave s clock => { st with directory := (st.directory.leave clock s).1 }
  | .login s uid password device => st.begin s false (.readCredentials uid password device)
  | .resume s token deviceId => st.begin s false (.resumeSession token deviceId)
  | .signOutDevices s ids allOthers => st.begin s true (.signOutDevices ids allOthers)
  | .changePassword s current next =>
    if next.utf8ByteSize < minPassword ∨ next = current then st
    else st.begin s true (.readPassword current)
  | .logOut s => st.begin s true .forgetDevice
  | .next s sur => st.next verify s sur
  | .fail s => if Doing.canFail (st.handler s).doing then st.goOn s .nothing else st

end SignInState

/-- The runs of the sign-ins and sign-outs of all connections. -/
def signInSystem [DecidableEq H] (verify : String → H → Bool) :
    System (SignInState H) (SignInAct H) where
  init st := ∃ db : Db H, st = { db } ∧ db.EachRow fun _ _ o => o = {}
  step st a st' := st' = (st.perform verify a).advance

/-! ## What a sign-out promises -/

namespace SignOutKind

/-- The sign-out is about a device. -/
def OfDevice : SignOutKind → String → Prop
  | .devices gone, device => device ∈ gone
  | .allOthers keepDevice, device => device ≠ keepDevice
  | .password, _ => True

instance : (k : SignOutKind) → (device : String) → Decidable (k.OfDevice device)
  | .devices _, _ => inferInstanceAs (Decidable (_ ∈ _))
  | .allOthers _, _ => inferInstanceAs (Decidable (_ ≠ _))
  | .password, _ => inferInstanceAs (Decidable True)

/-- The sign-in came after step `n`: its device was recorded, or its password read, after it. -/
def Precedes (n : Nat) (o : Origin) : SignOutKind → Prop
  | .password => n ≤ o.read
  | _ => n < o.row

instance (n : Nat) (o : Origin) : (k : SignOutKind) → Decidable (k.Precedes n o)
  | .devices _ => inferInstanceAs (Decidable (_ < _))
  | .allOthers _ => inferInstanceAs (Decidable (_ < _))
  | .password => inferInstanceAs (Decidable (_ ≤ _))

def isPassword : SignOutKind → Bool
  | .password => true
  | _ => false

end SignOutKind

namespace SignOut

def OfDevice (r : SignOut) (device : String) : Prop := r.kind.OfDevice device

/-- The sign-out is about a connection. -/
def Covers (r : SignOut) (s : Nat) (device : String) : Prop :=
  s ≠ r.keep ∧ r.OfDevice device

/-- The sign-in came after the sign-out. -/
def Precedes (r : SignOut) (o : Origin) : Prop := r.kind.Precedes r.step o

instance (r : SignOut) (s : Nat) (device : String) : Decidable (r.Covers s device) :=
  inferInstanceAs (Decidable (s ≠ r.keep ∧ r.kind.OfDevice device))

instance (r : SignOut) (o : Origin) : Decidable (r.Precedes o) :=
  inferInstanceAs (Decidable (r.kind.Precedes r.step o))

theorem Precedes.of_kind {r : SignOut} {o : Origin} (hrow : ¬ r.kind.isPassword → r.step < o.row)
    (hread : r.kind.isPassword → r.step ≤ o.read) : r.Precedes o := by
  unfold Precedes
  rcases hkind : r.kind with gone | keepDevice | _ <;> rw [hkind] at hrow hread
  · exact hrow nofun
  · exact hrow nofun
  · exact hread rfl

theorem Precedes.read {r : SignOut} {o : Origin} {n : Nat} (h : r.Precedes o) (hn : r.step ≤ n) :
    r.Precedes { o with read := n } := by
  unfold Precedes at h ⊢
  rcases hkind : r.kind with gone | keepDevice | _ <;> rw [hkind] at h
  · exact h
  · exact h
  · exact hn

end SignOut

/-- Every connection that some sign-outs cover goes back to a later sign-in. -/
def StayOut (st : SignInState H) (rs : List SignOut) : Prop :=
  ∀ r ∈ rs, ∀ s conn, st.directory.sessions s = some conn → conn.uid = r.uid →
    r.Covers s conn.deviceId → ∃ login, (st.handler s).login = some login ∧ r.Precedes login.origin

/-- Nothing is overtaken:

    * when a sign-in records its device, the password is still the one it read;
    * when it takes its place, no sign-out that covers it and closed its connections was
      committed since the sign-in was accepted;
    * a device without a row changes the password only if not signed out since its sign-in. -/
def Settled (st : SignInState H) : SignInAct H → Prop
  | .next s sur =>
    match (st.handler s).doing, (st.handler s).login with
    | .signInDevice uid _ device read, _ =>
      (st.db.signInDevice uid device sur.unix { read, row := st.step }).isOk →
        ∀ r ∈ st.committed, r.uid = uid → r.kind.isPassword → r.step ≤ read
    | .bind login, _ =>
      (st.directory.bindLogin sur.clock s login.toLoginResult sur.presence).ok →
        ∀ r ∈ st.closed, r.uid = login.uid → r.Covers s login.deviceId → r.step < login.step
    | .changePassword _, some login =>
      (st.db.users login.uid).bind (·.device login.deviceId) = none →
        ∀ r ∈ st.committed, r.uid = login.uid → r.OfDevice login.deviceId →
          ¬ r.kind.isPassword → r.step < login.origin.row
    | _, _ => True
  | _ => True

/-! ## What the directory does to the places of connections -/

variable {d d' d'' : SessionManager} {s s' : Nat} {now : Clock} {reason : CloseReason}

/-- Nobody takes a place. -/
def Fewer (d d' : SessionManager) : Prop :=
  ∀ s c', d'.sessions s = some c' → 0 < c'.uid →
    ∃ c, d.sessions s = some c ∧ c.uid = c'.uid ∧ c.deviceId = c'.deviceId

theorem fewer_of_forgotten (h : ∀ s, d'.sessions s = none ∨ d'.sessions s = d.sessions s) :
    Fewer d d' := by
  intro s c' hc' _
  rcases h s with hnone | hsame
  · exact nomatch hnone.symm.trans hc'
  · exact ⟨c', hsame ▸ hc', rfl, rfl⟩

namespace SessionManager

theorem retireAll_sessions {ss : List Nat} :
    (d.retireAll now reason ss).1.sessions s = if s ∈ ss then none else d.sessions s := by
  have hfold : ∀ r : SessionManager × Fanout, (ss.foldl (fun r s =>
      ((r.1.retire now s reason).1, r.2 ++ (r.1.retire now s reason).2)) r).1.sessions s =
        if s ∈ ss then none else r.1.sessions s := by
    induction ss with
    | nil => exact fun _ => rfl
    | cons s₁ ss ih =>
      intro r
      rw [foldl_cons, ih]
      dsimp only
      rw [retire_sessions, update_apply]
      by_cases hs : s ∈ ss <;> by_cases h₁ : s = s₁ <;> simp [hs, h₁]
  exact hfold (d, [])

end SessionManager

theorem fewer_retireAll {ss : List Nat} : Fewer d (d.retireAll now reason ss).1 := by
  refine fewer_of_forgotten fun s => ?_
  rw [SessionManager.retireAll_sessions]
  split
  · exact .inl rfl
  · exact .inr rfl

theorem closeOtherSessions_keep {uid : Int} {keep : Nat} {c : Connection} (h : d.Consistent)
    (hpos : 0 < c.uid) (hc : (d.closeOtherSessions now uid (some keep) reason).1.sessions s = some c)
    (huid : c.uid = uid) : s = keep := by
  by_contra hne
  rw [SessionManager.closeOtherSessions, SessionManager.retireAll_sessions] at hc
  split at hc
  · cases hc
  next hlisted =>
  obtain ⟨a, ha, hmem⟩ := h.listed hc hpos
  refine hlisted ?_
  rw [huid] at ha
  simp [SessionManager.otherSessions, ha, hmem, hne]

theorem closeDeviceSessions_keep {uid : Int} {keep : Nat} {gone : List String} {c : Connection}
    (h : d.Consistent) (hpos : 0 < c.uid)
    (hc : (d.closeDeviceSessions now uid gone (some keep) reason).1.sessions s = some c)
    (huid : c.uid = uid) (hgone : c.deviceId ∈ gone) : s = keep := by
  by_contra hne
  rw [SessionManager.closeDeviceSessions, SessionManager.retireAll_sessions] at hc
  split at hc
  · cases hc
  next hlisted =>
  obtain ⟨a, ha, hmem⟩ := h.listed hc hpos
  refine hlisted ?_
  rw [huid] at ha
  simp [SessionManager.deviceSessions, SessionManager.otherSessions, ha, hmem, hne, hc, hgone]

/-! ## The invariant -/

variable {verify : String → H → Bool} {st st' : SignInState H} {doing : Doing H} {r : SignOut}
  {db : Db H}

/-- The request is a sign-in that has not got its place yet. -/
def Doing.signsIn : Doing H → Bool
  | .readCredentials .. | .verifyPassword .. | .signInDevice .. | .resumeSession .. | .bind _ => true
  | _ => false

/-- An accepted sign-in came after the sign-outs committed then; a sign-out is committed, closes,
    and answers, in this order. -/
def Doing.Ok (st : SignInState H) : Doing H → Prop
  | .bind login => login.step < st.step ∧ ∀ r ∈ st.committed, r.uid = login.uid →
      r.OfDevice login.deviceId → r.step < login.step → r.Precedes login.origin
  | .closeSessions r => r ∈ st.committed
  | .answer r => r ∈ st.closed
  | _ => True

theorem Doing.Ok.mono (h : doing.Ok st) (hstep : st.step ≤ st'.step)
    (hcommitted : ∀ r ∈ st.committed, r ∈ st'.committed)
    (hnew : ∀ r ∈ st'.committed, r ∈ st.committed ∨ st.step ≤ r.step)
    (hclosed : ∀ r ∈ st.closed, r ∈ st'.closed) : doing.Ok st' := by
  cases doing with
  | bind login =>
    refine ⟨Nat.lt_of_lt_of_le h.1 hstep, fun r hr huid hdevice hlt => ?_⟩
    rcases hnew r hr with hr | hle
    · exact h.2 r hr huid hdevice hlt
    · exact absurd (Nat.lt_of_le_of_lt hle hlt) (Nat.lt_asymm h.1)
  | closeSessions r => exact hcommitted r h
  | answer r => exact hclosed r h
  | _ => trivial

/-- Who a connection is signed in as. -/
def SignInState.who (st : SignInState H) : Who := fun s =>
  (st.handler s).login.map fun login => (login.uid, login.deviceId)

structure SignInInv (st : SignInState H) : Prop where
  consistent : st.directory.Consistent
  bound : BoundTo st.who st.directory
  once : ∀ s, (st.handler s).doing.signsIn → (st.handler s).login = none
  doing : ∀ s, (st.handler s).doing.Ok st
  past : ∀ r ∈ st.committed, r.step < st.step
  committed : ∀ r ∈ st.closed, r ∈ st.committed
  closed : ∀ r ∈ st.answered, r ∈ st.closed
  /-- A signed-out device has only rows of later sign-ins. -/
  rows : st.db.EachRow fun uid d o =>
    ∀ r ∈ st.committed, r.uid = uid → r.OfDevice d → r.Precedes o
  out : StayOut st st.closed

namespace SignInInv

theorem advance (h : SignInInv st) : SignInInv st.advance where
  consistent := h.consistent
  bound := h.bound
  once := h.once
  doing s := (h.doing s).mono (Nat.le_succ _) (fun _ hr => hr) (fun _ hr => .inl hr) fun _ hr => hr
  past r hr := Nat.lt_succ_of_lt (h.past r hr)
  committed := h.committed
  closed := h.closed
  rows := h.rows
  out := h.out

theorem goOn (h : SignInInv st) (honce : doing.signsIn → (st.handler s).login = none)
    (hdoing : doing.Ok st) : SignInInv (st.goOn s doing) := by
  have hlogin : ∀ s', ((st.goOn s doing).handler s').login = (st.handler s').login := by
    intro s'
    change (update st.handler s { st.handler s with doing } s').login = _
    rw [update_apply]
    split
    · next heq => rw [heq]
    · rfl
  have hhandler : ∀ s', ((st.goOn s doing).handler s').doing = (st.handler s').doing ∨
      (s' = s ∧ ((st.goOn s doing).handler s').doing = doing) := by
    intro s'
    change (update st.handler s { st.handler s with doing } s').doing = _ ∨ _
    rw [update_apply]
    split
    · next heq => exact .inr ⟨heq, by rw [heq]; exact congrArg _ (update_self ..)⟩
    · exact .inl rfl
  refine ⟨h.consistent, ?_, ?_, ?_, h.past, h.committed, h.closed, h.rows, ?_⟩
  · intro s' c hc hpos
    rw [SignInState.who, hlogin]
    exact h.bound s' c hc hpos
  · intro s' hin
    rw [hlogin]
    rcases hhandler s' with heq | ⟨rfl, heq⟩ <;> rw [heq] at hin
    · exact h.once s' hin
    · exact honce hin
  · intro s'
    rcases hhandler s' with heq | ⟨rfl, heq⟩ <;> rw [heq]
    · exact (h.doing s').mono (Nat.le_refl _) (fun _ hr => hr) (fun _ hr => .inl hr) fun _ hr => hr
    · exact hdoing.mono (Nat.le_refl _) (fun _ hr => hr) (fun _ hr => .inl hr) fun _ hr => hr
  · intro r hr s' c hc huid hcovers
    rw [hlogin]
    exact h.out r hr s' c hc huid hcovers

theorem stop (h : SignInInv st) : SignInInv (st.goOn s .nothing) :=
  h.goOn nofun trivial

theorem setDb (h : SignInInv st) (hrows : db.EachRow fun uid d o =>
    ∀ r ∈ st.committed, r.uid = uid → r.OfDevice d → r.Precedes o) :
    SignInInv { st with db } :=
  ⟨h.consistent, h.bound, h.once, fun s => (h.doing s).mono (Nat.le_refl _) (fun _ hr => hr)
    (fun _ hr => .inl hr) fun _ hr => hr, h.past, h.committed, h.closed, hrows, h.out⟩

theorem setDirectory (h : SignInInv st) (hd : d.Consistent) (hfewer : Fewer st.directory d) :
    SignInInv { st with directory := d } := by
  refine ⟨hd, ?_, h.once, fun s => (h.doing s).mono (Nat.le_refl _) (fun _ hr => hr)
    (fun _ hr => .inl hr) fun _ hr => hr, h.past, h.committed, h.closed, h.rows, ?_⟩
  · intro s' c' hc' hpos
    obtain ⟨c, hc, huid, hdevice⟩ := hfewer s' c' hc' hpos
    rw [← huid, ← hdevice]
    exact h.bound s' c hc (huid ▸ hpos)
  · intro r hr s' c' hc' huid' hcovers
    obtain ⟨c, hc, huid, hdevice⟩ := hfewer s' c' hc' (huid' ▸ r.uid_pos)
    exact h.out r hr s' c hc (huid.trans huid') (hdevice ▸ hcovers)

theorem commit (h : SignInInv st) (hr : r.step = st.step) (hrows : db.EachRow fun uid d o =>
      ∀ r' ∈ r :: st.committed, r'.uid = uid → r'.OfDevice d → r'.Precedes o) :
    SignInInv (st.commit s db r).advance := by
  have hrecorded : SignInInv { st with db, committed := r :: st.committed, step := st.step + 1 } := by
    refine ⟨h.consistent, h.bound, h.once, ?_, ?_, ?_, h.closed, hrows, h.out⟩
    · refine fun s => (h.doing s).mono (Nat.le_succ _) (fun _ => mem_cons_of_mem _) ?_
        fun _ hr => hr
      intro r' hr'
      rcases mem_cons.1 hr' with rfl | hr'
      · exact .inr (Nat.le_of_eq hr.symm)
      · exact .inl hr'
    · intro r' hr'
      rcases mem_cons.1 hr' with rfl | hr'
      · exact Nat.lt_succ_of_le (Nat.le_of_eq hr)
      · exact Nat.lt_succ_of_lt (h.past r' hr')
    · exact fun r' hr' => mem_cons_of_mem _ (h.committed r' hr')
  exact hrecorded.goOn nofun mem_cons_self

theorem close {sur : Surroundings H} (h : SignInInv st) (hr : r ∈ st.committed) :
    SignInInv (st.close s sur r) := by
  unfold SignInState.close
  obtain ⟨d, hd⟩ : ∃ d : SessionManager × Fanout, (match r.kind with
    | .devices gone =>
      st.directory.closeDeviceSessions sur.clock r.uid gone (some r.keep) .signedOut
    | .allOthers _ => st.directory.closeOtherSessions sur.clock r.uid (some r.keep) .signedOut
    | .password =>
      st.directory.closeOtherSessions sur.clock r.uid (some r.keep) .passwordChanged) = d := ⟨_, rfl⟩
  have hclosed : d.1.Consistent ∧ Fewer st.directory d.1 ∧
      ∀ s conn, d.1.sessions s = some conn → conn.uid = r.uid → ¬ r.Covers s conn.deviceId := by
    rw [← hd]
    rcases hkind : r.kind with gone | keepDevice | _
    · refine ⟨h.consistent.retireAll, fewer_retireAll, ?_⟩
      rintro s conn hconn huid ⟨hne, hdevice⟩
      rw [SignOut.OfDevice, hkind] at hdevice
      exact hne (closeDeviceSessions_keep h.consistent (huid ▸ r.uid_pos) hconn huid hdevice)
    · refine ⟨h.consistent.retireAll, fewer_retireAll, ?_⟩
      rintro s conn hconn huid ⟨hne, -⟩
      exact hne (closeOtherSessions_keep h.consistent (huid ▸ r.uid_pos) hconn huid)
    · refine ⟨h.consistent.retireAll, fewer_retireAll, ?_⟩
      rintro s conn hconn huid ⟨hne, -⟩
      exact hne (closeOtherSessions_keep h.consistent (huid ▸ r.uid_pos) hconn huid)
  obtain ⟨hconsistent, hfewer, hnone⟩ := hclosed
  rw [hd]
  have hshut : SignInInv { st with directory := d.1, closed := r :: st.closed } := by
    have hd := h.setDirectory hconsistent hfewer
    refine ⟨hd.consistent, hd.bound, hd.once, fun s => (hd.doing s).mono (Nat.le_refl _)
      (fun _ hr => hr) (fun _ hr => .inl hr) fun _ => mem_cons_of_mem _, hd.past, ?_, ?_,
      hd.rows, ?_⟩
    · exact forall_mem_cons.2 ⟨hr, hd.committed⟩
    · exact fun r' hr' => mem_cons_of_mem _ (hd.closed r' hr')
    · intro r' hr' s conn hconn huid hcovers
      rcases mem_cons.1 hr' with rfl | hr'
      · exact absurd hcovers (hnone s conn hconn huid)
      · exact hd.out r' hr' s conn hconn huid hcovers
  exact hshut.goOn nofun mem_cons_self

theorem signIn {sur : Surroundings H} {login : Admission} (h : SignInInv st)
    (hdoing : (st.handler s).doing = .bind login)
    (hsettled : (st.directory.bindLogin sur.clock s login.toLoginResult sur.presence).ok →
      ∀ r ∈ st.closed, r.uid = login.uid → r.Covers s login.deviceId → r.step < login.step) :
    SignInInv (st.bound s sur login) := by
  have hout : (st.handler s).login = none := h.once s (by rw [hdoing]; rfl)
  have hadmitted := h.doing s
  rw [hdoing] at hadmitted
  -- The connection has no place yet.
  have hfree : ∀ c, st.directory.sessions s = some c → ¬ 0 < c.uid := by
    intro c hc hpos
    have hwho := h.bound s c hc hpos
    rw [SignInState.who, hout] at hwho
    exact nomatch hwho
  obtain ⟨b, hb⟩ : ∃ b, st.directory.bindLogin sur.clock s login.toLoginResult sur.presence = b :=
    ⟨_, rfl⟩
  have hconsistent : b.manager.Consistent := by
    rw [← hb]
    exact h.consistent.bind login.uid_pos login.device_named
  have hplaces : Bindable s login.uid login.deviceId st.directory b := by
    rw [← hb]
    exact bindable_bind hfree
  rw [hb] at hsettled
  unfold SignInState.bound
  rw [hb]
  dsimp only
  split
  · next hok =>
    have hlogin : ∀ s', s' ≠ s → (update st.handler s
        { login := some login, doing := b.replaced.elim .nothing Doing.retireReplaced } s').login =
          (st.handler s').login := by
      intro s' hne
      rw [update_of_ne hne]
    have hquiet : ∀ o : Option Nat, (o.elim Doing.nothing Doing.retireReplaced : Doing H).signsIn =
        false ∧ ∀ st : SignInState H, (o.elim Doing.nothing Doing.retireReplaced).Ok st := by
      intro o
      cases o <;> exact ⟨rfl, fun _ => trivial⟩
    refine ⟨hconsistent, ?_, ?_, ?_, h.past, h.committed, h.closed, h.rows, ?_⟩
    · intro s' c' hc' hpos
      unfold SignInState.who SignInState.setHandler
      dsimp only
      rcases hplaces.places s' c' hc' hpos with ⟨rfl, -, huid, hdevice⟩ | ⟨c, hc, huid, hdevice⟩
      · rw [update_self, huid, hdevice]
        rfl
      · have hne : s' ≠ s := by
          rintro rfl
          exact hfree c hc (huid ▸ hpos)
        rw [hlogin s' hne, ← huid, ← hdevice]
        exact h.bound s' c hc (huid ▸ hpos)
    · intro s' hin
      by_cases heq : s' = s
      · subst heq
        unfold SignInState.setHandler at hin
        dsimp only at hin
        rw [update_self, (hquiet b.replaced).1] at hin
        exact nomatch hin
      · unfold SignInState.setHandler at hin ⊢
        dsimp only at hin ⊢
        rw [update_of_ne heq] at hin ⊢
        exact h.once s' hin
    · intro s'
      unfold SignInState.setHandler
      dsimp only
      by_cases heq : s' = s
      · subst heq
        rw [update_self]
        exact (hquiet b.replaced).2 _
      · rw [update_of_ne heq]
        exact (h.doing s').mono (Nat.le_refl _) (fun _ hr => hr) (fun _ hr => .inl hr)
          fun _ hr => hr
    · intro r hr s' c' hc' huid' hcovers
      unfold SignInState.setHandler
      dsimp only
      rcases hplaces.places s' c' hc' (huid' ▸ r.uid_pos) with
        ⟨rfl, -, huid, hdevice⟩ | ⟨c, hc, huid, hdevice⟩
      · -- The sign-in came after the sign-out, which was committed before it was accepted.
        rw [update_self]
        have hruid : r.uid = login.uid := huid'.symm.trans huid
        rw [hdevice] at hcovers
        exact ⟨login, rfl, hadmitted.2 r (h.committed r hr) hruid hcovers.2
          (hsettled hok r hr hruid hcovers)⟩
      · have hne : s' ≠ s := by
          rintro rfl
          exact hfree c hc (by rw [huid, huid']; exact r.uid_pos)
        rw [hlogin s' hne]
        exact h.out r hr s' c hc (huid.trans huid') (hdevice ▸ hcovers)
  · next hok =>
    refine (h.setDirectory hconsistent fun s' c' hc' hpos => ?_).stop
    rcases hplaces.places s' c' hc' hpos with ⟨_, hok', _⟩ | hplace
    · exact absurd hok' hok
    · exact hplace

theorem next [DecidableEq H] {sur : Surroundings H} (h : SignInInv st)
    (hsettled : Settled st (.next s sur)) : SignInInv (st.next verify s sur).advance := by
  have honce := h.once s
  have hok := h.doing s
  unfold SignInState.next
  unfold Settled at hsettled
  dsimp only at hsettled
  rcases hdoing : (st.handler s).doing with _ | ⟨uid, password, device⟩ |
    ⟨uid, password, stored, device, read⟩ | ⟨uid, huid, device, read⟩ | ⟨token, deviceId⟩ | login |
    old | ⟨ids, allOthers⟩ | current | ⟨current, checked⟩ | checked | r | r | _ <;>
    rw [hdoing] at honce hok hsettled
  case nothing => exact h.stop.advance
  case readCredentials =>
    dsimp only
    split
    · exact advance (h.goOn (fun _ => honce rfl) trivial)
    · exact h.stop.advance
  case verifyPassword =>
    dsimp only
    split
    · split
      · exact advance (h.goOn (fun _ => honce rfl) trivial)
      · exact h.stop.advance
    · exact h.stop.advance
  case signInDevice =>
    dsimp only at hsettled ⊢
    split
    · next db hdb =>
      -- The sign-outs so far came before the sign-in.
      have hlater : ∀ r ∈ st.committed, r.uid = uid → r.OfDevice device.deviceId →
          r.Precedes { read, row := st.step } := by
        intro r hr huid' _
        refine .of_kind (fun _ => h.past r hr) (hsettled ?_ r hr huid')
        rw [hdb]
        rfl
      have hrows := h.advance.setDb (h.rows.signInDevice hdb hlater)
      exact hrows.goOn (fun _ => honce rfl)
        ⟨Nat.lt_succ_self _, fun r hr huid' hdevice _ => hlater r hr huid' hdevice⟩
    · exact h.stop.advance
  case resumeSession =>
    dsimp only
    split
    · next db row hdb =>
      obtain ⟨hrows, hrow, -⟩ := h.rows.resumeSession hdb
      exact (h.advance.setDb hrows).goOn (fun _ => honce rfl)
        ⟨Nat.lt_succ_self _, fun r hr huid hdevice _ => hrow r hr huid hdevice⟩
    · exact h.stop.advance
  case bind => exact (h.signIn hdoing hsettled).advance
  case retireReplaced =>
    refine (h.setDirectory h.consistent.retire (fewer_of_forgotten fun s' => ?_)).stop.advance
    rw [SessionManager.retire_sessions, update_apply]
    split
    · exact .inl rfl
    · exact .inr rfl
  case signOutDevices =>
    rcases hlogin : (st.handler s).login with _ | login
    · exact h.stop.advance
    · dsimp only
      refine h.commit rfl ((h.rows.signOutDevices login.uid).mono ?_)
      rintro uid d o ⟨hkept, hgone⟩ r' hr' huid hdevice
      rcases mem_cons.1 hr' with rfl | hr'
      · -- A device that is signed out has no row any more.
        obtain ⟨hnot, hkeep⟩ := hgone huid.symm
        unfold SignOut.OfDevice at hdevice
        cases allOthers with
        | false => exact absurd hdevice hnot
        | true => exact absurd (hkeep rfl) hdevice
      · exact hkept r' hr' huid hdevice
  case readPassword =>
    rcases hlogin : (st.handler s).login with _ | login
    · exact h.stop.advance
    · dsimp only
      split
      · exact advance (h.goOn nofun trivial)
      · exact h.stop.advance
  case verifyCurrent =>
    dsimp only
    split
    · exact advance (h.goOn nofun trivial)
    · exact h.stop.advance
  case changePassword =>
    rcases hlogin : (st.handler s).login with _ | login
    · exact h.stop.advance
    · rw [hlogin] at hsettled
      dsimp only at hsettled ⊢
      split
      · next db hdb =>
        refine h.commit rfl (h.rows.changePassword hdb ?_ ?_ ?_)
        · -- The row that the device has goes back to the sign-in that it went back to.
          intro o ho r' hr' huid hdevice
          rcases mem_cons.1 hr' with rfl | hr'
          · exact Nat.le_refl _
          · exact (ho r' hr' huid hdevice).read (Nat.le_of_lt (h.past r' hr'))
        · intro hnone r' hr' huid hdevice
          rcases mem_cons.1 hr' with rfl | hr'
          · exact Nat.le_refl _
          · exact .of_kind (hsettled hnone r' hr' huid hdevice)
              fun _ => Nat.le_of_lt (h.past r' hr')
        · intro uid d o hne hkept r' hr' huid hdevice
          rcases mem_cons.1 hr' with rfl | hr'
          · exact absurd huid.symm hne
          · exact hkept r' hr' huid hdevice
      · exact h.stop.advance
  case closeSessions => exact (h.close hok).advance
  case answer =>
    have hanswered : SignInInv { st with answered := r :: st.answered } :=
      ⟨h.consistent, h.bound, h.once, fun s => (h.doing s).mono (Nat.le_refl _) (fun _ hr => hr)
        (fun _ hr => .inl hr) fun _ hr => hr, h.past, h.committed,
        forall_mem_cons.2 ⟨hok, h.closed⟩, h.rows, h.out⟩
    exact hanswered.stop.advance
  case forgetDevice =>
    rcases hlogin : (st.handler s).login with _ | login
    · exact h.stop.advance
    · exact (h.setDb h.rows.forgetDevice).stop.advance

theorem begin {signedIn : Bool} (h : SignInInv st) (hin : doing.signsIn → signedIn = false)
    (hdoing : doing.Ok st) : SignInInv (st.begin s signedIn doing) := by
  unfold SignInState.begin
  split
  · next login hhandler =>
    split
    · next hready =>
      refine h.goOn (fun hsigns => ?_) hdoing
      rw [hhandler]
      simpa [hin hsigns] using hready.2
    · exact h
  · exact h

theorem perform [DecidableEq H] {a : SignInAct H} (h : SignInInv st) (hsettled : Settled st a) :
    SignInInv (st.perform verify a).advance := by
  cases a with
  | join =>
    refine advance ?_
    have hjoin : SignInInv { st with directory := st.directory.join st.nextSession } := by
      refine h.setDirectory h.consistent.join fun s c' hc' hpos => ?_
      unfold SessionManager.join at hc'
      split at hc'
      · dsimp only at hc'
        rw [update_apply] at hc'
        split at hc'
        · cases hc'
          exact absurd hpos (Int.lt_irrefl 0)
        · exact ⟨c', hc', rfl, rfl⟩
      · exact ⟨c', hc', rfl, rfl⟩
    exact ⟨hjoin.consistent, hjoin.bound, hjoin.once, fun s => (hjoin.doing s).mono (Nat.le_refl _)
      (fun _ hr => hr) (fun _ hr => .inl hr) fun _ hr => hr, hjoin.past, hjoin.committed,
      hjoin.closed, hjoin.rows, hjoin.out⟩
  | leave s clock =>
    refine (h.setDirectory h.consistent.leave (fewer_of_forgotten fun s' => ?_)).advance
    rw [SessionManager.leave_sessions, update_apply]
    split
    · exact .inl rfl
    · exact .inr rfl
  | login s uid password device => exact advance (h.begin (fun _ => rfl) trivial)
  | resume s token deviceId => exact advance (h.begin (fun _ => rfl) trivial)
  | signOutDevices s ids allOthers => exact advance (h.begin nofun trivial)
  | changePassword s current next =>
    unfold SignInState.perform
    dsimp only
    split
    · exact h.advance
    · exact advance (h.begin nofun trivial)
  | logOut s => exact advance (h.begin nofun trivial)
  | next s sur => exact h.next hsettled
  | fail s =>
    unfold SignInState.perform
    dsimp only
    split
    · exact h.stop.advance
    · exact h.advance

end SignInInv

/-! ## Runs -/

section

variable [DecidableEq H]

/-- The state after some steps. -/
def SignInState.run (verify : String → H → Bool) (st : SignInState H) (as : List (SignInAct H)) :
    SignInState H :=
  as.foldl (fun st a => (st.perform verify a).advance) st

/-- Nothing is overtaken in some steps. -/
def SettledRun (verify : String → H → Bool) (st : SignInState H) : List (SignInAct H) → Prop
  | [] => True
  | a :: as => Settled st a ∧ SettledRun verify (st.perform verify a).advance as

theorem SettledRun.cons {a : SignInAct H} {as : List (SignInAct H)} (ha : Settled st a)
    (has : SettledRun verify (st.perform verify a).advance as) : SettledRun verify st (a :: as) :=
  ⟨ha, has⟩

theorem reachable_run {as : List (SignInAct H)} (h : (signInSystem verify).Reachable st) :
    (signInSystem verify).Reachable (st.run verify as) := by
  induction as generalizing st with
  | nil => exact h
  | cons a as ih => exact ih (.step a h rfl)

theorem reachable_settledRun {as : List (SignInAct H)}
    (h : ((signInSystem verify).given Settled).Reachable st) (has : SettledRun verify st as) :
    ((signInSystem verify).given Settled).Reachable (st.run verify as) := by
  induction as generalizing st with
  | nil => exact h
  | cons a as ih => exact ih (.step a h ⟨rfl, has.1⟩) has.2

theorem signInInv_of_reachable (h : ((signInSystem verify).given Settled).Reachable st) :
    SignInInv st := by
  refine System.reachable_invariant (I := SignInInv) ?_ ?_ h
  · rintro _ ⟨db, rfl, _⟩
    refine ⟨SessionManager.consistent_empty, ?_, ?_, fun _ => trivial, ?_, ?_, ?_, ?_, ?_⟩
    · exact fun s c hc => nomatch hc
    · exact fun s hin => nomatch hin
    · exact fun r hr => nomatch hr
    · exact fun r hr => nomatch hr
    · exact fun r hr => nomatch hr
    · exact fun uid user _ row _ r hr => nomatch hr
    · exact fun r hr => nomatch hr
  · rintro st a _ hst ⟨rfl, hsettled⟩
    exact hst.perform hsettled

/-- In every run in which nothing is overtaken, once a sign-out or password change is answered every
    connection of the account that it covers goes back to a later sign-in. -/
theorem signed_out_stays_out (h : ((signInSystem verify).given Settled).Reachable st) :
    StayOut st st.answered := by
  have hinv := signInInv_of_reachable h
  exact fun r hr => hinv.out r (hinv.closed r hr)

end

/-! ## A sign-in that is overtaken -/

/-- One account, whose hash is its password. -/
def oneAccount : SignInState String where
  db := { users := update (fun _ => none) 1
            (some { passwordHash := "secret", devices := [], unique := .nil }) }

def isPassword (password hash : String) : Bool := password = hash

theorem reachable_oneAccount {C : SignInState String → SignInAct String → Prop} :
    ((signInSystem isPassword).given C).Reachable oneAccount := by
  refine .init ⟨_, rfl, ?_⟩
  intro uid user huser row hrow
  change update (fun _ => none) 1 _ uid = some user at huser
  rw [update_apply] at huser
  split at huser
  · cases huser
    cases hrow
  · cases huser

def go (s : Nat) : SignInAct String := .next s { hash := "" }

def signInFirst : List (SignInAct String) :=
  [.join, .join, .login 0 1 "secret" { deviceId := "desk", device_named := by decide },
    go 0, go 0, go 0, go 0]

/-- A second one, on another device, is accepted and has no place yet. -/
def signInSecond : List (SignInAct String) :=
  [.login 1 1 "secret" { deviceId := "phone", device_named := by decide }, go 1, go 1, go 1]

def signOutOthers : List (SignInAct String) :=
  [.signOutDevices 0 [] true, go 0, go 0, go 0]

/-- Every run keeps those out that were signed out. -/
def SignedOutStayOut : Prop :=
  ∀ (H : Type) [DecidableEq H] (verify : String → H → Bool) (st : SignInState H),
    (signInSystem verify).Reachable st → StayOut st st.answered

/-- The second connection takes its place after its device was signed out. -/
theorem not_signedOutStayOut : ¬ SignedOutStayOut := by
  intro h
  have hst := h String isPassword
    (oneAccount.run isPassword (signInFirst ++ signInSecond ++ signOutOthers ++ [go 1]))
    (reachable_run (reachable_oneAccount (C := fun _ _ => True)).of_given)
  obtain ⟨login, hlogin, hlater⟩ := hst _ (.head _) 1 _ rfl rfl (by decide)
  cases hlogin
  exact absurd hlater (by decide)

theorem signed_out_stays_out_inTime :
    let st := oneAccount.run isPassword (signInFirst ++ signInSecond ++ [go 1] ++ signOutOthers)
    StayOut st st.answered ∧ st.answered.length = 1 ∧ st.directory.sessions 1 = none := by
  refine ⟨signed_out_stays_out (reachable_settledRun reachable_oneAccount ?_), by decide, by decide⟩
  -- Nothing was signed out when the devices were recorded and took their places.
  have hnone : ∀ {P : Prop} {Q : SignOut → Prop}, P → ∀ r ∈ ([] : List SignOut), Q r :=
    fun _ _ hr => nomatch hr
  exact .cons trivial <| .cons trivial <| .cons trivial <| .cons trivial <| .cons trivial <|
    .cons hnone <| .cons hnone <| .cons trivial <| .cons trivial <| .cons trivial <|
    .cons hnone <| .cons hnone <| .cons trivial <| .cons trivial <| .cons trivial <|
    .cons trivial trivial

end Decibell.Central
