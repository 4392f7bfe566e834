import Decibell.Central.Convergence
import Decibell.Lib.Notices

/-!
# Saved profiles

The profile of an account, its name, its picture and its settings, is in the directory while the
account is signed in, and it is saved in the database.
-/

namespace Decibell.Central

open Function Lib

/-- What an account has set. -/
structure Settings where
  status : PresenceStatus := .online
  statusText : String := ""
  statusEmoji : String := ""
  statusExpiresAt : Int := 0
  dmFriendsOnly : Bool := false
deriving DecidableEq

/-- The columns of an account that make its profile. -/
structure SavedProfile where
  username : String := ""
  avatarVersion : String := ""
  settings : Settings := {}
deriving DecidableEq

def Presence.settings (p : Presence) : Settings where
  status := p.status
  statusText := p.statusText
  statusEmoji := p.statusEmoji
  statusExpiresAt := p.statusExpiresAt
  dmFriendsOnly := p.dmFriendsOnly

/-- The profile of a signed-in account, as it would be saved. -/
def Presence.profile (p : Presence) : SavedProfile where
  username := p.username
  avatarVersion := p.avatarVersion
  settings := p.settings

/-- The presence that a sign-in makes of what it read. -/
def SavedProfile.presence (row : SavedProfile) : Presence where
  username := row.username
  avatarVersion := row.avatarVersion
  status := row.settings.status
  statusText := row.settings.statusText
  statusEmoji := row.settings.statusEmoji
  statusExpiresAt := row.settings.statusExpiresAt
  dmFriendsOnly := row.settings.dmFriendsOnly

namespace Settings

variable (s : Settings)

def clearMessage : Settings := { s with statusText := "", statusEmoji := "", statusExpiresAt := 0 }

def message : String × String × Int := (s.statusText, s.statusEmoji, s.statusExpiresAt)

/-- The message has run out. -/
def RunOut (now : Int) : Prop := 0 < s.statusExpiresAt ∧ s.statusExpiresAt ≤ now

instance (now : Int) : Decidable (s.RunOut now) := inferInstanceAs (Decidable (_ ∧ _))

/-- `getPresenceProfile` clears a message that ran out while the user was offline. -/
def read (now : Int) : Settings := if s.RunOut now then s.clearMessage else s

/-- `clearExpiredStatusMessage`: only the message that ran out. -/
def clearExpired (expiresAt : Int) : Settings :=
  if s.statusExpiresAt = expiresAt then s.clearMessage else s

end Settings

/-- `setPresenceStatus`, `setStatusMessage` and `setDmFriendsOnly`. -/
def PresenceChange.store (s : Settings) : PresenceChange → Settings
  | .dmFriendsOnly friendsOnly => { s with dmFriendsOnly := friendsOnly }
  | .status chosen => { s with status := chosen }
  | .statusMessage text emoji expiresAt =>
    { s with statusText := text, statusEmoji := emoji, statusExpiresAt := expiresAt }

/-- A change that is made and not saved yet. -/
structure Save where
  sender : Nat
  uid : Int
  change : PresenceChange
  /-- The record of the account whose lock is held. -/
  record : Nat

/-- A name or a picture that is saved and not told yet. -/
structure ProfileNotice where
  sender : Nat
  uid : Int
  text : String

/-- What a connection's handler is at. -/
inductive ProfileRequest
  /-- A sign-in that has read the name. -/
  | signIn (login : LoginResult)
  /-- A sign-in that has read the rest. -/
  | bind (login : LoginResult) (presence : Presence)
  /-- A change that waits for the lock of a record. -/
  | change (change : PresenceChange) (record : Nat)
  /-- A change being saved, or a name or picture being told. -/
  | busy

structure ProfileRun where
  directory : SessionManager := {}
  nextSession : Nat := 0
  /-- Whom each connection's handler signed in; 0 for nobody. -/
  uids : Nat → Int := fun _ => 0
  requests : Nat → Option ProfileRequest := fun _ => none
  users : Int → SavedProfile
  /-- How many records of the account there were. -/
  records : Int → Nat := fun _ => 0
  saves : List Save := []
  renames : List ProfileNotice := []
  avatars : List ProfileNotice := []
  /-- The messages that ran out, and are to be cleared in the database. -/
  clears : List (Int × Int) := []

inductive ProfileAct
  | join
  | readName (s : Nat) (login : LoginResult)
  | readProfile (s : Nat)
  | bind (s : Nat)
  | leave (s : Nat)
  | retire (s : Nat) (reason : CloseReason)
  | setIdle (s : Nat) (idle : Bool)
  /-- A client asks for a change of a setting. -/
  | request (s : Nat) (change : PresenceChange)
  /-- The lock is there: the change is made. -/
  | change (s : Nat)
  | save (i : Nat)
  | rename (s : Nat) (username : String)
  | tellRenamed (i : Nat)
  | setAvatar (s : Nat) (version : String)
  | tellAvatar (i : Nat)
  | expire (uid : Int)
  | clear (i : Nat)

namespace ProfileRun

variable (st : ProfileRun) (now : Clock)

def setRequest (s : Nat) (r : Option ProfileRequest) : ProfileRun :=
  { st with requests := update st.requests s r }

def setUser (uid : Int) (row : SavedProfile) : ProfileRun :=
  { st with users := update st.users uid row }

/-- A signed-in connection that has no request. -/
def Idle (s : Nat) : Prop := 0 < st.uids s ∧ (st.requests s).isNone

instance (s : Nat) : Decidable (st.Idle s) := inferInstanceAs (Decidable (_ ∧ _))

/-- A sign-in is taken up, and reads the name of its account. -/
def readName (s : Nat) (login : LoginResult) : ProfileRun :=
  if st.uids s = 0 ∧ (st.requests s).isNone then
    st.setRequest s (some (.signIn { login with username := (st.users login.uid).username }))
  else st

def readProfile (s : Nat) : ProfileRun :=
  match st.requests s with
  | some (.signIn login) =>
    let row := { st.users login.uid with settings := (st.users login.uid).settings.read now.unix }
    (st.setUser login.uid row).setRequest s
      (some (.bind login { row.presence with username := login.username }))
  | _ => st

/-- An account that was not signed in gets a record. -/
def bind (s : Nat) : ProfileRun :=
  match st.requests s with
  | some (.bind login presence) =>
    let bound := st.directory.bindLogin now s login presence
    { st.setRequest s none with
      directory := bound.manager
      uids := if bound.ok then update st.uids s login.uid else st.uids
      records := if st.directory.accounts login.uid = none then
        update st.records login.uid (st.records login.uid + 1) else st.records }
  | _ => st

/-- `update_presence` begins with the lock of the account's record. -/
def request (s : Nat) (change : PresenceChange) : ProfileRun :=
  if st.Idle s ∧ (st.directory.accounts (st.uids s)).isSome then
    st.setRequest s (some (.change change (st.records (st.uids s))))
  else st

/-- Somebody holds the lock of a record. -/
def Locked (uid : Int) (record : Nat) : Prop :=
  ∃ save ∈ st.saves, save.uid = uid ∧ save.record = record

instance (uid : Int) (record : Nat) : Decidable (st.Locked uid record) :=
  inferInstanceAs (Decidable (∃ save ∈ st.saves, _))

/-- Then the change is made; what is as it was is not saved. -/
def change (s : Nat) : ProfileRun :=
  match st.requests s with
  | some (.change change record) =>
    let uid := st.uids s
    if st.Locked uid record then st
    else
      match st.directory.presenceOf uid with
      | none => st.setRequest s none
      | some p =>
        if change.apply p = p then st.setRequest s none
        else
          setRequest { st with
            directory := (st.directory.updatePresence now uid change.apply).1
            saves := st.saves ++ [{ sender := s, uid, change, record }] } s (some .busy)
  | _ => st

/-- The last part: the change is saved, and the lock given back. -/
def save (i : Nat) : ProfileRun :=
  match st.saves[i]? with
  | none => st
  | some save =>
    let row := st.users save.uid
    setRequest { st.setUser save.uid { row with settings := save.change.store row.settings } with
      saves := st.saves.eraseIdx i } save.sender none

def rename (s : Nat) (username : String) : ProfileRun :=
  if st.Idle s then
    let uid := st.uids s
    setRequest { st.setUser uid { st.users uid with username } with
      renames := st.renames ++ [{ sender := s, uid, text := username }] } s (some .busy)
  else st

def tellRenamed (i : Nat) : ProfileRun :=
  match st.renames[i]? with
  | none => st
  | some t =>
    setRequest { st with
      directory := (st.directory.pushUserRenamed t.uid t.text t.sender).1
      renames := st.renames.eraseIdx i } t.sender none

def setAvatar (s : Nat) (version : String) : ProfileRun :=
  if st.Idle s then
    let uid := st.uids s
    setRequest { st.setUser uid { st.users uid with avatarVersion := version } with
      avatars := st.avatars ++ [{ sender := s, uid, text := version }] } s (some .busy)
  else st

def tellAvatar (i : Nat) : ProfileRun :=
  match st.avatars[i]? with
  | none => st
  | some t =>
    setRequest { st with
      directory := (st.directory.pushAvatarChanged t.uid t.text t.sender).1
      avatars := st.avatars.eraseIdx i } t.sender none

/-- What the sweep does about the message of one account. -/
def expire (uid : Int) : ProfileRun :=
  match st.directory.presenceOf uid with
  | none => st
  | some p =>
    if p.settings.RunOut now.unix then
      { st with
        directory := (st.directory.expireStatusMessage now uid).1
        clears := st.clears ++ [(uid, p.statusExpiresAt)] }
    else st

def clear (i : Nat) : ProfileRun :=
  match st.clears[i]? with
  | none => st
  | some (uid, expiresAt) =>
    let row := st.users uid
    { st.setUser uid { row with settings := row.settings.clearExpired expiresAt } with
      clears := st.clears.eraseIdx i }

def perform : ProfileAct → ProfileRun
  | .join => { st with directory := st.directory.join st.nextSession
                       nextSession := st.nextSession + 1 }
  | .readName s login => st.readName s login
  | .readProfile s => st.readProfile now s
  | .bind s => st.bind now s
  | .leave s => { st with directory := (st.directory.leave now s).1 }
  | .retire s reason => { st with directory := (st.directory.retire now s reason).1 }
  | .setIdle s idle => { st with directory := (st.directory.setIdle now s idle).1 }
  | .request s change => st.request s change
  | .change s => st.change now s
  | .save i => st.save i
  | .rename s username => st.rename s username
  | .tellRenamed i => st.tellRenamed i
  | .setAvatar s version => st.setAvatar s version
  | .tellAvatar i => st.tellAvatar i
  | .expire uid => st.expire now uid
  | .clear i => st.clear i

/-- No step is pending. -/
def Quiet : Prop :=
  (∀ s, st.requests s = none) ∧ st.saves = [] ∧ st.renames = [] ∧ st.avatars = [] ∧ st.clears = []

/-- The directory has what is saved of each signed-in account. -/
def AsSaved : Prop := ∀ uid p, st.directory.presenceOf uid = some p → p.profile = st.users uid

end ProfileRun

/-- The runs; each step has the time at which it is taken. -/
def profileSystem : System ProfileRun (Clock × ProfileAct) where
  init st := ∃ users, st = { users }
  step st a st' := st' = st.perform a.1 a.2

end Decibell.Central
