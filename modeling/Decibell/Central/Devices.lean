import Decibell.Central.Consistency

/-!
# The devices of an account

The rows that let a device come back: an account has its password hash, the time from which its
resume tokens are valid, and a row for each device that signed in and was not signed out since. A
saved password needs a row (or the grace period of older devices), a resume token its own row.
-/

namespace Decibell.Central

open List

variable {H : Type}

/-- What a device's sign-in goes back to: the steps that read the password hash and recorded the
    device. -/
structure Origin where
  read : Nat := 0
  row : Nat := 0
deriving DecidableEq

/-- A row of `devices`. -/
structure DeviceRow where
  id : Int
  deviceId : String
  /-- The password sign-in that its resume token is from. -/
  signedInAt : Int
  lastActiveAt : Int
  origin : Origin := {}
deriving DecidableEq

/-- What the database has of an account: one row for a device. -/
structure User (H : Type) where
  passwordHash : H
  sessionsValidAfter : Int := 0
  devices : List DeviceRow
  /-- The devices that were signed out. -/
  revoked : List String := []
  unique : (devices.map (·.deviceId)).Nodup

structure Db (H : Type) where
  users : Int → Option (User H)
  nextDeviceId : Int := 1
  /-- When devices began to have rows. -/
  devicesSince : Int := 0

/-- What an install says of itself when it signs in. -/
structure DeviceLogin where
  deviceId : String
  /-- The password is a saved one. -/
  automatic : Bool := false
  device_named : deviceId ≠ ""

inductive LoginRefusal
  | credentials
  | signedOut
  | serverError
deriving DecidableEq

structure ResumeToken where
  uid : Int
  deviceId : String
  signedInAt : Int
deriving DecidableEq

/-- How long after `devicesSince` a saved password needs no row. -/
def deviceGraceSeconds : Int := 30 * 24 * 3600

/-- Most devices that one account keeps. -/
def maxDeviceRows : Nat := 100

def minPassword : Nat := 8

namespace User

variable (user : User H)

def device (deviceId : String) : Option DeviceRow :=
  user.devices.find? (·.deviceId = deviceId)

/-- A device's row, less its key, is changed. -/
def setDevice (deviceId : String) (f : DeviceRow → DeviceRow)
    (hf : ∀ row, (f row).deviceId = row.deviceId) : User H :=
  { user with
    devices := user.devices.map fun row => if row.deviceId = deviceId then f row else row
    unique := by
      rw [List.map_map]
      refine (List.map_congr_left fun row _ => ?_) ▸ user.unique
      dsimp only [Function.comp]
      split
      · exact (hf row).symm
      · rfl }

def addDevice (row : DeviceRow) (h : user.device row.deviceId = none) : User H :=
  { user with
    devices := user.devices ++ [row]
    unique := by
      rw [List.map_append, List.map_singleton, List.nodup_append]
      refine ⟨user.unique, List.nodup_singleton _, ?_⟩
      intro deviceId hmem _ heq
      obtain ⟨other, hother, rfl⟩ := List.mem_map.1 hmem
      have := List.find?_eq_none.1 h other hother
      simp_all }

/-- Some of the rows go, and their devices are remembered. -/
def revokeDevices (p : DeviceRow → Bool) : User H × List String :=
  let gone := (user.devices.filter p).map (·.deviceId)
  ({ user with
      devices := user.devices.filter (! p ·)
      revoked := user.revoked ++ gone
      unique := user.unique.sublist (List.filter_sublist.map _) }, gone)

/-- As many more recent rows come before it as an account may have. -/
def outnumbered (row : DeviceRow) : Bool :=
  maxDeviceRows ≤ user.devices.countP fun other =>
    row.lastActiveAt < other.lastActiveAt ∨
      (row.lastActiveAt = other.lastActiveAt ∧ row.id < other.id)

end User

namespace Db

variable (db : Db H)

def setUser (uid : Int) (user : User H) : Db H :=
  { db with users := Function.update db.users uid (some user) }

/-- A sign-in on a device that has its row. -/
def refreshDevice (uid : Int) (user : User H) (deviceId : String) (now : Int) (origin : Origin) :
    Db H :=
  db.setUser uid (user.setDevice deviceId
    (fun row => { row with signedInAt := now, lastActiveAt := now, origin }) fun _ => rfl)

def newDevice (deviceId : String) (now : Int) (origin : Origin) : DeviceRow :=
  { id := db.nextDeviceId, deviceId, signedInAt := now, lastActiveAt := now, origin }

def insertDevice (uid : Int) (user : User H) (deviceId : String) (now : Int) (origin : Origin)
    (h : user.device deviceId = none) : Db H :=
  { db.setUser uid (user.addDevice (db.newDevice deviceId now origin) h) with
    nextDeviceId := db.nextDeviceId + 1 }

/-- Past the limit the least recently used devices are signed out. -/
def pruneDevices (uid : Int) : Db H :=
  match db.users uid with
  | none => db
  | some user => db.setUser uid (user.revokeDevices user.outnumbered).1

def signInDevice (uid : Int) (d : DeviceLogin) (now : Int) (origin : Origin) :
    Except LoginRefusal (Db H) :=
  match db.users uid with
  | none => .error .serverError
  | some user =>
    -- Only on a device the account has, or one from before devices had rows.
    if d.automatic ∧ (user.device d.deviceId).isNone ∧
        (db.devicesSince + deviceGraceSeconds ≤ now ∨ d.deviceId ∈ user.revoked) then
      .error .signedOut
    else if h : user.device d.deviceId = none then
      .ok ((db.insertDevice uid user d.deviceId now origin h).pruneDevices uid)
    else .ok (db.refreshDevice uid user d.deviceId now origin)

def resumeSession (token : ResumeToken) (deviceId : String) (now : Int) :
    Except LoginRefusal (Db H × DeviceRow) :=
  if token.uid ≤ 0 ∨ token.deviceId = "" then .error .credentials
  else if deviceId ≠ "" ∧ deviceId ≠ token.deviceId then .error .credentials
  else
    match db.users token.uid with
    | none => .error .credentials
    | some user =>
      match user.devices.find? fun row =>
          row.deviceId = token.deviceId ∧ row.signedInAt = token.signedInAt with
      | none => .error (if (user.device token.deviceId).isSome then .credentials else .signedOut)
      | some row =>
        if token.signedInAt < user.sessionsValidAfter then .error .credentials
        else .ok (db.setUser token.uid (user.setDevice token.deviceId
          (fun row => { row with lastActiveAt := now }) fun _ => rfl), row)

/-- Some devices of an account but the asking one, or all others. -/
def signOutDevices (uid : Int) (keepDevice : String) (ids : List Int) (allOthers : Bool) :
    Db H × List String :=
  match db.users uid with
  | none => (db, [])
  | some user =>
    if ¬ allOthers ∧ ids = [] then (db, [])
    else
      let (user, gone) := user.revokeDevices fun row =>
        row.deviceId ≠ keepDevice ∧ (allOthers ∨ row.id ∈ ids)
      (db.setUser uid user, gone)

/-- The device that asks is logged out. -/
def forgetDevice (uid : Int) (deviceId : String) : Db H :=
  match db.users uid with
  | none => db
  | some user => db.setUser uid (user.revokeDevices fun row => row.deviceId = deviceId).1

/-- The second half of a password change goes through if the hash is still the one checked. The
    other devices are signed out; the asking one's row keeps its sign-in, or gets the connection's.
    -/
def changePassword [DecidableEq H] (uid : Int) (checked hash : H) (now : Int) (deviceId : String)
    (step : Nat) (origin : Origin) : Option (Db H) :=
  match db.users uid with
  | none => none
  | some user =>
    if user.passwordHash ≠ checked then none
    else
      let user := { user with passwordHash := hash, sessionsValidAfter := now }
      let user := (user.revokeDevices fun row => row.deviceId ≠ deviceId).1
      if h : user.device deviceId = none then
        some (db.insertDevice uid user deviceId now { origin with read := step } h)
      else
        some (db.setUser uid (user.setDevice deviceId (fun row =>
          { row with signedInAt := now, lastActiveAt := now,
                     origin := { row.origin with read := step } }) fun _ => rfl))

/-! ## What the transactions do to the rows -/

/-- Every row has a property of its account, device and sign-in. -/
def EachRow (db : Db H) (P : Int → String → Origin → Prop) : Prop :=
  ∀ uid user, db.users uid = some user → ∀ row ∈ user.devices, P uid row.deviceId row.origin

variable {db} {P Q : Int → String → Origin → Prop} {uid now : Int} {user user' : User H}
  {deviceId : String} {origin : Origin}

theorem EachRow.mono (h : db.EachRow P) (hPQ : ∀ uid d o, P uid d o → Q uid d o) : db.EachRow Q :=
  fun uid user huser row hrow => hPQ _ _ _ (h uid user huser row hrow)

theorem eachRow_setUser (hothers : ∀ uid' user', uid' ≠ uid → db.users uid' = some user' →
    ∀ row ∈ user'.devices, P uid' row.deviceId row.origin)
    (huser : ∀ row ∈ user.devices, P uid row.deviceId row.origin) :
    (db.setUser uid user).EachRow P := by
  intro uid' user' huser' row hrow
  change Function.update db.users uid (some user) uid' = some user' at huser'
  rw [Function.update_apply] at huser'
  split at huser'
  · next heq =>
    cases huser'
    exact heq ▸ huser row hrow
  · next hne => exact hothers uid' user' hne huser' row hrow

theorem EachRow.setUser (h : db.EachRow P) (huser : ∀ row ∈ user.devices,
    P uid row.deviceId row.origin) : (db.setUser uid user).EachRow P :=
  eachRow_setUser (fun uid' user' _ => h uid' user') huser

theorem EachRow.setDevice (h : db.EachRow P) (huser : db.users uid = some user)
    {f : DeviceRow → DeviceRow} {hf : ∀ row, (f row).deviceId = row.deviceId}
    (hrow : ∀ row ∈ user.devices, row.deviceId = deviceId → P uid deviceId (f row).origin) :
    (db.setUser uid (user.setDevice deviceId f hf)).EachRow P := by
  refine h.setUser fun row hmem => ?_
  obtain ⟨row, hrow', rfl⟩ := mem_map.1 hmem
  split
  · next heq =>
    rw [hf, heq]
    exact hrow row hrow' heq
  · exact h uid user huser row hrow'

theorem EachRow.insertDevice (h : db.EachRow P) (huser : ∀ row ∈ user.devices,
    P uid row.deviceId row.origin) (hnew : P uid deviceId origin)
    {hnone : user.device deviceId = none} :
    (db.insertDevice uid user deviceId now origin hnone).EachRow P := by
  have hadded : (db.setUser uid
      (user.addDevice (db.newDevice deviceId now origin) hnone)).EachRow P := by
    refine h.setUser fun row hrow => ?_
    rcases mem_append.1 hrow with hrow | hrow
    · exact huser row hrow
    · cases mem_singleton.1 hrow
      exact hnew
  exact hadded

theorem EachRow.pruneDevices (h : db.EachRow P) : (db.pruneDevices uid).EachRow P := by
  unfold Db.pruneDevices
  split
  · exact h
  · next user huser =>
    exact h.setUser fun row hrow => h uid user huser row (mem_of_mem_filter hrow)

theorem EachRow.signInDevice {d : DeviceLogin} {db' : Db H} (h : db.EachRow P)
    (hok : db.signInDevice uid d now origin = .ok db') (hnew : P uid d.deviceId origin) :
    db'.EachRow P := by
  unfold Db.signInDevice at hok
  split at hok
  · cases hok
  · next user huser =>
    split at hok
    · cases hok
    split at hok
    · cases hok
      exact (h.insertDevice (h uid user huser) hnew).pruneDevices
    · cases hok
      exact h.setDevice huser fun _ _ _ => hnew

theorem EachRow.resumeSession {token : ResumeToken} {db' : Db H} {row : DeviceRow}
    (h : db.EachRow P) (hok : db.resumeSession token deviceId now = .ok (db', row)) :
    db'.EachRow P ∧ P token.uid token.deviceId row.origin ∧ 0 < token.uid ∧ token.deviceId ≠ "" := by
  unfold Db.resumeSession at hok
  split at hok
  · cases hok
  next hnamed =>
  split at hok
  · cases hok
  split at hok
  · cases hok
  next user huser =>
  split at hok
  · cases hok
  next row' hfound =>
  split at hok
  · cases hok
  cases hok
  have hrow := mem_of_find?_eq_some hfound
  obtain ⟨hdevice, -⟩ : row.deviceId = token.deviceId ∧ row.signedInAt = token.signedInAt := by
    simpa using find?_some hfound
  obtain ⟨hpos, hdid⟩ := not_or.1 hnamed
  refine ⟨h.setDevice huser fun row hrow heq => heq ▸ h _ user huser row hrow, ?_,
    Int.not_le.1 hpos, hdid⟩
  exact hdevice ▸ h _ user huser row hrow

theorem not_mem_revoked {p : DeviceRow → Bool} {row : DeviceRow}
    (hrow : row ∈ (user.revokeDevices p).1.devices) :
    row ∈ user.devices ∧ p row = false ∧ row.deviceId ∉ (user.revokeDevices p).2 := by
  obtain ⟨hmem, hp⟩ := mem_filter.1 hrow
  refine ⟨hmem, by simpa using hp, fun hgone => ?_⟩
  obtain ⟨other, hother, heq⟩ := mem_map.1 hgone
  obtain ⟨hmem', hp'⟩ := mem_filter.1 hother
  rw [inj_on_of_nodup_map user.unique hmem' hmem heq] at hp'
  simp_all

theorem EachRow.revokeDevices {p : DeviceRow → Bool} (h : db.EachRow P) (kept : String → Prop)
    (huser : db.users uid = some user) (hkept : ∀ row, p row = false → kept row.deviceId) :
    (db.setUser uid (user.revokeDevices p).1).EachRow fun uid' d o => P uid' d o ∧
      (uid' = uid → d ∉ (user.revokeDevices p).2 ∧ kept d) := by
  refine eachRow_setUser ?_ ?_
  · exact fun uid' user' hne huser' row hrow =>
      ⟨h uid' user' huser' row hrow, fun heq => absurd heq hne⟩
  · intro row hrow
    obtain ⟨hmem, hp, hgone⟩ := not_mem_revoked hrow
    exact ⟨h uid user huser row hmem, fun _ => ⟨hgone, hkept row hp⟩⟩

theorem EachRow.signOutDevices (uid : Int) {keepDevice : String} {ids : List Int} {allOthers : Bool}
    (h : db.EachRow P) :
    (db.signOutDevices uid keepDevice ids allOthers).1.EachRow fun uid' d o => P uid' d o ∧
      (uid' = uid → d ∉ (db.signOutDevices uid keepDevice ids allOthers).2 ∧
        (allOthers = true → d = keepDevice)) := by
  rcases huser : db.users uid with _ | user
  · have hnone : db.signOutDevices uid keepDevice ids allOthers = (db, []) := by
      simp [Db.signOutDevices, huser]
    rw [hnone]
    intro uid' user' huser' row hrow
    refine ⟨h uid' user' huser' row hrow, ?_⟩
    rintro rfl
    exact nomatch huser.symm.trans huser'
  · by_cases hids : ¬ allOthers ∧ ids = []
    · have hnone : db.signOutDevices uid keepDevice ids allOthers = (db, []) := by
        simp [Db.signOutDevices, huser, hids.1, hids.2]
      rw [hnone]
      exact h.mono fun uid' d o hP =>
        ⟨hP, fun _ => ⟨not_mem_nil, fun hall => absurd hall hids.1⟩⟩
    · have hsome : db.signOutDevices uid keepDevice ids allOthers =
          (db.setUser uid (user.revokeDevices fun row =>
              row.deviceId ≠ keepDevice ∧ (allOthers ∨ row.id ∈ ids)).1,
            (user.revokeDevices fun row =>
              row.deviceId ≠ keepDevice ∧ (allOthers ∨ row.id ∈ ids)).2) := by
        simp only [Db.signOutDevices, huser]
        exact if_neg hids
      rw [hsome]
      refine h.revokeDevices (fun d => allOthers = true → d = keepDevice) huser ?_
      intro row hrow hall
      simpa [hall] using hrow

theorem EachRow.forgetDevice (h : db.EachRow P) : (db.forgetDevice uid deviceId).EachRow P := by
  unfold Db.forgetDevice
  split
  · exact h
  · next user huser =>
    exact (h.revokeDevices (fun _ => True) huser fun _ _ => trivial).mono
      fun _ _ _ hP => hP.1

theorem EachRow.changePassword [DecidableEq H] {checked hash : H} {step : Nat} {db' : Db H}
    (h : db.EachRow P)
    (hok : db.changePassword uid checked hash now deviceId step origin = some db')
    (hmine : ∀ o, P uid deviceId o → Q uid deviceId { o with read := step })
    (hnew : ((db.users uid).bind (·.device deviceId)) = none →
      Q uid deviceId { origin with read := step })
    (hothers : ∀ uid' d o, uid' ≠ uid → P uid' d o → Q uid' d o) : db'.EachRow Q := by
  have hrest : ∀ uid' user', uid' ≠ uid → db.users uid' = some user' →
      ∀ row ∈ user'.devices, Q uid' row.deviceId row.origin :=
    fun uid' user' hne huser' row hrow => hothers _ _ _ hne (h uid' user' huser' row hrow)
  unfold Db.changePassword at hok
  split at hok
  · cases hok
  next user huser =>
  split at hok
  · cases hok
  dsimp only at hok
  -- Of the rows that are left, each is the device's own.
  split at hok
  · next hnone =>
    cases hok
    have hnone' : user.device deviceId = none := by
      refine find?_eq_none.2 fun row hrow heq => ?_
      refine find?_eq_none.1 hnone row (mem_filter.2 ⟨hrow, ?_⟩) heq
      simpa using heq
    refine eachRow_setUser hrest fun row hrow => ?_
    rcases mem_append.1 hrow with hrow | hrow
    · obtain ⟨hmem, hp⟩ := mem_filter.1 hrow
      exact absurd (by simpa using hp) (find?_eq_none.1 hnone row hrow)
    · cases mem_singleton.1 hrow
      exact hnew (by rw [huser]; exact hnone')
  · cases hok
    refine eachRow_setUser hrest fun row hrow => ?_
    obtain ⟨row, hrow', rfl⟩ := mem_map.1 hrow
    obtain ⟨hmem, hp⟩ := mem_filter.1 hrow'
    have heq : row.deviceId = deviceId := by simpa using hp
    rw [if_pos heq]
    exact heq ▸ hmine _ (heq ▸ h uid user huser row hmem)

end Db

end Decibell.Central
