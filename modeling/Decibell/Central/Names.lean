import Decibell.Community.Text
import Decibell.Lib.Run
import Decibell.Lib.Table

/-!
# The names of accounts

An account is registered under a name, and may be renamed. The name it leaves is reserved for it for
a while: no other account may take it, and signing in by it still reaches the account.

`RegisterStage.run` and `RenameStage.run` are one SQL statement each: what it makes of the database,
and the one that comes next.
-/

namespace Decibell.Central

open Lib

/-! ## The tables -/

/-- A row of `users`. -/
structure UserRow where
  uid : Int
  username : Bytes
  email : Bytes
  passwordHash : Bytes
deriving DecidableEq

/-- `users`, with its unique indexes. -/
structure Users where
  table : Table UserRow.uid
  names : (table.rows.map UserRow.username).Nodup
  emails : (table.rows.map UserRow.email).Nodup

/-- The rows of a statement, unless an index refuses them. -/
def Users.indexed (table : Table UserRow.uid) : Option Users :=
  if h : (table.rows.map UserRow.username).Nodup ∧ (table.rows.map UserRow.email).Nodup then
    some { table, names := h.1, emails := h.2 }
  else none

/-- `INSERT INTO users`. -/
def Users.add (t : Users) (u : UserRow) : Option Users := (t.table.insert u).bind Users.indexed

/-- `UPDATE users SET username = … WHERE uid = …`. -/
def Users.rename (t : Users) (uid : Int) (name : Bytes) : Option Users :=
  Users.indexed (t.table.updateWhere (·.uid = uid) fun u => { u with username := name })

/-- A row of `name_changes`. -/
structure NameChange where
  id : Int
  uid : Int
  oldUsername : Bytes
  newUsername : Bytes
  changedAt : Int
deriving DecidableEq

/-- Who holds a row of `users`, or has put a name or email into its index or taken it out. -/
structure NameLocks where
  rows : Int → Option Nat := fun _ => none
  names : Bytes → Option Nat := fun _ => none
  leaving : Bytes → Option Nat := fun _ => none
  emails : Bytes → Option Nat := fun _ => none

namespace NameLocks

/-- Nobody else holds it. -/
def freeFor (holder : Option Nat) (i : Nat) : Bool := holder = none || holder = some i

/-- No other transaction is taking the name or leaving it. -/
def nameFree (l : NameLocks) (name : Bytes) (i : Nat) : Bool :=
  freeFor (l.names name) i && freeFor (l.leaving name) i

/-- Transaction `i` ends. -/
def release (l : NameLocks) (i : Nat) : NameLocks where
  rows u := if l.rows u = some i then none else l.rows u
  names x := if l.names x = some i then none else l.names x
  leaving x := if l.leaving x = some i then none else l.leaving x
  emails x := if l.emails x = some i then none else l.emails x

end NameLocks

/-- A name gets an account (at the statement's clock) or loses it (as the row says). -/
inductive NameMove
  | took (uid : Int) (name : Bytes) (time : Int)
  | left (uid : Int) (name : Bytes) (time : Int)
deriving DecidableEq

/-- What is committed, and what waits for whom. -/
structure NameDb where
  users : Users
  changes : Table NameChange.id
  /-- The sequences of the ids. -/
  nextUid : Int := 1
  nextChange : Int := 1
  clock : Int := 0
  locks : NameLocks := {}
  /-- The names taken and left so far, for the record only. -/
  moves : List NameMove := []

def nameReservationSeconds : Int := 14 * 24 * 3600
def renamesPerDay : Nat := 2

structure StoredCredentials where
  uid : Int
  username : Bytes
  passwordHash : Bytes

def UserRow.credentials (u : UserRow) : StoredCredentials where
  uid := u.uid
  username := u.username
  passwordHash := u.passwordHash

namespace NameDb

variable (db : NameDb)

def userExists (name email : Bytes) : Bool :=
  db.users.table.rows.any fun u => u.username = name || u.email = email

/-- Another than `uid` left the name within the reservation. -/
def nameReservedForOther (name : Bytes) (uid : Int) : Bool :=
  db.changes.rows.any fun c =>
    c.oldUsername = name && db.clock - nameReservationSeconds < c.changedAt && c.uid ≠ uid

/-- The rows that `prune_name_changes` deletes. -/
def expired (rows : List NameChange) : List NameChange :=
  rows.filter fun c => c.changedAt ≤ db.clock - nameReservationSeconds

def pruneNameChanges : NameDb :=
  { db with changes := db.changes.deleteWhere fun c => c ∈ db.expired db.changes.rows }

def getCredentials (name : Bytes) : Option StoredCredentials :=
  (db.users.table.rows.find? (·.username = name)).map (·.credentials)

/-- `ORDER BY c.changed_at DESC, c.id DESC`. -/
def latestFirst (c c' : NameChange) : Bool :=
  c'.changedAt < c.changedAt || (c.changedAt = c'.changedAt && c'.id ≤ c.id)

/-- Who left the name last, if within the reservation. -/
def getCredentialsByReservedName (name : Bytes) : Option StoredCredentials :=
  let reserved := db.changes.rows.filter fun c =>
    c.oldUsername = name && db.clock - nameReservationSeconds < c.changedAt &&
      c.uid ∈ db.users.table.keys
  (reserved.mergeSort latestFirst).head?.bind fun c =>
    (db.users.table.find? c.uid).map (·.credentials)

def release (i : Nat) : NameDb := { db with locks := db.locks.release i }

end NameDb

structure Bcrypt where
  hash (salt : Nat) (password : Bytes) : Bytes
  verify (password hash : Bytes) : Bool

/-! ## The requests -/

def isNameByte (c : UInt8) : Bool :=
  (97 ≤ c && c ≤ 122) || (48 ≤ c && c ≤ 57) || c = 95 || c = 46 || c = 45

/-- What is wrong with a name, if anything. -/
def validateUsername (name : Bytes) : String :=
  if name.length < 3 || 32 < name.length then "Invalid username length."
  else if !name.all isNameByte then
    "Usernames may only contain lowercase letters, digits, '.', '_' and '-'."
  else ""

/-- The next statement of a registration. -/
inductive RegisterStage
  | userExists
  | nameReserved
  /-- The reservations were checked after `checked` moves. -/
  | insert (hash : Bytes) (checked : Nat)
  | commit (hash : Bytes) (uid time : Int)
  /-- What is wrong; nothing if it is registered. -/
  | answered (error : String)

/-- The checks before the first statement. -/
def registerUser (name email password : Bytes) : RegisterStage :=
  let bad := validateUsername name
  if bad ≠ "" then .answered bad
  else if email.isEmpty || 128 < email.length || 64 ∉ email then
    .answered "Invalid email address."
  else if password.length < 8 then .answered "Password must be at least 8 characters."
  else .userExists

/-- A statement of transaction `i`, or `none` while it has to wait. -/
def RegisterStage.run (bcrypt : Bcrypt) (db : NameDb) (i salt : Nat) (name email password : Bytes) :
    RegisterStage → Option (NameDb × RegisterStage)
  | .userExists =>
    some (db, if db.userExists name email then .answered "Username or email already exists."
      else .nameReserved)
  | .nameReserved =>
    some (db, if db.nameReservedForOther name 0 then .answered "Username or email already exists."
      else .insert (bcrypt.hash salt password) db.moves.length)
  | .insert hash _ =>
    if !db.locks.nameFree name i || !NameLocks.freeFor (db.locks.emails email) i then none
    else if db.userExists name email then
      some (db, .answered "Registration failed. Please try again.")
    else
      some
        ({ db with
            nextUid := db.nextUid + 1
            locks := { db.locks with
              names := Function.update db.locks.names name (some i)
              emails := Function.update db.locks.emails email (some i) } },
          .commit hash db.nextUid db.clock)
  | .commit hash uid time =>
    match db.users.add { uid, username := name, email, passwordHash := hash } with
    | none => some (db.release i, .answered "Registration failed. Please try again.")
    | some users =>
      some ({ db.release i with users, moves := db.moves ++ [.took uid name time] }, .answered "")
  | .answered _ => none

/-- A statement of a registration fails. -/
def RegisterStage.fail : RegisterStage → RegisterStage
  | .userExists => .answered "Username or email already exists."
  | .answered error => .answered error
  | _ => .answered "Registration failed. Please try again."

/-- A rename's next statement: `old` is the account's name, `now` its time. -/
inductive RenameStage
  | lockRow
  | recent (old : Bytes)
  | holders (old : Bytes) (now : Int)
  | nameReserved (old : Bytes) (now : Int)
  /-- The reservations were checked after `checked` moves. -/
  | update (old : Bytes) (now : Int) (checked : Nat)
  | record (old : Bytes) (now time : Int)
  | prune (row : NameChange) (time : Int)
  /-- The rows in `gone` are to be deleted. -/
  | commit (row : NameChange) (time : Int) (gone : List NameChange)
  | answered (error : String)

/-- The check before the first statement. -/
def renameUser (name : Bytes) : RenameStage :=
  let bad := validateUsername name
  if bad ≠ "" then .answered bad else .lockRow

/-- What a rename has written becomes visible. -/
def NameDb.commitRename (db : NameDb) (i : Nat) (row : NameChange) (time : Int)
    (gone : List NameChange) : Option NameDb :=
  (db.users.rename row.uid row.newUsername).bind fun users =>
    (db.changes.insert row).map fun changes =>
      { db.release i with
        users
        changes := changes.deleteWhere fun c => c ∈ gone
        moves := db.moves ++
          [.left row.uid row.oldUsername row.changedAt, .took row.uid row.newUsername time] }

def renameFailed : String := "Couldn't change your username. Please try again."

/-- A statement of transaction `i`, or `none` while it has to wait. -/
def RenameStage.run (bcrypt : Bcrypt) (db : NameDb) (i : Nat) (uid : Int) (name password : Bytes) :
    RenameStage → Option (NameDb × RenameStage)
  | .lockRow =>
    if !NameLocks.freeFor (db.locks.rows uid) i then none
    else
      match db.users.table.find? uid with
      | none => some (db, .answered "Your account wasn't found.")
      | some me =>
        if !bcrypt.verify password me.passwordHash then some (db, .answered "Wrong password.")
        else if name = me.username then some (db, .answered "That's already your username.")
        else
          some
            ({ db with
                locks := { db.locks with rows := Function.update db.locks.rows uid (some i) } },
              .recent me.username)
  | .recent old =>
    let recent := db.changes.rows.countP fun c =>
      c.uid = uid && db.clock - 24 * 3600 < c.changedAt
    if renamesPerDay ≤ recent then
      some (db.release i,
        .answered "You can change your username twice a day. Try again tomorrow.")
    else some (db, .holders old db.clock)
  | .holders old now =>
    if db.users.table.rows.any (·.username = name) then
      some (db.release i, .answered "That username is taken.")
    else some (db, .nameReserved old now)
  | .nameReserved old now =>
    if db.nameReservedForOther name uid then
      some (db.release i, .answered "That username is taken.")
    else some (db, .update old now db.moves.length)
  | .update old now _ =>
    if !db.locks.nameFree name i then none
    else if db.users.table.rows.any (·.username = name) then
      some (db.release i, .answered renameFailed)
    else
      some
        ({ db with
            locks := { db.locks with
              names := Function.update db.locks.names name (some i)
              leaving := Function.update db.locks.leaving old (some i) } },
          .record old now db.clock)
  | .record old now time =>
    some ({ db with nextChange := db.nextChange + 1 },
      .prune
        { id := db.nextChange, uid, oldUsername := old, newUsername := name, changedAt := now }
        time)
  | .prune row time => some (db, .commit row time (db.expired (row :: db.changes.rows)))
  | .commit row time gone =>
    match db.commitRename i row time gone with
    | none => some (db.release i, .answered renameFailed)
    | some db => some (db, .answered "")
  | .answered _ => none

def RenameStage.fail : RenameStage → RenameStage
  | .answered error => .answered error
  | _ => .answered renameFailed

/-! ## Runs -/

/-- A request, and how far it is. -/
inductive NameRequest
  | register (name email password : Bytes) (stage : RegisterStage)
  | rename (uid : Int) (name password : Bytes) (stage : RenameStage)

/-- The database, and the requests. -/
structure NamesRun where
  db : NameDb
  requests : Nat → Option NameRequest := fun _ => none

inductive NameEvent
  | register (i : Nat) (name email password : Bytes)
  | rename (i : Nat) (uid : Int) (name password : Bytes)
  /-- A request's next statement; the salt is for a password. -/
  | statement (i salt : Nat)
  /-- A request's statement fails, and its transaction is rolled back. -/
  | fail (i : Nat)
  /-- The sweep deletes the old name changes. -/
  | pruneNameChanges
  | tick (seconds : Nat)

namespace NamesRun

variable (bcrypt : Bcrypt) (st : NamesRun)

def put (db : NameDb) (i : Nat) (r : NameRequest) : NamesRun where
  db
  requests := Function.update st.requests i (some r)

/-- A request comes. -/
def receive (i : Nat) (r : NameRequest) : NamesRun :=
  if (st.requests i).isSome then st else st.put st.db i r

def step : NameEvent → NamesRun
  | .register i name email password =>
    st.receive i (.register name email password (registerUser name email password))
  | .rename i uid name password => st.receive i (.rename uid name password (renameUser name))
  | .statement i salt =>
    match st.requests i with
    | none => st
    | some (.register name email password stage) =>
      match stage.run bcrypt st.db i salt name email password with
      | none => st
      | some (db, stage) => st.put db i (.register name email password stage)
    | some (.rename uid name password stage) =>
      match stage.run bcrypt st.db i uid name password with
      | none => st
      | some (db, stage) => st.put db i (.rename uid name password stage)
  | .fail i =>
    match st.requests i with
    | none => st
    | some (.register name email password stage) =>
      st.put (st.db.release i) i (.register name email password stage.fail)
    | some (.rename uid name password stage) =>
      st.put (st.db.release i) i (.rename uid name password stage.fail)
  | .pruneNameChanges => { st with db := st.db.pruneNameChanges }
  | .tick seconds => { st with db := { st.db with clock := st.db.clock + seconds } }

end NamesRun

/-- Registrations and renames, from a database without name changes. -/
def nameSystem (bcrypt : Bcrypt) : System NamesRun NameEvent where
  init st := (0 < st.db.nextUid ∧ ∀ u ∈ st.db.users.table.rows, u.uid ≠ 0) ∧
    st.db.changes.rows = [] ∧ st.db.moves = [] ∧ st.requests = fun _ => none
  step st e st' := st' = st.step bcrypt e

/-- The account that a name signs in: who has it, or else whom it is reserved for; the database may
    go on between the two statements. -/
def signIn (db db' : NameDb) (name : Bytes) : Option StoredCredentials :=
  match db.getCredentials name with
  | some stored => some stored
  | none => db'.getCredentialsByReservedName name

end Decibell.Central
