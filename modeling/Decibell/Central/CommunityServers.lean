import Decibell.Community.Text
import Decibell.Lib.Run
import Decibell.Lib.Table
import Mathlib.Data.List.Sort

/-!
# The directory of community servers

A community reports to the central server with a heartbeat, which carries its address and the id it
was answered with before, if it knows one. The directory has a row for each community, and the
memberships of the accounts name their communities by the ids of these rows.
-/

namespace Decibell.Central

open Lib List

/-! ## The tables -/

/-- A row of `community_servers`. -/
structure CommunityServer where
  id : Int
  name : Bytes
  description : Bytes
  hostIp : String
  port : Int
  memberCount : Int
  lastHeartbeat : Int
  certFingerprint : String
  isPublic : Bool
  pictureVersion : String := ""
deriving DecidableEq

def CommunityServer.address (s : CommunityServer) : String × Int := (s.hostIp, s.port)

/-- `community_servers`. -/
structure CommunityServers where
  table : Table CommunityServer.id
  /-- `UNIQUE(host_ip, port)`. -/
  addresses : (table.rows.map CommunityServer.address).Nodup
  /-- The next number of the sequence of the ids. -/
  nextId : Int

/-- What a community reports. -/
structure ServerHeartbeat where
  name : Bytes := []
  description : Bytes := []
  hostIp : String
  port : Int
  memberCount : Int := 0
  /-- The id it was answered with before; 0 if it knows none. -/
  serverId : Int := 0
  certFingerprint : String := ""
  publicListing : Bool := false

def ServerHeartbeat.address (hb : ServerHeartbeat) : String × Int := (hb.hostIp, hb.port)

/-- What both statements set in a row that is there. -/
def CommunityServer.refresh (s : CommunityServer) (hb : ServerHeartbeat) (now : Int) :
    CommunityServer :=
  { s with
    name := hb.name
    description := hb.description
    memberCount := hb.memberCount
    lastHeartbeat := now
    certFingerprint := hb.certFingerprint
    isPublic := hb.publicListing }

/-- A row brought to the address its community reports from. -/
def CommunityServer.moveTo (s : CommunityServer) (hb : ServerHeartbeat) (now : Int) :
    CommunityServer :=
  { s.refresh hb now with hostIp := hb.hostIp, port := hb.port }

/-- A new row. -/
def ServerHeartbeat.row (hb : ServerHeartbeat) (id now : Int) : CommunityServer where
  id
  name := hb.name
  description := hb.description
  hostIp := hb.hostIp
  port := hb.port
  memberCount := hb.memberCount
  lastHeartbeat := now
  certFingerprint := hb.certFingerprint
  isPublic := hb.publicListing

namespace CommunityServers

variable (t : CommunityServers) (hb : ServerHeartbeat) (now : Int)

/-- What a statement leaves, unless the index on addresses refuses it. -/
def indexed (table : Table CommunityServer.id) (nextId : Int) : Option CommunityServers :=
  if h : (table.rows.map CommunityServer.address).Nodup then
    some { table, addresses := h, nextId }
  else none

/-- `DELETE … WHERE host_ip = … AND port = … AND id <> …`. -/
def dropOthers : CommunityServers where
  table := t.table.deleteWhere fun s => s.address = hb.address && s.id ≠ hb.serverId
  addresses := t.addresses.sublist (List.filter_sublist.map _)
  nextId := t.nextId

/-- `UPDATE … WHERE id = … RETURNING id`. -/
def updateById : Option CommunityServers :=
  indexed (t.table.updateWhere (·.id = hb.serverId) (·.moveTo hb now)) t.nextId

/-- `INSERT … ON CONFLICT (host_ip, port) DO UPDATE … RETURNING id` draws a number in any case. -/
def insertOrUpdate : Option (CommunityServers × Int) :=
  match t.table.rows.find? (·.address = hb.address) with
  | some s =>
    (indexed (t.table.updateWhere (·.address = hb.address) (·.refresh hb now)) (t.nextId + 1)).map
      (·, s.id)
  | none =>
    (t.table.insert (hb.row t.nextId now)).bind fun table =>
      (indexed table (t.nextId + 1)).map (·, t.nextId)

/-- The statements of a heartbeat; `none` if one of them fails. -/
def heartbeat : Option (CommunityServers × Int) :=
  if 0 < hb.serverId then
    let t := t.dropOthers hb
    (t.updateById hb now).bind fun updated =>
      if hb.serverId ∈ t.table.keys then some (updated, hb.serverId)
      -- Unknown id: the row is keyed by the address.
      else updated.insertOrUpdate hb now
  else t.insertOrUpdate hb now

/-- The id of the community's row; 0 if the transaction fails (not `ok`). -/
def upsertCommunityServer (ok : Bool) : CommunityServers × Int :=
  if ok then (t.heartbeat hb now).getD (t, 0) else (t, 0)

end CommunityServers

def maxCommunityName : Nat := 64
def maxCommunityDescription : Nat := 512

/-- A display string from a community, of at most `maxBytes` bytes. -/
def clampDisplay (s : Bytes) (maxBytes : Nat) : Bytes :=
  utf8Prefix (s.filter fun c => ! (c < 0x20 || c = 0x7F)) maxBytes

/-- A heartbeat's handler needs the shared secret, and answers the id. -/
def onServerHeartbeat (t : CommunityServers) (secret : Bool) (hb : ServerHeartbeat) (now : Int)
    (ok : Bool) : CommunityServers × Option Int :=
  if secret then
    let done := t.upsertCommunityServer
      { hb with
        name := clampDisplay hb.name maxCommunityName
        description := clampDisplay hb.description maxCommunityDescription } now ok
    (done.1, some done.2)
  else (t, none)

/-- A row of `community_memberships`. -/
structure Membership where
  uid : Int
  serverId : Int
  joinedAt : Int
deriving DecidableEq

def Membership.key (m : Membership) : Int × Int := (m.uid, m.serverId)

/-- A community as a client is told of it. -/
structure CommunityServerInfo where
  id : Int
  name : Bytes
  description : Bytes
  hostIp : String
  port : Int
  memberCount : Int
  pictureVersion : String
  certFingerprint : String
deriving DecidableEq

/-- The columns of both queries; 512 characters have the first 512 bytes. -/
def CommunityServer.info (s : CommunityServer) : CommunityServerInfo where
  id := s.id
  name := s.name
  description := utf8Prefix s.description maxCommunityDescription
  hostIp := s.hostIp
  port := s.port
  memberCount := s.memberCount
  pictureVersion := s.pictureVersion
  certFingerprint := s.certFingerprint

def maxLoginMemberships : Nat := 200

/-- The directory, the memberships, and the accounts. -/
structure Communities where
  servers : CommunityServers
  memberships : Table Membership.key
  users : List Int

namespace Communities

variable (c : Communities) (uid serverId now : Int)

/-- The memberships, and the community if the membership is new. -/
def registerMembership : Table Membership.key × Option CommunityServerInfo :=
  if uid ∉ c.users then (c.memberships, none)
  else
    (c.memberships.insertOrIgnore { uid, serverId, joinedAt := now },
      if (uid, serverId) ∈ c.memberships.keys then none
      else (c.servers.table.find? serverId).map (·.info))

def revokeMembership : Table Membership.key :=
  c.memberships.deleteWhere fun m => m.uid = uid && m.serverId = serverId

/-- `ORDER BY cm.joined_at, cm.server_id`. -/
def joinedFirst (m m' : Membership) : Bool :=
  m.joinedAt < m'.joinedAt || (m.joinedAt = m'.joinedAt && m.serverId ≤ m'.serverId)

/-- The communities a sign-in lists; memberships without a row are left out. -/
def getUserCommunities : List CommunityServerInfo :=
  let joined := c.memberships.rows.filter fun m => m.uid = uid && m.serverId ∈ c.servers.table.keys
  ((joined.mergeSort joinedFirst).take maxLoginMemberships).filterMap fun m =>
    (c.servers.table.find? m.serverId).map (·.info)

end Communities

/-! ## Runs -/

/-- A row that a heartbeat removed. -/
structure Removal where
  server : CommunityServer
  /-- The reporting community's row: its id's, else its address's. -/
  reporter : Option Int

/-- The tables, and what was removed from them. -/
structure DirectoryRun where
  tables : Communities
  /-- The rows that heartbeats removed, for the record only. -/
  removed : List Removal := []

/-- A request to the central server; its transaction commits if `ok`. -/
inductive DirectoryEvent
  /-- A heartbeat; the shared secret may be wrong. -/
  | heartbeat (secret : Bool) (hb : ServerHeartbeat) (now : Int) (ok : Bool)
  | register (uid serverId now : Int) (ok : Bool)
  /-- A community or the account itself revokes a membership. -/
  | revoke (uid serverId : Int) (ok : Bool)
  | account (uid : Int)
  /-- A transaction that failed had drawn a number of the sequence. -/
  | skip

namespace CommunityServers

/-- The row of the community that sends a heartbeat. -/
def reporter (t : CommunityServers) (hb : ServerHeartbeat) : Option Int :=
  if hb.serverId ∈ t.table.keys then some hb.serverId
  else (t.table.rows.find? (·.address = hb.address)).map (·.id)

/-- The rows that are not there any more. -/
def gone (t t' : CommunityServers) : List CommunityServer :=
  t.table.rows.filter fun s => s.id ∉ t'.table.keys

end CommunityServers

namespace DirectoryRun

variable (st : DirectoryRun)

def step : DirectoryEvent → DirectoryRun
  | .heartbeat secret hb now ok =>
    let t := st.tables.servers
    let t' := (onServerHeartbeat t secret hb now ok).1
    { tables := { st.tables with servers := t' }
      removed := st.removed ++
        (t.gone t').map fun s => { server := s, reporter := t.reporter hb } }
  | .register uid serverId now ok =>
    if uid ≤ 0 ∨ serverId = 0 ∨ !ok then st
    else
      { st with
        tables := { st.tables with
          memberships := (st.tables.registerMembership uid serverId now).1 } }
  | .revoke uid serverId ok =>
    if uid ≤ 0 ∨ serverId = 0 ∨ !ok then st
    else
      { st with
        tables := { st.tables with memberships := st.tables.revokeMembership uid serverId } }
  | .account uid =>
    { st with tables := { st.tables with users := uid :: st.tables.users } }
  | .skip =>
    { st with
      tables := { st.tables with
        servers := { st.tables.servers with nextId := st.tables.servers.nextId + 1 } } }

end DirectoryRun

/-- The ids are drawn from the sequence, which starts at 1. -/
def CommunityServers.Drawn (t : CommunityServers) : Prop :=
  0 < t.nextId ∧ ∀ s ∈ t.table.rows, 0 < s.id ∧ s.id < t.nextId

/-- The requests to a directory from which no row was removed yet. -/
def communitySystem : System DirectoryRun DirectoryEvent where
  init st := st.tables.servers.Drawn ∧ st.removed = []
  step st e st' := st' = st.step e

/-- A heartbeat's id is a row's, or its address has no row. -/
def CommunityServers.Fits (t : CommunityServers) (hb : ServerHeartbeat) : Prop :=
  0 < hb.serverId → hb.serverId ∈ t.table.keys ∨ ∀ s ∈ t.table.rows, s.address ≠ hb.address

def DirectoryRun.Fits (st : DirectoryRun) : DirectoryEvent → Prop
  | .heartbeat true hb _ true => st.tables.servers.Fits hb
  | _ => True

/-! ## One heartbeat -/

namespace CommunityServers

variable {t t' : CommunityServers} {hb : ServerHeartbeat} {now : Int}

theorem eq_of_address {s s' : CommunityServer} (hs : s ∈ t.table.rows) (hs' : s' ∈ t.table.rows)
    (h : s.address = s'.address) : s = s' :=
  inj_on_of_nodup_map t.addresses hs hs' h

theorem indexed_eq (table : Table CommunityServer.id) (nextId : Int)
    (h : ∀ s ∈ table.rows, ∀ s' ∈ table.rows, s.address = s'.address → s = s') :
    ∃ haddresses, indexed table nextId = some ⟨table, haddresses, nextId⟩ :=
  ⟨List.Nodup.map_on h (.of_map _ table.nodup), dif_pos _⟩

theorem mem_dropOthers {s : CommunityServer} : s ∈ (t.dropOthers hb).table.rows ↔
    s ∈ t.table.rows ∧ (s.address = hb.address → s.id = hb.serverId) := by
  simp [dropOthers, imp_iff_not_or]

theorem mem_keys_dropOthers :
    hb.serverId ∈ (t.dropOthers hb).table.keys ↔ hb.serverId ∈ t.table.keys := by
  rw [Table.keys, Table.keys, mem_map, mem_map]
  constructor
  · rintro ⟨s, hs, hid⟩
    exact ⟨s, (mem_dropOthers.1 hs).1, hid⟩
  · rintro ⟨s, hs, hid⟩
    exact ⟨s, mem_dropOthers.2 ⟨hs, fun _ => hid⟩, hid⟩

variable (t hb now) in
theorem updateById_dropOthers : ∃ haddresses, (t.dropOthers hb).updateById hb now = some
    ⟨(t.dropOthers hb).table.updateWhere (·.id = hb.serverId) (·.moveTo hb now), haddresses,
      t.nextId⟩ := by
  refine indexed_eq _ _ fun s hs s' hs' h => ?_
  obtain ⟨x, hx, rfl⟩ := mem_map.1 hs
  obtain ⟨y, hy, rfl⟩ := mem_map.1 hs'
  suffices hxy : x = y by rw [hxy]
  have hx' := mem_dropOthers.1 hx
  have hy' := mem_dropOthers.1 hy
  by_cases hxid : x.id = hb.serverId <;> by_cases hyid : y.id = hb.serverId <;>
    simp only [hxid, hyid, decide_true, decide_false, if_true, if_false, Bool.false_eq_true] at h
  · exact Table.eq_of_key hx'.1 hy'.1 (hxid.trans hyid.symm)
  · exact absurd (hy'.2 h.symm) hyid
  · exact absurd (hx'.2 h) hxid
  · exact eq_of_address hx'.1 hy'.1 h

variable (now) in
/-- A known id: its row comes to the address, whose others are dropped. -/
theorem heartbeat_known (hid : 0 < hb.serverId) (h : hb.serverId ∈ t.table.keys) :
    ∃ t', t.heartbeat hb now = some (t', hb.serverId) ∧ t'.nextId = t.nextId ∧
      t'.table = (t.dropOthers hb).table.updateWhere (·.id = hb.serverId) (·.moveTo hb now) := by
  obtain ⟨haddresses, hupdate⟩ := updateById_dropOthers t hb now
  refine ⟨⟨_, haddresses, t.nextId⟩, ?_, rfl, rfl⟩
  rw [heartbeat, if_pos hid]
  dsimp only
  rw [hupdate, Option.bind_some, if_pos (mem_keys_dropOthers.2 h)]

variable (now) in
theorem insertOrUpdate_of_mem {s : CommunityServer} (hs : s ∈ t.table.rows)
    (haddress : s.address = hb.address) :
    ∃ t', t.insertOrUpdate hb now = some (t', s.id) ∧ t'.nextId = t.nextId + 1 ∧
      t'.table.keys = t.table.keys := by
  have hfind : t.table.rows.find? (·.address = hb.address) = some s := by
    cases h : t.table.rows.find? (·.address = hb.address) with
    | none => exact absurd (decide_eq_true haddress) (find?_eq_none.1 h s hs)
    | some s' =>
      have hs' : s'.address = hb.address := by simpa using find?_some h
      rw [eq_of_address (mem_of_find?_eq_some h) hs (hs'.trans haddress.symm)]
  obtain ⟨haddresses, hindexed⟩ := indexed_eq
    (t.table.updateWhere (·.address = hb.address) (·.refresh hb now)) (t.nextId + 1) <| by
      intro s hs s' hs' h
      obtain ⟨x, hx, rfl⟩ := mem_map.1 hs
      obtain ⟨y, hy, rfl⟩ := mem_map.1 hs'
      -- A refreshed row keeps its address.
      have hkept : ∀ z : CommunityServer,
          (if decide (z.address = hb.address) = true then z.refresh hb now else z).address =
            z.address := fun z => by split <;> rfl
      rw [hkept, hkept] at h
      rw [eq_of_address hx hy h]
  refine ⟨⟨_, haddresses, t.nextId + 1⟩, ?_, rfl,
    Table.keys_updateWhere (f := fun s : CommunityServer => s.refresh hb now) (h := fun _ => rfl)⟩
  rw [insertOrUpdate, hfind]
  dsimp only
  rw [hindexed, Option.map_some]

variable (now) in
theorem insertOrUpdate_of_free (hdrawn : t.Drawn)
    (hfree : ∀ s ∈ t.table.rows, s.address ≠ hb.address) :
    ∃ t', t.insertOrUpdate hb now = some (t', t.nextId) ∧ t'.nextId = t.nextId + 1 ∧
      t'.table.rows = t.table.rows ++ [hb.row t.nextId now] := by
  have hfind : t.table.rows.find? (·.address = hb.address) = none :=
    find?_eq_none.2 fun s hs h => hfree s hs (of_decide_eq_true h)
  have hnew : (hb.row t.nextId now).id ∉ t.table.keys := by
    intro hmem
    obtain ⟨s, hs, hid⟩ := mem_map.1 hmem
    exact absurd hid (Int.ne_of_lt (hdrawn.2 s hs).2)
  obtain ⟨haddresses, hindexed⟩ := indexed_eq (t.table.append _ hnew)
    (t.nextId + 1) <| by
      intro s hs s' hs' h
      rcases mem_append.1 hs with hs | hs <;> rcases mem_append.1 hs' with hs' | hs'
      · exact eq_of_address hs hs' h
      · exact absurd (h.trans (by rw [mem_singleton.1 hs']; rfl)) (hfree s hs)
      · exact absurd (h.symm.trans (by rw [mem_singleton.1 hs]; rfl)) (hfree s' hs')
      · rw [mem_singleton.1 hs, mem_singleton.1 hs']
  refine ⟨⟨_, haddresses, t.nextId + 1⟩, ?_, rfl, rfl⟩
  rw [insertOrUpdate, hfind]
  dsimp only
  rw [Table.insert_eq_some hnew, Option.bind_some, hindexed, Option.map_some]

variable (now) in
/-- An id without a row: the address's rows are dropped, and one is made. -/
theorem heartbeat_unknown (hdrawn : t.Drawn) (hid : 0 < hb.serverId)
    (h : hb.serverId ∉ t.table.keys) :
    ∃ t', t.heartbeat hb now = some (t', t.nextId) ∧ t'.nextId = t.nextId + 1 ∧
      t'.table.rows = (t.dropOthers hb).table.rows ++ [hb.row t.nextId now] := by
  have hunknown : hb.serverId ∉ (t.dropOthers hb).table.keys := mt mem_keys_dropOthers.1 h
  obtain ⟨haddresses, hupdate⟩ := updateById_dropOthers t hb now
  have hsame : (⟨_, haddresses, t.nextId⟩ : CommunityServers) = t.dropOthers hb := by
    have htable : (t.dropOthers hb).table.updateWhere (·.id = hb.serverId) (·.moveTo hb now) =
        (t.dropOthers hb).table :=
      Table.updateWhere_of_none <| countP_eq_zero.2 fun s hs hid =>
        hunknown (mem_map.2 ⟨s, hs, of_decide_eq_true hid⟩)
    rw [CommunityServers.mk.injEq]
    exact ⟨htable, rfl⟩
  rw [hsame] at hupdate
  have hdropped : (t.dropOthers hb).Drawn :=
    ⟨hdrawn.1, fun s hs => hdrawn.2 s (mem_dropOthers.1 hs).1⟩
  have hfree : ∀ s ∈ (t.dropOthers hb).table.rows, s.address ≠ hb.address := fun s hs haddress =>
    hunknown (mem_map.2 ⟨s, hs, (mem_dropOthers.1 hs).2 haddress⟩)
  obtain ⟨t', hinsert, hnext, hrows⟩ := insertOrUpdate_of_free now hdropped hfree
  refine ⟨t', ?_, hnext, hrows⟩
  rw [heartbeat, if_pos hid]
  dsimp only
  rw [hupdate, Option.bind_some, if_neg hunknown]
  exact hinsert

theorem heartbeat_of_nonpos (hid : ¬ 0 < hb.serverId) :
    t.heartbeat hb now = t.insertOrUpdate hb now := if_neg hid

/-- What a heartbeat does, in terms of the ids. -/
inductive Reported (t : CommunityServers) (hb : ServerHeartbeat) (t' : CommunityServers) :
    Int → Prop
  /-- The row of its id is at the address now, and its others are gone. -/
  | known (hid : hb.serverId ∈ t.table.keys) (hnext : t'.nextId = t.nextId)
      (hkeys : t'.table.keys = (t.dropOthers hb).table.keys)
      (hat : ∃ s ∈ t'.table.rows, s.id = hb.serverId ∧ s.address = hb.address) :
      Reported t hb t' hb.serverId
  /-- It has no id, and its address has a row. -/
  | row (hid : ¬ 0 < hb.serverId) {s : CommunityServer} (hs : s ∈ t.table.rows)
      (haddress : s.address = hb.address) (hnext : t'.nextId = t.nextId + 1)
      (hkeys : t'.table.keys = t.table.keys) : Reported t hb t' s.id
  /-- Its id has no row; it has none, or the address has none. -/
  | new (hid : hb.serverId ∉ t.table.keys)
      (hfree : 0 < hb.serverId ∨ ∀ s ∈ t.table.rows, s.address ≠ hb.address)
      (hnext : t'.nextId = t.nextId + 1)
      (hkeys : t'.table.keys = (t.dropOthers hb).table.keys ++ [t.nextId]) :
      Reported t hb t' t.nextId

theorem keys_pos (hdrawn : t.Drawn) {id : Int} (h : id ∈ t.table.keys) :
    0 < id ∧ id < t.nextId := by
  obtain ⟨s, hs, rfl⟩ := mem_map.1 h
  exact hdrawn.2 s hs

variable (hb now) in
theorem heartbeat_reported (hdrawn : t.Drawn) :
    ∃ t' id, t.heartbeat hb now = some (t', id) ∧ Reported t hb t' id := by
  by_cases hid : 0 < hb.serverId
  · by_cases hknown : hb.serverId ∈ t.table.keys
    · obtain ⟨t', h, hnext, htable⟩ := heartbeat_known now hid hknown
      have hkeys : t'.table.keys = (t.dropOthers hb).table.keys := by
        rw [htable]
        exact Table.keys_updateWhere (f := fun s : CommunityServer => s.moveTo hb now)
          (h := fun _ => rfl)
      refine ⟨t', _, h, .known hknown hnext hkeys ?_⟩
      obtain ⟨s, hs, hs'⟩ := mem_map.1 (mem_keys_dropOthers.2 hknown)
      rw [htable]
      refine ⟨s.moveTo hb now, mem_map.2 ⟨s, hs, if_pos (decide_eq_true hs')⟩, hs', rfl⟩
    · obtain ⟨t', h, hnext, hrows⟩ := heartbeat_unknown now hdrawn hid hknown
      refine ⟨t', _, h, .new hknown (.inl hid) hnext ?_⟩
      rw [Table.keys, hrows, map_append]
      rfl
  · have hunknown : hb.serverId ∉ t.table.keys := fun h => hid (keys_pos hdrawn h).1
    rw [heartbeat_of_nonpos hid]
    by_cases hrow : ∃ s ∈ t.table.rows, s.address = hb.address
    · obtain ⟨s, hs, haddress⟩ := hrow
      obtain ⟨t', h, hnext, hkeys⟩ := insertOrUpdate_of_mem now hs haddress
      exact ⟨t', _, h, .row hid hs haddress hnext hkeys⟩
    · have hfree : ∀ s ∈ t.table.rows, s.address ≠ hb.address := fun s hs h => hrow ⟨s, hs, h⟩
      obtain ⟨t', h, hnext, hrows⟩ := insertOrUpdate_of_free now hdrawn hfree
      refine ⟨t', _, h, .new hunknown (.inr hfree) hnext ?_⟩
      have hnone : (t.dropOthers hb).table.rows = t.table.rows :=
        filter_eq_self.2 fun s hs => by simp [hfree s hs]
      rw [Table.keys, hrows, map_append, Table.keys, hnone]
      rfl

theorem keys_dropOthers_subset {id : Int} (h : id ∈ (t.dropOthers hb).table.keys) :
    id ∈ t.table.keys := by
  obtain ⟨s, hs, rfl⟩ := mem_map.1 h
  exact mem_map_of_mem (mem_dropOthers.1 hs).1

theorem Reported.drawn {id : Int} (hdrawn : t.Drawn) (h : Reported t hb t' id) : t'.Drawn := by
  have hkeys : ∀ s ∈ t'.table.rows, s.id ∈ t'.table.keys := fun s hs => mem_map_of_mem hs
  cases h with
  | known _ hnext hkeys' =>
    refine ⟨hnext ▸ hdrawn.1, fun s hs => ?_⟩
    rw [hnext]
    exact keys_pos hdrawn (keys_dropOthers_subset (hkeys' ▸ hkeys s hs))
  | row _ _ _ hnext hkeys' =>
    refine ⟨by have := hdrawn.1; omega, fun s hs => ?_⟩
    have := keys_pos hdrawn (hkeys' ▸ hkeys s hs)
    omega
  | new _ _ hnext hkeys' =>
    have hpos := hdrawn.1
    refine ⟨by omega, fun s hs => ?_⟩
    rcases mem_append.1 (hkeys' ▸ hkeys s hs) with hold | hnew
    · have := keys_pos hdrawn (keys_dropOthers_subset hold)
      omega
    · have := mem_singleton.1 hnew
      omega

/-- What a fitting heartbeat removes makes way for another community's row. -/
theorem Reported.of_gone {id : Int} (hfits : t.Fits hb) (h : Reported t hb t' id)
    {s : CommunityServer} (hs : s ∈ t.gone t') :
    s.address = hb.address ∧ ∃ k, t.reporter hb = some k ∧ k ≠ s.id := by
  obtain ⟨hs, hgone⟩ : s ∈ t.table.rows ∧ s.id ∉ t'.table.keys := by simpa [gone] using hs
  have hdropped : s.id ∉ (t.dropOthers hb).table.keys →
      s.address = hb.address ∧ s.id ≠ hb.serverId := by
    intro hdropped
    by_contra hkept
    exact hdropped <| mem_map_of_mem <| mem_dropOthers.2
      ⟨hs, fun haddress => by_contra fun hid => hkept ⟨haddress, hid⟩⟩
  cases h with
  | known hid _ hkeys =>
    obtain ⟨haddress, hne⟩ := hdropped (hkeys ▸ hgone)
    exact ⟨haddress, hb.serverId, if_pos hid, hne.symm⟩
  | row _ _ _ _ hkeys => exact absurd (mem_map_of_mem hs) (hkeys ▸ hgone)
  | new hid hfree _ hkeys =>
    -- The address has no row, so none was dropped.
    have hnone : ∀ s ∈ t.table.rows, s.address ≠ hb.address := by
      rcases hfree with hpos | hfree
      · exact (hfits hpos).resolve_left hid
      · exact hfree
    rw [hkeys] at hgone
    exact absurd (hdropped fun h => hgone (mem_append_left _ h)).1 (hnone s hs)

end CommunityServers

/-! ## Every run -/

namespace DirectoryRun

variable {st : DirectoryRun}

/-- Ids are drawn, and removed rows made way for another community's. -/
structure Sound (st : DirectoryRun) : Prop where
  drawn : st.tables.servers.Drawn
  replaced : ∀ r ∈ st.removed, ∃ k, r.reporter = some k ∧ k ≠ r.server.id

theorem gone_self (t : CommunityServers) : t.gone t = [] :=
  filter_eq_nil_iff.2 fun s hs => by
    rw [decide_eq_true_iff, not_not]
    exact mem_map_of_mem hs

theorem Sound.step (h : st.Sound) {e : DirectoryEvent} (hfits : st.Fits e) :
    (st.step e).Sound := by
  cases e with
  | heartbeat secret hb now ok =>
    have hnothing : ∀ hb, (DirectoryRun.mk { st.tables with servers := st.tables.servers }
        (st.removed ++ (st.tables.servers.gone st.tables.servers).map
          fun s => { server := s, reporter := st.tables.servers.reporter hb })).Sound := by
      intro hb
      rw [gone_self, map_nil, append_nil]
      exact h
    cases secret with
    | false => exact hnothing hb
    | true =>
      cases ok with
      | false => exact hnothing hb
      | true =>
        rw [DirectoryRun.step, onServerHeartbeat, if_pos rfl]
        dsimp only
        -- Neither the address nor the id is clamped.
        generalize hclamped : ({ hb with
          name := clampDisplay hb.name maxCommunityName
          description := clampDisplay hb.description maxCommunityDescription } :
            ServerHeartbeat) = clamped
        obtain ⟨t', id, hdone, hreported⟩ :=
          CommunityServers.heartbeat_reported clamped now h.drawn
        have hfits' : st.tables.servers.Fits clamped := hclamped ▸ hfits
        have hreporter : st.tables.servers.reporter hb = st.tables.servers.reporter clamped :=
          hclamped ▸ rfl
        rw [CommunityServers.upsertCommunityServer, if_pos rfl, hdone, Option.getD_some]
        refine ⟨hreported.drawn h.drawn, fun r hr => ?_⟩
        rcases mem_append.1 hr with hr | hr
        · exact h.replaced r hr
        · obtain ⟨s, hs, rfl⟩ := mem_map.1 hr
          exact hreporter ▸ (hreported.of_gone hfits' hs).2
  | register uid serverId now ok =>
    rw [DirectoryRun.step]
    split
    · exact h
    · exact ⟨h.drawn, h.replaced⟩
  | revoke uid serverId ok =>
    rw [DirectoryRun.step]
    split
    · exact h
    · exact ⟨h.drawn, h.replaced⟩
  | account uid => exact ⟨h.drawn, h.replaced⟩
  | skip =>
    refine ⟨⟨?_, fun s hs => ?_⟩, h.replaced⟩
    · exact Int.lt_add_one_of_le (Int.le_of_lt h.drawn.1)
    · exact ⟨(h.drawn.2 s hs).1, Int.lt_add_one_of_le (Int.le_of_lt (h.drawn.2 s hs).2)⟩

/-- In every run whose heartbeats fit an address has one row at most; a heartbeat with a row's id
    keeps that row, at its address; one whose id has no row gets its address's row exactly if it
    fits; and a membership whose row was removed points at one whose address another community
    reported from. -/
theorem identity_stable (h : (communitySystem.given DirectoryRun.Fits).Reachable st) :
    let t := st.tables.servers
    (∀ s ∈ t.table.rows, ∀ s' ∈ t.table.rows, s.address = s'.address → s = s') ∧
    (∀ hb now, hb.serverId ∈ t.table.keys → ∃ t',
      t.upsertCommunityServer hb now true = (t', hb.serverId) ∧
        ∃ s ∈ t'.table.rows, s.id = hb.serverId ∧ s.address = hb.address) ∧
    (∀ hb now, ∀ s ∈ t.table.rows, hb.serverId ∉ t.table.keys → s.address = hb.address →
      ((t.upsertCommunityServer hb now true).2 = s.id ↔ t.Fits hb)) ∧
    ∀ m ∈ st.tables.memberships.rows, ∀ r ∈ st.removed, r.server.id = m.serverId →
      r.reporter ≠ none ∧ r.reporter ≠ some m.serverId := by
  have hsound : st.Sound := by
    refine System.reachable_invariant ?_ ?_ h
    · rintro st ⟨hdrawn, hremoved⟩
      exact ⟨hdrawn, fun r hr => by rw [hremoved] at hr; cases hr⟩
    · rintro st e _ hst ⟨rfl, hfits⟩
      exact hst.step hfits
  have hdone : ∀ hb now, ∃ t' id, st.tables.servers.upsertCommunityServer hb now true = (t', id) ∧
      CommunityServers.Reported st.tables.servers hb t' id := by
    intro hb now
    obtain ⟨t', id, hdone, hreported⟩ :=
      CommunityServers.heartbeat_reported hb now hsound.drawn
    refine ⟨t', id, ?_, hreported⟩
    rw [CommunityServers.upsertCommunityServer, if_pos rfl, hdone, Option.getD_some]
  refine ⟨fun s hs s' hs' => CommunityServers.eq_of_address hs hs', fun hb now hid => ?_,
    fun hb now s hs hid haddress => ?_, fun m _ r hr hm => ?_⟩
  · obtain ⟨t', id, hupsert, hreported⟩ := hdone hb now
    cases hreported with
    | known _ _ _ hat => exact ⟨t', hupsert, hat⟩
    | row hpos => exact absurd (CommunityServers.keys_pos hsound.drawn hid).1 hpos
    | new hunknown => exact absurd hid hunknown
  · obtain ⟨t', id, hupsert, hreported⟩ := hdone hb now
    rw [hupsert]
    cases hreported with
    | known hknown => exact absurd hknown hid
    | row hpos hs' haddress' =>
      have hsame := CommunityServers.eq_of_address hs' hs (haddress'.trans haddress.symm)
      exact ⟨fun _ hpos' => absurd hpos' hpos, fun _ => congrArg CommunityServer.id hsame⟩
    | new _ hfree =>
      -- The address has a row, so the id was a known one: the answer is a new row.
      have hpos : 0 < hb.serverId :=
        hfree.resolve_right fun hfree => hfree s hs haddress
      constructor
      · intro hnew
        exact absurd hnew.symm (Int.ne_of_lt (hsound.drawn.2 s hs).2)
      · intro hfits
        exact absurd haddress ((hfits hpos).resolve_left hid s hs)
  · obtain ⟨k, hk, hne⟩ := hsound.replaced r hr
    rw [hk, ← hm]
    exact ⟨Option.some_ne_none k, fun h => hne (Option.some.inj h)⟩

/-! ## Runs -/

def newCentral : DirectoryRun where
  tables :=
    { servers := { table := .empty, addresses := List.nodup_nil, nextId := 1 }
      memberships := .empty
      users := [] }

/-- A community gets a row and a member, and moves to another port. -/
def moves : List DirectoryEvent :=
  [.account 5, .heartbeat true { hostIp := "10.0.0.1", port := 8082 } 0 true,
    .register 5 1 0 true,
    .heartbeat true { hostIp := "10.0.0.1", port := 9000, serverId := 1 } 1 true]

/-- A community gets a row and a member, and reports with an old id. -/
def forgets : List DirectoryEvent :=
  [.account 5, .heartbeat true { hostIp := "10.0.0.1", port := 8082 } 0 true,
    .register 5 1 0 true,
    .heartbeat true { hostIp := "10.0.0.1", port := 8082, serverId := 7 } 1 true]

def runDirectory (events : List DirectoryEvent) : DirectoryRun :=
  events.foldl DirectoryRun.step newCentral

instance (t : CommunityServers) (hb : ServerHeartbeat) : Decidable (t.Fits hb) := by
  unfold CommunityServers.Fits
  infer_instance

instance (st : DirectoryRun) : (e : DirectoryEvent) → Decidable (st.Fits e)
  | .heartbeat true hb _ true => inferInstanceAs (Decidable (st.tables.servers.Fits hb))
  | .heartbeat true _ _ false => .isTrue trivial
  | .heartbeat false _ _ _ => .isTrue trivial
  | .register _ _ _ _ => .isTrue trivial
  | .revoke _ _ _ => .isTrue trivial
  | .account _ => .isTrue trivial
  | .skip => .isTrue trivial

theorem init_newCentral : communitySystem.init newCentral :=
  ⟨⟨by decide, fun s hs => by cases hs⟩, rfl⟩

theorem identity_stable_moves :
    let st := runDirectory moves
    let t := st.tables.servers
    (∀ s ∈ t.table.rows, ∀ s' ∈ t.table.rows, s.address = s'.address → s = s') ∧
    (∀ hb now, hb.serverId ∈ t.table.keys → ∃ t',
      t.upsertCommunityServer hb now true = (t', hb.serverId) ∧
        ∃ s ∈ t'.table.rows, s.id = hb.serverId ∧ s.address = hb.address) ∧
    (∀ hb now, ∀ s ∈ t.table.rows, hb.serverId ∉ t.table.keys → s.address = hb.address →
      ((t.upsertCommunityServer hb now true).2 = s.id ↔ t.Fits hb)) ∧
    ∀ m ∈ st.tables.memberships.rows, ∀ r ∈ st.removed, r.server.id = m.serverId →
      r.reporter ≠ none ∧ r.reporter ≠ some m.serverId :=
  identity_stable (.foldl_given (fun _ _ => rfl) (.init init_newCentral) (by decide +kernel))

/-- The last heartbeat, from row 1's address, is answered with 2; row 1 goes, and the member's
    membership points at it. -/
theorem identity_not_stable :
    let st := runDirectory forgets
    communitySystem.Reachable st ∧
      ((runDirectory (forgets.take 3)).tables.servers.table.rows.map fun s => (s.id, s.address)) =
        [(1, "10.0.0.1", 8082)] ∧
      ((runDirectory (forgets.take 3)).tables.servers.upsertCommunityServer
        { hostIp := "10.0.0.1", port := 8082, serverId := 7 } 1 true).2 = 2 ∧
      (st.removed.map fun r => (r.server.id, r.reporter)) = [(1, some 1)] ∧
      (st.tables.memberships.rows.map (·.serverId)) = [1] ∧
      st.tables.servers.table.keys = [2] ∧ st.tables.getUserCommunities 5 = [] :=
  ⟨.foldl (fun _ _ => rfl) _ (.init init_newCentral), by decide +kernel, by decide +kernel,
    by decide +kernel, by decide +kernel, by decide +kernel, by decide +kernel⟩

end DirectoryRun

end Decibell.Central
