import Decibell.Community.Tables
import Decibell.Lib.Run
import Mathlib.Algebra.Group.Int.Defs
import Mathlib.Algebra.Group.Nat.Defs
import Mathlib.Data.List.Dedup

/-!
# Escrow of channel keys

The key of an encrypted channel changes with its epochs. The server stores, for each epoch and
member, a blob in which another member sealed the epoch's key to them. One request creates an epoch
and fills the gaps of one that exists: what it means depends on the epochs there are when it
arrives.
-/

namespace Decibell

open Lib List

namespace Tables

/-! ## The statements -/

def epochsOf (t : Tables) (channelId : String) : List Int :=
  (t.keyEpochs.rows.filter (·.channelId = channelId)).map (·.epoch)

/-- `COALESCE(MAX(epoch), 0)`, in 32 bits. -/
def channelKeyCurrentEpoch (t : Tables) (channelId : String) : Nat :=
  ((t.epochsOf channelId).max?.getD 0 % 2 ^ 32).toNat

def channelKeyHolds (t : Tables) (channelId : String) (epoch : Nat) (uid : Uid) : Bool :=
  t.keyBlobs.rows.any fun b => b.channelId = channelId ∧ b.epoch = epoch ∧ b.recipientUid = uid

def channelKeyHasHolder (t : Tables) (channelId : String) (epoch : Nat) : Bool :=
  t.keyBlobs.rows.any fun b => b.channelId = channelId ∧ b.epoch = epoch

def channelKeyRefusingRecipients (t : Tables) (channelId : String) (senderUid : Uid) : List Uid :=
  (t.keyRefusals.rows.filter fun r => r.channelId = channelId ∧ r.senderUid = senderUid).map
    (·.recipientUid)

/-- Another holds the epoch whose blobs the recipient has not refused. -/
def channelKeyUnrefusedHolderExists (t : Tables) (channelId : String) (epoch : Nat)
    (recipientUid : Uid) : Bool :=
  t.keyBlobs.rows.any fun b => b.channelId = channelId ∧ b.epoch = epoch ∧
    b.recipientUid ≠ recipientUid ∧ ! t.keyRefusals.rows.any fun r =>
      r.channelId = channelId ∧ r.recipientUid = recipientUid ∧ r.senderUid = b.recipientUid

def keyRotationDue (t : Tables) (channelId : String) : Bool :=
  t.keyRotations.rows.any (·.channelId = channelId)

def keyRotationDone (t : Tables) (channelId : String) : Tables :=
  { t with keyRotations := t.keyRotations.deleteWhere (·.channelId = channelId) }

/-- A blob of a request, and one that is to be stored. -/
structure KeyBlobIn where
  recipientUid : Uid
  recipient : String
  blob : Bytes
deriving DecidableEq, Repr

/-- Who publishes, where, and when. -/
structure Publisher where
  channelId : String
  uid : Uid
  username : String
  now : Int

def KeyBlobIn.row (b : KeyBlobIn) (p : Publisher) (epoch : Nat) : DbKeyBlob where
  channelId := p.channelId
  epoch := epoch
  recipientUid := b.recipientUid
  senderUid := p.uid
  recipient := b.recipient
  sender := p.username
  blob := b.blob
  createdAt := p.now

/-- `INSERT OR IGNORE` of the blobs. -/
def insertBlobs (t : Tables) (p : Publisher) (epoch : Nat) (blobs : List KeyBlobIn) : Tables :=
  { t with keyBlobs := blobs.foldl (fun rows b => rows.insertOrIgnore (b.row p epoch)) t.keyBlobs }

/-- Adds an epoch. -/
def insertEpoch (t : Tables) (p : Publisher) (epoch : Nat) (keyCheck : Bytes) : Option Tables :=
  let createdBy := ((t.members.find? p.uid).map (·.username)).getD ""
  (t.keyEpochs.insert ⟨p.channelId, epoch, p.uid, createdBy, p.now, keyCheck⟩).map fun keyEpochs =>
    { t with keyEpochs }

/-- Stores blobs, in a next epoch or one there; none if the epoch is neither. -/
def channelKeyPublish (t : Tables) (p : Publisher) (epoch : Nat) (create : Bool) (keyCheck : Bytes)
    (blobs : List KeyBlobIn) : Option Tables :=
  let current := t.channelKeyCurrentEpoch p.channelId
  if create then
    if epoch = (current + 1) % 2 ^ 32 then
      (t.insertEpoch p epoch keyCheck).map (·.insertBlobs p epoch blobs)
    else none
  else if 1 ≤ epoch ∧ epoch ≤ current then some (t.insertBlobs p epoch blobs)
  else none

/-- Drops a recipient's own blobs of some epochs in turn, counted; if bad, their senders are
    refused. -/
def channelKeyReject (channelId : String) (recipientUid : Uid) (bad : Bool) (now : Int) :
    List Nat → Tables → Nat × Tables
  | [], t => (0, t)
  | epoch :: epochs, t =>
    match t.keyBlobs.find? (channelId, epoch, recipientUid) with
    | none => channelKeyReject channelId recipientUid bad now epochs t
    | some b =>
      let keyBlobs := t.keyBlobs.deleteWhere fun b =>
        b.channelId = channelId ∧ b.epoch = epoch ∧ b.recipientUid = recipientUid
      let keyRefusals :=
        if bad ∧ b.senderUid ≠ recipientUid ∧ b.senderUid ≠ 0 then
          t.keyRefusals.insertOrIgnore ⟨channelId, recipientUid, b.senderUid, now⟩
        else t.keyRefusals
      let (deleted, t) := channelKeyReject channelId recipientUid bad now epochs
        { t with keyBlobs, keyRefusals }
      (deleted + 1, t)

def channelKeyDeleteRecipient (t : Tables) (recipientUid : Uid) : Tables :=
  { t with
    keyBlobs := t.keyBlobs.deleteWhere (·.recipientUid = recipientUid)
    keyRefusals := t.keyRefusals.deleteWhere (·.recipientUid = recipientUid) }

/-- A rotation is due in every channel with epochs. -/
def channelKeyRotationsSet (t : Tables) (now : Int) : Tables :=
  let channels := (t.keyEpochs.rows.map (·.channelId)).dedup
  let keyRotations := channels.foldl (fun rows channelId => rows.insertOrIgnore ⟨channelId, now⟩)
    t.keyRotations
  { t with keyRotations }

/-! ## The requests -/

/-- What a request finds beside the escrow: channels, their viewers, the time. -/
structure KeyEnv where
  getChannel : String → Option DbChannel
  views : Uid → String → Bool
  now : Int

structure ChannelKeysPublishReq where
  channelId : String
  epoch : Nat
  blobs : List KeyBlobIn
  keyCheck : Bytes := []

structure ChannelKeysPublishRes where
  success : Bool
  message : String
  currentEpoch : Nat
deriving DecidableEq, Repr

structure ChannelKeysReject where
  channelId : String
  epochs : List Nat
  bad : Bool

def maxBlobsPerPublish : Nat := 500
def maxBlobBytes : Nat := 2 * 1024
def keyCheckBytes : Nat := 32
def maxRejected : Nat := 512

/-- A blob that can be stored: not empty, and not too long. -/
def KeyBlobIn.fits (b : KeyBlobIn) : Bool :=
  ! b.blob.isEmpty ∧ b.blob.length ≤ maxBlobBytes ∧ b.recipient.utf8ByteSize ≤ maxUsernameBytes

/-- Members who refused the publisher get none, while another holds the epoch. -/
def refusing (t : Tables) (uid : Uid) (req : ChannelKeysPublishReq) : List Uid :=
  (t.channelKeyRefusingRecipients req.channelId uid).filter
    (t.channelKeyUnrefusedHolderExists req.channelId req.epoch)

/-- What is to be stored of a blob of a request. -/
def acceptBlob (t : Tables) (env : KeyEnv) (uid : Uid) (req : ChannelKeysPublishReq)
    (b : KeyBlobIn) : Option KeyBlobIn :=
  if ! b.fits then none
  else if b.recipientUid = 0 ∨ b.recipientUid ∈ t.refusing uid req then none
  else match t.members.find? b.recipientUid with
    | none => none
    | some m =>
      if env.views m.uid req.channelId then
        some ⟨m.uid, if b.recipient.isEmpty then m.username else b.recipient, b.blob⟩
      else none

/-- Why no epoch may be created now. It may be the first, the next if nobody holds the current, or a
    due rotation by a holder. -/
def createRefusal (t : Tables) (uid : Uid) (req : ChannelKeysPublishReq)
    (accepted : List KeyBlobIn) : Option String :=
  let current := t.channelKeyCurrentEpoch req.channelId
  let orphaned : Bool := current > 0 ∧ ! t.channelKeyHasHolder req.channelId current
  if accepted.isEmpty then some "A new epoch needs at least one blob."
  else if req.keyCheck.length ≠ keyCheckBytes then some "A new epoch needs its key check."
  else if current > 0 ∧ ! orphaned then
    if ! t.keyRotationDue req.channelId then some "no_rotation_due"
    else if ! t.channelKeyHolds req.channelId current uid then some "not_a_holder"
    else none
  else none

/-- Why an epoch may not be filled; one that includes the publisher is a creation that lost the
    race. -/
def fillRefusal (t : Tables) (uid : Uid) (req : ChannelKeysPublishReq)
    (accepted : List KeyBlobIn) : Option String :=
  if ! t.channelKeyHolds req.channelId req.epoch uid then some "not_a_holder"
  else if accepted.any (·.recipientUid = uid) then some "stale_epoch"
  else none

/-- The answer to a publish, and the tables after it. -/
def keysPublish (t : Tables) (env : KeyEnv) (uid : Uid) (username : String)
    (req : ChannelKeysPublishReq) : ChannelKeysPublishRes × Tables :=
  let fail (message : String) (current : Nat) : ChannelKeysPublishRes × Tables :=
    (⟨false, message, current⟩, t)
  if ! env.views uid req.channelId then fail "You can't see that channel." 0
  else match env.getChannel req.channelId with
  | none => fail "Channel not found." 0
  | some ch =>
  if ch.type ≠ .text then fail "Channel not found." 0
  else if ! ch.encrypted then fail "This channel isn't encrypted." 0
  else
  let current := t.channelKeyCurrentEpoch req.channelId
  if req.blobs.isEmpty ∨ req.blobs.length > maxBlobsPerPublish then fail "Bad blob count." current
  else
  let accepted := req.blobs.filterMap (t.acceptBlob env uid req)
  if req.epoch = 0 ∨ req.epoch > (current + 1) % 2 ^ 32 then fail "stale_epoch" current
  else
  let created : Bool := req.epoch = (current + 1) % 2 ^ 32
  match if created then t.createRefusal uid req accepted else t.fillRefusal uid req accepted with
  | some message => fail message current
  | none =>
  match t.channelKeyPublish ⟨req.channelId, uid, username, env.now⟩ req.epoch created
      (if created then req.keyCheck else []) accepted with
  | none => fail "stale_epoch" current
  | some t =>
    if created then (⟨true, "", req.epoch⟩, t.keyRotationDone req.channelId)
    else (⟨true, "", current⟩, t)

/-- The tables after a member dropped blobs of theirs. -/
def keysReject (t : Tables) (env : KeyEnv) (uid : Uid) (req : ChannelKeysReject) : Tables :=
  if ! env.views uid req.channelId then t
  else match env.getChannel req.channelId with
  | none => t
  | some ch =>
    if ch.type ≠ .text ∨ ! ch.encrypted then t
    else if req.epochs.length = 0 ∨ req.epochs.length > maxRejected then t
    else (channelKeyReject req.channelId uid req.bad env.now
      (req.epochs.mergeSort (· ≤ ·)).dedup t).2

/-- The tables after a member was kicked or banned, or left. -/
def removal (t : Tables) (uid : Uid) (now : Int) : Tables :=
  let t := { t with members := t.members.deleteWhere (·.uid = uid) }
  (t.channelKeyDeleteRecipient uid).channelKeyRotationsSet now

end Tables

/-! ## The runs -/

/-- What happens; a publish comes with what is meant, a creation or a fill. -/
inductive EscrowAct
  | publish (env : Tables.KeyEnv) (uid : Uid) (username : String) (creating : Bool)
      (req : Tables.ChannelKeysPublishReq)
  | reject (env : Tables.KeyEnv) (uid : Uid) (req : Tables.ChannelKeysReject)
  | removal (uid : Uid) (now : Int)
  /-- A member joins, or is renamed. -/
  | member (m : DbMember)

/-- The tables; for the record every blob stored, and every creation accepted. -/
structure EscrowState where
  tables : Tables
  stored : List DbKeyBlob := []
  accepted : List (String × Nat) := []

namespace EscrowState

def perform (s : EscrowState) : EscrowAct → EscrowState
  | .publish env uid username creating req =>
    let (res, tables) := s.tables.keysPublish env uid username req
    let accepted :=
      if res.success ∧ creating then (req.channelId, req.epoch) :: s.accepted else s.accepted
    { tables, stored := tables.keyBlobs.rows ++ s.stored, accepted }
  | .reject env uid req => { s with tables := s.tables.keysReject env uid req }
  | .removal uid now => { s with tables := s.tables.removal uid now }
  | .member m => { s with tables := { s.tables with members := s.tables.members.upsert m } }

end EscrowState

/-- The runs, from a server on which no key was published. -/
def escrowSystem : System EscrowState EscrowAct where
  init s := ∃ tables : Tables, s = { tables } ∧ tables.keyEpochs.rows = [] ∧
    tables.keyBlobs.rows = [] ∧ tables.keyRefusals.rows = [] ∧ tables.keyRotations.rows = []
  step s a s' := s' = s.perform a

/-! ## What the escrow is for -/

namespace EscrowState

/-- A channel's epochs are 1 to the current one; every blob is of one. -/
def Gapless (t : Tables) : Prop :=
  (∀ channelId e, e ∈ t.epochsOf channelId ↔
    1 ≤ e ∧ e ≤ t.channelKeyCurrentEpoch channelId) ∧
    ∀ b ∈ t.keyBlobs.rows, b.epoch ∈ t.epochsOf b.channelId

/-- A stored blob stays, unless its recipient rejects it or is removed. -/
def KeepsBlobs (t t' : Tables) (a : EscrowAct) : Prop :=
  ∀ b ∈ t.keyBlobs.rows, b ∈ t'.keyBlobs.rows ∨
    (∃ env req, a = .reject env b.recipientUid req ∧ req.channelId = b.channelId ∧
      ∃ e ∈ req.epochs, b.epoch = e) ∨
    ∃ now, a = .removal b.recipientUid now

/-- An epoch is created if there is none, nobody holds the current, or a rotation is due and the
    publisher holds it; it is filled by holders only. -/
def CreatesWhenDue (t : Tables) (uid : Uid) (req : Tables.ChannelKeysPublishReq)
    (res : Tables.ChannelKeysPublishRes) (t' : Tables) : Prop :=
  let current := t.channelKeyCurrentEpoch req.channelId
  (t'.keyEpochs ≠ t.keyEpochs → current = 0 ∨
    t.channelKeyHasHolder req.channelId current = false ∨
    t.keyRotationDue req.channelId = true ∧ t.channelKeyHolds req.channelId current uid = true) ∧
  (res.success = true → t'.keyEpochs = t.keyEpochs →
    t.channelKeyHolds req.channelId req.epoch uid = true)

/-- A creation has a blob for its publisher that can be stored. -/
def CreatesForSelf (_ : EscrowState) : EscrowAct → Prop
  | .publish _ uid _ creating req =>
    creating = true → ∃ b ∈ req.blobs, b.recipientUid = uid ∧ b.fits = true
  | _ => True

/-- One key is sealed: a new one, for its publisher too; or the filled epoch's, from a blob of it.
    -/
def Honest {Key : Type} (keyOf : Bytes → Key) (s : EscrowState) : EscrowAct → Prop
  | .publish env uid username creating req =>
    CreatesForSelf s (.publish env uid username creating req) ∧
    (creating = true → ∃ key, ∀ b ∈ req.blobs, keyOf b.blob = key) ∧
    (creating = false → ∃ r ∈ s.stored, r.channelId = req.channelId ∧ r.epoch = req.epoch ∧
      ∀ b ∈ req.blobs, keyOf b.blob = keyOf r.blob)
  | _ => True

/-- The blobs of an epoch seal one key. -/
def OneKey {Key : Type} (keyOf : Bytes → Key) (s : EscrowState) : Prop :=
  ∀ b ∈ s.stored, ∀ b' ∈ s.stored, b.channelId = b'.channelId → b.epoch = b'.epoch →
    keyOf b.blob = keyOf b'.blob

end EscrowState

/-! ## What the statements do -/

namespace Tables

variable {t t' : Tables} {channelId : String}

theorem mem_epochsOf {e : Int} : e ∈ t.epochsOf channelId ↔
    ∃ r ∈ t.keyEpochs.rows, r.channelId = channelId ∧ r.epoch = e := by
  simp only [epochsOf, mem_map, mem_filter, decide_eq_true_eq, and_assoc]

theorem channelKeyCurrentEpoch_lt (t : Tables) (channelId : String) :
    t.channelKeyCurrentEpoch channelId < 2 ^ 32 := by
  rw [channelKeyCurrentEpoch]
  omega

theorem channelKeyCurrentEpoch_eq {n : Nat} (hn : n < 2 ^ 32)
    (h : ∀ e, e ∈ t.epochsOf channelId ↔ 1 ≤ e ∧ e ≤ n) :
    t.channelKeyCurrentEpoch channelId = n := by
  rw [channelKeyCurrentEpoch]
  have hmax : (t.epochsOf channelId).max?.getD 0 = n := by
    rcases Nat.eq_zero_or_pos n with rfl | hpos
    · have hnil : t.epochsOf channelId = [] :=
        eq_nil_iff_forall_not_mem.2 fun e he => by
          have := (h e).1 he
          omega
      rw [hnil]
      rfl
    · have hmax : (t.epochsOf channelId).max? = some (n : Int) :=
        max?_eq_some_iff.2 ⟨(h n).2 ⟨by omega, le_refl _⟩, fun e he => ((h e).1 he).2⟩
      rw [hmax]
      rfl
  rw [hmax]
  omega

/-- A request's blobs are stored; of the rest only epochs change. -/
structure Stores (t t' : Tables) (env : KeyEnv) (uid : Uid) (username : String)
    (req : ChannelKeysPublishReq) : Prop where
  members : t'.members = t.members
  keyRefusals : t'.keyRefusals = t.keyRefusals
  keyBlobs : t'.keyBlobs = (t.insertBlobs ⟨req.channelId, uid, username, env.now⟩ req.epoch
    (req.blobs.filterMap (t.acceptBlob env uid req))).keyBlobs

/-- A publish does nothing, creates the next epoch, or fills one. -/
inductive Published (t : Tables) (env : KeyEnv) (uid : Uid) (username : String)
    (req : ChannelKeysPublishReq) : ChannelKeysPublishRes → Tables → Prop
  | refused (message : String) (current : Nat) :
    Published t env uid username req ⟨false, message, current⟩ t
  | created {t' : Tables} (hepoch : req.epoch = t.channelKeyCurrentEpoch req.channelId + 1)
    (hlt : req.epoch < 2 ^ 32)
    (hdue : t.channelKeyCurrentEpoch req.channelId = 0 ∨
      t.channelKeyHasHolder req.channelId (t.channelKeyCurrentEpoch req.channelId) = false ∨
      t.keyRotationDue req.channelId = true ∧ t.channelKeyHolds req.channelId
        (t.channelKeyCurrentEpoch req.channelId) uid = true)
    (hepochs : ∀ channelId e, e ∈ t'.epochsOf channelId ↔
      e ∈ t.epochsOf channelId ∨ channelId = req.channelId ∧ e = req.epoch)
    (hnew : t'.keyEpochs ≠ t.keyEpochs) (hstores : Stores t t' env uid username req) :
    Published t env uid username req ⟨true, "", req.epoch⟩ t'
  | filled {t' : Tables} (hviews : env.views uid req.channelId = true)
    (hrange : 1 ≤ req.epoch ∧ req.epoch ≤ t.channelKeyCurrentEpoch req.channelId)
    (hholds : t.channelKeyHolds req.channelId req.epoch uid = true)
    (hself : ∀ b ∈ req.blobs.filterMap (t.acceptBlob env uid req), b.recipientUid ≠ uid)
    (hepochs : t'.keyEpochs = t.keyEpochs) (hstores : Stores t t' env uid username req) :
    Published t env uid username req ⟨true, "", t.channelKeyCurrentEpoch req.channelId⟩ t'

theorem insertEpoch_eq_some {p : Publisher} {epoch : Nat} {keyCheck : Bytes}
    (h : t.insertEpoch p epoch keyCheck = some t') :
    (∀ channelId e, e ∈ t'.epochsOf channelId ↔
      e ∈ t.epochsOf channelId ∨ channelId = p.channelId ∧ e = epoch) ∧
      t'.keyEpochs ≠ t.keyEpochs ∧ t'.keyBlobs = t.keyBlobs ∧ t'.members = t.members ∧
      t'.keyRefusals = t.keyRefusals := by
  obtain ⟨keyEpochs, hinsert, rfl⟩ := Option.map_eq_some_iff.1 h
  have hrows := Table.rows_of_insert hinsert
  refine ⟨fun channelId e => ?_, fun heq => ?_, rfl, rfl, rfl⟩
  · simp only [mem_epochsOf, hrows, mem_append, mem_singleton, or_and_right, exists_or,
      exists_eq_left, eq_comm]
  · have hlen := congrArg (·.rows.length) heq
    simp only [hrows, length_append, length_singleton] at hlen
    omega

theorem due_of_createRefusal {uid : Uid} {req : ChannelKeysPublishReq} {accepted : List KeyBlobIn}
    (h : t.createRefusal uid req accepted = none) :
    t.channelKeyCurrentEpoch req.channelId = 0 ∨
      t.channelKeyHasHolder req.channelId (t.channelKeyCurrentEpoch req.channelId) = false ∨
      t.keyRotationDue req.channelId = true ∧ t.channelKeyHolds req.channelId
        (t.channelKeyCurrentEpoch req.channelId) uid = true := by
  unfold createRefusal at h
  dsimp only at h
  split at h
  · cases h
  split at h
  · cases h
  split at h
  · -- There is an epoch, and somebody holds it.
    split at h
    · cases h
    split at h
    · cases h
    rename_i hdue hholds
    exact .inr (.inr ⟨by simpa using hdue, by simpa using hholds⟩)
  · rename_i horphaned
    by_cases hzero : t.channelKeyCurrentEpoch req.channelId = 0
    · exact .inl hzero
    · exact .inr (.inl (by simpa [Nat.pos_of_ne_zero hzero] using horphaned))

theorem of_fillRefusal {uid : Uid} {req : ChannelKeysPublishReq} {accepted : List KeyBlobIn}
    (h : t.fillRefusal uid req accepted = none) :
    t.channelKeyHolds req.channelId req.epoch uid = true ∧
      ∀ b ∈ accepted, b.recipientUid ≠ uid := by
  unfold fillRefusal at h
  split at h
  · cases h
  split at h
  · cases h
  rename_i hholds hself
  exact ⟨by simpa using hholds, by simpa using hself⟩

theorem created_of_publish {p : Publisher} {epoch : Nat} {keyCheck : Bytes}
    {blobs : List KeyBlobIn} (h : t.channelKeyPublish p epoch true keyCheck blobs = some t') :
    ∃ t₁, t.insertEpoch p epoch keyCheck = some t₁ ∧ t' = t₁.insertBlobs p epoch blobs := by
  rw [channelKeyPublish, if_pos rfl] at h
  split at h
  · obtain ⟨t₁, ht₁, rfl⟩ := Option.map_eq_some_iff.1 h
    exact ⟨t₁, ht₁, rfl⟩
  · cases h

theorem filled_of_publish {p : Publisher} {epoch : Nat} {keyCheck : Bytes}
    {blobs : List KeyBlobIn} (h : t.channelKeyPublish p epoch false keyCheck blobs = some t') :
    (1 ≤ epoch ∧ epoch ≤ t.channelKeyCurrentEpoch p.channelId) ∧
      t' = t.insertBlobs p epoch blobs := by
  rw [channelKeyPublish, if_neg Bool.false_ne_true] at h
  split at h
  · rename_i hepoch
    cases h
    exact ⟨hepoch, rfl⟩
  · cases h

theorem published {env : KeyEnv} {uid : Uid} {username : String}
    {req : ChannelKeysPublishReq} {res : ChannelKeysPublishRes}
    (h : t.keysPublish env uid username req = (res, t')) :
    Published t env uid username req res t' := by
  have hlt := channelKeyCurrentEpoch_lt t req.channelId
  unfold keysPublish at h
  dsimp only at h
  split at h
  · cases h
    exact .refused _ _
  rename_i hviews
  split at h
  · cases h
    exact .refused _ _
  split at h
  · cases h
    exact .refused _ _
  split at h
  · cases h
    exact .refused _ _
  split at h
  · cases h
    exact .refused _ _
  split at h
  · cases h
    exact .refused _ _
  rename_i hepoch
  split at h
  · cases h
    exact .refused _ _
  rename_i hallowed
  split at h
  · cases h
    exact .refused _ _
  rename_i t₂ hpublish
  split at h
  · rename_i hcreated
    rw [if_pos hcreated] at hallowed
    rw [hcreated, if_pos rfl] at hpublish
    obtain ⟨t₁, hinsert, rfl⟩ := created_of_publish hpublish
    obtain ⟨hepochs, hnew, hblobs, hmembers, hrefusals⟩ := insertEpoch_eq_some hinsert
    cases h
    have heq := of_decide_eq_true hcreated
    refine .created (by omega) (by omega) (due_of_createRefusal hallowed) hepochs hnew
      ⟨hmembers, hrefusals, ?_⟩
    rw [keyRotationDone, insertBlobs, insertBlobs, hblobs]
  · rename_i hcreated
    rw [if_neg hcreated] at hallowed
    rw [Bool.eq_false_iff.2 hcreated] at hpublish
    obtain ⟨hrange, rfl⟩ := filled_of_publish hpublish
    cases h
    obtain ⟨hholds, hself⟩ := of_fillRefusal hallowed
    exact .filled (by simpa using hviews) hrange hholds hself rfl ⟨rfl, rfl, rfl⟩

/-- Only the recipient's own blobs of those epochs go; nobody refuses themselves. -/
structure Rejected (t t' : Tables) (channelId : String) (uid : Uid) (epochs : List Nat) : Prop where
  members : t'.members = t.members
  keyEpochs : t'.keyEpochs = t.keyEpochs
  sub : ∀ b ∈ t'.keyBlobs.rows, b ∈ t.keyBlobs.rows
  kept : ∀ b ∈ t.keyBlobs.rows, b ∈ t'.keyBlobs.rows ∨
    (b.channelId = channelId ∧ b.recipientUid = uid ∧ ∃ e ∈ epochs, b.epoch = e)
  refusals : ∀ r ∈ t'.keyRefusals.rows, r ∈ t.keyRefusals.rows ∨ r.senderUid ≠ r.recipientUid

theorem rejected (channelId : String) (uid : Uid) (bad : Bool) (now : Int) (epochs : List Nat) (t : Tables) :
    Rejected t (channelKeyReject channelId uid bad now epochs t).2 channelId uid epochs := by
  induction epochs generalizing t with
  | nil => exact ⟨rfl, rfl, fun _ => id, fun _ => .inl, fun _ => .inl⟩
  | cons epoch epochs ih =>
    rw [channelKeyReject]
    split
    · have h := ih t
      refine ⟨h.members, h.keyEpochs, h.sub, fun b hb => ?_, h.refusals⟩
      rcases h.kept b hb with hb | ⟨hch, huid, e, he, hbe⟩
      · exact .inl hb
      · exact .inr ⟨hch, huid, e, .tail _ he, hbe⟩
    · rename_i b₀ _
      simp only
      have h := ih { t with
        keyBlobs := t.keyBlobs.deleteWhere fun b =>
          b.channelId = channelId ∧ b.epoch = epoch ∧ b.recipientUid = uid
        keyRefusals := if bad ∧ b₀.senderUid ≠ uid ∧ b₀.senderUid ≠ 0 then
            t.keyRefusals.insertOrIgnore ⟨channelId, uid, b₀.senderUid, now⟩
          else t.keyRefusals }
      refine ⟨h.members, h.keyEpochs, fun b hb => (mem_filter.1 (h.sub b hb)).1,
        fun b hb => ?_, fun r hr => ?_⟩
      · by_cases hgone : b.channelId = channelId ∧ b.epoch = epoch ∧ b.recipientUid = uid
        · exact .inr ⟨hgone.1, hgone.2.2, epoch, .head _, hgone.2.1⟩
        · have hleft : (! decide (b.channelId = channelId ∧ b.epoch = epoch ∧
              b.recipientUid = uid)) = true := by rw [decide_eq_false hgone, Bool.not_false]
          rcases h.kept b (mem_filter.2 ⟨hb, hleft⟩) with hb | ⟨hch, huid, e, he, hbe⟩
          · exact .inl hb
          · exact .inr ⟨hch, huid, e, .tail _ he, hbe⟩
      · rcases h.refusals r hr with hr | hr
        · simp only at hr
          split at hr
          · rename_i hbad
            rcases Table.mem_of_mem_insertOrIgnore hr with hr | rfl
            · exact .inl hr
            · exact .inr hbad.2.1
          · exact .inl hr
        · exact .inr hr

theorem rejected_keysReject (t : Tables) (env : KeyEnv) (uid : Uid) (req : ChannelKeysReject) :
    Rejected t (t.keysReject env uid req) req.channelId uid req.epochs := by
  have hrefused : Rejected t t req.channelId uid req.epochs :=
    ⟨rfl, rfl, fun _ => id, fun _ => .inl, fun _ => .inl⟩
  unfold keysReject
  split
  · exact hrefused
  split
  · exact hrefused
  split
  · exact hrefused
  split
  · exact hrefused
  have h := rejected req.channelId uid req.bad env.now
    (req.epochs.mergeSort (· ≤ ·)).dedup t
  refine ⟨h.members, h.keyEpochs, h.sub, fun b hb => ?_, h.refusals⟩
  rcases h.kept b hb with hb | ⟨hch, huid, e, he, hbe⟩
  · exact .inl hb
  · exact .inr ⟨hch, huid, e, mem_mergeSort.1 (mem_dedup.1 he), hbe⟩

end Tables

/-! ## What a run keeps -/

namespace EscrowState

open Tables

variable {s : EscrowState} {t t' : Tables}

/-- What the tables keep. -/
structure Ok (t : Tables) : Prop where
  gapless : Gapless t
  /-- Who holds a key is a member. -/
  holders : ∀ b ∈ t.keyBlobs.rows, b.recipientUid ≠ 0 ∧ b.recipientUid ∈ t.members.keys
  /-- Nobody refuses themselves. -/
  refusals : ∀ r ∈ t.keyRefusals.rows, r.senderUid ≠ r.recipientUid

theorem Gapless.of_sub (h : Gapless t) (hepochs : t'.keyEpochs = t.keyEpochs)
    (hsub : ∀ b ∈ t'.keyBlobs.rows, b.epoch ∈ t.epochsOf b.channelId) : Gapless t' := by
  have heq : ∀ channelId, t'.epochsOf channelId = t.epochsOf channelId := by
    intro channelId
    rw [epochsOf, hepochs, epochsOf]
  refine ⟨fun channelId e => ?_, fun b hb => (heq _).symm ▸ hsub b hb⟩
  rw [channelKeyCurrentEpoch, heq]
  exact h.1 channelId e

theorem acceptBlob_eq_some {env : KeyEnv} {uid : Uid} {req : ChannelKeysPublishReq}
    {b x : KeyBlobIn} (h : t.acceptBlob env uid req b = some x) :
    x.recipientUid ≠ 0 ∧ x.recipientUid ∈ t.members.keys ∧ x.blob = b.blob := by
  unfold acceptBlob at h
  split at h
  · cases h
  split at h
  · cases h
  rename_i hok
  split at h
  · cases h
  rename_i m hm
  split at h
  · cases h
    have huid := (Table.find?_eq_some.1 hm).2
    exact ⟨fun h => hok (.inl (huid.symm.trans h)), Table.mem_keys.2 ⟨m, huid ▸ hm⟩, rfl⟩
  · cases h

theorem mem_of_stores {env : KeyEnv} {uid : Uid} {username : String}
    {req : ChannelKeysPublishReq} {b : DbKeyBlob} (h : Stores t t' env uid username req)
    (hb : b ∈ t'.keyBlobs.rows) : b ∈ t.keyBlobs.rows ∨
      b.channelId = req.channelId ∧ b.epoch = req.epoch ∧
        (b.recipientUid ≠ 0 ∧ b.recipientUid ∈ t.members.keys) ∧
        ∃ y ∈ req.blobs, b.blob = y.blob := by
  rw [h.keyBlobs] at hb
  rcases Table.mem_of_mem_foldl_insertOrIgnore hb with hb | ⟨x, hx, rfl⟩
  · exact .inl hb
  · obtain ⟨y, hy, hyx⟩ := mem_filterMap.1 hx
    obtain ⟨hzero, hmem, hblob⟩ := acceptBlob_eq_some hyx
    exact .inr ⟨rfl, rfl, ⟨hzero, hmem⟩, y, hy, hblob⟩

theorem current_created {channelId : String} {epoch : Nat} (h : Gapless t)
    (hepoch : epoch = t.channelKeyCurrentEpoch channelId + 1) (hlt : epoch < 2 ^ 32)
    (hepochs : ∀ ch e, e ∈ t'.epochsOf ch ↔ e ∈ t.epochsOf ch ∨ ch = channelId ∧ e = epoch)
    (ch : String) : t'.channelKeyCurrentEpoch ch =
      if ch = channelId then epoch else t.channelKeyCurrentEpoch ch := by
  split
  · rename_i hch
    refine channelKeyCurrentEpoch_eq hlt fun e => ?_
    rw [hepochs, h.1, hch]
    simp only [true_and]
    omega
  · rename_i hch
    refine channelKeyCurrentEpoch_eq (channelKeyCurrentEpoch_lt _ _) fun e => ?_
    rw [hepochs, h.1]
    exact or_iff_left fun heq => hch heq.1

theorem ok_published {env : KeyEnv} {uid : Uid} {username : String} {req : ChannelKeysPublishReq}
    {res : ChannelKeysPublishRes} (h : Ok t) (hp : Published t env uid username req res t') :
    Ok t' := by
  cases hp with
  | refused => exact h
  | created hepoch hlt hdue hepochs hnew hstores =>
    refine ⟨⟨fun ch e => ?_, fun b hb => ?_⟩, fun b hb => ?_, hstores.keyRefusals ▸ h.refusals⟩
    · rw [hepochs, current_created h.gapless hepoch hlt hepochs, h.gapless.1]
      split
      · rename_i hch
        simp only [hch, true_and]
        omega
      · rename_i hch
        exact or_iff_left fun heq => hch heq.1
    · refine (hepochs _ _).2 ?_
      rcases mem_of_stores hstores hb with hb | ⟨hch, he, _⟩
      · exact .inl (h.gapless.2 b hb)
      · exact .inr ⟨hch, he⟩
    · rw [hstores.members]
      rcases mem_of_stores hstores hb with hb | ⟨_, _, hholder, _⟩
      · exact h.holders b hb
      · exact hholder
  | filled hviews hrange hholds hself hepochs hstores =>
    refine ⟨h.gapless.of_sub hepochs fun b hb => ?_, fun b hb => ?_,
      hstores.keyRefusals ▸ h.refusals⟩
    · rcases mem_of_stores hstores hb with hb | ⟨hch, he, _⟩
      · exact h.gapless.2 b hb
      · rw [hch, he]
        exact (h.gapless.1 _ _).2 (by omega)
    · rw [hstores.members]
      rcases mem_of_stores hstores hb with hb | ⟨_, _, hholder, _⟩
      · exact h.holders b hb
      · exact hholder

theorem ok_rejected {channelId : String} {uid : Uid} {epochs : List Nat} (h : Ok t)
    (hr : Rejected t t' channelId uid epochs) : Ok t' := by
  refine ⟨h.gapless.of_sub hr.keyEpochs fun b hb => h.gapless.2 b (hr.sub b hb),
    fun b hb => hr.members ▸ h.holders b (hr.sub b hb), fun r hm => ?_⟩
  rcases hr.refusals r hm with hm | hne
  · exact h.refusals r hm
  · exact hne

theorem ok_removal (h : Ok t) (uid : Uid) (now : Int) : Ok (t.removal uid now) := by
  have hmem : ∀ b ∈ (t.removal uid now).keyBlobs.rows,
      b ∈ t.keyBlobs.rows ∧ b.recipientUid ≠ uid := fun b hb => by
    simpa [removal, channelKeyRotationsSet, channelKeyDeleteRecipient] using hb
  refine ⟨h.gapless.of_sub rfl fun b hb => h.gapless.2 b (hmem b hb).1, fun b hb => ?_,
    fun r hr => h.refusals r (mem_filter.1 hr).1⟩
  obtain ⟨hb, hne⟩ := hmem b hb
  obtain ⟨hzero, hkey⟩ := h.holders b hb
  obtain ⟨m, hm, hmb⟩ := mem_map.1 hkey
  refine ⟨hzero, mem_map.2 ⟨m, mem_filter.2 ⟨hm, ?_⟩, hmb⟩⟩
  simpa using fun heq => hne (hmb.symm.trans heq)

theorem ok_step (h : Ok s.tables) (a : EscrowAct) : Ok (s.perform a).tables := by
  cases a with
  | publish env uid username creating req => exact ok_published h (published rfl)
  | reject env uid req => exact ok_rejected h (rejected_keysReject s.tables env uid req)
  | removal uid now => exact ok_removal h uid now
  | member m =>
    refine ⟨h.gapless.of_sub rfl h.gapless.2, fun b hb => ?_, h.refusals⟩
    exact (h.holders b hb).imp_right Table.mem_keys_upsert

theorem reachable_ok (h : escrowSystem.Reachable s) : Ok s.tables := by
  refine System.reachable_invariant (I := fun s => Ok s.tables) ?_ ?_ h
  · rintro st ⟨t, rfl, hepochs, hblobs, hrefusals, _⟩
    refine ⟨⟨fun channelId e => ?_, fun b hb => ?_⟩, fun b hb => ?_, fun r hr => ?_⟩
    · have hnone : ∀ e, e ∉ t.epochsOf channelId := by
        rintro e he
        obtain ⟨r, hr, _⟩ := mem_epochsOf.1 he
        rw [hepochs] at hr
        exact nomatch hr
      have hcur : t.channelKeyCurrentEpoch channelId = 0 :=
        channelKeyCurrentEpoch_eq (by omega) fun e =>
          ⟨fun he => absurd he (hnone e), fun he => by omega⟩
      rw [hcur]
      exact ⟨fun he => absurd he (hnone e), fun he => by omega⟩
    · rw [hblobs] at hb
      exact nomatch hb
    · rw [hblobs] at hb
      exact nomatch hb
    · rw [hrefusals] at hr
      exact nomatch hr
  · rintro st a st' hok rfl
    exact ok_step hok a

/-! ## What the requests do -/

theorem mem_of_published {env : KeyEnv} {uid : Uid} {username : String}
    {req : ChannelKeysPublishReq} {res : ChannelKeysPublishRes} {b : DbKeyBlob}
    (h : Published t env uid username req res t') (hb : b ∈ t.keyBlobs.rows) :
    b ∈ t'.keyBlobs.rows := by
  cases h with
  | refused => exact hb
  | created _ _ _ _ _ hstores | filled _ _ _ _ _ hstores =>
    rw [hstores.keyBlobs]
    exact Table.mem_foldl_insertOrIgnore_of_mem hb

theorem keepsBlobs (a : EscrowAct) : KeepsBlobs s.tables (s.perform a).tables a := by
  intro b hb
  cases a with
  | publish env uid username creating req =>
    exact .inl (mem_of_published (published rfl) hb)
  | reject env uid req =>
    rcases (rejected_keysReject s.tables env uid req).kept b hb with hb | ⟨hch, rfl, he⟩
    · exact .inl hb
    · exact .inr (.inl ⟨env, req, rfl, hch.symm, he⟩)
  | removal uid now =>
    by_cases huid : b.recipientUid = uid
    · exact .inr (.inr ⟨now, huid ▸ rfl⟩)
    · left
      simpa [perform, removal, channelKeyRotationsSet, channelKeyDeleteRecipient] using ⟨hb, huid⟩
  | member m => exact .inl hb

theorem createsWhenDue {env : KeyEnv} {uid : Uid} {username : String}
    {req : ChannelKeysPublishReq} {res : ChannelKeysPublishRes}
    (h : Published t env uid username req res t') : CreatesWhenDue t uid req res t' := by
  cases h with
  | refused => exact ⟨fun hne => absurd rfl hne, nofun⟩
  | created _ _ hdue _ hnew _ => exact ⟨fun _ => hdue, fun _ heq => absurd heq hnew⟩
  | filled _ _ hholds _ hepochs _ => exact ⟨fun hne => absurd hepochs hne, fun _ _ => hholds⟩

theorem own_accepted (h : Ok t) {env : KeyEnv} {uid : Uid} {req : ChannelKeysPublishReq}
    {b : KeyBlobIn} (hviews : env.views uid req.channelId = true)
    (hholds : t.channelKeyHolds req.channelId req.epoch uid = true) (hb : b ∈ req.blobs)
    (huid : b.recipientUid = uid) (hfits : b.fits = true) :
    ∃ x ∈ req.blobs.filterMap (t.acceptBlob env uid req), x.recipientUid = uid := by
  obtain ⟨r, hr, hheld⟩ := any_eq_true.1 hholds
  obtain ⟨_, _, hrecipient⟩ := of_decide_eq_true hheld
  obtain ⟨hzero, hmember⟩ := h.holders r hr
  rw [hrecipient] at hzero hmember
  obtain ⟨m, hm⟩ := Table.mem_keys.1 hmember
  have hmuid : m.uid = uid := (Table.find?_eq_some.1 hm).2
  have hrefusing : uid ∉ t.refusing uid req := by
    intro hmem
    obtain ⟨r, hr, hruid⟩ := mem_map.1 (mem_filter.1 hmem).1
    obtain ⟨hr, hsender⟩ := mem_filter.1 hr
    exact h.refusals r hr ((of_decide_eq_true hsender).2.trans hruid.symm)
  refine ⟨⟨m.uid, if b.recipient.isEmpty then m.username else b.recipient, b.blob⟩,
    mem_filterMap.2 ⟨b, hb, ?_⟩, hmuid⟩
  rw [acceptBlob, if_neg (by simp [hfits]), huid, if_neg (not_or.2 ⟨hzero, hrefusing⟩), hm]
  simp only [hmuid, hviews, if_true]

theorem created_of_creating (h : Ok t) {env : KeyEnv} {uid : Uid} {username : String}
    {req : ChannelKeysPublishReq} {res : ChannelKeysPublishRes}
    (hp : Published t env uid username req res t') (hsuccess : res.success = true)
    (hself : ∃ b ∈ req.blobs, b.recipientUid = uid ∧ b.fits = true) :
    req.epoch = t.channelKeyCurrentEpoch req.channelId + 1 ∧
      ∀ ch, t'.channelKeyCurrentEpoch ch =
        if ch = req.channelId then req.epoch else t.channelKeyCurrentEpoch ch := by
  cases hp with
  | refused => cases hsuccess
  | created hepoch hlt _ hepochs _ _ =>
    exact ⟨hepoch, current_created h.gapless hepoch hlt hepochs⟩
  | filled hviews _ hholds hnot _ _ =>
    obtain ⟨b, hb, huid, hfits⟩ := hself
    obtain ⟨x, hx, hxuid⟩ := own_accepted h hviews hholds hb huid hfits
    exact absurd hxuid (hnot x hx)

theorem current_mono (h : Ok s.tables) (a : EscrowAct) (channelId : String) :
    s.tables.channelKeyCurrentEpoch channelId ≤
      (s.perform a).tables.channelKeyCurrentEpoch channelId := by
  have hsame : (s.perform a).tables.keyEpochs = s.tables.keyEpochs →
      s.tables.channelKeyCurrentEpoch channelId ≤
        (s.perform a).tables.channelKeyCurrentEpoch channelId := by
    intro heq
    rw [channelKeyCurrentEpoch, channelKeyCurrentEpoch, epochsOf, epochsOf, heq]
  cases a with
  | publish env uid username creating req =>
    cases hp : s.tables.keysPublish env uid username req with
    | mk res t' =>
      have htables : (s.perform (.publish env uid username creating req)).tables = t' :=
        congrArg Prod.snd hp
      rw [htables] at hsame ⊢
      cases published hp with
      | refused => exact hsame rfl
      | created hepoch hlt _ hepochs _ _ =>
        rw [current_created h.gapless hepoch hlt hepochs]
        split
        · rename_i hch
          rw [hch]
          omega
        · exact le_refl _
      | filled _ _ _ _ hepochs _ => exact hsame hepochs
  | reject env uid req => exact hsame (rejected_keysReject s.tables env uid req).keyEpochs
  | removal uid now => exact hsame rfl
  | member m => exact hsame rfl

theorem perform_publish {env : KeyEnv} {uid : Uid} {username : String} {creating : Bool}
    {req : ChannelKeysPublishReq} {res : ChannelKeysPublishRes}
    (h : s.tables.keysPublish env uid username req = (res, t')) :
    s.perform (.publish env uid username creating req) =
      { tables := t', stored := t'.keyBlobs.rows ++ s.stored,
        accepted := if res.success ∧ creating then (req.channelId, req.epoch) :: s.accepted
          else s.accepted } := by
  rw [perform, h]

/-- What the accepted creations keep. -/
structure Unique (s : EscrowState) : Prop where
  ok : Ok s.tables
  current : ∀ c ∈ s.accepted, c.2 ≤ s.tables.channelKeyCurrentEpoch c.1
  nodup : s.accepted.Nodup

theorem unique_step (h : Unique s) (a : EscrowAct) (ha : CreatesForSelf s a) :
    Unique (s.perform a) := by
  have hcurrent : ∀ c ∈ s.accepted, c.2 ≤ (s.perform a).tables.channelKeyCurrentEpoch c.1 :=
    fun c hc => (h.current c hc).trans (current_mono h.ok a c.1)
  cases a with
  | publish env uid username creating req =>
    have hok := ok_step h.ok (.publish env uid username creating req)
    obtain ⟨⟨res, t'⟩, hp⟩ : ∃ r, s.tables.keysPublish env uid username req = r := ⟨_, rfl⟩
    rw [perform_publish hp] at hok hcurrent ⊢
    by_cases haccepted : res.success ∧ creating
    · -- The epoch is above every one that was created in the channel before.
      obtain ⟨hepoch, hnow⟩ :=
        created_of_creating h.ok (published hp) haccepted.1 (ha haccepted.2)
      simp only [if_pos haccepted] at hok hcurrent ⊢
      refine ⟨hok, fun c hc => ?_, nodup_cons.2 ⟨fun hmem => ?_, h.nodup⟩⟩
      · rcases mem_cons.1 hc with rfl | hc
        · rw [hnow, if_pos rfl]
        · exact hcurrent c hc
      · have hle := h.current _ hmem
        simp only at hle
        omega
    · simp only [if_neg haccepted] at hok hcurrent ⊢
      exact ⟨hok, hcurrent, h.nodup⟩
  | reject env uid req => exact ⟨ok_step h.ok _, hcurrent, h.nodup⟩
  | removal uid now => exact ⟨ok_step h.ok _, hcurrent, h.nodup⟩
  | member m => exact ⟨ok_step h.ok _, hcurrent, h.nodup⟩

/-- What the blobs of honest members keep. -/
structure Sealed {Key : Type} (keyOf : Bytes → Key) (s : EscrowState) : Prop where
  ok : Ok s.tables
  stored : ∀ b ∈ s.tables.keyBlobs.rows, b ∈ s.stored
  current : ∀ b ∈ s.stored, b.epoch ≤ s.tables.channelKeyCurrentEpoch b.channelId
  oneKey : OneKey keyOf s

variable {Key : Type} {keyOf : Bytes → Key}

/-- An honest publish's blobs agree with each other and their epoch's. -/
theorem honest_agree (h : Sealed keyOf s) {env : KeyEnv} {uid : Uid} {username : String}
    {creating : Bool} {req : ChannelKeysPublishReq} {res : ChannelKeysPublishRes}
    (ha : Honest keyOf s (.publish env uid username creating req))
    (hp : Published s.tables env uid username req res t') (hsuccess : res.success = true) :
    (∀ y ∈ req.blobs, ∀ y' ∈ req.blobs, keyOf y.blob = keyOf y'.blob) ∧
      ∀ y ∈ req.blobs, ∀ b ∈ s.stored, b.channelId = req.channelId → b.epoch = req.epoch →
        keyOf y.blob = keyOf b.blob := by
  obtain ⟨hself, hcreate, hfill⟩ := ha
  cases creating with
  | true =>
    obtain ⟨key, hkey⟩ := hcreate rfl
    obtain ⟨hepoch, _⟩ := created_of_creating h.ok hp hsuccess (hself rfl)
    refine ⟨fun y hy y' hy' => (hkey y hy).trans (hkey y' hy').symm, fun y hy b hb hch he => ?_⟩
    -- No blob of the next epoch was stored before.
    have hle := h.current b hb
    rw [hch, he] at hle
    omega
  | false =>
    obtain ⟨r, hr, hch, he, hkey⟩ := hfill rfl
    refine ⟨fun y hy y' hy' => (hkey y hy).trans (hkey y' hy').symm, fun y hy b hb hch' he' => ?_⟩
    exact (hkey y hy).trans (h.oneKey r hr b hb (hch.trans hch'.symm) (he.trans he'.symm))

theorem Sealed.of_sub {a : EscrowAct} (h : Sealed keyOf s)
    (hsub : ∀ b ∈ (s.perform a).tables.keyBlobs.rows, b ∈ s.tables.keyBlobs.rows)
    (hstored : (s.perform a).stored = s.stored) : Sealed keyOf (s.perform a) := by
  refine ⟨ok_step h.ok a, fun b hb => ?_, fun b hb => ?_, ?_⟩
  · rw [hstored]
    exact h.stored b (hsub b hb)
  · rw [hstored] at hb
    have hmono := current_mono h.ok a b.channelId
    have hle := h.current b hb
    omega
  · rw [OneKey, hstored]
    exact h.oneKey

theorem sealed_step (h : Sealed keyOf s) (a : EscrowAct) (ha : Honest keyOf s a) :
    Sealed keyOf (s.perform a) := by
  cases a with
  | publish env uid username creating req =>
    have hok := ok_step h.ok (.publish env uid username creating req)
    have hmono := current_mono h.ok (.publish env uid username creating req)
    obtain ⟨⟨res, t'⟩, hp⟩ : ∃ r, s.tables.keysPublish env uid username req = r := ⟨_, rfl⟩
    rw [perform_publish hp] at hok hmono ⊢
    -- A blob that was not stored before is one of the request.
    have hnew : ∀ b ∈ t'.keyBlobs.rows ++ s.stored, b ∈ s.stored ∨ res.success = true ∧
        b.channelId = req.channelId ∧ b.epoch = req.epoch ∧ ∃ y ∈ req.blobs, b.blob = y.blob := by
      intro b hb
      rcases mem_append.1 hb with hb | hb
      · cases published hp with
        | refused => exact .inl (h.stored b hb)
        | created _ _ _ _ _ hstores | filled _ _ _ _ _ hstores =>
          rcases mem_of_stores hstores hb with hb | ⟨hch, he, _, hy⟩
          · exact .inl (h.stored b hb)
          · exact .inr ⟨rfl, hch, he, hy⟩
      · exact .inl hb
    refine ⟨hok, fun b hb => mem_append_left _ hb, fun b hb => ?_,
      fun b hb b' hb' hch he => ?_⟩
    · rcases mem_append.1 hb with hb | hb
      · exact ((hok.gapless.1 _ _).1 (hok.gapless.2 b hb)).2
      · have hle := h.current b hb
        have hmono := hmono b.channelId
        simp only at hmono ⊢
        omega
    · rcases hnew b hb with hold | ⟨hsuccess, hbch, hbe, y, hy, hby⟩
      · rcases hnew b' hb' with hold' | ⟨hsuccess, hbch', hbe', y', hy', hby'⟩
        · exact h.oneKey b hold b' hold' hch he
        · rw [hby']
          exact ((honest_agree h ha (published hp) hsuccess).2 y' hy' b hold (hch.trans hbch')
            (he.trans hbe')).symm
      · obtain ⟨hreq, hstored⟩ := honest_agree h ha (published hp) hsuccess
        rw [hby]
        rcases hnew b' hb' with hold' | ⟨_, _, _, y', hy', hby'⟩
        · exact hstored y hy b' hold' (hch.symm.trans hbch) (he.symm.trans hbe)
        · rw [hby']
          exact hreq y hy y' hy'
  | reject env uid req => exact h.of_sub (rejected_keysReject s.tables env uid req).sub rfl
  | removal uid now => exact h.of_sub (fun b hb => (mem_filter.1 hb).1) rfl
  | member m => exact h.of_sub (fun _ => id) rfl

/-- Epochs have no gap, blobs stay until their recipients drop them, and epochs are created when
    due. Where members seal new keys to themselves too no epoch is created twice; where they are
    honest every epoch has one key. -/
theorem escrow_agreement (keyOf : Bytes → Key) (h : escrowSystem.Reachable s) :
    Gapless s.tables ∧ (∀ a, KeepsBlobs s.tables (s.perform a).tables a) ∧
      (∀ env uid username req, CreatesWhenDue s.tables uid req
        (s.tables.keysPublish env uid username req).1
        (s.tables.keysPublish env uid username req).2) ∧
      ((escrowSystem.given CreatesForSelf).Reachable s → s.accepted.Nodup) ∧
      ((escrowSystem.given (Honest keyOf)).Reachable s → OneKey keyOf s) := by
  refine ⟨(reachable_ok h).gapless, keepsBlobs, fun _ _ _ _ => createsWhenDue (published rfl),
    fun hself => ?_, fun hhonest => ?_⟩
  · refine (System.reachable_invariant (I := Unique) ?_ ?_ hself).nodup
    · rintro st hinit
      have hok := reachable_ok (.init hinit)
      obtain ⟨t, rfl, _⟩ := hinit
      exact ⟨hok, nofun, List.nodup_nil⟩
    · rintro st a st' hunique ⟨rfl, ha⟩
      exact unique_step hunique a ha
  · refine (System.reachable_invariant (I := Sealed keyOf) ?_ ?_ hhonest).oneKey
    · rintro st hinit
      have hok := reachable_ok (.init hinit)
      obtain ⟨t, rfl, _, hblobs, _⟩ := hinit
      refine ⟨hok, fun b hb => ?_, nofun, nofun⟩
      rw [hblobs] at hb
      exact nomatch hb
    · rintro st a st' hsealed ⟨rfl, ha⟩
      exact sealed_step hsealed a ha

/-! ## Runs -/

/-- A creation names its own publisher, and a publish seals one key. -/
def NamesSelf (keyOf : Bytes → Key) (_ : EscrowState) : EscrowAct → Prop
  | .publish _ uid _ creating req =>
    (creating = true → ∃ b ∈ req.blobs, b.recipientUid = uid) ∧
      ∃ key, ∀ b ∈ req.blobs, keyOf b.blob = key
  | _ => True

/-- Everybody sees every channel, and all are encrypted. -/
def openEnv : KeyEnv where
  getChannel id := some { id, name := [], type := .text, position := 0, encrypted := true }
  views _ _ := true
  now := 0

/-- Of three members the first creates an epoch, for two. -/
def creation : List EscrowAct := [
  .member { uid := 1, username := "a", joinedAt := 0 },
  .member { uid := 2, username := "b", joinedAt := 0 },
  .member { uid := 3, username := "c", joinedAt := 0 },
  .publish openEnv 1 "a" true
    ⟨"general", 1, [⟨1, "a", [1]⟩, ⟨2, "b", [1]⟩], List.replicate 32 0⟩]

/-- The second meant to create it too: their own blob is too long, the other is for the third. -/
def lateCreation : EscrowAct :=
  .publish openEnv 2 "b" true
    ⟨"general", 1, [⟨2, "b", List.replicate 2049 2⟩, ⟨3, "c", [2]⟩], List.replicate 32 0⟩

theorem reachable_foldl {C : EscrowState → EscrowAct → Prop} (acts : List EscrowAct)
    (h : (escrowSystem.given C).Reachable s) (hacts : ∀ a ∈ acts, ∀ s, C s a) :
    (escrowSystem.given C).Reachable (acts.foldl perform s) := by
  induction acts generalizing s with
  | nil => exact h
  | cons a acts ih =>
    exact ih (.step a h ⟨rfl, hacts a (.head _) s⟩) fun a ha => hacts a (.tail _ ha)

theorem escrow_agreement_creation :
    ((creation.foldl perform ⟨{}, [], []⟩).accepted).Nodup ∧
      Gapless (creation.foldl perform ⟨{}, [], []⟩).tables := by
  have h : (escrowSystem.given CreatesForSelf).Reachable (creation.foldl perform ⟨{}, [], []⟩) := by
    refine reachable_foldl creation (.init ⟨{}, rfl, rfl, rfl, rfl, rfl⟩) fun a ha s => ?_
    simp only [creation, List.mem_cons, List.not_mem_nil, or_false] at ha
    rcases ha with rfl | rfl | rfl | rfl
    · trivial
    · trivial
    · trivial
    · exact fun _ => ⟨⟨1, "a", [1]⟩, .head _, rfl, by decide⟩
  have hall := escrow_agreement (fun b : Bytes => b) h.of_given
  exact ⟨hall.2.2.2.1 h, hall.1⟩

/-- A creation that lost the race is taken for a fill when its own blob cannot be stored. -/
theorem raced_creations : ∃ s, (escrowSystem.given (NamesSelf List.head?)).Reachable s ∧
    s.accepted = [("general", 1), ("general", 1)] ∧ ¬ OneKey List.head? s := by
  refine ⟨(creation ++ [lateCreation]).foldl perform ⟨{}, [], []⟩,
    reachable_foldl _ (.init ⟨{}, rfl, rfl, rfl, rfl, rfl⟩) fun a ha s => ?_, by decide +kernel,
    fun h => ?_⟩
  · simp only [creation, lateCreation, List.mem_append, List.mem_cons, List.not_mem_nil,
      or_false] at ha
    rcases ha with (rfl | rfl | rfl | rfl) | rfl
    · trivial
    · trivial
    · trivial
    · exact ⟨fun _ => ⟨⟨1, "a", [1]⟩, .head _, rfl⟩, some 1, by decide⟩
    · exact ⟨fun _ => ⟨⟨2, "b", List.replicate 2049 2⟩, .head _, rfl⟩, some 2,
        by decide +kernel⟩
  · have hstored : ∀ b ∈ [(⟨"general", 1, 1, 1, "a", "a", [1], 0⟩ : DbKeyBlob),
        ⟨"general", 1, 3, 2, "c", "b", [2], 0⟩],
        b ∈ ((creation ++ [lateCreation]).foldl perform ⟨{}, [], []⟩).stored := by
      decide +kernel
    have heq := h _ (hstored _ (.head _)) _ (hstored _ (.tail _ (.head _))) rfl rfl
    cases heq

end EscrowState
end Decibell
