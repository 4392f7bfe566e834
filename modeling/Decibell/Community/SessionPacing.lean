import Decibell.Community.RateLimit
import Decibell.Lib.Run
import Mathlib.Algebra.Field.Rat
import Mathlib.Algebra.Order.Ring.Rat
import Mathlib.Data.List.Nodup

/-!
# The pace of a session

A community answers the packets of a session one after the other. Most kinds draw from a bucket of
tokens, and what finds it empty waits for it: a request is held, and reading with it; a message or a
search is refused; a thumbnail waits in a slot of its own, where a newer one takes its place, while
reading goes on.
-/

-- some of what is proved about a session uses no arithmetic
set_option linter.unusedSectionVars false

namespace Decibell.SessionPacing

open Lib RateLimit List

/-! ## Kinds of packets -/

/-- The kinds that have a bucket, and others. -/
inductive PacketType
  | channelMsg | messageEditReq | streamThumbnailUpdate
  | joinVoiceReq | voiceStateNotify | updateCapabilitiesReq | startStreamReq | watchStreamReq
  | stopWatchingReq | streamCodecChangedNotify | presenceVisibility
  | mlsGroupInfoReq | mlsGroupCreateReq | mlsCommitReq | channelKeysReq | channelKeysPublishReq
  | channelKeysReject
  | messageSearchReq
  | channelHistoryReq | memberListReq | memberSearchReq | banListReq | auditLogReq | roleListReq
  | inviteListReq | fetchStreamThumbnailReq
  | channelUpdateReq | channelWipeReq | messageDeleteReq | updateServerPictureReq | inviteCreateReq
  | inviteRevokeReq | kickMemberReq | banMemberReq | unbanMemberReq | roleCreateReq | roleUpdateReq
  | roleDeleteReq | memberRolesUpdateReq | channelCreateReq | channelRenameReq | channelDeleteReq
  | channelReorderReq | setNicknameReq | channelOverwriteSetReq | channelPermissionsSyncReq
  | categorySyncSetReq | serverUpdateReq | timeoutMemberReq | voiceModReq | transferOwnershipReq
  | storageInfoReq | storageConfigSetReq
  | other (n : Nat)
  deriving DecidableEq

/-- What becomes of a packet over its rate. -/
inductive RateRule
  | free
  | paced
  | refused
  | latest
  deriving DecidableEq

inductive BucketName
  | msg
  | thumb
  | presence
  | query
  | search
  | admin
  | mls
  deriving DecidableEq

def rateBucket : PacketType → RateRule × Option BucketName
  | .channelMsg => (.refused, some .msg)
  | .messageEditReq => (.paced, some .msg)
  | .streamThumbnailUpdate => (.latest, some .thumb)
  | .joinVoiceReq | .voiceStateNotify | .updateCapabilitiesReq | .startStreamReq | .watchStreamReq
  | .stopWatchingReq | .streamCodecChangedNotify | .presenceVisibility => (.paced, some .presence)
  | .mlsGroupInfoReq | .mlsGroupCreateReq | .mlsCommitReq | .channelKeysReq
  | .channelKeysPublishReq | .channelKeysReject => (.paced, some .mls)
  | .messageSearchReq => (.refused, some .search)
  | .channelHistoryReq | .memberListReq | .memberSearchReq | .banListReq | .auditLogReq
  | .roleListReq | .inviteListReq | .fetchStreamThumbnailReq => (.paced, some .query)
  | .channelUpdateReq | .channelWipeReq | .messageDeleteReq | .updateServerPictureReq
  | .inviteCreateReq | .inviteRevokeReq | .kickMemberReq | .banMemberReq | .unbanMemberReq
  | .roleCreateReq | .roleUpdateReq | .roleDeleteReq | .memberRolesUpdateReq | .channelCreateReq
  | .channelRenameReq | .channelDeleteReq | .channelReorderReq | .setNicknameReq
  | .channelOverwriteSetReq | .channelPermissionsSyncReq | .categorySyncSetReq | .serverUpdateReq
  | .timeoutMemberReq | .voiceModReq | .transferOwnershipReq | .storageInfoReq
  | .storageConfigSetReq => (.paced, some .admin)
  | .other _ => (.free, none)

/-- A packet, numbered in the order they came to the limits. -/
structure Packet where
  index : Nat
  type : PacketType
  /-- The size of the picture, of a thumbnail. -/
  thumbnailBytes : Nat := 0
  deriving DecidableEq

def Packet.rule (p : Packet) : RateRule := (rateBucket p.type).1

def kMaxStreamThumbBytes : Nat := 256 * 1024

/-! ## Sessions -/

structure Session (K : Type) where
  buckets : BucketName → TokenBucket K
  /-- The request that waits for a bucket, and reading with it. -/
  held : Option (Packet × BucketName) := none
  /-- The thumbnail that waits. -/
  parked : Option Packet := none
  paceTimerArmed : Bool := false
  thumbTimerArmed : Bool := false
  /-- The next packet is being read. -/
  reading : Bool := true
  /-- It closes once what it has to write is written. -/
  closing : Bool := false
  /-- Its socket was closed. -/
  cut : Bool := false
  dropped : Bool := false
  /-- What has come to the limits, and what became of it. -/
  arrived : List Packet := []
  dispatched : List Packet := []
  refused : List Packet := []
  replaced : List Packet := []
  tooLarge : List Packet := []
  /-- What still waited when the session ended. -/
  lost : List Packet := []

/-- What a handler, or a gate, makes of the session. -/
inductive Effect
  | stays
  /-- `close_after_flush`. -/
  | closes
  /-- `close_connection`. -/
  | cuts
  /-- `drop_connection`. -/
  | drops
  deriving DecidableEq

namespace Session

variable {K : Type} [Zero K] [One K] [Add K] [Sub K] [Mul K] [Div K] [Min K]
  [LT K] [DecidableLT K] [LE K] [DecidableLE K] [NatCast K]

/-- The buckets of a session that begins. -/
def fullBuckets (now : K) : BucketName → TokenBucket K
  | .msg => .new (10 : Nat) (3 : Nat) now
  | .thumb => .new (3 : Nat) ((1 : Nat) / (5 : Nat)) now
  | .presence => .new (10 : Nat) (2 : Nat) now
  | .query => .new (20 : Nat) (4 : Nat) now
  | .search => .new (6 : Nat) (1 : Nat) now
  | .admin => .new (20 : Nat) (2 : Nat) now
  | .mls => .new (20 : Nat) (5 : Nat) now

variable (s : Session K)

def setBucket (name : BucketName) (b : TokenBucket K) : Session K :=
  { s with buckets := fun n => if n = name then b else s.buckets n }

/-- Whether a bucket had a token, which was taken. -/
def tryTake (name : BucketName) (now : K) : Bool × Session K :=
  let r := (s.buckets name).tryTake now
  (r.1, s.setBucket name r.2)

/-- `drop_connection` drops what waits and cancels the timers. -/
def drop : Session K :=
  { s with
    dropped := true
    held := none
    parked := none
    paceTimerArmed := false
    thumbTimerArmed := false
    lost := s.lost ++ (s.held.map (·.1)).toList ++ s.parked.toList }

def apply : Effect → Session K
  | .stays => s
  | .closes => { s with closing := true }
  | .cuts => { s with cut := true }
  | .drops => s.drop

/-- The packet is answered. -/
def dispatch (p : Packet) (effect : Effect) : Session K :=
  { s with dispatched := s.dispatched ++ [p] }.apply effect

/-- The timer is set for when the bucket has a token. -/
def armPaceTimer (name : BucketName) (now : K) : Session K :=
  { s.setBucket name ((s.buckets name).waitSeconds now).2 with paceTimerArmed := true }

def armThumbTimer (now : K) : Session K :=
  { s.setBucket .thumb ((s.buckets .thumb).waitSeconds now).2 with thumbTimerArmed := true }

def holdUntilRefill (p : Packet) (name : BucketName) (now : K) : Session K :=
  { s with held := some (p, name) }.armPaceTimer name now

def parkThumbnail (p : Packet) (now : K) : Session K :=
  if kMaxStreamThumbBytes < p.thumbnailBytes then { s with tooLarge := s.tooLarge ++ [p] }
  else
    let s := { s with parked := some p, replaced := s.replaced ++ s.parked.toList }
    if s.thumbTimerArmed then s else s.armThumbTimer now

/-- The rates, for a packet that the gates let through. -/
def limit (p : Packet) (now : K) (effect : Effect) : Session K :=
  let (rule, bucket) := rateBucket p.type
  if rule = .latest ∧ s.parked.isSome then s.parkThumbnail p now
  else
    match bucket with
    | none => s.dispatch p effect
    | some name =>
      let (taken, s) := s.tryTake name now
      if taken then s.dispatch p effect
      else
        match rule with
        | .refused => { s with refused := s.refused ++ [p] }
        | .latest => s.parkThumbnail p now
        | .paced => s.holdUntilRefill p name now
        | .free => s.dispatch p effect

/-- A packet is let through the gates, or makes something else of the session. -/
def processPacket (type : PacketType) (thumbnailBytes : Nat) (passed : Bool) (now : K)
    (effect : Effect) : Session K :=
  if passed then
    let p : Packet := ⟨s.arrived.length, type, thumbnailBytes⟩
    { s with arrived := s.arrived ++ [p] }.limit p now effect
  else s.apply effect

/-- The next packet is read, unless the session closes or a request holds it up. -/
def readNext : Session K := { s with reading := ! s.closing && s.held.isNone }

/-- The handler of a read. -/
def readCompletes (type : PacketType) (thumbnailBytes : Nat) (passed : Bool) (now : K)
    (effect : Effect) : Session K :=
  if s.closing then { s with reading := false }
  else (s.processPacket type thumbnailBytes passed now effect).readNext

/-- The request that was held, once its timer has fired. -/
def runHeld (now : K) (member : Bool) (effect : Effect) : Session K :=
  match s.held with
  | none => s
  | some (p, name) =>
    let (taken, s) := s.tryTake name now
    if ! taken then s.armPaceTimer name now
    else
      let s := { s with held := none }
      if ! member then { s with cut := true, lost := s.lost ++ [p] }
      else
        let s := s.dispatch p effect
        if s.closing then s else { s with reading := true }

def paceTimerFires (now : K) (member : Bool) (effect : Effect) : Session K :=
  let s := { s with paceTimerArmed := false }
  if s.closing || s.dropped then s else s.runHeld now member effect

/-- The thumbnail that waits, once its timer has fired. -/
def runParked (now : K) (member : Bool) (effect : Effect) : Session K :=
  match s.parked with
  | none => s
  | some p =>
    let (taken, s) := s.tryTake .thumb now
    if ! taken then s.armThumbTimer now
    else
      let s := { s with parked := none }
      if ! member then { s with cut := true, lost := s.lost ++ [p] }
      else s.dispatch p effect

def thumbTimerFires (now : K) (member : Bool) (effect : Effect) : Session K :=
  let s := { s with thumbTimerArmed := false }
  if s.closing || s.dropped then s else s.runParked now member effect

end Session

/-! ## Runs -/

/-- A read completes, an armed timer fires, or the session is ended from outside. -/
inductive Event (K : Type)
  | read (type : PacketType) (thumbnailBytes : Nat) (passed : Bool) (now : K) (effect : Effect)
  | paceTimer (now : K) (member : Bool) (effect : Effect)
  | thumbTimer (now : K) (member : Bool) (effect : Effect)
  | ends (effect : Effect)

variable {K : Type} [Zero K] [One K] [Add K] [Sub K] [Mul K] [Div K] [Min K]
  [LT K] [DecidableLT K] [LE K] [DecidableLE K] [NatCast K]

def Session.step (s : Session K) : Event K → Option (Session K)
  | .read type bytes passed now effect =>
    if s.reading then some (s.readCompletes type bytes passed now effect) else none
  | .paceTimer now member effect =>
    if s.paceTimerArmed then some (s.paceTimerFires now member effect) else none
  | .thumbTimer now member effect =>
    if s.thumbTimerArmed then some (s.thumbTimerFires now member effect) else none
  | .ends effect => some (s.apply effect)

variable (K) in
def system : System (Session K) (Event K) where
  init s := ∃ now, s = { buckets := Session.fullBuckets now }
  step s e s' := s.step e = some s'

/-! ## What became of each packet -/

def isThumbnail (p : Packet) : Bool := p.rule = .latest

/-- What waits: the request that is held. -/
def Session.heldPackets (s : Session K) : List Packet := (s.held.map (·.1)).toList

/-- Nothing has ended the session. -/
def Session.Alive (s : Session K) : Prop :=
  s.closing = false ∧ s.cut = false ∧ s.dropped = false

/-- Every packet come, but those `inHand`, was dispatched, waits, or was left out; requests, and
    thumbnails, are dispatched in order, then those that wait, then those in hand. -/
structure Kept (inHand : List Packet) (s : Session K) : Prop where
  numbered : s.arrived.map (·.index) = List.range s.arrived.length
  fate : s.arrived.Perm (inHand ++ (s.dispatched ++ s.heldPackets ++ s.parked.toList ++ s.refused ++
    s.replaced ++ s.tooLarge ++ s.lost))
  requests : ((s.dispatched.filter (! isThumbnail ·) ++ s.heldPackets ++
    inHand.filter (! isThumbnail ·)).map (·.index)).Pairwise (· < ·)
  thumbnails : ((s.dispatched.filter isThumbnail ++ s.parked.toList ++
    inHand.filter isThumbnail).map (·.index)).Pairwise (· < ·)
  held : ∀ p ∈ s.heldPackets, p.rule = .paced
  parked : ∀ p ∈ s.parked, p.rule = .latest
  refused : ∀ p ∈ s.refused, p.rule = .refused
  replaced : ∀ p ∈ s.replaced, p.rule = .latest ∧
    ∃ q ∈ s.arrived, q.rule = .latest ∧ p.index < q.index
  tooLarge : ∀ p ∈ s.tooLarge, p.rule = .latest ∧ kMaxStreamThumbBytes < p.thumbnailBytes
  lost : s.Alive → s.lost = []

namespace Kept

variable {s : Session K} {p : Packet} {inHand : List Packet}

theorem index_lt (h : Kept inHand s) (hp : p ∈ s.arrived) : p.index < s.arrived.length := by
  have hmem : p.index ∈ s.arrived.map (·.index) := mem_map_of_mem hp
  rw [h.numbered] at hmem
  exact mem_range.1 hmem

theorem withTimers (h : Kept inHand s) (buckets : BucketName → TokenBucket K)
    (paceTimerArmed thumbTimerArmed reading : Bool) :
    Kept inHand { s with buckets, paceTimerArmed, thumbTimerArmed, reading } := { h with }

theorem setBucket (h : Kept inHand s) (name : BucketName) (b : TokenBucket K) :
    Kept inHand (s.setBucket name b) := h.withTimers _ _ _ _

theorem arrive (h : Kept [] s) (hp : p.index = s.arrived.length) :
    Kept [p] { s with arrived := s.arrived ++ [p] } := by
  have hlast (l : List Packet) (hl : ∀ q ∈ l, q ∈ s.arrived)
      (hsorted : (l.map (·.index)).Pairwise (· < ·)) (keep : Packet → Bool) :
      ((l ++ [p].filter keep).map (·.index)).Pairwise (· < ·) := by
    rw [map_append, pairwise_append]
    refine ⟨hsorted, ?_, ?_⟩
    · exact (pairwise_singleton _ _).sublist (filter_sublist.map _)
    · intro a ha b hb
      obtain ⟨q, hq, rfl⟩ := mem_map.1 ha
      obtain ⟨r, hr, rfl⟩ := mem_map.1 hb
      rw [mem_singleton.1 (mem_filter.1 hr).1, hp]
      exact h.index_lt (hl q hq)
  have hfate := h.fate
  rw [nil_append] at hfate
  have hrequests := h.requests
  have hthumbnails := h.thumbnails
  rw [filter_nil, append_nil] at hrequests hthumbnails
  refine { h with numbered := ?_, fate := ?_, requests := ?_, thumbnails := ?_, replaced := ?_ }
  · rw [map_append, h.numbered, length_append, length_singleton, range_succ]
    exact congrArg (fun i => List.range s.arrived.length ++ [i]) hp
  · exact perm_append_comm.trans (hfate.cons p)
  · refine hlast _ (fun q hq => hfate.mem_iff.2 ?_) hrequests _
    rcases mem_append.1 hq with hq | hq
    · simp [(mem_filter.1 hq).1]
    · simp [hq]
  · refine hlast _ (fun q hq => hfate.mem_iff.2 ?_) hthumbnails _
    rcases mem_append.1 hq with hq | hq
    · simp [(mem_filter.1 hq).1]
    · simp [hq]
  · intro q hq
    obtain ⟨hrule, r, hr, hlatest⟩ := h.replaced q hq
    exact ⟨hrule, r, mem_append_left _ hr, hlatest⟩

theorem dispatched (h : Kept [p] s) (hrequest : isThumbnail p = false → s.held = none)
    (hthumbnail : isThumbnail p = true → s.parked = none) :
    Kept [] { s with dispatched := s.dispatched ++ [p] } := by
  refine { h with fate := ?_, requests := ?_, thumbnails := ?_ }
  · refine perm_iff_count.2 fun a => ?_
    have hfate := perm_iff_count.1 h.fate a
    simp only [count_append, Session.heldPackets, count_nil] at hfate ⊢
    omega
  · have hrequests := h.requests
    cases hp : isThumbnail p with
    | false => simpa [Session.heldPackets, hrequest hp, hp] using hrequests
    | true => simpa [Session.heldPackets, hp] using hrequests
  · have hthumbnails := h.thumbnails
    cases hp : isThumbnail p with
    | false => simpa [hp] using hthumbnails
    | true => simpa [hthumbnail hp, hp] using hthumbnails

theorem apply (h : Kept [] s) (effect : Effect) : Kept [] (s.apply effect) := by
  cases effect with
  | stays => exact h
  | closes => exact { h with lost := fun halive => Bool.noConfusion halive.1 }
  | cuts => exact { h with lost := fun halive => Bool.noConfusion halive.2.1 }
  | drops =>
    rw [Session.apply, Session.drop]
    refine { h with
      fate := ?_
      requests := h.requests.sublist (List.Sublist.map _ ?_)
      thumbnails := h.thumbnails.sublist (List.Sublist.map _ ?_)
      held := forall_mem_nil _
      parked := fun p hp => absurd hp (Option.not_mem_none p)
      lost := fun halive => Bool.noConfusion halive.2.2 }
    · refine perm_iff_count.2 fun a => ?_
      have hfate := perm_iff_count.1 h.fate a
      simp only [count_append, Session.heldPackets, count_nil, Option.map_none,
        Option.toList_none] at hfate ⊢
      omega
    · exact ((List.Sublist.refl _).append (nil_sublist _)).append (.refl _)
    · exact ((List.Sublist.refl _).append (nil_sublist _)).append (.refl _)

theorem refuse (h : Kept [p] s) (hp : p.rule = .refused) :
    Kept [] { s with refused := s.refused ++ [p] } := by
  refine { h with
    fate := ?_
    requests := h.requests.sublist (List.Sublist.map _ ((List.Sublist.refl _).append
      (nil_sublist _)))
    thumbnails := h.thumbnails.sublist (List.Sublist.map _ ((List.Sublist.refl _).append
      (nil_sublist _)))
    refused := fun q hq => ?_ }
  · refine perm_iff_count.2 fun a => ?_
    have hfate := perm_iff_count.1 h.fate a
    simp only [count_append, Session.heldPackets, count_nil] at hfate ⊢
    omega
  · rcases mem_append.1 hq with hq | hq
    · exact h.refused q hq
    · rw [mem_singleton.1 hq]
      exact hp

theorem leaveOut (h : Kept [p] s) (hp : p.rule = .latest)
    (hlarge : kMaxStreamThumbBytes < p.thumbnailBytes) :
    Kept [] { s with tooLarge := s.tooLarge ++ [p] } := by
  refine { h with
    fate := ?_
    requests := h.requests.sublist (List.Sublist.map _ ((List.Sublist.refl _).append
      (nil_sublist _)))
    thumbnails := h.thumbnails.sublist (List.Sublist.map _ ((List.Sublist.refl _).append
      (nil_sublist _)))
    tooLarge := fun q hq => ?_ }
  · refine perm_iff_count.2 fun a => ?_
    have hfate := perm_iff_count.1 h.fate a
    simp only [count_append, Session.heldPackets, count_nil] at hfate ⊢
    omega
  · rcases mem_append.1 hq with hq | hq
    · exact h.tooLarge q hq
    · rw [mem_singleton.1 hq]
      exact ⟨hp, hlarge⟩

theorem park (h : Kept [p] s) (hp : p.rule = .latest) :
    Kept [] { s with parked := some p, replaced := s.replaced ++ s.parked.toList } := by
  have hthumbnail : isThumbnail p = true := decide_eq_true hp
  have hthumbnails := h.thumbnails
  rw [filter_cons_of_pos hthumbnail, filter_nil] at hthumbnails
  refine { h with
    fate := ?_
    requests := h.requests.sublist (List.Sublist.map _ ((List.Sublist.refl _).append
      (nil_sublist _)))
    thumbnails := hthumbnails.sublist (List.Sublist.map _ ?_)
    parked := fun q hq => Option.some.inj hq ▸ hp
    replaced := fun q hq => ?_ }
  · refine perm_iff_count.2 fun a => ?_
    have hfate := perm_iff_count.1 h.fate a
    simp only [count_append, Session.heldPackets, count_nil,
      Option.toList_some] at hfate ⊢
    omega
  · rw [filter_nil, append_nil]
    exact (sublist_append_left _ _).append (.refl _)
  · rcases mem_append.1 hq with hq | hq
    · exact h.replaced q hq
    · -- the one that waited came before
      have hbefore := hthumbnails
      rw [map_append, pairwise_append] at hbefore
      have hlt := hbefore.2.2 q.index
        (mem_map_of_mem (mem_append_right _ hq)) p.index (.head _)
      exact ⟨h.parked q (Option.mem_toList.1 hq), p, h.fate.mem_iff.2 (.head _), hp, hlt⟩

theorem hold (h : Kept [p] s) (hp : p.rule = .paced) (hnone : s.held = none) (name : BucketName) :
    Kept [] { s with held := some (p, name) } := by
  have hrequest : isThumbnail p = false := by rw [isThumbnail, hp]; rfl
  refine { h with
    fate := ?_
    requests := ?_
    thumbnails := h.thumbnails.sublist (List.Sublist.map _ ((List.Sublist.refl _).append
      (nil_sublist _)))
    held := fun q hq => ?_ }
  · refine perm_iff_count.2 fun a => ?_
    have hfate := perm_iff_count.1 h.fate a
    simp only [count_append, Session.heldPackets, count_nil, hnone, Option.map_none,
      Option.toList_none, Option.map_some, Option.toList_some] at hfate ⊢
    omega
  · have hrequests := h.requests
    simpa [Session.heldPackets, hnone, hrequest] using hrequests
  · rw [mem_singleton.1 hq]
    exact hp

theorem unhold (h : Kept [] s) {name : BucketName} (hheld : s.held = some (p, name)) :
    Kept [p] { s with held := none } := by
  have hp : p.rule = .paced := h.held p (by rw [Session.heldPackets, hheld]; exact .head _)
  have hrequest : isThumbnail p = false := by rw [isThumbnail, hp]; rfl
  refine { h with fate := ?_, requests := ?_, thumbnails := ?_, held := forall_mem_nil _ }
  · refine perm_iff_count.2 fun a => ?_
    have hfate := perm_iff_count.1 h.fate a
    simp only [count_append, Session.heldPackets, count_nil, hheld, Option.map_none,
      Option.toList_none, Option.map_some, Option.toList_some] at hfate ⊢
    omega
  · have hrequests := h.requests
    simpa [Session.heldPackets, hheld, hrequest] using hrequests
  · have hthumbnails := h.thumbnails
    simpa [hrequest] using hthumbnails

theorem unpark (h : Kept [] s) (hparked : s.parked = some p) :
    Kept [p] { s with parked := none } := by
  have hthumbnail : isThumbnail p = true := decide_eq_true (h.parked p hparked)
  refine { h with
    fate := ?_
    requests := ?_
    thumbnails := ?_
    parked := fun q hq => absurd hq (Option.not_mem_none q) }
  · refine perm_iff_count.2 fun a => ?_
    have hfate := perm_iff_count.1 h.fate a
    simp only [count_append, count_nil, hparked, Option.toList_none, Option.toList_some]
      at hfate ⊢
    simp only [Session.heldPackets] at hfate ⊢
    omega
  · have hrequests := h.requests
    simpa [Session.heldPackets, hthumbnail] using hrequests
  · have hthumbnails := h.thumbnails
    simpa [hparked, hthumbnail] using hthumbnails

theorem lose (h : Kept [p] s) : Kept [] { s with cut := true, lost := s.lost ++ [p] } := by
  refine { h with
    fate := ?_
    requests := h.requests.sublist (List.Sublist.map _ ((List.Sublist.refl _).append
      (nil_sublist _)))
    thumbnails := h.thumbnails.sublist (List.Sublist.map _ ((List.Sublist.refl _).append
      (nil_sublist _)))
    lost := fun halive => Bool.noConfusion halive.2.1 }
  refine perm_iff_count.2 fun a => ?_
  have hfate := perm_iff_count.1 h.fate a
  simp only [count_append, Session.heldPackets, count_nil] at hfate ⊢
  omega

end Kept

/-! ## The handlers -/

theorem rule_eq {p : Packet} {rule : RateRule} {bucket : Option BucketName}
    (h : rateBucket p.type = (rule, bucket)) : p.rule = rule := congrArg Prod.fst h

namespace Kept

variable {s : Session K} {p : Packet}

theorem dispatch (h : Kept [p] s) (hrequest : isThumbnail p = false → s.held = none)
    (hthumbnail : isThumbnail p = true → s.parked = none) (effect : Effect) :
    Kept [] (s.dispatch p effect) := (h.dispatched hrequest hthumbnail).apply effect

theorem parkThumbnail (h : Kept [p] s) (hp : p.rule = .latest) (now : K) :
    Kept [] (s.parkThumbnail p now) := by
  rw [Session.parkThumbnail]
  split
  · rename_i hlarge
    exact h.leaveOut hp hlarge
  · dsimp only
    split
    · exact h.park hp
    · exact (h.park hp).withTimers _ _ true _

theorem holdUntilRefill (h : Kept [p] s) (hp : p.rule = .paced) (hnone : s.held = none)
    (name : BucketName) (now : K) : Kept [] (s.holdUntilRefill p name now) :=
  (h.hold hp hnone name).withTimers _ true _ _

theorem limit (h : Kept [p] s) (hnone : s.held = none) (now : K) (effect : Effect) :
    Kept [] (s.limit p now effect) := by
  rw [Session.limit]
  rcases hrate : rateBucket p.type with ⟨rule, bucket⟩
  have hrule := rule_eq hrate
  dsimp only
  split
  · rename_i hwaits
    exact h.parkThumbnail (hrule.trans hwaits.1) now
  rename_i hwaits
  -- no thumbnail waits if this is one
  have hthumbnail (hp : isThumbnail p = true) : s.parked = none := by
    have hlatest : rule = .latest := hrule.symm.trans (of_decide_eq_true hp)
    exact Option.not_isSome_iff_eq_none.1 fun hsome => hwaits ⟨hlatest, hsome⟩
  cases bucket with
  | none => exact h.dispatch (fun _ => hnone) hthumbnail effect
  | some name =>
    dsimp only
    split
    · exact (h.setBucket name _).dispatch (fun _ => hnone) hthumbnail effect
    have hkept := h.setBucket name ((s.buckets name).tryTake now).2
    cases rule with
    | refused => exact hkept.refuse hrule
    | latest => exact hkept.parkThumbnail hrule now
    | paced => exact hkept.holdUntilRefill hrule hnone name now
    | free => exact hkept.dispatch (fun _ => hnone) hthumbnail effect

theorem processPacket (h : Kept [] s) (hnone : s.held = none) (type : PacketType) (bytes : Nat)
    (passed : Bool) (now : K) (effect : Effect) :
    Kept [] (s.processPacket type bytes passed now effect) := by
  rw [Session.processPacket]
  split
  · exact (h.arrive rfl).limit hnone now effect
  · exact h.apply effect

theorem runHeld (h : Kept [] s) (now : K) (member : Bool) (effect : Effect) :
    Kept [] (s.runHeld now member effect) := by
  rw [Session.runHeld]
  cases hheld : s.held with
  | none => exact h
  | some r =>
    obtain ⟨p, name⟩ := r
    have hp : p.rule = .paced := h.held p (by rw [Session.heldPackets, hheld]; exact .head _)
    have hrequest : isThumbnail p = false := by rw [isThumbnail, hp]; rfl
    have hhand := (h.unhold hheld).setBucket name ((s.buckets name).tryTake now).2
    dsimp only
    split
    · exact h.withTimers _ true _ _
    split
    · exact hhand.lose
    have hdispatched := hhand.dispatch (fun _ => rfl)
      (fun ht => Bool.noConfusion (hrequest.symm.trans ht)) effect
    split
    · exact hdispatched
    · exact hdispatched.withTimers _ _ _ true

theorem runParked (h : Kept [] s) (now : K) (member : Bool) (effect : Effect) :
    Kept [] (s.runParked now member effect) := by
  rw [Session.runParked]
  cases hparked : s.parked with
  | none => exact h
  | some p =>
    have hthumbnail : isThumbnail p = true := decide_eq_true (h.parked p hparked)
    have hhand := (h.unpark hparked).setBucket .thumb ((s.buckets .thumb).tryTake now).2
    dsimp only
    split
    · exact h.withTimers _ _ true _
    split
    · exact hhand.lose
    · exact hhand.dispatch (fun hno => Bool.noConfusion (hthumbnail.symm.trans hno)) (fun _ => rfl)
        effect

end Kept

/-- What waits has a timer, as long as the session is alive. -/
structure Timed (s : Session K) : Prop where
  paceTimer : s.Alive → s.held.isSome → s.paceTimerArmed = true
  thumbTimer : s.Alive → s.parked.isSome → s.thumbTimerArmed = true

/-- A session that is alive reads on unless it holds a request. -/
structure Live (s : Session K) : Prop extends Timed s where
  reading : s.reading = true → s.held = none
  held : s.Alive → s.reading = false → s.held.isSome

section
variable {s : Session K}

theorem Timed.of_not_alive (h : ¬s.Alive) : Timed s :=
  ⟨fun halive => absurd halive h, fun halive => absurd halive h⟩

theorem Live.of_not_alive (h : ¬s.Alive) (hreading : s.reading = true → s.held = none) : Live s :=
  ⟨.of_not_alive h, hreading, fun halive => absurd halive h⟩

theorem not_alive_of_closing (h : s.closing = true) : ¬s.Alive :=
  fun halive => Bool.noConfusion (h.symm.trans halive.1)

theorem not_alive_of_cut (h : s.cut = true) : ¬s.Alive :=
  fun halive => Bool.noConfusion (h.symm.trans halive.2.1)

theorem not_alive_of_dropped (h : s.dropped = true) : ¬s.Alive :=
  fun halive => Bool.noConfusion (h.symm.trans halive.2.2)

theorem Timed.apply (h : Timed s) (effect : Effect) : Timed (s.apply effect) := by
  cases effect with
  | stays => exact h
  | closes => exact .of_not_alive (not_alive_of_closing rfl)
  | cuts => exact .of_not_alive (not_alive_of_cut rfl)
  | drops => exact .of_not_alive (not_alive_of_dropped rfl)

theorem Live.apply (h : Live s) (effect : Effect) : Live (s.apply effect) := by
  cases effect with
  | stays => exact h
  | closes => exact .of_not_alive (not_alive_of_closing rfl) h.reading
  | cuts => exact .of_not_alive (not_alive_of_cut rfl) h.reading
  | drops => exact .of_not_alive (not_alive_of_dropped rfl) fun _ => rfl

theorem Timed.parkThumbnail (h : Timed s) (p : Packet) (now : K) :
    Timed (s.parkThumbnail p now) := by
  rw [Session.parkThumbnail]
  split
  · exact ⟨h.paceTimer, h.thumbTimer⟩
  · dsimp only
    split
    · rename_i harmed
      exact ⟨h.paceTimer, fun _ _ => harmed⟩
    · exact ⟨h.paceTimer, fun _ _ => rfl⟩

theorem Timed.dispatch (h : Timed s) (p : Packet) (effect : Effect) : Timed (s.dispatch p effect) :=
  Timed.apply (s := { s with dispatched := s.dispatched ++ [p] }) ⟨h.paceTimer, h.thumbTimer⟩ effect

theorem Timed.setBucket (h : Timed s) (name : BucketName) (b : TokenBucket K) :
    Timed (s.setBucket name b) := ⟨h.paceTimer, h.thumbTimer⟩

theorem Timed.limit (h : Timed s) (p : Packet) (now : K) (effect : Effect) :
    Timed (s.limit p now effect) := by
  rw [Session.limit]
  rcases rateBucket p.type with ⟨rule, bucket⟩
  dsimp only
  split
  · exact h.parkThumbnail p now
  cases bucket with
  | none => exact h.dispatch p effect
  | some name =>
    have htaken := h.setBucket name ((s.buckets name).tryTake now).2
    dsimp only
    split
    · exact htaken.dispatch p effect
    cases rule with
    | refused => exact ⟨htaken.paceTimer, htaken.thumbTimer⟩
    | latest => exact htaken.parkThumbnail p now
    | paced => exact ⟨fun _ _ => rfl, htaken.thumbTimer⟩
    | free => exact htaken.dispatch p effect

theorem Live.readCompletes (h : Live s) (type : PacketType) (bytes : Nat) (passed : Bool) (now : K)
    (effect : Effect) : Live (s.readCompletes type bytes passed now effect) := by
  rw [Session.readCompletes]
  split
  · rename_i hclosing
    exact .of_not_alive (not_alive_of_closing hclosing) fun hr => Bool.noConfusion hr
  · have htimed : Timed (s.processPacket type bytes passed now effect) := by
      rw [Session.processPacket]
      split
      · have harrived : Timed
            { s with arrived := s.arrived ++ [⟨s.arrived.length, type, bytes⟩] } :=
          ⟨h.paceTimer, h.thumbTimer⟩
        exact harrived.limit _ now effect
      · exact h.toTimed.apply effect
    refine ⟨⟨htimed.paceTimer, htimed.thumbTimer⟩, fun hr => ?_, fun halive hr => ?_⟩
    · exact Option.isNone_iff_eq_none.1 (Bool.and_eq_true_iff.1 hr).2
    · have hclosing : (s.processPacket type bytes passed now effect).closing = false := halive.1
      have hread : (! (s.processPacket type bytes passed now effect).closing &&
        (s.processPacket type bytes passed now effect).held.isNone) = false := hr
      rw [hclosing, Bool.not_false, Bool.true_and] at hread
      exact Option.isNone_eq_false_iff.1 hread

theorem live_runHeld (hreading : s.reading = true → s.held = none)
    (hheld : s.Alive → s.reading = false → s.held.isSome)
    (hthumb : s.Alive → s.parked.isSome → s.thumbTimerArmed = true) (now : K) (member : Bool)
    (effect : Effect) : Live (s.runHeld now member effect) := by
  rw [Session.runHeld]
  cases hwaits : s.held with
  | none =>
    refine ⟨⟨fun _ hsome => ?_, hthumb⟩, hreading, hheld⟩
    rw [hwaits] at hsome
    cases hsome
  | some r =>
    obtain ⟨p, name⟩ := r
    have hnotReading : s.reading = false := by
      refine Bool.eq_false_iff.2 fun hr => ?_
      rw [hreading hr] at hwaits
      cases hwaits
    dsimp only
    split
    · -- no token yet: the timer is armed again
      refine ⟨⟨fun _ _ => rfl, hthumb⟩, fun hr => ?_, fun _ _ => ?_⟩
      · exact Bool.noConfusion (hnotReading.symm.trans hr)
      · exact congrArg Option.isSome hwaits
    split
    · exact .of_not_alive (not_alive_of_cut rfl) fun _ => rfl
    · have hready : Timed { (s.tryTake name now).2 with held := none } :=
        ⟨fun _ hsome => Bool.noConfusion hsome, hthumb⟩
      have hdispatched := hready.dispatch p effect
      have hnone : (Session.dispatch { (s.tryTake name now).2 with held := none } p effect).held =
          none := by cases effect <;> rfl
      split
      · rename_i hclosing
        exact .of_not_alive (not_alive_of_closing hclosing) fun _ => hnone
      · exact ⟨⟨hdispatched.paceTimer, hdispatched.thumbTimer⟩, fun _ => hnone,
          fun _ hr => Bool.noConfusion hr⟩

theorem live_runParked (hreading : s.reading = true → s.held = none)
    (hheld : s.Alive → s.reading = false → s.held.isSome)
    (hpace : s.Alive → s.held.isSome → s.paceTimerArmed = true) (now : K) (member : Bool)
    (effect : Effect) : Live (s.runParked now member effect) := by
  rw [Session.runParked]
  cases hwaits : s.parked with
  | none =>
    refine ⟨⟨hpace, fun _ hsome => ?_⟩, hreading, hheld⟩
    rw [hwaits] at hsome
    cases hsome
  | some p =>
    dsimp only
    split
    · exact ⟨⟨hpace, fun _ _ => rfl⟩, hreading, hheld⟩
    split
    · exact .of_not_alive (not_alive_of_cut rfl) hreading
    · refine Live.apply (s := { (s.tryTake .thumb now).2 with
        parked := none, dispatched := s.dispatched ++ [p] }) ?_ effect
      exact ⟨⟨hpace, fun _ hsome => Bool.noConfusion hsome⟩, hreading, hheld⟩

theorem live_of_over (hover : (s.closing || s.dropped) = true)
    (hreading : s.reading = true → s.held = none) : Live s := by
  refine .of_not_alive (fun halive => ?_) hreading
  rw [halive.1, halive.2.2] at hover
  cases hover

theorem Live.paceTimerFires (h : Live s) (now : K) (member : Bool) (effect : Effect) :
    Live (s.paceTimerFires now member effect) := by
  rw [Session.paceTimerFires]
  dsimp only
  split
  · rename_i hover
    exact live_of_over hover h.reading
  · exact live_runHeld (s := { s with paceTimerArmed := false }) h.reading h.held h.thumbTimer now
      member effect

theorem Live.thumbTimerFires (h : Live s) (now : K) (member : Bool) (effect : Effect) :
    Live (s.thumbTimerFires now member effect) := by
  rw [Session.thumbTimerFires]
  dsimp only
  split
  · rename_i hover
    exact live_of_over hover h.reading
  · exact live_runParked (s := { s with thumbTimerArmed := false }) h.reading h.held h.paceTimer now
      member effect

end

/-! ## Runs -/

theorem kept_step {s s' : Session K} {e : Event K} (h : Kept [] s ∧ Live s)
    (hs : s.step e = some s') : Kept [] s' ∧ Live s' := by
  obtain ⟨hkept, hlive⟩ := h
  cases e with
  | read type bytes passed now effect =>
    obtain ⟨hreading, hs⟩ := Option.ite_none_right_eq_some.1 hs
    obtain rfl := Option.some.inj hs
    refine ⟨?_, hlive.readCompletes type bytes passed now effect⟩
    rw [Session.readCompletes]
    split
    · exact hkept.withTimers _ _ _ false
    · exact (hkept.processPacket (hlive.reading hreading) type bytes passed now effect).withTimers
        _ _ _ _
  | paceTimer now member effect =>
    obtain ⟨-, hs⟩ := Option.ite_none_right_eq_some.1 hs
    obtain rfl := Option.some.inj hs
    refine ⟨?_, hlive.paceTimerFires now member effect⟩
    have hfired := hkept.withTimers s.buckets false s.thumbTimerArmed s.reading
    rw [Session.paceTimerFires]
    dsimp only
    split
    · exact hfired
    · exact hfired.runHeld now member effect
  | thumbTimer now member effect =>
    obtain ⟨-, hs⟩ := Option.ite_none_right_eq_some.1 hs
    obtain rfl := Option.some.inj hs
    refine ⟨?_, hlive.thumbTimerFires now member effect⟩
    have hfired := hkept.withTimers s.buckets s.paceTimerArmed false s.reading
    rw [Session.thumbTimerFires]
    dsimp only
    split
    · exact hfired
    · exact hfired.runParked now member effect
  | ends effect =>
    obtain rfl := Option.some.inj hs
    exact ⟨hkept.apply effect, hlive.apply effect⟩

theorem kept_of_reachable {s : Session K} (hs : (system K).Reachable s) : Kept [] s ∧ Live s := by
  induction hs with
  | init h =>
    obtain ⟨now, rfl⟩ := h
    refine ⟨⟨rfl, .nil, .nil, .nil, forall_mem_nil _,
      fun p hp => absurd hp (Option.not_mem_none p), forall_mem_nil _, forall_mem_nil _,
      forall_mem_nil _, fun _ => rfl⟩,
      ⟨fun _ hsome => Bool.noConfusion hsome, fun _ hsome => Bool.noConfusion hsome⟩, fun _ => rfl,
      fun _ hr => Bool.noConfusion hr⟩
  | step e _ hstep ih => exact kept_step ih hstep

def isOrdered (p : Packet) : Bool := p.rule = .paced || p.rule = .free

theorem not_isThumbnail_of_isOrdered {p : Packet} (h : isOrdered p = true) :
    isThumbnail p = false := by
  rw [isOrdered, Bool.or_eq_true, decide_eq_true_eq, decide_eq_true_eq] at h
  rcases h with h | h
  · rw [isThumbnail, h]
    rfl
  · rw [isThumbnail, h]
    rfl

theorem not_isOrdered {p : Packet} (h : p.rule = .refused ∨ p.rule = .latest) :
    isOrdered p = false := by
  rcases h with h | h
  · rw [isOrdered, h]
    rfl
  · rw [isOrdered, h]
    rfl

namespace Kept

variable {s : Session K}

theorem arrived_sorted (h : Kept [] s) : (s.arrived.map (·.index)).Pairwise (· < ·) := by
  rw [h.numbered]
  exact pairwise_lt_range

theorem dispatched_nodup (h : Kept [] s) : s.dispatched.Nodup := by
  have hnodup : s.arrived.Nodup :=
    List.Nodup.of_map (fun p : Packet => p.index) (h.arrived_sorted.imp Nat.ne_of_lt)
  have hfates := h.fate.nodup_iff.1 hnodup
  rw [nil_append] at hfates
  exact hfates.sublist (sublist_append_of_sublist_left (by
    simp only [append_assoc]
    exact sublist_append_left _ _))

/-- Alive, the session has dispatched what is paced or free in order, up to what is held. -/
theorem ordered (h : Kept [] s) (halive : s.Alive) :
    s.dispatched.filter isOrdered ++ s.heldPackets = s.arrived.filter isOrdered := by
  have hnone (l : List Packet) (hl : ∀ p ∈ l, p.rule = .refused ∨ p.rule = .latest) :
      l.filter isOrdered = [] :=
    filter_eq_nil_iff.2 fun p hp => Bool.eq_false_iff.1 (not_isOrdered (hl p hp))
  have hheld : s.heldPackets.filter isOrdered = s.heldPackets :=
    filter_eq_self.2 fun p hp => by rw [isOrdered, h.held p hp]; rfl
  have hparked := hnone s.parked.toList fun p hp => .inr (h.parked p (Option.mem_toList.1 hp))
  have hrefused := hnone s.refused fun p hp => .inl (h.refused p hp)
  have hreplaced := hnone s.replaced fun p hp => .inr (h.replaced p hp).1
  have htooLarge := hnone s.tooLarge fun p hp => .inr (h.tooLarge p hp).1
  have hperm := h.fate.filter isOrdered
  rw [h.lost halive] at hperm
  simp only [nil_append, append_nil, filter_append, hheld, hparked, hrefused,
    hreplaced, htooLarge] at hperm
  have hsorted : (s.arrived.filter isOrdered).Pairwise fun p q => p.index < q.index :=
    (pairwise_map.1 h.arrived_sorted).sublist filter_sublist
  refine (List.Perm.eq_of_pairwise ?_ hsorted ?_ hperm).symm
  · intro p q _ _ hpq hqp
    exact absurd hpq (Nat.lt_asymm hqp)
  · have hrequests := h.requests
    rw [filter_nil, append_nil] at hrequests
    refine (pairwise_map.1 hrequests).sublist (List.Sublist.append ?_ (.refl _))
    have hsub : s.dispatched.filter isOrdered =
        (s.dispatched.filter (! isThumbnail ·)).filter isOrdered := by
      rw [filter_filter]
      refine filter_congr fun p _ => ?_
      cases hp : isOrdered p with
      | false => rfl
      | true => rw [not_isThumbnail_of_isOrdered hp]; rfl
    rw [hsub]
    exact filter_sublist

theorem thumbnail_fate (h : Kept [] s) (halive : s.Alive) {p : Packet} (hp : p ∈ s.arrived)
    (hthumbnail : p.rule = .latest) :
    p ∈ s.dispatched ∨ s.parked = some p ∨ p ∈ s.replaced ∨ p ∈ s.tooLarge := by
  have hfate := h.fate.mem_iff.1 hp
  simp only [nil_append, mem_append, h.lost halive, not_mem_nil, or_false, or_assoc,
    Option.mem_toList] at hfate
  rcases hfate with hd | hheld | hparked | hrefused | hreplaced | hlarge
  · exact .inl hd
  · cases hthumbnail.symm.trans (h.held p hheld)
  · exact .inr (.inl hparked)
  · cases hthumbnail.symm.trans (h.refused p hrefused)
  · exact .inr (.inr (.inl hreplaced))
  · exact .inr (.inr (.inr hlarge))

end Kept

theorem runHeld_of_token {s : Session K} {p : Packet} {name : BucketName} {now : K}
    (hheld : s.held = some (p, name)) (htoken : (s.tryTake name now).1 = true) (effect : Effect) :
    s.runHeld now true effect =
      let t := Session.dispatch { (s.tryTake name now).2 with held := none } p effect
      if t.closing then t else { t with reading := true } := by
  rw [Session.runHeld, hheld]
  dsimp only
  rw [htoken]
  rfl

/-- A held request's timer fires with a token: it is dispatched, and reading goes on. -/
theorem paceTimerFires_of_token {s : Session K} {p : Packet} {name : BucketName} {now : K}
    (halive : s.Alive) (hheld : s.held = some (p, name))
    (htoken : ((s.buckets name).tryTake now).1 = true) (effect : Effect) :
    (s.paceTimerFires now true effect).dispatched = s.dispatched ++ [p] ∧
      ((s.paceTimerFires now true effect).Alive →
        (s.paceTimerFires now true effect).reading = true) := by
  have hgoes : (s.closing || s.dropped) = false := by rw [halive.1, halive.2.2]; rfl
  rw [Session.paceTimerFires]
  dsimp only
  rw [hgoes, if_neg Bool.false_ne_true,
    runHeld_of_token (s := { s with paceTimerArmed := false }) hheld htoken]
  dsimp only
  split
  · rename_i hclosing
    refine ⟨?_, fun h => Bool.noConfusion (hclosing.symm.trans h.1)⟩
    cases effect <;> rfl
  · refine ⟨?_, fun _ => rfl⟩
    cases effect <;> rfl

/-- In every run no packet is dispatched twice, and what is no thumbnail is dispatched in order, and
    so are thumbnails. Until something ends the session what is paced or free was dispatched, but
    one that is held, with a timer, while reading waits; if none is, reading goes on; a thumbnail
    was dispatched, waits with a timer, was replaced by a newer one, or is too large. A held request
    is dispatched, and reading goes on, once its timer fires with a token. -/
theorem packets_paced {s : Session K} (hs : (system K).Reachable s) :
    s.dispatched.Nodup ∧ (∀ p ∈ s.dispatched, p ∈ s.arrived) ∧
    ((s.dispatched.filter (! isThumbnail ·)).map (·.index)).Pairwise (· < ·) ∧
    ((s.dispatched.filter isThumbnail).map (·.index)).Pairwise (· < ·) ∧
    (s.Alive →
      s.dispatched.filter isOrdered ++ s.heldPackets = s.arrived.filter isOrdered ∧
      (s.reading = true ∧ s.held = none ∨
        s.reading = false ∧ s.held.isSome ∧ s.paceTimerArmed = true) ∧
      (s.parked.isSome → s.thumbTimerArmed = true) ∧
      ∀ p ∈ s.arrived, p.rule = .latest →
        p ∈ s.dispatched ∨ s.parked = some p ∨ kMaxStreamThumbBytes < p.thumbnailBytes ∨
          p ∈ s.replaced ∧ ∃ q ∈ s.arrived, q.rule = .latest ∧ p.index < q.index) ∧
    ∀ p name now effect, s.Alive → s.held = some (p, name) →
      ((s.buckets name).tryTake now).1 = true →
        ∃ s', s.step (.paceTimer now true effect) = some s' ∧ s'.dispatched = s.dispatched ++ [p] ∧
          (s'.Alive → s'.reading = true) := by
  obtain ⟨hkept, hlive⟩ := kept_of_reachable hs
  have hrequests := hkept.requests
  have hthumbnails := hkept.thumbnails
  rw [List.filter_nil, List.append_nil, List.map_append] at hrequests hthumbnails
  refine ⟨hkept.dispatched_nodup, fun p hp => hkept.fate.mem_iff.2 (by simp [hp]),
    (List.pairwise_append.1 hrequests).1, (List.pairwise_append.1 hthumbnails).1,
    fun halive => ?_, ?_⟩
  · refine ⟨hkept.ordered halive, ?_, hlive.thumbTimer halive, fun p hp hlatest => ?_⟩
    · cases hreading : s.reading with
      | true => exact .inl ⟨rfl, hlive.reading hreading⟩
      | false =>
        have hheld := hlive.held halive hreading
        exact .inr ⟨rfl, hheld, hlive.paceTimer halive hheld⟩
    · rcases hkept.thumbnail_fate halive hp hlatest with hd | hparked | hreplaced | hlarge
      · exact .inl hd
      · exact .inr (.inl hparked)
      · exact .inr (.inr (.inr ⟨hreplaced, (hkept.replaced p hreplaced).2⟩))
      · exact .inr (.inr (.inl (hkept.tooLarge p hlarge).2))
  · intro p name now effect halive hheld htoken
    have harmed := hlive.paceTimer halive (congrArg Option.isSome hheld)
    exact ⟨_, if_pos harmed, paceTimerFires_of_token halive hheld htoken effect⟩

/-- Four thumbnails at once, the last of which waits, a ping, and the timer. -/
def thumbnailsAndPing : List (Event ℚ) :=
  List.replicate 4 (.read .streamThumbnailUpdate 1000 true 0 .stays) ++
    [.read (.other 0) 0 true 0 .stays, .thumbTimer 6 true .stays]

def begun : Session ℚ := { buckets := Session.fullBuckets 0 }

/-- The session after them. -/
def overtaken : Session ℚ := (thumbnailsAndPing.foldlM Session.step begun).get (by decide +kernel)

theorem reachable_overtaken : (system ℚ).Reachable overtaken :=
  .of_foldlM (S := system ℚ) (s := begun) (fun _ _ _ hs => hs) (.init ⟨0, rfl⟩) (by decide +kernel)

theorem alive_overtaken : overtaken.Alive := by
  rw [Session.Alive]
  decide +kernel

theorem packets_paced_overtaken :
    overtaken.dispatched.filter isOrdered ++ overtaken.heldPackets =
      overtaken.arrived.filter isOrdered :=
  ((packets_paced reachable_overtaken).2.2.2.2.1 alive_overtaken).1

/-- A thumbnail that waits is overtaken, though none was replaced. -/
theorem thumbnail_overtaken : ¬ ∀ s, (system ℚ).Reachable s → s.Alive → s.replaced = [] →
    (s.dispatched.map (·.index)).Pairwise (· < ·) := by
  intro h
  have hsorted := h overtaken reachable_overtaken alive_overtaken (by decide +kernel)
  revert hsorted
  decide +kernel

end Decibell.SessionPacing
