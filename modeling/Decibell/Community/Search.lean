import Decibell.Community.Messages
import Decibell.Community.SearchQuery
import Decibell.Lib.Paging
import Mathlib.Data.List.Dedup
import Mathlib.Data.List.Infix
import Mathlib.Order.Lattice

/-!
# Searching the messages

A search names words, senders, channels, dates and what a message must have. The worker walks one
index by id, the one that narrows most, checks the other filters row by row, and stops once the page
is full; by relevance it scores the newest matches and sorts those.
-/

namespace Decibell

open Lib

/-! ## The database -/

/-- A message's text, and its files' names. -/
structure FtsDocument where
  rowid : Int
  content : Bytes
  files : Bytes

structure SearchDb where
  tables : Tables
  messagesFts : Table FtsDocument.rowid

/-- The full-text engine: which rows match, and their scores, lower being better. -/
structure Fts5 (Score : Type) where
  isMatch : Bytes → FtsDocument → Bool
  bm25 : Table FtsDocument.rowid → Bytes → Int → Score

/-- Whether the text behind the first character has the needle, at a character. -/
def instrLater (needle : Bytes) : Bytes → Bool
  | [] => false
  | b :: s => (! isContinuation b && needle.isPrefixOf (b :: s)) || instrLater needle s

/-- `instr(haystack, needle) > 0`. -/
def instr (haystack needle : Bytes) : Bool :=
  needle.isPrefixOf haystack || instrLater needle haystack.tail

/-! ## What is asked for -/

namespace SearchHas

def kFile : BitVec 32 := 1
def kImage : BitVec 32 := 2
def kVideo : BitVec 32 := 4
def kAudio : BitVec 32 := 8
def kDocument : BitVec 32 := 16
def kLink : BitVec 32 := 32
def kKnown : BitVec 32 := 63

/-- The bits that ask for an attachment. -/
def files : BitVec 32 := kFile ||| kImage ||| kVideo ||| kAudio ||| kDocument

def kindBits : List (BitVec 32 × Nat) := [(kImage, 0), (kVideo, 1), (kDocument, 2), (kAudio, 3)]

end SearchHas

inductive SearchSort
  | newest
  | oldest
  | relevance
  deriving DecidableEq

/-- A search, resolved to channels and fragments. -/
structure SearchSpec where
  channels : List String
  /-- The expression for the index, empty when there are no words. -/
  expr : Bytes
  /-- The fragments a message must contain, and those it must not. -/
  contains : List Bytes
  excludes : List Bytes
  authorUids : List Uid
  /-- Inclusive; 0 for no bound. -/
  after : Int
  /-- Exclusive; 0 for no bound. -/
  before : Int
  has : BitVec 32
  sort : SearchSort
  /-- The last id of the page before. -/
  cursor : Int
  /-- By relevance: how many were shown. -/
  offset : Nat
  limit : Int
  /-- Whether to count the matches. -/
  count : Bool

/-- The index the walk follows. -/
inductive SearchDriver
  | fts
  | author
  | files
  | channel
  | scan
  deriving DecidableEq

namespace SearchSpec

variable (s : SearchSpec)

/-- Without words there is no relevance. -/
def relevance : Prop := s.sort = .relevance ∧ s.expr ≠ []

def oldest : Prop := s.sort = .oldest

instance : Decidable s.relevance := inferInstanceAs (Decidable (_ ∧ _))
instance : Decidable s.oldest := inferInstanceAs (Decidable (_ = _))

def driver : SearchDriver :=
  if s.expr ≠ [] then .fts
  else if s.authorUids ≠ [] then .author
  else if s.has &&& SearchHas.files ≠ 0 then .files
  else if s.channels.length = 1 then .channel
  else .scan

/-- The kind of attachment that the walk itself picks. -/
def driverKind : Option Nat :=
  if s.driver = .files then
    (SearchHas.kindBits.find? fun kb => s.has &&& kb.1 ≠ 0).map (·.2)
  else none

end SearchSpec

/-! ## Dates -/

namespace Tables

variable (t : Tables)

def probe (id : Int) : Option DbMessage :=
  (t.messages.rows.insertionSort (·.id ≤ ·.id)).find? (id ≤ ·.id)

theorem le_of_probe {t : Tables} {id : Int} {m : DbMessage} (h : t.probe id = some m) : id ≤ m.id := by
  simpa using List.find?_some h

/-- Every row below `lo` is older than `ts`, none from `hi` on. -/
def bisect (ts lo hi : Int) : Int :=
  if _h : lo < hi then
    let mid := lo + (hi - lo) / 2
    match _hp : t.probe mid with
    | none => bisect ts lo mid
    | some m => if ts ≤ m.timestamp then bisect ts lo mid else bisect ts (m.id + 1) hi
  else lo
termination_by (hi - lo).toNat
decreasing_by
  · omega
  · omega
  · have hle := le_of_probe _hp
    omega

/-- The smallest id of a message that is not older, if any. -/
def firstIdAtOrAfter (ts : Int) : Option Int :=
  match t.messages.keys.min?, t.messages.keys.max? with
  | some minId, some maxId =>
    let lo := t.bisect ts minId (maxId + 1)
    if lo > maxId then none else (t.probe lo).map (·.id)
  | _, _ => none

end Tables

namespace SearchSpec

variable (t : Tables) (s : SearchSpec)

/-- The lower bound on ids, 0 for none; or nothing is that recent. -/
def minBound : Option Int :=
  if s.after > 0 then (t.firstIdAtOrAfter s.after).map fun f => if f > 0 then f else 0 else some 0

/-- The upper bound on the ids, 0 for none; or nothing is that old. -/
def maxBound : Option Int :=
  if s.before > 0 then
    match t.firstIdAtOrAfter s.before with
    | none => some 0
    | some f => if f > 0 then if f ≤ 1 then none else some (f - 1) else some 0
  else some 0

/-- The bounds on ids that the dates give, if there can be a match. -/
def bounds : Option (Int × Int) :=
  match s.minBound t, s.maxBound t with
  | some minId, some maxId =>
    if minId > 0 ∧ maxId > 0 ∧ minId > maxId then none else some (minId, maxId)
  | _, _ => none

end SearchSpec

/-! ## The statement -/

/-- `EXISTS (SELECT 1 FROM attachments …)`. -/
def Tables.hasAttachment (t : Tables) (m : DbMessage) (p : DbAttachment → Bool) : Bool :=
  t.attachments.rows.any fun a => a.messageId = m.id && p a

/-- A message's text, or a file's name, contains a fragment. -/
def Tables.hasFragment (t : Tables) (m : DbMessage) (f : Bytes) : Bool :=
  instr (searchFold m.content) f ||
    t.hasAttachment m fun a => ! a.encrypted && instr (searchFold a.filename) f

/-- The driver's rows, one for each attachment if of files. -/
def driverRows {Score : Type} (fts : Fts5 Score) (db : SearchDb) (s : SearchSpec) : List DbMessage :=
  let messages := db.tables.messages
  match s.driver with
  | .fts => (db.messagesFts.rows.filter (fts.isMatch s.expr)).filterMap fun d => messages.find? d.rowid
  | .author => messages.rows.filter (·.senderUid ∈ s.authorUids)
  | .files =>
    (db.tables.attachments.rows.filter fun a =>
      a.messageId > 0 && s.driverKind.all (a.kind = ·)).filterMap fun a => messages.find? a.messageId
  | .channel => messages.rows.filter fun m => s.channels.head? = some m.channelId
  | .scan => messages.rows

namespace SearchSpec

variable (s : SearchSpec) (t : Tables)

/-- What a message must have, apart from the words. -/
def Has (m : DbMessage) (skipFile : Bool) (skipKind : Option Nat) : Prop :=
  (s.has &&& SearchHas.kFile ≠ 0 ∧ skipFile = false → t.hasAttachment m fun _ => true) ∧
  (∀ kb ∈ SearchHas.kindBits, s.has &&& kb.1 ≠ 0 ∧ some kb.2 ≠ skipKind →
    t.hasAttachment m (·.kind = kb.2)) ∧
  (s.contains ≠ [] ∨ s.excludes ≠ [] → m.envelope = none) ∧
  (∀ f ∈ s.contains, t.hasFragment m f) ∧
  (∀ f ∈ s.excludes, ¬ t.hasFragment m f) ∧
  (s.has &&& SearchHas.kLink ≠ 0 →
    instr m.content (utf8 "http://") ∨ instr m.content (utf8 "https://"))

instance (m : DbMessage) (skipFile : Bool) (skipKind : Option Nat) :
    Decidable (s.Has t m skipFile skipKind) :=
  inferInstanceAs (Decidable (_ ∧ _))

def InDates (m : DbMessage) : Prop :=
  (s.after > 0 → s.after ≤ m.timestamp) ∧ (s.before > 0 → m.timestamp < s.before)

instance (m : DbMessage) : Decidable (s.InDates m) := inferInstanceAs (Decidable (_ ∧ _))

/-- What is checked of a driver's row, with these bounds on ids. -/
def Checks (minId maxId : Int) (m : DbMessage) : Prop :=
  (s.driver ≠ .channel → m.channelId ∈ s.channels) ∧
  (s.driver ≠ .author ∧ s.authorUids ≠ [] → m.senderUid ∈ s.authorUids) ∧
  s.InDates m ∧
  (minId > 0 → m.id ≥ minId) ∧
  (maxId > 0 → m.id ≤ maxId) ∧
  (¬ s.relevance ∧ s.cursor > 0 → if s.oldest then m.id > s.cursor else m.id < s.cursor) ∧
  s.Has t m (s.driver = .files) s.driverKind

instance (minId maxId : Int) (m : DbMessage) : Decidable (s.Checks t minId maxId m) :=
  inferInstanceAs (Decidable (_ ∧ _))

end SearchSpec

/-- The ids of the rows of the statement, in order. -/
def selectIds {Score : Type} (fts : Fts5 Score) (db : SearchDb) (s : SearchSpec) (minId maxId : Int) :
    List Int :=
  let ids := ((driverRows fts db s).filter fun m => s.Checks db.tables minId maxId m).map (·.id)
  if s.oldest then ids.insertionSort (· ≤ ·) else ids.insertionSort (· ≥ ·)

/-! ## The walk -/

/-- Only the newest matches are scored. -/
def kRelevancePool : Nat := 2000

/-- Matches are counted up to here. -/
def kCountCap : Nat := 10000

/-- What the walk has so far. -/
structure SearchWalk where
  kept : List Int := []
  seen : Nat := 0
  last : Int := 0
  hasMore : Bool := false
  totalCapped : Bool := false

/-- Walks the rows until the page is full, and on to count if asked. -/
def SearchWalk.run (keep : Nat) (count : Bool) : SearchWalk → List Int → SearchWalk
  | w, [] => w
  | w, id :: ids =>
    -- One row for each attachment: those of a message are next to each other.
    if id = w.last then run keep count w ids
    else
      let w := { w with last := id, seen := w.seen + 1 }
      if w.kept.length < keep then run keep count { w with kept := w.kept ++ [id] } ids
      else
        let w := { w with hasMore := true }
        if ! count then w
        else if w.seen ≥ kCountCap then { w with totalCapped := true }
        else run keep count w ids

structure SearchOutcome where
  ids : List Int := []
  hasMore : Bool := false
  /-- -1 when the matches were not counted. -/
  total : Int := -1
  totalCapped : Bool := false

/-- The better score first, and of equals the newer message. -/
def Ranked {Score : Type} [LinearOrder Score] (x y : Score × Int) : Prop :=
  x.1 < y.1 ∨ x.1 = y.1 ∧ x.2 ≥ y.2

instance {Score : Type} [LinearOrder Score] : DecidableRel (@Ranked Score _) :=
  fun _ _ => inferInstanceAs (Decidable (_ ∨ _))

section Execute

variable {Score : Type} [LinearOrder Score] (fts : Fts5 Score) (db : SearchDb)

/-- The scored ids, the best first. -/
def rank (s : SearchSpec) (ids : List Int) : List Int :=
  ((ids.map fun id => (fts.bm25 db.messagesFts s.expr id, id)).insertionSort Ranked).map (·.2)

/-- One page of ids. -/
def execute (s : SearchSpec) : SearchOutcome :=
  let emptyResult : SearchOutcome := { total := if s.count then 0 else -1 }
  if s.channels = [] then emptyResult
  else if s.relevance ∧ s.offset ≥ kRelevancePool then {}
  else
    match s.bounds db.tables with
    | none => emptyResult
    | some (minId, maxId) =>
      let limit := if s.limit > 0 then s.limit.toNat else 25
      let keep := if s.relevance then kRelevancePool else limit
      let w := SearchWalk.run keep s.count {} (selectIds fts db s minId maxId)
      let pool := rank fts db s w.kept
      let start := min pool.length s.offset
      let stop := min pool.length (start + limit)
      { ids := if s.relevance then (pool.take stop).drop start else w.kept
        hasMore := if s.relevance then stop < pool.length else w.hasMore
        total := if s.count then w.seen else -1
        totalCapped := w.totalCapped }

end Execute

/-! ## The answer -/

structure MessageSearchRequest where
  seq : Nat := 0
  query : Bytes := []
  channelIds : List String := []
  after : Int := 0
  before : Int := 0
  has : BitVec 32 := 0
  sort : SearchSort := .newest
  cursor : Int := 0
  offset : Int := 0
  limit : Int := 0
  matchWithinWords : Bool := false
  authorUids : List Uid := []

structure MessageSearchResponse where
  seq : Nat
  success : Bool := false
  message : String := ""
  /-- In the order asked for. -/
  messages : List ChannelMessage := []
  hasMore : Bool := false
  nextCursor : Int := 0
  nextOffset : Int := 0
  total : Int := 0
  totalCapped : Bool := false
  textSkippedChannelIds : List String := []
  firstPage : Bool

/-- Whether the server can search, and what one may do in a channel. -/
structure SearchEnv where
  available : Bool
  channelPermissions : String → Permissions

def SearchEnv.MayRead (env : SearchEnv) (channelId : String) : Prop :=
  env.channelPermissions channelId &&& (Perms.kViewChannel ||| Perms.kReadHistory) =
    Perms.kViewChannel ||| Perms.kReadHistory

instance (env : SearchEnv) (channelId : String) : Decidable (env.MayRead channelId) :=
  inferInstanceAs (Decidable (_ = _))

/-- A request's texts: an expression for the index, or fragments. -/
structure SearchWords where
  words : Bytes
  contains : List Bytes
  excludes : List Bytes
  onlyExcluded : Bool

namespace MessageSearchRequest

variable (req : MessageSearchRequest)

def firstPage : Bool := req.cursor = 0 && req.offset = 0

def searchWords : SearchWords :=
  if req.matchWithinWords then
    let (contains, excludes) := splitFragments req.query
    ⟨[], contains, excludes, contains = [] && excludes ≠ []⟩
  else
    let (words, onlyExcluded) := buildFtsQuery req.query
    ⟨words, [], [], onlyExcluded⟩

def knownHas : BitVec 32 := req.has &&& SearchHas.kKnown

/-- The rows with a link. -/
def linkMatch : Bytes := utf8 "content : (\"http\" OR \"https\")"

/-- Links go by the index, too. -/
def expr : Bytes :=
  if req.knownHas &&& SearchHas.kLink ≠ 0 then
    if req.searchWords.words = [] then linkMatch
    else utf8 "(" ++ req.searchWords.words ++ utf8 ") AND " ++ linkMatch
  else req.searchWords.words

/-- Whether the request is for a text. -/
def isTextual : Bool := req.expr ≠ [] || req.searchWords.contains ≠ []

def people : List Uid := req.authorUids.filter (· ≠ 0)

/-- Why the request is refused, if it is. -/
def refusal (env : SearchEnv) : Option String :=
  if ! env.available then some "Search isn't available on this server."
  else if req.query.length > 512 then some "That search is too long."
  else if req.people.length > 10 then some "Search for at most 10 people at once."
  else if req.channelIds.length > 100 then some "Search at most 100 channels at once."
  else if req.after < 0 ∨ req.before < 0 ∨
      (req.after > 0 ∧ req.before > 0 ∧ req.after ≥ req.before) then
    some "That date range is empty."
  else if req.searchWords.onlyExcluded then
    some "Add a word to search for, not only words to leave out."
  else if req.searchWords.words = [] ∧ req.searchWords.contains = [] ∧ req.people = [] ∧
      req.knownHas = 0 ∧ req.after = 0 ∧ req.before = 0 ∧ req.channelIds = [] then
    some "Type a word to search for, or pick a filter."
  else none

/-- The text channels asked for that the requester can read. -/
def readable (t : Tables) (env : SearchEnv) : List DbChannel :=
  t.channels.rows.filter fun c =>
    c.type = .text ∧ (req.channelIds = [] ∨ c.id ∈ req.channelIds) ∧ env.MayRead c.id

/-- The search that is asked for; encrypted texts cannot be searched. -/
def spec (t : Tables) (env : SearchEnv) : SearchSpec where
  channels := ((req.readable t env).filter fun c => ! (req.isTextual && c.encrypted)).map (·.id)
  expr := req.expr
  contains := req.searchWords.contains
  excludes := req.searchWords.excludes
  authorUids := req.people.reverse.dedup.reverse
  after := req.after
  before := req.before
  has := req.knownHas
  sort := match req.sort with
    | .oldest => .oldest
    -- There is no ranking without the index.
    | .relevance => if req.matchWithinWords then .newest else .relevance
    | .newest => .newest
  cursor := max 0 req.cursor
  offset := req.offset.toNat
  limit := if req.limit ≤ 0 then 25 else min req.limit 50
  count := req.firstPage

end MessageSearchRequest

/-- An id's message, while it is there, in a readable channel. -/
def hydrate (t : Tables) (env : SearchEnv) (ids : List Int) (id : Int) : Option ChannelMessage :=
  if id ∈ ids.take 200 then
    ((t.messages.find? id).filter fun m => env.MayRead m.channelId).map fun m =>
      fillChannelMessage (t.readMessageRow m) (t.fetchAttachments m.id)
  else none

/-- The messages that go after `bytes`, the ids used up, and whether some did not fit; a first one
    goes. -/
def fillPage (lookup : Int → Option ChannelMessage) (bytes : Nat) (sent : Bool) :
    List Int → List ChannelMessage × Nat × Bool
  | [] => ([], 0, false)
  | id :: ids =>
    match lookup id with
    | none =>
      let (messages, consumed, cut) := fillPage lookup bytes sent ids
      (messages, consumed + 1, cut)
    | some m =>
      if sent ∧ bytes + m.byteSizeLong > maxResponseBytes then ([], 0, true)
      else
        let (messages, consumed, cut) := fillPage lookup (bytes + m.byteSizeLong) true ids
        (m :: messages, consumed + 1, cut)

/-- The answer to a search that is not refused. -/
def finishMessageSearch (t : Tables) (env : SearchEnv) (req : MessageSearchRequest)
    (out : SearchOutcome) : MessageSearchResponse :=
  let s := req.spec t env
  let (messages, consumed, cut) := fillPage (hydrate t env out.ids) 0 false out.ids
  { seq := req.seq
    success := true
    messages
    hasMore := out.hasMore || cut
    nextCursor := if s.relevance then 0
      else if consumed > 0 then out.ids.getD (consumed - 1) 0 else s.cursor
    nextOffset := if s.relevance then s.offset + consumed else 0
    total := out.total
    totalCapped := out.totalCapped
    textSkippedChannelIds :=
      ((req.readable t env).filter fun c => req.isTextual && c.encrypted).map (·.id)
    firstPage := req.firstPage }

def handleMessageSearch {Score : Type} [LinearOrder Score] (fts : Fts5 Score) (db : SearchDb)
    (env : SearchEnv) (req : MessageSearchRequest) : MessageSearchResponse :=
  match req.refusal env with
  | some why => { seq := req.seq, message := why, firstPage := req.firstPage }
  | none => finishMessageSearch db.tables env req (execute fts db (req.spec db.tables env))

end Decibell
