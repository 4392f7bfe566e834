import Decibell.Central.DirectMessages
import Decibell.Lib.Ordering

/-!
# The conversations of an account

The table `dm_conversations` has a row for each pair with the id of its newest message. An account
reads its conversations from there page by page, the newest first: the query joins each row to that
message, and what it found is cut to a byte budget.

* `DmTables.TellsNewest`: the table tells the truth.
-/

namespace Decibell.Central

open Lib List

/-! ## What the table says -/

/-- The largest of some numbers, if there are any. -/
def IsNewest (s : Int → Prop) : Option Int → Prop
  | none => ∀ x, ¬ s x
  | some newest => s newest ∧ ∀ x, s x → x ≤ newest

namespace DmTables

variable (t : DmTables)

/-- The id is that of a message of the pair. -/
def HasDm (p : DmPair) (id : Int) : Prop := ∃ m ∈ t.messages.rows, m.pair = p ∧ m.id = id

/-- A pair's newest message, as the conversations have it. -/
def lastId (p : DmPair) : Option Int := (t.conversations.find? p).map (·.lastId)

/-- A pair has a row exactly when it has messages, with their largest id. -/
def TellsNewest : Prop := ∀ p, IsNewest (t.HasDm p) (t.lastId p)

/-! ## The query -/

def dmConversationsPage : Nat := 200

/-- The other account of a conversation. -/
def peerOf (uid : Int) (c : DmConversation) : Int := if c.loUid = uid then c.hiUid else c.loUid

/-- The messages of a peer that the reader has not read. -/
def unreadCount (uid peerUid : Int) : Nat :=
  (t.messages.rows.filter fun d => d.recipientUid = uid ∧ d.senderUid = peerUid ∧
    t.readCursors uid peerUid < d.id).length

end DmTables

open DmTables

/-- A conversation as the query returns it. -/
structure DmConversationPreviewRow where
  peerUid : Int
  peer : String
  lastMessageContent : Bytes
  lastMessageSenderUid : Int
  lastMessageSender : String
  lastSentSender : String
  lastSentRecipient : String
  lastMessageId : Int
  lastTimestamp : Int
  unreadCount : Nat
  lastMessageEnvelope : Bytes

namespace DmTables

variable (t : DmTables) (uid : Int)

/-- The user's rows before a message (0: all), newest first, one more than a page. -/
def latest (beforeId : Int) : List DmConversation :=
  ((t.conversations.rows.filter fun c => (c.loUid = uid ∨ c.hiUid = uid) ∧
    (beforeId = 0 ∨ c.lastId < beforeId)).insertionSort fun x y => y.lastId ≤ x.lastId).take
      (dmConversationsPage + 1)

/-- A row with its newest message and names, if all of that is there. -/
def previewRow (c : DmConversation) : Option DmConversationPreviewRow :=
  (t.messages.find? c.lastId).bind fun m =>
    (t.users (peerOf uid c)).bind fun peer =>
      (t.users m.senderUid).map fun sender =>
        { peerUid := peerOf uid c
          peer
          lastMessageContent := dmText m.content dmPreviewMaxBytes
          lastMessageSenderUid := m.senderUid
          lastMessageSender := sender
          lastSentSender := m.sender
          lastSentRecipient := m.recipient
          lastMessageId := m.id
          lastTimestamp := m.sentAt
          unreadCount := t.unreadCount uid (peerOf uid c)
          lastMessageEnvelope := m.envelope.getD [] }

/-- A page of the user's conversations, and whether there are more. -/
def fetchDmConversations (beforeId : Int) : List DmConversationPreviewRow × Bool :=
  takePage dmConversationsPage ((t.latest uid beforeId).filterMap (t.previewRow uid))

end DmTables

/-! ## On the wire -/

structure DmConversationPreview where
  peer : String
  lastMessageContent : Bytes
  lastMessageSender : String
  lastMessageId : Int
  lastTimestamp : Int
  unreadCount : Nat
  lastMessageEnvelope : Bytes
  peerUid : Int
  lastMessageSenderUid : Int
  sealedSender : String
  sealedRecipient : String

def DmConversationPreview.ofRow (c : DmConversationPreviewRow) : DmConversationPreview where
  peer := c.peer
  lastMessageContent := c.lastMessageContent
  lastMessageSender := c.lastMessageSender
  lastMessageId := c.lastMessageId
  lastTimestamp := c.lastTimestamp
  unreadCount := c.unreadCount
  lastMessageEnvelope := c.lastMessageEnvelope
  peerUid := c.peerUid
  lastMessageSenderUid := c.lastMessageSenderUid
  sealedSender := if c.lastMessageEnvelope ≠ [] then c.lastSentSender else ""
  sealedRecipient := if c.lastMessageEnvelope ≠ [] then c.lastSentRecipient else ""

def DmConversationPreview.byteSizeLong (c : DmConversationPreview) : Nat :=
  bytesSize 1 c.peer.utf8ByteSize + bytesSize 2 c.lastMessageContent.length +
    bytesSize 3 c.lastMessageSender.utf8ByteSize + intSize 4 c.lastMessageId +
    intSize 5 c.lastTimestamp + intSize 6 c.unreadCount + bytesSize 7 c.lastMessageEnvelope.length +
    intSize 8 c.peerUid + intSize 9 c.lastMessageSenderUid +
    bytesSize 10 c.sealedSender.utf8ByteSize + bytesSize 11 c.sealedRecipient.utf8ByteSize

structure DmConversationsRes where
  conversations : List DmConversationPreview
  hasMore : Bool
  beforeId : Int

/-- The conversations before a message (0: the newest) that fit the budget, at least one. -/
def dmConversations (t : DmTables) (uid beforeId : Int) : DmConversationsRes :=
  let beforeId := max 0 beforeId
  let (convs, hasMore) := t.fetchDmConversations uid beforeId
  let previews := convs.map DmConversationPreview.ofRow
  let conversations := fitPage (·.byteSizeLong + 4) maxResponseBytes previews
  { conversations
    hasMore := hasMore || conversations.length < previews.length
    beforeId }

/-! ## Reading on -/

section Reading

variable (t : DmTables) (uid : Int)

/-- A page, by peer and newest message, and where to go on. -/
def conversationsPage (_ : Nat) (beforeId : Int) : List (Int × Int) × Option Int :=
  let res := dmConversations t uid beforeId
  (res.conversations.map fun c => (c.peerUid, c.lastMessageId),
    if res.hasMore then res.conversations.getLast?.map (·.lastMessageId) else none)

def followConversations (fuel : Nat) : Option (List (Int × Int)) :=
  follow (conversationsPage t uid) fuel 0 0

/-- The rows of the user, the newest first. -/
def conversationsOf : List DmConversation :=
  (t.conversations.rows.filter fun c => c.loUid = uid ∨ c.hiUid = uid).insertionSort
    fun x y => y.lastId ≤ x.lastId

/-- A conversation as its user knows it. -/
def shown (c : DmConversation) : Int × Int := (peerOf uid c, c.lastId)

end Reading

/-! ## A table that tells the truth -/

section Truth

variable {t : DmDb} {uid : Int}

theorem lastId_of_mem {c : DmConversation} (hc : c ∈ t.conversations.rows) :
    t.lastId c.pair = some c.lastId := by
  rw [DmTables.lastId, Table.find?_eq_some.2 ⟨hc, rfl⟩, Option.map_some]

theorem message_of_mem (h : t.TellsNewest) {c : DmConversation} (hc : c ∈ t.conversations.rows) :
    ∃ m ∈ t.messages.rows, m.pair = c.pair ∧ m.id = c.lastId := by
  have hnewest := h c.pair
  rw [lastId_of_mem hc] at hnewest
  exact hnewest.1

theorem eq_of_lastId (h : t.TellsNewest) {c d : DmConversation} (hc : c ∈ t.conversations.rows)
    (hd : d ∈ t.conversations.rows) (heq : c.lastId = d.lastId) : c = d := by
  obtain ⟨m, hm, hpair, hid⟩ := message_of_mem h hc
  obtain ⟨n, hn, hpair', hid'⟩ := message_of_mem h hd
  have hsame : m = n := inj_on_of_nodup_map t.messages.nodup hm hn (by rw [hid, hid', heq])
  refine inj_on_of_nodup_map t.conversations.nodup hc hd ?_
  rw [← hpair, ← hpair', hsame]

variable (uid) in
theorem previewRow_of_mem (h : t.TellsNewest) {c : DmConversation}
    (hc : c ∈ t.conversations.rows) :
    ∃ r, t.previewRow uid c = some r ∧ (r.peerUid, r.lastMessageId) = shown uid c := by
  obtain ⟨m, hm, hpair, hid⟩ := message_of_mem h hc
  obtain ⟨hsender, hrecipient⟩ := t.accounts m hm
  have hpeer : (t.users (peerOf uid c)).isSome := by
    rw [DmMessage.pair, pairOf, DmConversation.pair, Prod.mk.injEq] at hpair
    have hone : peerOf uid c = m.senderUid ∨ peerOf uid c = m.recipientUid := by
      rw [peerOf]
      split <;> omega
    rcases hone with heq | heq
    · rwa [heq]
    · rwa [heq]
  obtain ⟨sender, hsender⟩ := Option.isSome_iff_exists.1 hsender
  obtain ⟨peer, hpeer⟩ := Option.isSome_iff_exists.1 hpeer
  have hfind : t.messages.find? c.lastId = some m := Table.find?_eq_some.2 ⟨hm, hid⟩
  rw [DmTables.previewRow, hfind, Option.bind_some, hpeer, Option.bind_some, hsender,
    Option.map_some]
  exact ⟨_, rfl, congrArg _ hid⟩

/-- Newer first. -/
abbrev Newer (x y : DmConversation) : Prop := y.lastId < x.lastId

theorem mem_conversationsOf {t : DmTables} {uid : Int} {c : DmConversation} :
    c ∈ conversationsOf t uid ↔ c ∈ t.conversations.rows ∧ (c.loUid = uid ∨ c.hiUid = uid) := by
  rw [conversationsOf, mem_insertionSort, mem_filter, decide_eq_true_eq]

section Order

local instance : Std.Total fun x y : DmConversation => y.lastId ≤ x.lastId :=
  ⟨fun x y => Int.le_total y.lastId x.lastId⟩

local instance : IsTrans DmConversation fun x y => y.lastId ≤ x.lastId :=
  ⟨fun _ _ _ hxy hyz => Int.le_trans hyz hxy⟩

local instance : Std.Asymm Newer := ⟨fun _ _ => Int.lt_asymm⟩

theorem pairwise_conversationsOf (h : t.TellsNewest) :
    (conversationsOf t.toDmTables uid).Pairwise Newer := by
  have hnodup : (conversationsOf t.toDmTables uid).Nodup := by
    refine (perm_insertionSort _ _).nodup_iff.2 ?_
    exact (List.Nodup.of_map _ t.conversations.nodup).sublist filter_sublist
  refine ((pairwise_insertionSort _ _).and hnodup).imp_of_mem ?_
  rintro x y hx hy ⟨hle, hne⟩
  refine lt_of_le_of_ne hle fun heq => hne ?_
  exact (eq_of_lastId h (mem_conversationsOf.1 hy).1 (mem_conversationsOf.1 hx).1 heq).symm

theorem latest_eq (h : t.TellsNewest) (beforeId : Int) : t.latest uid beforeId =
    ((conversationsOf t.toDmTables uid).filter fun c => beforeId = 0 ∨ c.lastId < beforeId).take
      (dmConversationsPage + 1) := by
  rw [DmTables.latest, insertionSort_eq_of_perm]
  · have hsplit : (t.conversations.rows.filter fun c => (c.loUid = uid ∨ c.hiUid = uid) ∧
        (beforeId = 0 ∨ c.lastId < beforeId)) =
        (t.conversations.rows.filter fun c => c.loUid = uid ∨ c.hiUid = uid).filter
          fun c => beforeId = 0 ∨ c.lastId < beforeId := by
      rw [filter_filter]
      refine filter_congr fun c _ => ?_
      rw [Bool.and_comm, Bool.decide_and]
    rw [hsplit]
    exact ((perm_insertionSort _ _).filter _).symm
  · exact ((pairwise_conversationsOf h).imp Int.le_of_lt).filter _
  · intro x hx y hy hxy hyx
    exact eq_of_lastId h (mem_filter.1 hx).1 (mem_filter.1 hy).1 (Int.le_antisymm hyx hxy)

theorem filterMap_previewRow (h : t.TellsNewest) {l : List DmConversation}
    (hl : ∀ c ∈ l, c ∈ conversationsOf t.toDmTables uid) :
    (l.filterMap (t.previewRow uid)).map (fun r => (r.peerUid, r.lastMessageId)) =
      l.map (shown uid) := by
  induction l with
  | nil => rfl
  | cons c l ih =>
    obtain ⟨r, hr, hshown⟩ := previewRow_of_mem uid h
      (mem_conversationsOf.1 (hl c (.head _))).1
    rw [filterMap_cons_some hr, map_cons, map_cons, hshown,
      ih fun d hd => hl d (.tail _ hd)]

theorem positive_lastId (h : t.TellsNewest) {c : DmConversation}
    (hc : c ∈ conversationsOf t.toDmTables uid) : 0 < c.lastId := by
  obtain ⟨m, hm, -, hid⟩ := message_of_mem h (mem_conversationsOf.1 hc).1
  exact hid ▸ t.positive m hm

theorem fetchDmConversations_eq (h : t.TellsNewest) (beforeId : Int) {found : List DmConversation}
    (hfound : (conversationsOf t.toDmTables uid).filter
      (fun c => beforeId = 0 ∨ c.lastId < beforeId) = found) :
    (t.fetchDmConversations uid beforeId).1.map (fun r => (r.peerUid, r.lastMessageId)) =
        (takePage dmConversationsPage found).1.map (shown uid) ∧
      (t.fetchDmConversations uid beforeId).2 = (takePage dmConversationsPage found).2 := by
  have hshown : ((t.latest uid beforeId).filterMap (t.previewRow uid)).map
      (fun r => (r.peerUid, r.lastMessageId)) =
        (found.take (dmConversationsPage + 1)).map (shown uid) := by
    rw [latest_eq h, hfound]
    refine filterMap_previewRow h fun c hc => ?_
    rw [← hfound] at hc
    exact (mem_filter.1 (mem_of_mem_take hc)).1
  have hpage := congrArg (takePage dmConversationsPage) hshown
  rw [takePage_map, takePage_map, takePage_take] at hpage
  exact ⟨congrArg Prod.fst hpage, congrArg Prod.snd hpage⟩

variable (uid) in
theorem conversationsPage_eq (h : t.TellsNewest) (i : Nat) {beforeId : Int} (hbefore : 0 ≤ beforeId)
    {found : List DmConversation} (hfound : (conversationsOf t.toDmTables uid).filter
      (fun c => beforeId = 0 ∨ c.lastId < beforeId) = found) :
    ∃ count ≤ (takePage dmConversationsPage found).1.length,
      ((takePage dmConversationsPage found).1 ≠ [] → 0 < count) ∧
      conversationsPage t.toDmTables uid i beforeId =
        (((takePage dmConversationsPage found).1.take count).map (shown uid),
          if (takePage dmConversationsPage found).2 ||
              decide (count < (takePage dmConversationsPage found).1.length) then
            ((takePage dmConversationsPage found).1.take count).getLast?.map (·.lastId)
          else none) := by
  obtain ⟨hrows, hmore⟩ := fetchDmConversations_eq h beforeId hfound
  generalize takePage dmConversationsPage found = page at hrows hmore ⊢
  generalize hpreviews : (t.fetchDmConversations uid beforeId).1.map DmConversationPreview.ofRow =
    previews
  have hshown : previews.map (fun c => (c.peerUid, c.lastMessageId)) = page.1.map (shown uid) := by
    rw [← hrows, ← hpreviews, map_map]
    rfl
  have hlength : previews.length = page.1.length := by
    simpa using congrArg List.length hshown
  have hprefix : fitPage (·.byteSizeLong + 4) maxResponseBytes previews <+: previews :=
    fitPage_isPrefix previews
  have hres : dmConversations t.toDmTables uid beforeId =
      { conversations := fitPage (·.byteSizeLong + 4) maxResponseBytes previews
        hasMore := page.2 || decide ((fitPage (·.byteSizeLong + 4) maxResponseBytes previews).length <
          page.1.length)
        beforeId } := by
    rw [dmConversations, Int.max_eq_right hbefore, ← hmore, ← hlength, ← hpreviews]
  have hpage : (fitPage (·.byteSizeLong + 4) maxResponseBytes previews).map
      (fun c => (c.peerUid, c.lastMessageId)) =
        (page.1.take (fitPage (·.byteSizeLong + 4) maxResponseBytes previews).length).map
          (shown uid) := by
    rw [map_take, ← hshown, ← map_take, ← prefix_iff_eq_take.1 hprefix]
  have hlast := congrArg (fun l => l.getLast?.map Prod.snd) hpage
  simp only [getLast?_map, Option.map_map] at hlast
  refine ⟨_, hlength ▸ hprefix.length_le, fun hne => ?_, ?_⟩
  · refine length_pos_of_ne_nil (fitPage_ne_nil fun hnil => hne ?_)
    rw [hnil] at hlength
    exact eq_nil_of_length_eq_zero hlength.symm
  · rw [conversationsPage, hres]
    dsimp only
    rw [hpage]
    congr 2

theorem serves_conversationsPage (h : t.TellsNewest) (i : Nat) {beforeId : Int}
    (hbefore : 0 ≤ beforeId) :
    Serves (fun c => ((conversationsOf t.toDmTables uid).filter
        fun d => c = 0 ∨ d.lastId < c).map (shown uid)) (0 ≤ ·) beforeId
      (conversationsPage t.toDmTables uid i beforeId) := by
  obtain ⟨count, hcount, hpos, hpage⟩ := conversationsPage_eq uid h i hbefore rfl
  have hfetched := IsWindow.fetched (by decide : 0 < dmConversationsPage) []
    ((conversationsOf t.toDmTables uid).filter fun c => beforeId = 0 ∨ c.lastId < beforeId)
  rw [takePage_nil, drop_nil] at hfetched
  have hkeep := hfetched.keepFirst count hcount hpos
  have hserves := hkeep.serves_after (fun c => (conversationsOf t.toDmTables uid).filter
    fun d => c = 0 ∨ d.lastId < c) (0 ≤ ·) DmConversation.lastId (pairwise_conversationsOf h) ?_ rfl
    fun c hc => ?_
  · rw [hpage]
    exact hserves.map (shown uid)
  · intro y z hy hlt
    simp only [decide_eq_true_eq] at hy ⊢
    omega
  · have hpos := positive_lastId h hc
    refine ⟨Int.le_of_lt hpos, filter_congr fun d _ => ?_⟩
    simp [Newer, Int.ne_of_gt hpos]

end Order

/-- Over tables that name the newest messages, following the pages ends having read each
    conversation of the user once, newest first, whatever the budget cuts. -/
theorem conversations_page_completely (h : t.TellsNewest) (uid : Int) {fuel : Nat}
    (hfuel : (conversationsOf t.toDmTables uid).length < fuel) :
    followConversations t.toDmTables uid fuel =
      some ((conversationsOf t.toDmTables uid).map (shown uid)) := by
  have hall : (conversationsOf t.toDmTables uid).filter
      (fun d => (0 : Int) = 0 ∨ d.lastId < 0) = conversationsOf t.toDmTables uid := by
    rw [filter_eq_self]
    exact fun _ _ => rfl
  rw [followConversations, follow_eq_some (fun i _ hc => serves_conversationsPage h i hc) 0
    (Int.le_refl 0), hall]
  rw [hall, length_map]
  exact hfuel

end Truth

end Decibell.Central
