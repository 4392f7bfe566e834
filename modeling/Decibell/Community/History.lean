import Decibell.Community.Authz
import Decibell.Community.Messages
import Decibell.Lib.Ordering
import Decibell.Lib.Paging

/-!
# The history of a channel

A client reads the history of a channel page by page: from the newest message back, from a message
on, or around one and then both ways. A page is cut by a row limit and by a budget of bytes, at the
end that is farther from where the client reads.
-/

namespace Decibell

open Lib List

/-! ## The queries -/

/-- The row limit of a page: what the client asks for, up to a cap. -/
def clampLimit (default cap limit : Int) : Nat :=
  let limit := if limit ≤ 0 then default else limit
  let limit := if limit > cap then cap else limit
  limit.toNat

namespace Tables

variable (t : Tables)

/-- `SELECT … WHERE channel_id = ? AND … ORDER BY id ASC`. -/
def selectAsc (channelId : String) (p : Int → Bool) : List FetchedMessage :=
  ((t.messages.rows.filter fun m => m.channelId = channelId ∧ p m.id).insertionSort
    (·.id ≤ ·.id)).map t.readMessageRow

/-- `SELECT … WHERE channel_id = ? AND … ORDER BY id DESC`. -/
def selectDesc (channelId : String) (p : Int → Bool) : List FetchedMessage :=
  ((t.messages.rows.filter fun m => m.channelId = channelId ∧ p m.id).insertionSort
    (fun a b => b.id ≤ a.id)).map t.readMessageRow

/-- The newest messages before `beforeId`, if given, newest first; whether there are older. -/
def fetchMessages (channelId : String) (beforeId limit : Int) : List FetchedMessage × Bool :=
  takePage (clampLimit 50 200 limit) (t.selectDesc channelId fun id => beforeId ≤ 0 ∨ id < beforeId)

/-- The messages after one; and whether there are newer ones. -/
def fetchMessagesAfter (channelId : String) (afterId limit : Int) : List FetchedMessage × Bool :=
  takePage (clampLimit 50 200 limit) (t.selectAsc channelId (afterId < ·))

/-- The messages up to one, and after; whether there are others. -/
def fetchMessagesAround (channelId : String) (aroundId limit : Int) :
    List FetchedMessage × Bool × Bool :=
  let limit := clampLimit 25 100 limit
  let (older, hasMoreBefore) := takePage limit (t.selectDesc channelId (· ≤ aroundId))
  let (newer, hasMoreAfter) := takePage limit (t.selectAsc channelId (aroundId < ·))
  (older.reverse ++ newer, hasMoreBefore, hasMoreAfter)

end Tables

/-! ## The request -/

structure ChannelHistoryRequest where
  channelId : String
  /-- Messages older than this one; 0 for the newest. -/
  beforeId : Int := 0
  limit : Int := 0
  /-- Messages around this one, whatever the other ids are. -/
  aroundId : Int := 0
  /-- Messages newer than this one. -/
  afterId : Int := 0

structure ChannelHistoryResponse where
  channelId : String
  /-- The oldest first. -/
  messages : List ChannelMessage := []
  /-- There are older messages. -/
  hasMore : Bool := false
  /-- There are newer messages. -/
  hasMoreAfter : Bool := false
  aroundId : Int := 0
  afterId : Int := 0
  beforeId : Int

/-- Who asks, what they may do, and recent nonces. -/
structure HistoryEnv where
  uid : Uid
  check : Action → AuthCtx → AuthResult
  recentNonce : Int → Uid → Bytes

/-- The requester's message; their own recent ones carry the nonce. -/
def HistoryEnv.build (env : HistoryEnv) (t : Tables) (m : FetchedMessage) : ChannelMessage :=
  let built := fillChannelMessage m (t.fetchAttachments m.id)
  if m.senderUid = env.uid then { built with nonce := env.recentNonce m.id env.uid } else built

/-- Cuts rows to the budget: older ones left out, those that go, newer ones left out. Around a
    message its row surely goes. -/
def cutPage (req : ChannelHistoryRequest) (built : List ChannelMessage) :
    List ChannelMessage × List ChannelMessage × List ChannelMessage :=
  if req.aroundId > 0 then
    let anchor := (built.takeWhile (·.id ≤ req.aroundId)).length - 1
    let older := built.take anchor
    match built.drop anchor with
    | [] => ([], [], [])
    | m :: newer =>
      let grown := growPage (·.byteSizeLong) maxResponseBytes m.byteSizeLong older.reverse newer
      (older.take (older.length - grown.1.length), grown.1.reverse ++ m :: grown.2,
        newer.drop grown.2.length)
  else if req.afterId > 0 then
    let page := fitPage (·.byteSizeLong) maxResponseBytes built
    ([], page, built.drop page.length)
  else
    let page := fitPage (·.byteSizeLong) maxResponseBytes built.reverse
    (built.take (built.length - page.length), page.reverse, [])

/-- The rows asked for, oldest first, and whether there are others. -/
def fetchHistory (t : Tables) (req : ChannelHistoryRequest) : List FetchedMessage × Bool × Bool :=
  if req.aroundId > 0 then
    t.fetchMessagesAround req.channelId req.aroundId (if req.limit > 0 then req.limit else 25)
  else if req.afterId > 0 then
    let (msgs, hasMoreAfter) := t.fetchMessagesAfter req.channelId req.afterId req.limit
    (msgs, false, hasMoreAfter)
  else
    let (desc, hasMore) := t.fetchMessages req.channelId req.beforeId req.limit
    (desc.reverse, hasMore, false)

def channelHistory (t : Tables) (env : HistoryEnv) (req : ChannelHistoryRequest) :
    ChannelHistoryResponse :=
  if ! (env.check .readHistory { user := env.uid, channelId := req.channelId }).ok then
    { channelId := req.channelId, beforeId := req.beforeId }
  else
    let (msgs, hasMore, hasMoreAfter) := fetchHistory t req
    let (older, messages, newer) := cutPage req (msgs.map (env.build t))
    { channelId := req.channelId
      messages
      hasMore := hasMore || ! older.isEmpty
      hasMoreAfter := hasMoreAfter || ! newer.isEmpty
      aroundId := req.aroundId
      afterId := req.afterId
      beforeId := req.beforeId }

/-- The ids of a page. -/
def ChannelHistoryResponse.ids (res : ChannelHistoryResponse) : List Int := res.messages.map (·.id)

/-! ## Reading on -/

section Reading

variable (t : Tables) (env : Nat → HistoryEnv) (channelId : String) (limit : Nat → Int)

/-- The messages before an id (0: all), newest first, and where to go on. -/
def olderPage (i : Nat) (beforeId : Int) : List Int × Option Int :=
  let res := channelHistory t (env i) { channelId, beforeId, limit := limit i }
  (res.ids.reverse, if res.hasMore then res.ids.head? else none)

/-- The messages after an id, and where to go on. -/
def newerPage (i : Nat) (afterId : Int) : List Int × Option Int :=
  let res := channelHistory t (env i) { channelId, afterId, limit := limit i }
  (res.ids, if res.hasMoreAfter then res.ids.getLast? else none)

def followOlder (fuel : Nat) (beforeId : Int) : Option (List Int) :=
  (follow (olderPage t env channelId limit) fuel 0 beforeId).map List.reverse

def followNewer (fuel : Nat) (afterId : Int) : Option (List Int) :=
  follow (newerPage t env channelId limit) fuel 0 afterId

/-- The messages around an id, with all that are older and newer. -/
def followAround (fuel : Nat) (first : HistoryEnv) (aroundId firstLimit : Int) :
    Option (List Int) :=
  let res := channelHistory t first { channelId, aroundId, limit := firstLimit }
  let older := if res.hasMore then res.ids.head?.bind (followOlder t env channelId limit fuel)
    else some []
  let newer := if res.hasMoreAfter then
      res.ids.getLast?.bind (followNewer t env channelId limit fuel)
    else some []
  older.bind fun older => newer.map fun newer => older ++ res.ids ++ newer

/-- The ids of the messages of a channel, the oldest first. -/
def channelIds : List Int :=
  ((t.messages.rows.filter (·.channelId = channelId)).map (·.id)).insertionSort (· ≤ ·)

end Reading

/-! ## What a request finds -/

variable {t : Tables} {channelId : String}

theorem pairwise_channelIds : (channelIds t channelId).Pairwise (· < ·) := by
  have hnodup : (channelIds t channelId).Nodup := by
    refine (perm_insertionSort _ _).nodup_iff.2 ?_
    exact t.messages.nodup.sublist (filter_sublist.map _)
  refine (pairwise_insertionSort (· ≤ ·) _).imp₂ (fun a b hle hne => ?_) hnodup
  exact lt_of_le_of_ne hle hne

theorem mem_channelIds {id : Int} :
    id ∈ channelIds t channelId ↔ ∃ m ∈ t.messages.rows, m.channelId = channelId ∧ m.id = id := by
  simp [channelIds, and_assoc]

theorem pos_of_mem_channelIds (hids : ∀ m ∈ t.messages.rows, 0 < m.id) {id : Int}
    (h : id ∈ channelIds t channelId) : 0 < id := by
  obtain ⟨m, hm, -, rfl⟩ := mem_channelIds.1 h
  exact hids m hm

theorem map_id_filter (l : List DbMessage) (p : Int → Bool) :
    (l.filter fun m => m.channelId = channelId ∧ p m.id).map (·.id) =
      ((l.filter (·.channelId = channelId)).map (·.id)).filter p := by
  rw [filter_map, filter_filter]
  congr 1
  refine filter_congr fun m _ => ?_
  by_cases hp : p m.id <;> simp [hp]

theorem ids_selectAsc (p : Int → Bool) :
    (t.selectAsc channelId p).map (·.id) = (channelIds t channelId).filter p := by
  have hids : (fun m => m.id) ∘ t.readMessageRow = (·.id) := rfl
  rw [Tables.selectAsc, map_map, hids, map_insertionSort _ (s := (· ≤ ·)) _ _ fun _ _ _ _ => Iff.rfl,
    map_id_filter, insertionSort_filter]
  rfl

theorem ids_selectDesc (p : Int → Bool) :
    (t.selectDesc channelId p).map (·.id) = ((channelIds t channelId).filter p).reverse := by
  have hids : (fun m => m.id) ∘ t.readMessageRow = (·.id) := rfl
  rw [Tables.selectDesc, map_map, hids,
    map_insertionSort _ (s := fun a b => b ≤ a) _ _ fun _ _ _ _ => Iff.rfl, map_id_filter,
    insertionSort_swap (r := (· ≤ ·)), insertionSort_filter]
  rfl

theorem build_id (env : HistoryEnv) (m : FetchedMessage) : (env.build t m).id = m.id := by
  unfold HistoryEnv.build
  dsimp only
  split <;> rfl

/-! ## What is cut -/

/-- The rows that go are one piece, at least one, within the budget or single. -/
structure IsCut (built : List ChannelMessage)
    (cut : List ChannelMessage × List ChannelMessage × List ChannelMessage) : Prop where
  parts : cut.1 ++ cut.2.1 ++ cut.2.2 = built
  goes : built ≠ [] → cut.2.1 ≠ []
  within : (cut.2.1.map (·.byteSizeLong)).sum ≤ maxResponseBytes ∨ cut.2.1.length ≤ 1

theorem cutPage_around {req : ChannelHistoryRequest} (h : req.aroundId > 0)
    (built : List ChannelMessage) : IsCut built (cutPage req built) := by
  unfold cutPage
  rw [if_pos h]
  dsimp only
  have hanchor : built ≠ [] →
      built.drop ((built.takeWhile (·.id ≤ req.aroundId)).length - 1) ≠ [] := by
    intro hne hnil
    have hle := (List.takeWhile_prefix (l := built) fun m => m.id ≤ req.aroundId).length_le
    have hpos := length_pos_of_ne_nil hne
    rw [drop_eq_nil_iff] at hnil
    omega
  generalize (built.takeWhile (·.id ≤ req.aroundId)).length - 1 = anchor at hanchor
  have hsplit := take_append_drop anchor built
  split
  · rename_i hnil
    have hempty : built = [] := Decidable.not_not.1 fun hne => hanchor hne hnil
    subst hempty
    exact ⟨rfl, fun hne => absurd rfl hne, .inr (Nat.zero_le _)⟩
  · rename_i m newer hdrop
    obtain ⟨hold, hnew⟩ := growPage_isPrefix (·.byteSizeLong) maxResponseBytes
      m.byteSizeLong (built.take anchor).reverse newer
    generalize hgrown : growPage (·.byteSizeLong) maxResponseBytes m.byteSizeLong
      (built.take anchor).reverse newer = grown at hold hnew
    refine ⟨?_, fun _ => ?_, ?_⟩
    · calc _ = ((built.take anchor).take ((built.take anchor).length - grown.1.length) ++
              grown.1.reverse) ++ m :: (grown.2 ++ newer.drop grown.2.length) := by
            simp only [append_assoc, cons_append]
        _ = built.take anchor ++ m :: newer := by
            rw [take_append_reverse hold, prefix_iff_eq_append.1 hnew]
        _ = built := by rw [← hdrop, hsplit]
    · exact append_ne_nil_of_right_ne_nil _ (cons_ne_nil _ _)
    · by_cases hsize : m.byteSizeLong ≤ maxResponseBytes
      · have hsum := sum_growPage_le (·.byteSizeLong) hsize (built.take anchor).reverse newer
        rw [hgrown] at hsum
        refine .inl ?_
        dsimp only
        rw [map_append, map_reverse, map_cons, sum_append, sum_reverse,
          sum_cons]
        omega
      · rw [growPage_of_lt (Nat.lt_of_not_le hsize)] at hgrown
        subst hgrown
        exact .inr (Nat.le_refl 1)

theorem fitPage_goes {l : List ChannelMessage} :
    ((fitPage (·.byteSizeLong) maxResponseBytes l).map (·.byteSizeLong)).sum ≤ maxResponseBytes ∨
      (fitPage (·.byteSizeLong) maxResponseBytes l).length ≤ 1 := by
  rcases fitPage_within (·.byteSizeLong) maxResponseBytes l with
    hwithin | hone | hnil
  · exact .inl hwithin
  · exact .inr hone.le
  · exact .inr (by rw [hnil]; exact Nat.zero_le _)

theorem cutPage_newer {req : ChannelHistoryRequest} (haround : ¬ req.aroundId > 0)
    (hafter : req.afterId > 0) (built : List ChannelMessage) :
    IsCut built (cutPage req built) ∧ (cutPage req built).1 = [] := by
  unfold cutPage
  rw [if_neg haround, if_pos hafter]
  exact ⟨⟨prefix_iff_eq_append.1 (fitPage_isPrefix built), fun hne => fitPage_ne_nil hne,
    fitPage_goes⟩, rfl⟩

theorem cutPage_older {req : ChannelHistoryRequest} (haround : ¬ req.aroundId > 0)
    (hafter : ¬ req.afterId > 0) (built : List ChannelMessage) :
    IsCut built (cutPage req built) ∧ (cutPage req built).2.2 = [] := by
  unfold cutPage
  rw [if_neg haround, if_neg hafter]
  refine ⟨⟨?_, fun hne => ?_, ?_⟩, rfl⟩
  · rw [append_nil]
    exact take_append_reverse (fitPage_isPrefix built.reverse)
  · exact mt reverse_eq_nil_iff.1 (fitPage_ne_nil (mt reverse_eq_nil_iff.1 hne))
  · simp only [map_reverse, sum_reverse, length_reverse]
    exact fitPage_goes

theorem isCut_cutPage (req : ChannelHistoryRequest) (built : List ChannelMessage) :
    IsCut built (cutPage req built) := by
  by_cases haround : req.aroundId > 0
  · exact cutPage_around haround built
  by_cases hafter : req.afterId > 0
  · exact (cutPage_newer haround hafter built).1
  · exact (cutPage_older haround hafter built).1

/-! ## What is answered -/

def HistoryEnv.MayRead (env : HistoryEnv) (channelId : String) : Prop :=
  (env.check .readHistory { user := env.uid, channelId }).ok

/-- The answer has a part of the rows, from `older` to `newer`, as its flags say. -/
structure Answers (found : List Int) (older newer : List Int) (res : ChannelHistoryResponse) :
    Prop where
  parts : found = older ++ res.ids ++ newer
  hasMore : res.hasMore = true ↔ older ≠ []
  hasMoreAfter : res.hasMoreAfter = true ↔ newer ≠ []
  goes : found ≠ [] → res.ids ≠ []

theorem Answers.window {found older newer : List Int} {res : ChannelHistoryResponse}
    (h : Answers found older newer res) :
    IsWindow found older res.ids newer res.hasMore res.hasMoreAfter :=
  ⟨h.parts, h.hasMore, h.hasMoreAfter, h.goes⟩

theorem channelHistory_of_mayRead {env : HistoryEnv} {req : ChannelHistoryRequest}
    (h : env.MayRead req.channelId) : channelHistory t env req =
      let fetched := fetchHistory t req
      let cut := cutPage req (fetched.1.map (env.build t))
      { channelId := req.channelId
        messages := cut.2.1
        hasMore := fetched.2.1 || ! cut.1.isEmpty
        hasMoreAfter := fetched.2.2 || ! cut.2.2.isEmpty
        aroundId := req.aroundId
        afterId := req.afterId
        beforeId := req.beforeId } := by
  have hok : (! (env.check .readHistory { user := env.uid, channelId := req.channelId }).ok) = false := by
    rw [Bool.not_eq_false']
    exact h
  unfold channelHistory
  rw [hok]
  rfl

theorem answers_of_fetched {env : HistoryEnv} {req : ChannelHistoryRequest}
    (h : env.MayRead req.channelId) {found older newer : List Int}
    (hfound : found = older ++ (fetchHistory t req).1.map (·.id) ++ newer)
    (hmore : (fetchHistory t req).2.1 = true ↔ older ≠ [])
    (hafter : (fetchHistory t req).2.2 = true ↔ newer ≠ [])
    (hgoes : found ≠ [] → (fetchHistory t req).1 ≠ []) :
    ∃ older' newer', Answers found older' newer' (channelHistory t env req) ∧
      ((cutPage req ((fetchHistory t req).1.map (env.build t))).1 = [] → older' = older) ∧
      ((cutPage req ((fetchHistory t req).1.map (env.build t))).2.2 = [] → newer' = newer) := by
  have hcut := isCut_cutPage req ((fetchHistory t req).1.map (env.build t))
  have hids := congrArg (List.map (·.id)) hcut.parts
  rw [map_map, map_append, map_append] at hids
  have hbuilt : (fun m => m.id) ∘ env.build t = (·.id) := funext (build_id env)
  rw [hbuilt] at hids
  rw [channelHistory_of_mayRead h]
  dsimp only
  generalize cutPage req ((fetchHistory t req).1.map (env.build t)) = cut at *
  refine ⟨older ++ cut.1.map (·.id), cut.2.2.map (·.id) ++ newer, ⟨?_, ?_, ?_, ?_⟩, ?_, ?_⟩
  · rw [hfound, ← hids]
    simp [ChannelHistoryResponse.ids, append_assoc]
  · simp [hmore, imp_iff_not_or]
  · simp [hafter, imp_iff_not_or, or_comm]
  · intro hne hnil
    refine hcut.goes ?_ (map_eq_nil_iff.1 hnil)
    exact mt map_eq_nil_iff.1 (hgoes hne)
  · intro hnil
    rw [hnil, map_nil, append_nil]
  · intro hnil
    rw [hnil, map_nil, nil_append]

/-! ## The three ways to ask -/

theorem clampLimit_pos {default cap : Int} (hdefault : 0 < default) (hcap : 0 < cap) (limit : Int) :
    0 < clampLimit default cap limit := by
  unfold clampLimit
  dsimp only
  split <;> split <;> omega

theorem answers_older {env : HistoryEnv} (h : env.MayRead channelId) (beforeId limit : Int) :
    ∃ older, Answers ((channelIds t channelId).filter fun id => beforeId ≤ 0 ∨ id < beforeId) older []
      (channelHistory t env { channelId, beforeId, limit }) := by
  generalize hreq : ({ channelId, beforeId, limit } : ChannelHistoryRequest) = req
  have hread : env.MayRead req.channelId := by rw [← hreq]; exact h
  have hfetched : fetchHistory t req = ((t.fetchMessages channelId beforeId limit).1.reverse,
      (t.fetchMessages channelId beforeId limit).2, false) := by
    rw [← hreq]
    rfl
  generalize hp : (fun id => decide (beforeId ≤ 0 ∨ id < beforeId)) = p
  have hids : (t.selectDesc channelId p).map (·.id) = ((channelIds t channelId).filter p).reverse :=
    ids_selectDesc p
  have hrows : t.fetchMessages channelId beforeId limit =
      takePage (clampLimit 50 200 limit) (t.selectDesc channelId p) := by
    rw [← hp]
    rfl
  obtain ⟨hmore, htake⟩ := takePage_rest (clampLimit 50 200 limit) (t.selectDesc channelId p)
  rw [hrows] at hfetched
  generalize t.selectDesc channelId p = rows at *
  generalize hn : clampLimit 50 200 limit = n at *
  have hpos : 0 < n := hn ▸ clampLimit_pos (by decide) (by decide) limit
  have hrev : (channelIds t channelId).filter p = (rows.map (·.id)).reverse := by
    rw [hids, reverse_reverse]
  have hparts : (channelIds t channelId).filter p = ((rows.drop n).map (·.id)).reverse ++
      (fetchHistory t req).1.map (·.id) ++ [] := by
    rw [hrev, hfetched, append_nil, htake, map_reverse, ← reverse_append,
      ← map_append, take_append_drop]
  have hflag : (fetchHistory t req).2.1 = true ↔ ((rows.drop n).map (·.id)).reverse ≠ [] := by
    rw [hfetched, ne_eq, reverse_eq_nil_iff, map_eq_nil_iff]
    exact hmore
  have hnone : (fetchHistory t req).2.2 = true ↔ ([] : List Int) ≠ [] := by
    rw [hfetched]
    exact ⟨nofun, fun hne => absurd rfl hne⟩
  have hgoes : (channelIds t channelId).filter p ≠ [] → (fetchHistory t req).1 ≠ [] := by
    intro hne
    rw [hfetched, htake, ne_eq, reverse_eq_nil_iff]
    refine take_ne_nil hpos fun hnil => hne ?_
    rw [hrev, hnil]
    rfl
  have hcut : (cutPage req ((fetchHistory t req).1.map (env.build t))).2.2 = [] :=
    (cutPage_older (by rw [← hreq]; exact lt_irrefl 0) (by rw [← hreq]; exact lt_irrefl 0) _).2
  obtain ⟨older, newer, hans, -, hnewer⟩ :=
    answers_of_fetched hread hparts hflag hnone hgoes
  rw [hnewer hcut] at hans
  exact ⟨older, hans⟩

theorem answers_newer {env : HistoryEnv} (h : env.MayRead channelId) {afterId : Int}
    (hafter : 0 < afterId) (limit : Int) :
    ∃ newer, Answers ((channelIds t channelId).filter (afterId < ·)) [] newer
      (channelHistory t env { channelId, afterId, limit }) := by
  generalize hreq : ({ channelId, afterId, limit } : ChannelHistoryRequest) = req
  have hread : env.MayRead req.channelId := by rw [← hreq]; exact h
  have haround : ¬ req.aroundId > 0 := by rw [← hreq]; exact lt_irrefl 0
  have hid : req.afterId > 0 := by rw [← hreq]; exact hafter
  have hfetched : fetchHistory t req = ((t.fetchMessagesAfter channelId afterId limit).1, false,
      (t.fetchMessagesAfter channelId afterId limit).2) := by
    rw [fetchHistory, if_neg haround, if_pos hid, ← hreq]
  have hids : (t.selectAsc channelId (afterId < ·)).map (·.id) =
      (channelIds t channelId).filter (afterId < ·) := ids_selectAsc _
  obtain ⟨hmore, htake⟩ := takePage_rest (clampLimit 50 200 limit) (t.selectAsc channelId (afterId < ·))
  rw [Tables.fetchMessagesAfter] at hfetched
  generalize t.selectAsc channelId (afterId < ·) = rows at *
  generalize hn : clampLimit 50 200 limit = n at *
  have hpos : 0 < n := hn ▸ clampLimit_pos (by decide) (by decide) limit
  have hparts : (channelIds t channelId).filter (afterId < ·) =
      [] ++ (fetchHistory t req).1.map (·.id) ++ (rows.drop n).map (·.id) := by
    rw [← hids, hfetched, nil_append, htake, ← map_append, take_append_drop]
  have hnone : (fetchHistory t req).2.1 = true ↔ ([] : List Int) ≠ [] := by
    rw [hfetched]
    exact ⟨nofun, fun hne => absurd rfl hne⟩
  have hflag : (fetchHistory t req).2.2 = true ↔ (rows.drop n).map (·.id) ≠ [] := by
    rw [hfetched, ne_eq, map_eq_nil_iff]
    exact hmore
  have hgoes : (channelIds t channelId).filter (afterId < ·) ≠ [] → (fetchHistory t req).1 ≠ [] := by
    intro hne
    rw [hfetched, htake]
    refine take_ne_nil hpos fun hnil => hne ?_
    rw [← hids, hnil]
    rfl
  obtain ⟨older, newer, hans, holder, -⟩ := answers_of_fetched hread hparts hnone hflag hgoes
  rw [holder (cutPage_newer haround hid _).2] at hans
  exact ⟨newer, hans⟩

theorem answers_around {env : HistoryEnv} (h : env.MayRead channelId) {aroundId : Int}
    (haround : 0 < aroundId) (limit : Int) :
    ∃ older newer, Answers (channelIds t channelId) older newer
      (channelHistory t env { channelId, aroundId, limit }) := by
  generalize hreq : ({ channelId, aroundId, limit } : ChannelHistoryRequest) = req
  have hread : env.MayRead req.channelId := by rw [← hreq]; exact h
  have hid : req.aroundId > 0 := by rw [← hreq]; exact haround
  have hfetched : fetchHistory t req = t.fetchMessagesAround channelId aroundId
      (if limit > 0 then limit else 25) := by
    rw [fetchHistory, if_pos hid, ← hreq]
  generalize (if limit > 0 then limit else 25) = limit' at hfetched
  have hdesc : (t.selectDesc channelId (· ≤ aroundId)).map (·.id) =
      ((channelIds t channelId).filter (· ≤ aroundId)).reverse := ids_selectDesc _
  have hasc : (t.selectAsc channelId (aroundId < ·)).map (·.id) =
      (channelIds t channelId).filter (aroundId < ·) := ids_selectAsc _
  have hfetched' : fetchHistory t req =
      ((takePage (clampLimit 25 100 limit') (t.selectDesc channelId (· ≤ aroundId))).1.reverse ++
        (takePage (clampLimit 25 100 limit') (t.selectAsc channelId (aroundId < ·))).1,
      (takePage (clampLimit 25 100 limit') (t.selectDesc channelId (· ≤ aroundId))).2,
      (takePage (clampLimit 25 100 limit') (t.selectAsc channelId (aroundId < ·))).2) := hfetched
  clear hfetched
  generalize hn : clampLimit 25 100 limit' = n at *
  have hpos : 0 < n := hn ▸ clampLimit_pos (by decide) (by decide) limit'
  generalize t.selectDesc channelId (· ≤ aroundId) = upto at *
  generalize t.selectAsc channelId (aroundId < ·) = beyond at *
  obtain ⟨hmore, htake⟩ := takePage_rest n upto
  obtain ⟨hmore', htake'⟩ := takePage_rest n beyond
  have hall : channelIds t channelId = (upto.map (·.id)).reverse ++ beyond.map (·.id) := by
    rw [hdesc, hasc, reverse_reverse]
    exact (filter_append_filter_lt pairwise_channelIds aroundId).symm
  have hparts : channelIds t channelId = ((upto.drop n).map (·.id)).reverse ++
      (fetchHistory t req).1.map (·.id) ++ (beyond.drop n).map (·.id) := by
    calc channelIds t channelId
        = ((upto.take n ++ upto.drop n).map (·.id)).reverse ++
            (beyond.take n ++ beyond.drop n).map (·.id) := by
          rw [take_append_drop, take_append_drop, hall]
      _ = _ := by
          rw [hfetched', htake, htake']
          simp only [map_append, reverse_append, map_reverse, append_assoc]
  have hflag : (fetchHistory t req).2.1 = true ↔ ((upto.drop n).map (·.id)).reverse ≠ [] := by
    rw [hfetched', ne_eq, reverse_eq_nil_iff, map_eq_nil_iff]
    exact hmore
  have hflag' : (fetchHistory t req).2.2 = true ↔ (beyond.drop n).map (·.id) ≠ [] := by
    rw [hfetched', ne_eq, map_eq_nil_iff]
    exact hmore'
  have hgoes : channelIds t channelId ≠ [] → (fetchHistory t req).1 ≠ [] := by
    intro hne
    rw [hfetched', htake, htake']
    by_cases hupto : upto = []
    · refine append_ne_nil_of_right_ne_nil _ (take_ne_nil hpos fun hnil => hne ?_)
      rw [hall, hupto, hnil]
      rfl
    · exact append_ne_nil_of_left_ne_nil
        (mt reverse_eq_nil_iff.1 (take_ne_nil hpos hupto)) _
  obtain ⟨older, newer, hans, -, -⟩ := answers_of_fetched hread hparts hflag hflag' hgoes
  exact ⟨older, newer, hans⟩

/-! ## Following the pages -/

section Following

variable {env : Nat → HistoryEnv} {limit : Nat → Int}

theorem serves_olderPage (hids : ∀ m ∈ t.messages.rows, 0 < m.id)
    (hread : ∀ i, (env i).MayRead channelId) (i : Nat) (beforeId : Int) :
    Serves (fun c => ((channelIds t channelId).filter fun id => c ≤ 0 ∨ id < c).reverse)
      (fun _ => True) beforeId (olderPage t env channelId limit i beforeId) := by
  obtain ⟨older, hans⟩ := answers_older (t := t) (hread i) beforeId (limit i)
  have hpage := hans.window.serves_before
    (fun c => ((channelIds t channelId).filter fun id => c ≤ 0 ∨ id < c).reverse) (fun _ => True)
    id pairwise_channelIds ?_ rfl fun x hx => ⟨trivial, ?_⟩
  · rw [Option.map_id] at hpage
    exact hpage
  · intro y z hy hlt
    simp only [decide_eq_true_eq] at hy ⊢
    omega
  · have hpos := pos_of_mem_channelIds hids hx
    congr 1
    refine filter_congr fun id _ => ?_
    simp [Int.not_le.2 hpos]

theorem serves_newerPage (hids : ∀ m ∈ t.messages.rows, 0 < m.id)
    (hread : ∀ i, (env i).MayRead channelId) (i : Nat) {afterId : Int} (hafter : 0 < afterId) :
    Serves (fun c => (channelIds t channelId).filter (c < ·)) (0 < ·) afterId
      (newerPage t env channelId limit i afterId) := by
  obtain ⟨newer, hans⟩ := answers_newer (t := t) (hread i) hafter (limit i)
  have hpage := hans.window.serves_after (fun c => (channelIds t channelId).filter (c < ·)) (0 < ·)
    id pairwise_channelIds ?_ rfl fun x hx => ⟨pos_of_mem_channelIds hids hx, rfl⟩
  · rw [Option.map_id] at hpage
    exact hpage
  · intro y z hy hlt
    simp only [decide_eq_true_eq] at hy ⊢
    omega

theorem followOlder_eq (hids : ∀ m ∈ t.messages.rows, 0 < m.id)
    (hread : ∀ i, (env i).MayRead channelId) {fuel : Nat}
    (hfuel : (channelIds t channelId).length < fuel) (beforeId : Int) :
    followOlder t env channelId limit fuel beforeId =
      some ((channelIds t channelId).filter fun id => beforeId ≤ 0 ∨ id < beforeId) := by
  rw [followOlder, follow_eq_some (fun i c _ => serves_olderPage hids hread i c) 0 trivial,
    Option.map_some, reverse_reverse]
  rw [length_reverse]
  exact (length_filter_le _ _).trans_lt hfuel

theorem followNewer_eq (hids : ∀ m ∈ t.messages.rows, 0 < m.id)
    (hread : ∀ i, (env i).MayRead channelId) {fuel : Nat}
    (hfuel : (channelIds t channelId).length < fuel) {afterId : Int} (hafter : 0 < afterId) :
    followNewer t env channelId limit fuel afterId =
      some ((channelIds t channelId).filter (afterId < ·)) :=
  follow_eq_some (fun i _ hc => serves_newerPage hids hread i hc) 0 hafter
    ((length_filter_le _ _).trans_lt hfuel)

theorem followAround_eq (hids : ∀ m ∈ t.messages.rows, 0 < m.id)
    (hread : ∀ i, (env i).MayRead channelId) {fuel : Nat}
    (hfuel : (channelIds t channelId).length < fuel) {first : HistoryEnv}
    (hfirst : first.MayRead channelId) {aroundId : Int} (haround : 0 < aroundId)
    (firstLimit : Int) :
    followAround t env channelId limit fuel first aroundId firstLimit =
      some (channelIds t channelId) := by
  obtain ⟨older, newer, hans⟩ := answers_around (t := t) hfirst haround firstLimit
  have hbelow : ∀ x ∈ channelIds t channelId, followOlder t env channelId limit fuel x =
      some ((channelIds t channelId).filter (· < x)) := by
    intro x hx
    rw [followOlder_eq hids hread hfuel]
    congr 1
    refine filter_congr fun id _ => ?_
    simp [Int.not_le.2 (pos_of_mem_channelIds hids hx)]
  obtain ⟨holder, hnewer⟩ := hans.window.around (followOlder t env channelId limit fuel)
    (followNewer t env channelId limit fuel) pairwise_channelIds hbelow fun x hx =>
      followNewer_eq hids hread hfuel (pos_of_mem_channelIds hids hx)
  rw [followAround, holder, hnewer, Option.bind_some, Option.map_some, ← hans.parts]

end Following

/-! ## The size of a page -/

/-- The bytes of a page's messages, with tags and lengths. -/
def ChannelHistoryResponse.messagesSize (res : ChannelHistoryResponse) : Nat :=
  (res.messages.map fun m => messageSize 2 m.byteSizeLong).sum

theorem sum_messageSize_le {l : List ChannelMessage}
    (h : (l.map (·.byteSizeLong)).sum ≤ maxResponseBytes) :
    (l.map fun m => messageSize 2 m.byteSizeLong).sum ≤
      (l.map (·.byteSizeLong)).sum + 4 * l.length := by
  induction l with
  | nil => exact Nat.le_refl _
  | cons m l ih =>
    rw [map_cons, sum_cons] at h
    have hsize : m.byteSizeLong < 2 ^ 21 := by
      rw [maxResponseBytes] at h
      omega
    have hlength := varintSize_le_three hsize
    have hrest := ih (by omega)
    have htag : tagSize 2 = 1 := rfl
    simp only [map_cons, sum_cons, length_cons, messageSize, htag] at hrest ⊢
    omega

/-- A page's messages are within the budget, with four bytes around each, or single. -/
theorem messagesSize_le (t : Tables) (env : HistoryEnv) (req : ChannelHistoryRequest) :
    (channelHistory t env req).messagesSize ≤
        maxResponseBytes + 4 * (channelHistory t env req).messages.length ∨
      (channelHistory t env req).messages.length ≤ 1 := by
  by_cases h : env.MayRead req.channelId
  · have hcut := isCut_cutPage req ((fetchHistory t req).1.map (env.build t))
    rw [channelHistory_of_mayRead h]
    rcases hcut.within with hwithin | hone
    · have hle := sum_messageSize_le hwithin
      refine .inl ?_
      dsimp only [ChannelHistoryResponse.messagesSize]
      omega
    · exact .inr hone
  · have hno : (! (env.check .readHistory { user := env.uid, channelId := req.channelId }).ok) =
        true := by
      simpa [HistoryEnv.MayRead] using h
    rw [channelHistory, if_pos hno]
    exact .inr (Nat.zero_le _)

/-- Following the pages from the newest back, from a message on, or around an id and then both ways,
    whatever the limits, ends having read every message of the channel once and in order; every page
    is within the budget, framing apart, or a single message. -/
theorem history_gap_free (hids : ∀ m ∈ t.messages.rows, 0 < m.id) {env : Nat → HistoryEnv}
    (hread : ∀ i, (env i).MayRead channelId) (limit : Nat → Int) {fuel : Nat}
    (hfuel : (channelIds t channelId).length < fuel) :
    followOlder t env channelId limit fuel 0 = some (channelIds t channelId) ∧
      (∀ afterId > 0, followNewer t env channelId limit fuel afterId =
        some ((channelIds t channelId).filter (afterId < ·))) ∧
      (∀ aroundId > 0, ∀ first : HistoryEnv, first.MayRead channelId → ∀ firstLimit,
        followAround t env channelId limit fuel first aroundId firstLimit =
          some (channelIds t channelId)) ∧
      ∀ viewer req, (channelHistory t viewer req).messagesSize ≤
          maxResponseBytes + 4 * (channelHistory t viewer req).messages.length ∨
        (channelHistory t viewer req).messages.length ≤ 1 := by
  refine ⟨?_, fun afterId hafter => followNewer_eq hids hread hfuel hafter,
    fun aroundId haround first hfirst firstLimit =>
      followAround_eq hids hread hfuel hfirst haround firstLimit,
    fun viewer req => messagesSize_le t viewer req⟩
  rw [followOlder_eq hids hread hfuel]
  congr 1
  rw [List.filter_eq_self]
  exact fun _ _ => rfl

/-! ## Three channels -/

/-- Somebody who may do everything, without recent messages. -/
def HistoryEnv.anyone : HistoryEnv where
  uid := 0
  check _ _ := .allow
  recentNonce _ _ := []

def textMessage (length : Nat) (id : Int) : DbMessage where
  id
  channelId := "c"
  senderUid := 1
  sender := "a"
  content := List.replicate length 97
  timestamp := 1

def textMessages (length : Nat) (ids : List Int) (h : ids.Nodup) : Tables where
  messages := ⟨ids.map (textMessage length), by
    rw [List.map_map]
    exact (List.map_id ids).symm ▸ h⟩

/-- Three messages, read one by one. -/
theorem history_gap_free_three :
    followOlder (textMessages 5 [2, 9, 4] (by decide)) (fun _ => .anyone) "c" (fun _ => 1) 4 0 =
      some [2, 4, 9] := by
  have hread : HistoryEnv.anyone.MayRead "c" := rfl
  exact (history_gap_free (t := textMessages 5 [2, 9, 4] (by decide)) (by decide)
    (fun _ => hread) (fun _ => 1) (by decide)).1

theorem byteSizeLong_textMessage {t : Tables} {length : Nat} (hlength : length ≤ maxChannelMsgBytes)
    {id : Int} (hid : intSize 5 id = 2) (hparent : t.messages.find? 0 = none)
    (hmembers : t.members = .empty) (hattachments : t.attachments = .empty) :
    (HistoryEnv.anyone.build t (t.readMessageRow (textMessage length id))).byteSizeLong =
      bytesSize 3 length + 13 := by
  have hfetch : t.fetchAttachments id = [] := by
    rw [Tables.fetchAttachments, Tables.attachmentsOf, hattachments]
    rfl
  have hname : t.currentName 1 "a" = "a" := by
    rw [Tables.currentName, hmembers]
    rfl
  have hle : ¬ length > maxChannelMsgBytes := Nat.not_lt.2 hlength
  have hsender : bytesSize 1 (String.utf8ByteSize "a") = 3 := by decide
  have hchannel : bytesSize 2 (String.utf8ByteSize "c") = 3 := by decide
  have htimestamp : intSize 4 1 = 2 := by decide
  have huid : intSize 16 1 = 3 := by decide
  simp [HistoryEnv.build, Tables.readMessageRow, Tables.parentOf, textMessage, hparent, hname,
    HistoryEnv.anyone, fillChannelMessage, hfetch, ChannelMessage.byteSizeLong, hid, hle, utf8Prefix,
    hsender, hchannel, htimestamp, huid]
  omega

/-- The numbers of 24 messages, from 1 on. -/
def ids24 : List Int := (List.range 24).map fun i => (i : Int) + 1

/-- 24 messages that make 64 KiB each. -/
def fullPage : Tables := textMessages 65519 ids24 (by decide)

theorem mem_selectDesc {p : Int → Bool} {m : FetchedMessage}
    (h : m ∈ t.selectDesc channelId p) : ∃ r ∈ t.messages.rows, t.readMessageRow r = m := by
  obtain ⟨r, hr, rfl⟩ := mem_map.1 h
  exact ⟨r, (mem_filter.1 ((mem_insertionSort _).1 hr)).1, rfl⟩

theorem fullPage_over_budget :
    (channelHistory fullPage .anyone { channelId := "c" }).messages.length = 24 ∧
      maxResponseBytes < (channelHistory fullPage .anyone { channelId := "c" }).messagesSize := by
  have hread : HistoryEnv.anyone.MayRead "c" := rfl
  rw [ChannelHistoryResponse.messagesSize, channelHistory_of_mayRead hread]
  dsimp only
  generalize hrows : fullPage.selectDesc "c" (fun id => (0 : Int) ≤ 0 ∨ id < 0) = rows
  have hlength : rows.length = 24 := by
    rw [← length_map (·.id), ← hrows, ids_selectDesc]
    decide +kernel
  have hfetched : (fetchHistory fullPage { channelId := "c" }).1 = rows.reverse := by
    have htake : (takePage 50 rows).1 = rows := by
      rw [takePage_eq]
      exact take_of_length_le (by omega)
    rw [← htake, ← hrows]
    rfl
  have hsize : (rows.map (HistoryEnv.anyone.build fullPage)).map (·.byteSizeLong) =
      List.replicate 24 65536 := by
    rw [eq_replicate_iff]
    refine ⟨by rw [length_map, length_map, hlength], fun size hmem => ?_⟩
    rw [map_map] at hmem
    obtain ⟨m, hm, rfl⟩ := mem_map.1 hmem
    obtain ⟨r, hr, rfl⟩ := mem_selectDesc (hrows ▸ hm)
    obtain ⟨id, hid, rfl⟩ := mem_map.1 hr
    have hsize : ∀ id ∈ ids24, intSize 5 id = 2 := by decide
    exact byteSizeLong_textMessage (by decide) (hsize id hid) (by decide +kernel) rfl rfl
  have hsum : ((rows.map (HistoryEnv.anyone.build fullPage)).map (·.byteSizeLong)).sum ≤
      maxResponseBytes := by
    rw [hsize]
    decide
  have hpage : (cutPage { channelId := "c" }
      ((fetchHistory fullPage { channelId := "c" }).1.map (HistoryEnv.anyone.build fullPage))).2.1 =
        (rows.map (HistoryEnv.anyone.build fullPage)).reverse := by
    unfold cutPage
    rw [if_neg (lt_irrefl 0), if_neg (lt_irrefl 0), hfetched, map_reverse, reverse_reverse]
    rw [fitPage_eq_self hsum]
  rw [hpage]
  refine ⟨by rw [length_reverse, length_map, hlength], ?_⟩
  have hframed : (rows.map (HistoryEnv.anyone.build fullPage)).map
      (fun m => messageSize 2 m.byteSizeLong) = List.replicate 24 65540 := by
    have hcomp : (fun m : ChannelMessage => messageSize 2 m.byteSizeLong) =
        messageSize 2 ∘ (·.byteSizeLong) := rfl
    rw [hcomp, ← map_map, hsize, map_replicate]
    rfl
  rw [map_reverse, sum_reverse, hframed]
  decide

/-- With an id that is not positive not all is read: its older page is the newest again. -/
theorem zero_id_repeats (fuel i : Nat) :
    follow (olderPage (textMessages 5 [0, -1] (by decide)) (fun _ => .anyone) "c" fun _ => 1)
      fuel i 0 = none := by
  induction fuel generalizing i with
  | zero => rfl
  | succ fuel ih =>
    have hfirst : olderPage (textMessages 5 [0, -1] (by decide)) (fun _ => .anyone) "c"
        (fun _ => 1) 0 0 = ([0], some 0) := by
      decide +kernel
    have hpage : olderPage (textMessages 5 [0, -1] (by decide)) (fun _ => .anyone) "c"
        (fun _ => 1) i 0 = ([0], some 0) := hfirst
    rw [follow, hpage]
    dsimp only
    rw [ih]
    rfl

/-- A page of 24 messages is over the budget with framing, and channels with ids not positive are
    not read in full. -/
theorem history_over_budget :
    ((channelHistory fullPage .anyone { channelId := "c" }).messages.length = 24 ∧
      maxResponseBytes < (channelHistory fullPage .anyone { channelId := "c" }).messagesSize) ∧
    ∀ fuel, followOlder (textMessages 5 [0, -1] (by decide)) (fun _ => .anyone) "c" (fun _ => 1)
      fuel 0 = none := by
  refine ⟨fullPage_over_budget, fun fuel => ?_⟩
  rw [followOlder, zero_id_repeats]
  rfl

end Decibell
