import Decibell.Community.SearchFold
import Decibell.Community.Messages
import Decibell.Lib.Decimal
import Decibell.Lib.Paging
import Decibell.Lib.Run
import Mathlib.Algebra.Order.Ring.Int
import Mathlib.Data.Finset.Sort
import Mathlib.Data.List.Dedup
import Mathlib.Data.List.Lex
import Mathlib.Data.Prod.Lex
import Mathlib.Logic.Function.Basic

/-!
# The roster

The members of a server are listed page by page, those online first, each part by name. The server
keeps an index of both parts, sorted by folded name, name and uid, and tells a client where to go on
by a text made of the part, the uid and the name of the last member sent.
-/

namespace Decibell

open Lib Function List

/-! ## The index -/

/-- Where a member is in its part of the roster. -/
structure RosterKey where
  fold : Bytes
  name : Bytes
  uid : Uid
  deriving DecidableEq

namespace RosterKey

/-- Keys go by fold, name and uid, texts by their bytes. -/
def rank (k : RosterKey) : List Nat ×ₗ List Nat ×ₗ Int :=
  toLex (k.fold.map UInt8.toNat, toLex (k.name.map UInt8.toNat, k.uid))

theorem rank_injective : Injective rank := by
  intro k k' h
  have h := toLex_inj.1 h
  rw [Prod.mk.injEq] at h
  obtain ⟨hfold, hrest⟩ := h
  have hrest := toLex_inj.1 hrest
  rw [Prod.mk.injEq] at hrest
  obtain ⟨hname, huid⟩ := hrest
  have hbytes : Injective (List.map UInt8.toNat) :=
    map_injective_iff.2 fun a b hab => UInt8.toNat_inj.1 hab
  cases k
  cases k'
  rw [mk.injEq]
  exact ⟨hbytes hfold, hbytes hname, huid⟩

instance : LinearOrder RosterKey := LinearOrder.lift' rank rank_injective

end RosterKey

def rosterKey (username nickname : Bytes) (uid : Uid) : RosterKey :=
  let name := if nickname = [] then username else nickname
  { fold := searchFold name, name, uid }

structure RosterEntry where
  key : RosterKey
  online : Bool
  username : Bytes
  nickname : Bytes
  joinedAt : Int
  timedOutUntil : Int

abbrev RosterEntry.uid (e : RosterEntry) : Uid := e.key.uid

/-- A member as the clients get it. -/
structure MemberInfo where
  username : Bytes
  joinedAt : Int
  nickname : Bytes
  isOwner : Bool
  isOnline : Bool
  roleIds : List Int
  timedOutUntil : Int
  uid : Uid

structure RosterIndex where
  entries : Table RosterEntry.uid := .empty
  online : Finset RosterKey := ∅
  offline : Finset RosterKey := ∅

namespace RosterIndex

/-- The part of the index that an entry is in, changed. -/
def modifyPart (ix : RosterIndex) (e : RosterEntry) (f : Finset RosterKey → Finset RosterKey) :
    RosterIndex :=
  if e.online then { ix with online := f ix.online } else { ix with offline := f ix.offline }

def entryOf (info : MemberInfo) : RosterEntry where
  key := rosterKey info.username info.nickname info.uid
  online := info.isOnline
  username := info.username
  nickname := info.nickname
  joinedAt := info.joinedAt
  timedOutUntil := info.timedOutUntil

/-- A member that is new, or has changed. -/
def put (ix : RosterIndex) (info : MemberInfo) : RosterIndex :=
  let e := entryOf info
  let ix := match ix.entries.find? info.uid with
    | some old => ix.modifyPart old (·.erase old.key)
    | none => ix
  let ix := { ix with entries := ix.entries.upsert e }
  ix.modifyPart e (insert e.key)

/-- A member that is gone. -/
def erase (ix : RosterIndex) (uid : Uid) : RosterIndex :=
  match ix.entries.find? uid with
  | none => ix
  | some old =>
    let ix := ix.modifyPart old (·.erase old.key)
    { ix with entries := ix.entries.deleteWhere (·.uid = uid) }

def entryOfRow (visible : Uid → Bool) (m : DbMember) : RosterEntry where
  key := rosterKey (utf8 m.username) m.nickname m.uid
  online := visible m.uid
  username := utf8 m.username
  nickname := m.nickname
  joinedAt := m.joinedAt
  timedOutUntil := m.timedOutUntil

def insertRow (visible : Uid → Bool) (ix : RosterIndex) (m : DbMember) : RosterIndex :=
  let e := entryOfRow visible m
  let ix := ix.modifyPart e (insert e.key)
  { ix with entries := ix.entries.insertOrIgnore e }

def rebuild (members : Table DbMember.uid) (visible : Uid → Bool) : RosterIndex :=
  members.rows.foldl (insertRow visible) {}

end RosterIndex

/-! ## A page -/

/-- The byte between the parts of a cursor. -/
def unitSeparator : UInt8 := 0x1F

/-- Where to go on: in the online or offline part, after a member or from the start. -/
structure RosterCursor where
  online : Bool := false
  hasKey : Bool := false
  uid : Uid := 0
  name : Bytes := []
  deriving DecidableEq

/-- `std::to_string`, as bytes. -/
def decimal (n : Int) : Bytes := (toString n).toList.map fun c => UInt8.ofNat c.toNat

/-- Reads a cursor; anything else is the offline part's start. -/
def parseRosterCursor (s : Bytes) : RosterCursor :=
  match s with
  | kind :: sep :: rest =>
    if s.length < 4 ∨ (kind ≠ 111 ∧ kind ≠ 102) ∨ sep ≠ unitSeparator then {}
    else if unitSeparator ∉ rest then {}
    else
      { online := kind = 111
        hasKey := true
        uid := strtoll (rest.map fun b => Char.ofNat b.toNat)
        name := (rest.dropWhile (· ≠ unitSeparator)).tail }
  | _ => {}

/-- The cursor after a member: "o" or "f", the uid and the name. -/
def rosterCursor (e : RosterEntry) : Bytes :=
  (if e.online then 111 else 102) :: unitSeparator ::
    (decimal e.uid ++ unitSeparator :: e.key.name)

def upperBound (after : Option RosterKey) (part : Finset RosterKey) : List RosterKey :=
  match after with
  | none => part.sort (· ≤ ·)
  | some k => (part.sort (· ≤ ·)).filter (k < ·)

structure MemberListRequest where
  /-- Empty for the first page. -/
  after : Bytes := []
  limit : Int := 0
  /-- A lookup of these members instead of a page. -/
  uids : List Uid := []

structure MemberListResponse where
  success : Bool := false
  message : String := ""
  members : List MemberInfo := []
  revision : Nat := 0
  totalMembers : Nat := 0
  hasMore : Bool := false
  nextAfter : Bytes := []
  firstPage : Bool := false
  onlineCount : Nat := 0
  /-- The pages up to this one hold every online member. -/
  onlineComplete : Bool := false
  /-- The requester's own row on a first page without it, or what was looked up. -/
  extra : List MemberInfo := []
  lookupUids : List Uid := []

/-- Who asks, and what the database says of the members. -/
structure RosterEnv where
  requester : Uid
  revision : Nat
  owner : Uid
  memberRoleIds : Uid → List Int

def RosterEnv.fillRosterInfo (env : RosterEnv) (e : RosterEntry) : MemberInfo where
  username := e.username
  joinedAt := e.joinedAt
  nickname := e.nickname
  isOwner := e.uid = env.owner
  isOnline := e.online
  roleIds := env.memberRoleIds e.uid
  timedOutUntil := e.timedOutUntil
  uid := e.uid

def MemberInfo.byteSizeLong (m : MemberInfo) : Nat :=
  bytesSize 1 m.username.length + intSize 2 m.joinedAt + bytesSize 3 m.nickname.length +
    boolSize 4 m.isOwner + boolSize 5 m.isOnline + packedSize 6 m.roleIds +
    intSize 7 m.timedOutUntil + intSize 8 m.uid

/-- Room is left for the requester's own row. -/
def rosterBudget : Nat := maxResponseBytes - 64 * 1024

def fillMemberPage (ix : RosterIndex) (env : RosterEnv) (req : MemberListRequest) :
    MemberListResponse :=
  let res : MemberListResponse :=
    { success := true
      revision := env.revision
      totalMembers := ix.entries.rows.length
      onlineCount := ix.online.card }
  if req.uids ≠ [] then
    let asked := req.uids.take 200
    let found := (asked.filterMap ix.entries.find?).map (·.uid)
    { res with
      lookupUids := asked
      extra := (found.reverse.dedup.reverse.filterMap ix.entries.find?).map env.fillRosterInfo }
  else
    let limit := if req.limit ≤ 0 then 100 else min req.limit.toNat 1000
    let firstPage : Bool := req.after = []
    let cursor := if firstPage then { online := true } else parseRosterCursor req.after
    let after := if cursor.hasKey then some (rosterKey cursor.name [] cursor.uid) else none
    -- The online members after the cursor, and once they run out the offline ones.
    let online := if cursor.online then upperBound after ix.online else []
    let onlinePage := (online.take limit).filterMap fun k => ix.entries.find? k.uid
    let onlineComplete : Bool := online.length ≤ limit
    let offline := if onlineComplete then
        upperBound (if cursor.online then none else after) ix.offline
      else []
    let offlinePage := (offline.take (limit - onlinePage.length)).filterMap fun k =>
      ix.entries.find? k.uid
    let page := onlinePage ++ offlinePage
    let hasMore := ! onlineComplete || offline.length > limit - onlinePage.length
    let self := if firstPage then ix.entries.find? env.requester else none
    -- Within the budget.
    let sent := fitPage (fun e => (env.fillRosterInfo e).byteSizeLong + 8) rosterBudget page
    let hasMore := hasMore || sent.length < page.length
    let onlineComplete := onlineComplete && ! (sent.length < page.length ∧
      sent.length < onlinePage.length)
    let selfSent := sent.any (·.uid = env.requester)
    { res with
      firstPage
      members := sent.map env.fillRosterInfo
      extra := if selfSent then [] else self.toList.map env.fillRosterInfo
      onlineComplete
      hasMore
      nextAfter :=
        if ! hasMore then []
        else match sent.getLast? with
          | some last => if last.online && onlineComplete then [102] else rosterCursor last
          | none => [102] }

/-! ## Runs -/

/-- What a member shows as: a name, and online or not. -/
structure Shown where
  name : Bytes
  online : Bool

/-- The key of a member that shows so. -/
def Shown.key (s : Shown) (uid : Uid) : RosterKey := ⟨searchFold s.name, s.name, uid⟩

def shownName (username nickname : Bytes) : Bytes := if nickname = [] then username else nickname

/-- The index, and what the members show as. -/
structure RosterState where
  index : RosterIndex := {}
  shown : Uid → Option Shown := fun _ => none

/-- A member joins, changes or goes, or the index is built from the database. -/
inductive RosterAct
  | put (info : MemberInfo)
  | erase (uid : Uid)
  | rebuild (members : Table DbMember.uid) (visible : Uid → Bool)

def RosterState.perform (r : RosterState) : RosterAct → RosterState
  | .put info =>
    { index := r.index.put info
      shown := update r.shown info.uid
        (some ⟨shownName info.username info.nickname, info.isOnline⟩) }
  | .erase uid => { index := r.index.erase uid, shown := update r.shown uid none }
  | .rebuild members visible =>
    { index := .rebuild members visible
      shown := fun uid => (members.find? uid).map fun m =>
        ⟨shownName (utf8 m.username) m.nickname, visible uid⟩ }

/-- The uids that come are 64-bit numbers. -/
def RosterAct.Int64 : RosterAct → Prop
  | .put info => IsInt64 info.uid
  | .erase _ => True
  | .rebuild members _ => ∀ m ∈ members.rows, IsInt64 m.uid

/-- The runs, from an empty roster. -/
def rosterSystem : System RosterState RosterAct where
  init r := r = {}
  step r a r' := a.Int64 ∧ r' = r.perform a

/-! ## The index is of the members there are -/

namespace RosterIndex

/-- A part of the index: those online, or those offline. -/
def part (ix : RosterIndex) (b : Bool) : Finset RosterKey := if b then ix.online else ix.offline

theorem part_modifyPart (ix : RosterIndex) (e : RosterEntry) (f : Finset RosterKey → Finset RosterKey)
    (b : Bool) : (ix.modifyPart e f).part b = if b = e.online then f (ix.part b) else ix.part b := by
  unfold modifyPart
  cases he : e.online <;> cases b <;> rfl

theorem entries_modifyPart (ix : RosterIndex) (e : RosterEntry)
    (f : Finset RosterKey → Finset RosterKey) : (ix.modifyPart e f).entries = ix.entries := by
  unfold modifyPart
  split <;> rfl

end RosterIndex

/-- The index of what members show as: entries have its key and part, and each part the keys of
    those in it. -/
structure Refines (r : RosterState) : Prop where
  entries : ∀ uid, (r.index.entries.find? uid).map (fun e => (e.key, e.online)) =
    (r.shown uid).map fun s => (s.key uid, s.online)
  part : ∀ b k, k ∈ r.index.part b ↔ ∃ s, r.shown k.uid = some s ∧ s.online = b ∧ k = s.key k.uid
  int64 : ∀ uid, r.shown uid ≠ none → IsInt64 uid

variable {r : RosterState}

theorem Refines.entry (h : Refines r) {uid : Uid} {e : RosterEntry}
    (he : r.index.entries.find? uid = some e) :
    ∃ s, r.shown uid = some s ∧ e.key = s.key uid ∧ e.online = s.online := by
  have hentry := h.entries uid
  rw [he, Option.map_some] at hentry
  obtain ⟨s, hs, heq⟩ := Option.map_eq_some_iff.1 hentry.symm
  rw [Prod.mk.injEq] at heq
  exact ⟨s, hs, heq.1.symm, heq.2.symm⟩

theorem Refines.entry_of_shown (h : Refines r) {uid : Uid} {s : Shown} (hs : r.shown uid = some s) :
    ∃ e, r.index.entries.find? uid = some e ∧ e.key = s.key uid ∧ e.online = s.online := by
  have hentry := h.entries uid
  rw [hs, Option.map_some] at hentry
  obtain ⟨e, he, heq⟩ := Option.map_eq_some_iff.1 hentry
  rw [Prod.mk.injEq] at heq
  exact ⟨e, he, heq.1, heq.2⟩

theorem refines_update (h : Refines r) (ix : RosterIndex) (uid : Uid) (s : Shown) (hint : IsInt64 uid)
    (hentries : ∀ u, (ix.entries.find? u).map (fun e => (e.key, e.online)) =
      if u = uid then some (s.key uid, s.online)
      else (r.index.entries.find? u).map fun e => (e.key, e.online))
    (hpart : ∀ b k, k ∈ ix.part b ↔
      k = s.key uid ∧ b = s.online ∨ k.uid ≠ uid ∧ k ∈ r.index.part b) :
    Refines ⟨ix, update r.shown uid (some s)⟩ where
  entries u := by
    dsimp only
    rw [hentries]
    by_cases hu : u = uid
    · subst hu
      rw [if_pos rfl, update_self, Option.map_some]
    · rw [if_neg hu, update_of_ne hu, h.entries]
  part b k := by
    dsimp only
    rw [hpart]
    by_cases hk : k.uid = uid
    · simp only [hk, update_self, Option.some.injEq, ne_eq, not_true_eq_false, false_and, or_false]
      constructor
      · rintro ⟨hkey, hb⟩
        exact ⟨s, rfl, hb.symm, hkey⟩
      · rintro ⟨_, rfl, hb, hkey⟩
        exact ⟨hkey, hb.symm⟩
    · rw [update_of_ne hk, h.part b k]
      constructor
      · rintro (⟨rfl, _⟩ | ⟨_, hother⟩)
        · exact absurd rfl hk
        · exact hother
      · exact fun hother => .inr ⟨hk, hother⟩
  int64 u hu := by
    by_cases hne : u = uid
    · exact hne ▸ hint
    · dsimp only at hu
      rw [update_of_ne hne] at hu
      exact h.int64 u hu

theorem Refines.mem_part_erase (h : Refines r) {uid : Uid} {old : RosterEntry}
    (hold : r.index.entries.find? uid = some old) (b : Bool) (k : RosterKey) :
    k ∈ (r.index.modifyPart old (·.erase old.key)).part b ↔ k.uid ≠ uid ∧ k ∈ r.index.part b := by
  obtain ⟨s, hs, hkey, honline⟩ := h.entry hold
  have hparted : k ∈ r.index.part b → k.uid = uid → b = old.online ∧ k = old.key := by
    intro hk hu
    obtain ⟨s', hs', hb, hk⟩ := (h.part b k).1 hk
    rw [hu, hs] at hs'
    cases hs'
    rw [hk, hu, hkey, honline]
    exact ⟨hb.symm, rfl⟩
  have huid : old.key.uid = uid := by rw [hkey]; rfl
  rw [RosterIndex.part_modifyPart]
  split
  · rename_i hb
    rw [Finset.mem_erase]
    refine ⟨fun ⟨hne, hk⟩ => ⟨fun hu => hne (hparted hk hu).2, hk⟩, fun ⟨hne, hk⟩ => ⟨?_, hk⟩⟩
    rintro rfl
    exact hne huid
  · rename_i hb
    exact ⟨fun hk => ⟨fun hu => hb (hparted hk hu).1, hk⟩, fun hk => hk.2⟩

theorem Refines.uid_ne_of_mem_part (h : Refines r) {uid : Uid}
    (hnone : r.shown uid = none) {b : Bool} {k : RosterKey} (hk : k ∈ r.index.part b) : k.uid ≠ uid := by
  rintro rfl
  obtain ⟨s, hs, -⟩ := (h.part b k).1 hk
  rw [hnone] at hs
  cases hs

theorem Refines.shown_eq_none (h : Refines r) {uid : Uid}
    (hnone : r.index.entries.find? uid = none) : r.shown uid = none := by
  have hentry := h.entries uid
  rw [hnone] at hentry
  exact Option.map_eq_none_iff.1 hentry.symm

theorem refines_put (h : Refines r) (info : MemberInfo) (hint : IsInt64 info.uid) :
    Refines (r.perform (.put info)) := by
  have hfind : ∀ (t : Table RosterEntry.uid) (u : Uid),
      (t.upsert (RosterIndex.entryOf info)).find? u =
        if u = info.uid then some (RosterIndex.entryOf info) else t.find? u := by
    intro t u
    split
    · rename_i hu
      subst hu
      exact Table.find?_upsert
    · rename_i hu
      exact Table.find?_upsert_of_ne hu
  refine refines_update h _ info.uid _ hint (fun u => ?_) fun b k => ?_
  · rw [RosterIndex.put, RosterIndex.entries_modifyPart]
    dsimp only
    rw [hfind]
    split
    · rfl
    · split
      · rw [RosterIndex.entries_modifyPart]
      · rfl
  · have hdropped : ∀ k, k ∈ (match r.index.entries.find? info.uid with
        | some old => r.index.modifyPart old (·.erase old.key)
        | none => r.index).part b ↔ k.uid ≠ info.uid ∧ k ∈ r.index.part b := by
      intro k
      cases hold : r.index.entries.find? info.uid with
      | some old => exact h.mem_part_erase hold b k
      | none => exact ⟨fun hk => ⟨h.uid_ne_of_mem_part (h.shown_eq_none hold) hk, hk⟩, fun hk => hk.2⟩
    rw [RosterIndex.put, RosterIndex.part_modifyPart]
    by_cases hb : b = info.isOnline
    · have hentry : b = (RosterIndex.entryOf info).online := hb
      rw [if_pos hentry, Finset.mem_insert]
      exact or_congr ⟨fun hk => ⟨hk, hb⟩, fun hk => hk.1⟩ (hdropped k)
    · have hentry : ¬ b = (RosterIndex.entryOf info).online := hb
      rw [if_neg hentry]
      refine (hdropped k).trans ⟨.inr, ?_⟩
      rintro (⟨_, hb'⟩ | hk)
      · exact absurd hb' hb
      · exact hk

theorem refines_erase (h : Refines r) (uid : Uid) : Refines (r.perform (.erase uid)) := by
  have hentries : ∀ u, ((r.index.erase uid).entries.find? u) =
      if u = uid then none else r.index.entries.find? u := by
    intro u
    unfold RosterIndex.erase
    split
    · rename_i hnone
      split
      · rename_i hu
        rw [hu, hnone]
      · rfl
    · dsimp only
      rw [RosterIndex.entries_modifyPart, Table.find?_deleteWhere_key]
  have hpart : ∀ b k, k ∈ (r.index.erase uid).part b ↔ k.uid ≠ uid ∧ k ∈ r.index.part b := by
    intro b k
    unfold RosterIndex.erase
    split
    · rename_i hnone
      exact ⟨fun hk => ⟨h.uid_ne_of_mem_part (h.shown_eq_none hnone) hk, hk⟩, fun hk => hk.2⟩
    · rename_i old hold
      exact h.mem_part_erase hold b k
  refine ⟨fun u => ?_, fun b k => ?_, fun u hu => ?_⟩
  · simp only [RosterState.perform, hentries]
    by_cases hu : u = uid
    · subst hu
      simp
    · rw [if_neg hu, update_of_ne hu, h.entries]
  · simp only [RosterState.perform, hpart, h.part]
    by_cases hk : k.uid = uid
    · simp [hk]
    · simp [hk]
  · by_cases hne : u = uid
    · subst hne
      exact absurd (update_self ..) hu
    · rw [RosterState.perform] at hu
      dsimp only at hu
      rw [update_of_ne hne] at hu
      exact h.int64 u hu

/-- What a row of the members' table shows as. -/
def shownRow (visible : Uid → Bool) (m : DbMember) : Shown :=
  ⟨shownName (utf8 m.username) m.nickname, visible m.uid⟩

theorem refines_insertRow (visible : Uid → Bool) {m : DbMember} (h : Refines r)
    (hnew : r.shown m.uid = none) (hint : IsInt64 m.uid) :
    Refines ⟨r.index.insertRow visible m,
      update r.shown m.uid (some (shownRow visible m))⟩ := by
  have hentry : r.index.entries.find? m.uid = none := by
    have hentry := h.entries m.uid
    rw [hnew] at hentry
    exact Option.map_eq_none_iff.1 hentry
  have hkeys : (RosterIndex.entryOfRow visible m).uid ∉ r.index.entries.keys := by
    intro hmem
    obtain ⟨e, he⟩ := Table.mem_keys.1 hmem
    exact Option.some_ne_none e (he.symm.trans hentry)
  refine refines_update h _ m.uid _ hint (fun u => ?_) fun b k => ?_
  · rw [RosterIndex.insertRow, RosterIndex.entries_modifyPart]
    dsimp only
    rw [Table.find?_insertOrIgnore_of_new hkeys]
    by_cases hu : u = m.uid
    · have hkey : u = (RosterIndex.entryOfRow visible m).uid := hu
      rw [if_pos hu, if_pos hkey]
      rfl
    · have hkey : ¬ u = (RosterIndex.entryOfRow visible m).uid := hu
      rw [if_neg hu, if_neg hkey]
  · have hpart : (r.index.insertRow visible m).part b = (r.index.modifyPart
        (RosterIndex.entryOfRow visible m) (insert (RosterIndex.entryOfRow visible m).key)).part b := rfl
    rw [hpart, RosterIndex.part_modifyPart]
    by_cases hb : b = visible m.uid
    · have hentry : b = (RosterIndex.entryOfRow visible m).online := hb
      rw [if_pos hentry, Finset.mem_insert]
      refine or_congr ⟨fun hk => ⟨hk, hb⟩, fun hk => hk.1⟩ ?_
      exact ⟨fun hk => ⟨h.uid_ne_of_mem_part hnew hk, hk⟩, fun hk => hk.2⟩
    · have hentry : ¬ b = (RosterIndex.entryOfRow visible m).online := hb
      rw [if_neg hentry]
      refine ⟨fun hk => .inr ⟨h.uid_ne_of_mem_part hnew hk, hk⟩, ?_⟩
      rintro (⟨_, hb'⟩ | hk)
      · exact absurd hb' hb
      · exact hk.2

theorem refines_rows (visible : Uid → Bool) {l : List DbMember} (h : Refines r)
    (hnew : ∀ m ∈ l, r.shown m.uid = none) (hnodup : (l.map DbMember.uid).Nodup)
    (hint : ∀ m ∈ l, IsInt64 m.uid) :
    Refines ⟨l.foldl (.insertRow visible) r.index, fun uid =>
      ((l.find? (·.uid = uid)).map (shownRow visible)).or (r.shown uid)⟩ := by
  induction l generalizing r with
  | nil => exact h
  | cons m l ih =>
    rw [map_cons, nodup_cons] at hnodup
    have hfresh : ∀ m' ∈ l, m'.uid ≠ m.uid := fun m' hm' heq =>
      hnodup.1 (heq ▸ mem_map_of_mem hm')
    have hadded := refines_insertRow visible h (hnew m (.head l)) (hint m (.head l))
    have hrest := ih hadded (fun m' hm' => ?_) hnodup.2 fun m' hm' => hint m' (.tail m hm')
    swap
    · exact (update_of_ne (hfresh m' hm') ..).trans (hnew m' (.tail m hm'))
    have hshown : (fun uid => (((m :: l).find? (·.uid = uid)).map (shownRow visible)).or (r.shown uid)) =
        fun uid => ((l.find? (·.uid = uid)).map (shownRow visible)).or
          (update r.shown m.uid (some (shownRow visible m)) uid) := by
      funext uid
      by_cases hu : m.uid = uid
      · subst hu
        have hnone : l.find? (·.uid = m.uid) = none := by
          rw [find?_eq_none]
          exact fun m' hm' => by simpa using hfresh m' hm'
        rw [hnone, update_self, find?_cons_of_pos (by simp)]
        rfl
      · rw [update_of_ne (Ne.symm hu), find?_cons_of_neg (by simpa using hu)]
    rw [foldl_cons, hshown]
    exact hrest

theorem refines_empty : Refines {} where
  entries _ := rfl
  part b k := by
    cases b <;> simp [RosterIndex.part]
  int64 _ h := absurd rfl h

theorem refines_rebuild (members : Table DbMember.uid) (visible : Uid → Bool)
    (hint : ∀ m ∈ members.rows, IsInt64 m.uid) :
    Refines (r.perform (.rebuild members visible)) := by
  have hrows := refines_rows visible refines_empty (fun _ _ => rfl) members.nodup hint
  have hshown : (fun uid => (members.find? uid).map fun m =>
      (⟨shownName (utf8 m.username) m.nickname, visible uid⟩ : Shown)) =
      fun uid => ((members.rows.find? (·.uid = uid)).map (shownRow visible)).or none := by
    funext uid
    rw [Option.or_none, Table.find?]
    cases hm : members.rows.find? (·.uid = uid) with
    | none => rfl
    | some m =>
      have huid : m.uid = uid := by simpa using find?_some hm
      subst huid
      rfl
  rw [RosterState.perform, hshown]
  exact hrows

theorem refines_of_reachable (h : rosterSystem.Reachable r) : Refines r := by
  refine System.reachable_invariant (I := Refines) ?_ ?_ h
  · rintro r rfl
    exact refines_empty
  · rintro r a r' hr ⟨hint, rfl⟩
    cases a with
    | put info => exact refines_put hr info hint
    | erase uid => exact refines_erase hr uid
    | rebuild members visible => exact refines_rebuild members visible hint

end Decibell
