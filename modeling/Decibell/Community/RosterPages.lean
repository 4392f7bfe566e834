import Decibell.Community.Roster

/-!
# Paging the roster

A page takes the online members past the cursor, and once these run out offline ones, up to the row
limit and to the budget of bytes.

* `remaining`: what is left of the roster at a cursor;
* `fillMemberPage_page`: a page is where that starts, and its cursor is of its last member.
-/

namespace Decibell

open Lib Function List

variable {r : RosterState}

/-! ## Cursors -/

theorem toNat_decimal {c : Char} (h : c.isDigit ∨ c = '-') : (UInt8.ofNat c.toNat).toNat = c.toNat := by
  have hlt : c.toNat < 256 := by
    rcases h with hdigit | rfl
    · simp only [Char.isDigit, ge_iff_le, Bool.and_eq_true, decide_eq_true_eq] at hdigit
      have hle : c.toNat ≤ 57 := hdigit.2
      omega
    · decide
  rw [UInt8.toNat_ofNat', Nat.mod_eq_of_lt hlt]

theorem unitSeparator_not_mem_decimal (n : Int) : unitSeparator ∉ decimal n := by
  intro hmem
  obtain ⟨c, hc, heq⟩ := mem_map.1 hmem
  have hkind := (toList_toString n).2 c hc
  have hnat := toNat_decimal hkind
  rw [heq] at hnat
  rcases hkind with hdigit | rfl
  · simp only [Char.isDigit, ge_iff_le, Bool.and_eq_true, decide_eq_true_eq] at hdigit
    have hle : 48 ≤ c.toNat := hdigit.1
    have hsep : unitSeparator.toNat = 31 := rfl
    omega
  · exact absurd heq (by decide)

theorem parseRosterCursor_rosterCursor {e : RosterEntry} (h : IsInt64 e.uid) :
    parseRosterCursor (rosterCursor e) =
      { online := e.online, hasKey := true, uid := e.uid, name := e.key.name } := by
  have hmem : unitSeparator ∈ decimal e.uid ++ unitSeparator :: e.key.name :=
    mem_append_right _ (.head _)
  have hlength : 0 < (decimal e.uid).length := by
    rw [decimal, length_map]
    exact length_pos_of_ne_nil (toList_toString e.uid).1
  have hchars : (decimal e.uid ++ unitSeparator :: e.key.name).map (fun b => Char.ofNat b.toNat) =
      (toString e.uid).toList ++
        (unitSeparator :: e.key.name).map fun b => Char.ofNat b.toNat := by
    rw [map_append, decimal, map_map]
    congr 1
    refine (map_congr_left fun c hc => ?_).trans (map_id _)
    rw [Function.comp_apply, toNat_decimal ((toList_toString e.uid).2 c hc)]
    exact Char.ofNat_toNat c
  have huid : strtoll ((decimal e.uid ++ unitSeparator :: e.key.name).map
      fun b => Char.ofNat b.toNat) = e.uid := by
    rw [hchars]
    refine strtoll_toString h fun c hc => ?_
    cases hc
    decide
  have hname : ((decimal e.uid ++ unitSeparator :: e.key.name).dropWhile
      (· ≠ unitSeparator)).tail = e.key.name := by
    rw [dropWhile_append_of_pos]
    · rw [dropWhile_cons_of_neg (by simp), tail_cons]
    · intro b hb
      exact decide_eq_true fun heq => unitSeparator_not_mem_decimal e.uid (heq ▸ hb)
  unfold rosterCursor parseRosterCursor
  dsimp only
  rw [if_neg, if_neg (not_not_intro hmem), huid, hname]
  · cases e.online <;> rfl
  · simp only [length_cons, length_append]
    rintro (hshort | hkind | hsep)
    · omega
    · cases e.online <;> simp at hkind
    · exact hsep rfl

/-! ## What remains at a cursor -/

/-- A request's cursor; the first page is the online part's start. -/
def cursorOf (after : Bytes) : RosterCursor :=
  if after = [] then { online := true } else parseRosterCursor after

namespace RosterCursor

def after (c : RosterCursor) : Option RosterKey :=
  if c.hasKey then some (rosterKey c.name [] c.uid) else none

end RosterCursor

namespace RosterIndex

variable (ix : RosterIndex)

/-- The online members that remain at a cursor. -/
def onlineRest (c : RosterCursor) : List RosterKey :=
  if c.online then upperBound c.after ix.online else []

/-- The offline members that remain at a cursor. -/
def offlineRest (c : RosterCursor) : List RosterKey :=
  upperBound (if c.online then none else c.after) ix.offline

def entryAt (k : RosterKey) : RosterEntry := (ix.entries.find? k.uid).getD ⟨k, false, [], [], 0, 0⟩

/-- The members that remain at a cursor, those online first. -/
def remaining (after : Bytes) : List RosterKey :=
  ix.onlineRest (cursorOf after) ++ ix.offlineRest (cursorOf after)

/-- Everybody, those online first. -/
def sequence : List Uid := (upperBound none ix.online ++ upperBound none ix.offline).map (·.uid)

end RosterIndex

theorem upperBound_none (part : Finset RosterKey) : upperBound none part = part.sort (· ≤ ·) := rfl

theorem mem_upperBound {after : Option RosterKey} {part : Finset RosterKey} {k : RosterKey}
    (h : k ∈ upperBound after part) : k ∈ part := by
  cases after with
  | none => exact (Finset.mem_sort _).1 h
  | some c => exact (Finset.mem_sort _).1 (mem_filter.1 h).1

theorem mem_onlineRest {ix : RosterIndex} {c : RosterCursor} {k : RosterKey}
    (h : k ∈ ix.onlineRest c) : k ∈ ix.part true := by
  unfold RosterIndex.onlineRest at h
  split at h
  · exact mem_upperBound h
  · exact absurd h not_mem_nil

theorem mem_offlineRest {ix : RosterIndex} {c : RosterCursor} {k : RosterKey}
    (h : k ∈ ix.offlineRest c) : k ∈ ix.part false := mem_upperBound h

theorem Refines.entryAt (h : Refines r) {b : Bool} {k : RosterKey} (hk : k ∈ r.index.part b) :
    r.index.entries.find? k.uid = some (r.index.entryAt k) ∧ (r.index.entryAt k).key = k ∧
      (r.index.entryAt k).online = b := by
  obtain ⟨s, hs, hb, hkey⟩ := (h.part b k).1 hk
  obtain ⟨e, he, hekey, honline⟩ := h.entry_of_shown hs
  have hat : r.index.entryAt k = e := by rw [RosterIndex.entryAt, he, Option.getD_some]
  rw [hat]
  exact ⟨he, hekey.trans hkey.symm, honline.trans hb⟩

theorem Refines.filterMap_find (h : Refines r) {b : Bool} {ks : List RosterKey}
    (hks : ∀ k ∈ ks, k ∈ r.index.part b) :
    ks.filterMap (fun k => r.index.entries.find? k.uid) = ks.map r.index.entryAt := by
  rw [← filterMap_eq_map]
  exact filterMap_congr fun k hk => (h.entryAt (hks k hk)).1

/-- The members sent are where the rest starts; there are more if they are not all; the cursor is
    the last one's, or the offline part's start. -/
theorem fillMemberPage_page (h : Refines r) (env : RosterEnv) (after : Bytes) (limit : Int) :
    ∃ sent : List RosterEntry,
      (fillMemberPage r.index env { after, limit }).members = sent.map env.fillRosterInfo ∧
      sent <+: (r.index.remaining after).map r.index.entryAt ∧
      (r.index.remaining after ≠ [] → sent ≠ []) ∧
      (fillMemberPage r.index env { after, limit }).hasMore =
        decide (sent.length < (r.index.remaining after).length) ∧
      (sent.length < (r.index.remaining after).length →
        (fillMemberPage r.index env { after, limit }).nextAfter =
          match sent.getLast? with
          | some last =>
            if last.online && decide ((r.index.onlineRest (cursorOf after)).length ≤ sent.length) then
              [102]
            else rosterCursor last
          | none => [102]) := by
  have hcursor : (if decide (after = []) = true then { online := true } else parseRosterCursor after) =
      cursorOf after := by
    rw [cursorOf]
    simp only [decide_eq_true_eq]
  generalize hrows : (if limit ≤ 0 then 100 else min limit.toNat 1000) = rows
  have hpos : 0 < rows := by
    rw [← hrows]
    split <;> omega
  unfold fillMemberPage
  rw [if_neg (by simp)]
  dsimp only
  have honline : (if (cursorOf after).online then upperBound (if (cursorOf after).hasKey then
      some (rosterKey (cursorOf after).name [] (cursorOf after).uid) else none) r.index.online
      else []) = r.index.onlineRest (cursorOf after) := rfl
  have hoffline : upperBound (if (cursorOf after).online then none else
      if (cursorOf after).hasKey then
        some (rosterKey (cursorOf after).name [] (cursorOf after).uid) else none) r.index.offline =
      r.index.offlineRest (cursorOf after) := rfl
  simp only [hcursor, hrows, honline, hoffline]
  rw [RosterIndex.remaining, map_append]
  have hmemOn : ∀ k ∈ r.index.onlineRest (cursorOf after), k ∈ r.index.part true :=
    fun k hk => mem_onlineRest hk
  have hmemOff : ∀ k ∈ r.index.offlineRest (cursorOf after), k ∈ r.index.part false :=
    fun k hk => mem_offlineRest hk
  generalize r.index.onlineRest (cursorOf after) = ons at *
  generalize r.index.offlineRest (cursorOf after) = offs at *
  have hon : (ons.take rows).filterMap (fun k => r.index.entries.find? k.uid) =
      (ons.map r.index.entryAt).take rows := by
    rw [h.filterMap_find fun k hk => hmemOn k (mem_of_mem_take hk), map_take]
  have hlength : ((ons.map r.index.entryAt).take rows).length = min rows ons.length := by
    rw [length_take, length_map]
  have hpage : (ons.map r.index.entryAt).take rows ++
      ((if decide (ons.length ≤ rows) = true then offs else []).take
        (rows - min rows ons.length)).filterMap (fun k => r.index.entries.find? k.uid) =
      (ons.map r.index.entryAt ++ offs.map r.index.entryAt).take rows := by
    rw [take_append, length_map]
    congr 1
    by_cases hle : ons.length ≤ rows
    · rw [decide_eq_true hle, if_pos rfl, Nat.min_eq_right hle,
        h.filterMap_find fun k hk => hmemOff k (mem_of_mem_take hk), map_take]
    · have hzero : rows - ons.length = 0 := by omega
      rw [decide_eq_false hle, if_neg Bool.false_ne_true, take_nil, hzero, take_zero]
      rfl
  simp only [hon, hlength, hpage]
  generalize hall : ons.map r.index.entryAt ++ offs.map r.index.entryAt = all
  have hcount : all.length = ons.length + offs.length := by
    rw [← hall, length_append, length_map, length_map]
  have hprefix : fitPage (fun e => (env.fillRosterInfo e).byteSizeLong + 8) rosterBudget
      (all.take rows) <+: all.take rows := fitPage_isPrefix _
  have hgoes : all.take rows ≠ [] → fitPage (fun e => (env.fillRosterInfo e).byteSizeLong + 8)
      rosterBudget (all.take rows) ≠ [] := fun hne => fitPage_ne_nil hne
  generalize fitPage (fun e => (env.fillRosterInfo e).byteSizeLong + 8) rosterBudget
    (all.take rows) = sent at *
  have hle := hprefix.length_le
  rw [length_take] at hle
  have hmore : (! decide (ons.length ≤ rows) ||
      decide ((if decide (ons.length ≤ rows) = true then offs else []).length >
        rows - min rows ons.length) || decide (sent.length < (all.take rows).length)) =
      decide (sent.length < (ons ++ offs).length) := by
    rw [length_take, length_append, Bool.eq_iff_iff]
    simp only [Bool.or_eq_true, Bool.not_eq_true', decide_eq_true_eq, decide_eq_false_iff_not]
    by_cases hons : ons.length ≤ rows
    · rw [if_pos hons]
      omega
    · rw [if_neg hons, length_nil]
      omega
  have hcomplete : (decide (ons.length ≤ rows) &&
      ! decide (sent.length < (all.take rows).length ∧ sent.length < min rows ons.length)) =
      decide (ons.length ≤ sent.length) := by
    rw [length_take, Bool.eq_iff_iff]
    simp only [Bool.and_eq_true, Bool.not_eq_true', decide_eq_true_eq, decide_eq_false_iff_not]
    omega
  simp only [hmore, hcomplete]
  refine ⟨sent, rfl, hprefix.trans (List.take_prefix rows all), fun hne => hgoes ?_, rfl, fun hlt => ?_⟩
  · rw [ne_eq, take_eq_nil_iff]
    rintro (hzero | hnil)
    · omega
    · have hzero : all.length = 0 := by rw [hnil]; rfl
      rw [hcount, ← length_append, length_eq_zero_iff] at hzero
      exact hne hzero
  · rw [decide_eq_true hlt]
    rfl

/-! ## Following the cursors -/

/-- A page's uids, and the next cursor. -/
def rosterPage (ix : RosterIndex) (env : Nat → RosterEnv) (limit : Nat → Int) (i : Nat)
    (after : Bytes) : List Uid × Option Bytes :=
  let res := fillMemberPage ix (env i) { after, limit := limit i }
  (res.members.map (·.uid), if res.hasMore then some res.nextAfter else none)

theorem pairwise_sort (part : Finset RosterKey) : (part.sort (· ≤ ·)).Pairwise (· < ·) :=
  (Finset.sortedLT_sort part).pairwise

theorem upperBound_of_append {after : Option RosterKey} {part : Finset RosterKey}
    {done rest : List RosterKey} {k : RosterKey} (h : upperBound after part = done ++ k :: rest) :
    upperBound (some k) part = rest := by
  cases after with
  | none =>
    have hsorted := pairwise_sort part
    have hlist : part.sort (· ≤ ·) = done ++ k :: rest := h
    rw [hlist] at hsorted
    rw [upperBound, hlist]
    exact filter_lt_of_append hsorted
  | some c =>
    refine filter_lt_of_filter (pairwise_sort part) ?_ h
    exact fun y z hy hlt => decide_eq_true ((of_decide_eq_true hy).trans hlt)

theorem Refines.rosterKey_eq (h : Refines r) {b : Bool} {k : RosterKey} (hk : k ∈ r.index.part b) :
    rosterKey k.name [] k.uid = k := by
  obtain ⟨s, -, -, hkey⟩ := (h.part b k).1 hk
  rw [hkey]
  rfl

theorem Refines.int64_of_mem (h : Refines r) {b : Bool} {k : RosterKey} (hk : k ∈ r.index.part b) :
    IsInt64 k.uid := by
  obtain ⟨s, hs, -⟩ := (h.part b k).1 hk
  exact h.int64 k.uid (by rw [hs]; exact Option.some_ne_none s)

/-- At a member's cursor remain the rest of their part, and the offline part after the online one.
    -/
theorem Refines.remaining_rosterCursor (h : Refines r) {b : Bool} {k : RosterKey}
    (hk : k ∈ r.index.part b) : r.index.remaining (rosterCursor (r.index.entryAt k)) =
      if b then upperBound (some k) r.index.online ++ r.index.offline.sort (· ≤ ·)
      else upperBound (some k) r.index.offline := by
  obtain ⟨-, hkey, honline⟩ := h.entryAt hk
  have huid : (r.index.entryAt k).uid = k.uid := congrArg RosterKey.uid hkey
  have hcursor : cursorOf (rosterCursor (r.index.entryAt k)) =
      { online := b, hasKey := true, uid := k.uid, name := k.name } := by
    have hne : rosterCursor (r.index.entryAt k) ≠ [] := cons_ne_nil _ _
    rw [cursorOf, if_neg hne, parseRosterCursor_rosterCursor (huid ▸ h.int64_of_mem hk), honline,
      huid, hkey]
  have hafter : RosterCursor.after { online := b, hasKey := true, uid := k.uid, name := k.name } =
      some k := by
    rw [RosterCursor.after]
    exact congrArg some (h.rosterKey_eq hk)
  rw [RosterIndex.remaining, hcursor, RosterIndex.onlineRest, RosterIndex.offlineRest, hafter]
  cases b <;> rfl

theorem RosterIndex.remaining_offline (ix : RosterIndex) :
    ix.remaining [102] = ix.offline.sort (· ≤ ·) := by
  have hcursor : cursorOf [102] = {} := by decide
  rw [RosterIndex.remaining, hcursor]
  rfl

theorem Refines.remaining_next (h : Refines r) {after : Bytes} {done tail : List RosterKey}
    {k : RosterKey} (hsplit : r.index.onlineRest (cursorOf after) ++
      r.index.offlineRest (cursorOf after) = done ++ k :: tail) :
    r.index.remaining
      (if (r.index.entryAt k).online &&
          decide ((r.index.onlineRest (cursorOf after)).length ≤ done.length + 1) then [102]
        else rosterCursor (r.index.entryAt k)) = tail := by
  -- In the offline part, the cursor is the member's.
  have hoffline : ∀ more, r.index.offlineRest (cursorOf after) = more ++ k :: tail →
      r.index.remaining
        (if (r.index.entryAt k).online &&
            decide ((r.index.onlineRest (cursorOf after)).length ≤ done.length + 1) then [102]
          else rosterCursor (r.index.entryAt k)) = tail := by
    intro more hoff
    have hk : k ∈ r.index.part false :=
      mem_offlineRest (hoff ▸ mem_append_right more (.head tail))
    rw [(h.entryAt hk).2.2, Bool.false_and, if_neg Bool.false_ne_true, h.remaining_rosterCursor hk,
      if_neg Bool.false_ne_true]
    exact upperBound_of_append hoff
  rcases append_eq_append_iff.1 hsplit with ⟨more, -, hoff⟩ | ⟨more, hon, hrest⟩
  · exact hoffline more hoff
  cases more with
  | nil => exact hoffline [] hrest.symm
  | cons k' more =>
    obtain ⟨rfl, rfl⟩ := cons_eq_cons.1 hrest
    have hk : k ∈ r.index.part true := mem_onlineRest (hon ▸ mem_append_right done (.head more))
    -- The request was for the online part, so that all of the offline one remains.
    have hcursor : (cursorOf after).online = true := by
      by_contra hoff
      rw [RosterIndex.onlineRest, if_neg hoff] at hon
      exact append_ne_nil_of_right_ne_nil done (cons_ne_nil k more) hon.symm
    have hoffs : r.index.offlineRest (cursorOf after) = r.index.offline.sort (· ≤ ·) := by
      rw [RosterIndex.offlineRest, if_pos hcursor]
      rfl
    rw [(h.entryAt hk).2.2, Bool.true_and, hoffs]
    by_cases hlast : more = []
    · -- The page ends with the online part.
      subst hlast
      have hcount : (r.index.onlineRest (cursorOf after)).length ≤ done.length + 1 := by
        rw [hon, length_append]
        exact Nat.le_refl _
      rw [if_pos (decide_eq_true hcount)]
      exact r.index.remaining_offline
    · have hcount : ¬ (r.index.onlineRest (cursorOf after)).length ≤ done.length + 1 := by
        rw [hon, length_append, length_cons]
        have hpos := length_pos_of_ne_nil hlast
        omega
      rw [if_neg (by simpa using hcount), h.remaining_rosterCursor hk, if_pos rfl]
      rw [RosterIndex.onlineRest, if_pos hcursor] at hon
      rw [upperBound_of_append hon]
      rfl

theorem serves_rosterPage (h : Refines r) (env : Nat → RosterEnv) (limit : Nat → Int) (i : Nat)
    (after : Bytes) :
    Serves (fun c => (r.index.remaining c).map (·.uid)) (fun _ => True) after
      (rosterPage r.index env limit i after) := by
  obtain ⟨sent, hmembers, hprefix, hgoes, hmore, hnext⟩ :=
    fillMemberPage_page h (env i) after (limit i)
  unfold rosterPage
  dsimp only
  generalize fillMemberPage r.index (env i) { after, limit := limit i } = res at *
  -- The keys of those sent, and of those left.
  obtain ⟨ks, tail, hkeys, hsent⟩ : ∃ ks tail, r.index.remaining after = ks ++ tail ∧
      ks.map r.index.entryAt = sent := by
    refine ⟨(r.index.remaining after).take sent.length, (r.index.remaining after).drop sent.length,
      (take_append_drop ..).symm, ?_⟩
    rw [map_take]
    exact (prefix_iff_eq_take.1 hprefix).symm
  have hparts : ∀ k ∈ r.index.remaining after, ∃ b, k ∈ r.index.part b := by
    intro k hk
    rcases mem_append.1 hk with hon | hoff
    · exact ⟨true, mem_onlineRest hon⟩
    · exact ⟨false, mem_offlineRest hoff⟩
  have huids : (sent.map (env i).fillRosterInfo).map (·.uid) = ks.map (·.uid) := by
    rw [← hsent, map_map, map_map]
    refine map_congr_left fun k hk => ?_
    obtain ⟨b, hb⟩ := hparts k (hkeys ▸ mem_append_left tail hk)
    exact congrArg RosterKey.uid (h.entryAt hb).2.1
  have hlength : sent.length = ks.length := by rw [← hsent, length_map]
  rw [hmembers, huids]
  by_cases htail : tail = []
  · have hno : res.hasMore = false := by
      rw [hmore, hkeys, hlength, htail, append_nil]
      exact decide_eq_false (lt_irrefl _)
    refine ⟨?_, ?_, ?_⟩
    · rw [hno, hkeys, htail, append_nil]
      simp
    · exact fun _ _ => trivial
    · rw [hno]
      exact nofun
  have hlt : sent.length < (r.index.remaining after).length := by
    rw [hkeys, length_append, hlength]
    have hpos := length_pos_of_ne_nil htail
    omega
  have hyes : res.hasMore = true := hmore.trans (decide_eq_true hlt)
  have hne : sent ≠ [] := hgoes (by rw [hkeys]; exact append_ne_nil_of_right_ne_nil _ htail)
  have hksne : ks ≠ [] := by
    rintro rfl
    exact hne hsent.symm
  obtain ⟨done, k, hk⟩ := (eq_nil_or_concat' ks).resolve_left hksne
  have hlast : sent.getLast? = some (r.index.entryAt k) := by
    rw [← hsent, hk, map_append, map_singleton, getLast?_append,
      getLast?_singleton, Option.some_or]
  have hnext := hnext hlt
  rw [hlast] at hnext
  dsimp only at hnext
  -- The rest of the roster is what remains at the next cursor.
  suffices hrest : r.index.remaining res.nextAfter = tail by
    rw [if_pos hyes]
    refine ⟨?_, fun _ _ => trivial, fun _ _ => ?_⟩
    · rw [hkeys, map_append, Option.map_some, Option.getD_some, hrest]
    · exact mt map_eq_nil_iff.1 hksne
  have hsplit : r.index.onlineRest (cursorOf after) ++ r.index.offlineRest (cursorOf after) =
      done ++ k :: tail := by
    rw [← RosterIndex.remaining, hkeys, hk, append_assoc]
    rfl
  have hcount : sent.length = done.length + 1 := by
    rw [hlength, hk, length_append]
    rfl
  rw [hnext, hcount]
  exact h.remaining_next hsplit

/-! ## The roster as a whole -/

theorem mem_parts (ix : RosterIndex) (k : RosterKey) :
    k ∈ upperBound none ix.online ++ upperBound none ix.offline ↔ ∃ b, k ∈ ix.part b := by
  rw [mem_append, upperBound_none, upperBound_none, Finset.mem_sort, Finset.mem_sort]
  constructor
  · rintro (hon | hoff)
    · exact ⟨true, hon⟩
    · exact ⟨false, hoff⟩
  · rintro ⟨_ | _, hk⟩
    · exact .inr hk
    · exact .inl hk

theorem Refines.mem_sequence (h : Refines r) (uid : Uid) :
    uid ∈ r.index.sequence ↔ r.shown uid ≠ none := by
  rw [RosterIndex.sequence, mem_map]
  constructor
  · rintro ⟨k, hk, rfl⟩
    obtain ⟨b, hb⟩ := (mem_parts _ k).1 hk
    obtain ⟨s, hs, -⟩ := (h.part b k).1 hb
    rw [hs]
    exact Option.some_ne_none s
  · intro hne
    obtain ⟨s, hs⟩ := Option.ne_none_iff_exists'.1 hne
    exact ⟨s.key uid, (mem_parts _ _).2 ⟨s.online, (h.part _ _).2 ⟨s, hs, rfl, rfl⟩⟩, rfl⟩

theorem Refines.part_unique (h : Refines r) {b b' : Bool} {k k' : RosterKey}
    (hk : k ∈ r.index.part b) (hk' : k' ∈ r.index.part b') (huid : k.uid = k'.uid) :
    b = b' ∧ k = k' := by
  obtain ⟨s, hs, hb, hkey⟩ := (h.part b k).1 hk
  obtain ⟨s', hs', hb', hkey'⟩ := (h.part b' k').1 hk'
  rw [huid, hs'] at hs
  obtain rfl := Option.some_inj.1 hs
  exact ⟨hb.symm.trans hb', by rw [hkey, hkey', huid]⟩

theorem Refines.nodup_sequence (h : Refines r) : r.index.sequence.Nodup := by
  refine List.Nodup.map_on ?_ ?_
  · intro k hk k' hk' huid
    obtain ⟨b, hb⟩ := (mem_parts _ k).1 hk
    obtain ⟨b', hb'⟩ := (mem_parts _ k').1 hk'
    exact (h.part_unique hb hb' huid).2
  · refine List.Nodup.append (Finset.sort_nodup ..) (Finset.sort_nodup ..) ?_
    intro k hon hoff
    have hon : k ∈ r.index.part true := mem_upperBound hon
    have hoff : k ∈ r.index.part false := mem_upperBound hoff
    exact absurd (h.part_unique hon hoff rfl).1 Bool.true_eq_false.mp

/-- The members of a server, from the first page on. -/
def followRoster (ix : RosterIndex) (env : Nat → RosterEnv) (limit : Nat → Int) (fuel : Nat) :
    Option (List Uid) :=
  follow (rosterPage ix env limit) fuel 0 []

/-- Each part has the current keys of the members that show in it, no others; following the cursors
    lists each member once, those online first, in the index's order, whatever limits and sizes are.
    -/
theorem roster_enumerates (h : rosterSystem.Reachable r) :
    (∀ b k, k ∈ r.index.part b ↔ ∃ s, r.shown k.uid = some s ∧ s.online = b ∧ k = s.key k.uid) ∧
    (∀ uid, uid ∈ r.index.sequence ↔ r.shown uid ≠ none) ∧
    r.index.sequence.Nodup ∧
    ∀ env limit fuel, r.index.sequence.length < fuel →
      followRoster r.index env limit fuel = some r.index.sequence := by
  have hr := refines_of_reachable h
  refine ⟨hr.part, hr.mem_sequence, hr.nodup_sequence, fun env limit fuel hfuel => ?_⟩
  have hserves : ∀ i after, True → Serves (fun c => (r.index.remaining c).map (·.uid))
      (fun _ => True) after (rosterPage r.index env limit i after) :=
    fun i after _ => serves_rosterPage hr env limit i after
  exact follow_eq_some hserves 0 trivial hfuel

/-- Three members, one of whom changed their name and went offline. -/
def threeMembers : RosterState :=
  [.put ⟨[97], 0, [], false, true, [], 0, 1⟩, .put ⟨[98], 0, [], false, true, [], 0, 2⟩,
    .put ⟨[97], 0, [31, 122], false, false, [], 0, 1⟩, .put ⟨[99], 0, [], false, true, [], 0, 3⟩].foldl
    RosterState.perform {}

theorem reachable_threeMembers : rosterSystem.Reachable threeMembers := by
  have hint : ∀ uid ∈ [1, 2, 3], IsInt64 uid := by decide
  refine .step (.put ⟨[99], 0, [], false, true, [], 0, 3⟩) ?_ ⟨hint 3 (by decide), rfl⟩
  refine .step (.put ⟨[97], 0, [31, 122], false, false, [], 0, 1⟩) ?_ ⟨hint 1 (by decide), rfl⟩
  refine .step (.put ⟨[98], 0, [], false, true, [], 0, 2⟩) ?_ ⟨hint 2 (by decide), rfl⟩
  refine .step (.put ⟨[97], 0, [], false, true, [], 0, 1⟩) ?_ ⟨hint 1 (by decide), rfl⟩
  exact .init rfl

/-- A page of one member each lists the three. -/
theorem roster_enumerates_three :
    threeMembers.index.sequence.length = 3 ∧
      followRoster threeMembers.index (fun _ => ⟨2, 0, 2, fun _ => []⟩) (fun _ => 1) 4 =
        some threeMembers.index.sequence := by
  have hlength : threeMembers.index.sequence.length = 3 := by
    rw [RosterIndex.sequence, List.length_map, List.length_append, upperBound_none, upperBound_none,
      Finset.length_sort, Finset.length_sort]
    decide +kernel
  obtain ⟨-, -, -, hfollow⟩ := roster_enumerates reachable_threeMembers
  exact ⟨hlength, hfollow _ _ 4 (by rw [hlength]; decide)⟩

end Decibell
