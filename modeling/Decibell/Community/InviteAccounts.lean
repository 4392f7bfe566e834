import Decibell.Community.Coherence
import Decibell.Community.Invites

/-!
# Invites are accounted for

A redemption is given a use (`Redemption.Grants`), or it is turned down; a connection that comes
with it leaves a member more, or as many.
-/

namespace Decibell

open Lib Lib.Conn Tables List

variable {r : Redemption} {t t' : Tables} {inv : DbInvite} {os : List Outcome}

/-! ## What a redemption leaves -/

/-- The answers left once the ban was looked at. -/
def Redemption.left (r : Redemption) (t : Tables) : List Outcome :=
  if r.ban = .ok ∧ t.banLapsed r.uid r.asked then r.outcomes.tail else r.outcomes

/-- The invite is there, for this account, and can be redeemed. -/
structure Redemption.Finds (r : Redemption) (t : Tables) (inv : DbInvite) : Prop where
  answered : r.invite = .ok
  found : t.invites.find? r.code = some inv
  intended : inv.isFor r.uid
  live : ¬inv.expired r.now
  unspent : ¬inv.exhausted

theorem Redemption.Finds.of_bans {bans : Table DbBan.uid} (h : r.Finds { t with bans } inv) :
    r.Finds t inv :=
  ⟨h.answered, h.found, h.intended, h.live, h.unspent⟩

/-- The redemption is given a use of the invite. -/
structure Redemption.Grants (r : Redemption) (t : Tables) (inv : DbInvite) : Prop
    extends r.Finds t inv where
  notBanned : ¬(r.ban = .ok ∧ t.banned r.uid r.asked)
  notMember : ¬(r.member = .ok ∧ t.isMember r.uid)

/-- The use's statement runs, and its transaction, if any, is committed. -/
def Redemption.Counted (r : Redemption) (t : Tables) : Prop :=
  Stands (nextOf (r.left t) = .ok) (r.left t).tail

instance : Decidable (r.Counted t) := inferInstanceAs (Decidable (Stands _ _))

/-- No use is spent, and no invite gone, but that of the code if nobody can redeem it. -/
structure UsesKept (r : Redemption) (was is : Table DbInvite.code) : Prop where
  old : ∀ inv ∈ is.rows, inv ∈ was.rows
  kept : ∀ inv ∈ was.rows, inv ∈ is.rows ∨ inv.code = r.code ∧ (inv.expired r.now ∨ inv.exhausted)

theorem UsesKept.refl (r : Redemption) (was : Table DbInvite.code) : UsesKept r was was :=
  ⟨fun _ hinv => hinv, fun _ hinv => .inl hinv⟩

theorem UsesKept.of_dead {was : Table DbInvite.code} (hfind : was.find? r.code = some inv)
    (hdead : inv.expired r.now ∨ inv.exhausted) :
    UsesKept r was (was.deleteWhere (·.code = r.code)) := by
  refine ⟨fun _ hinv => (mem_filter.1 hinv).1, fun inv' hinv' => ?_⟩
  by_cases hcode : inv'.code = r.code
  · obtain ⟨hinv, hkey⟩ := Table.find?_eq_some.1 hfind
    rw [Table.eq_of_key hinv' hinv (hcode.trans hkey.symm)]
    exact .inr ⟨hkey, hdead⟩
  · exact .inl (mem_filter.2 ⟨hinv', by simpa using hcode⟩)

theorem banActive_spec (answer : Outcome) (uid : Uid) (now : Int) (t : Tables) (os : List Outcome) :
    ∃ bans, (banActive answer uid now).run ⟨t, none, os⟩ =
      (decide (answer = .ok) && t.banned uid now, ⟨{ t with bans }, none,
        if answer = .ok ∧ t.banLapsed uid now then os.tail else os⟩) := by
  rw [banActive]
  by_cases huid : uid = 0
  · simp only [huid, banned, banLapsed, if_true]
    exact ⟨t.bans, by simp; rfl⟩
  · rw [if_neg huid, run_bind, run_lookup_idle]
    by_cases ha : answer = .ok
    · rw [if_pos ha]
      cases hfind : t.bans.find? uid with
      | none => exact ⟨t.bans, by simp [banned, banLapsed, hfind]; rfl⟩
      | some b =>
        cases hlapsed : b.lapsed now with
        | false =>
          refine ⟨t.bans, ?_⟩
          simp [banned, banLapsed, hfind, hlapsed, huid, ha]
          rfl
        | true =>
          have hdelete : deleteBan b.uid t =
            some { t with bans := t.bans.deleteWhere (·.uid = b.uid) } := rfl
          simp only [hlapsed, if_true, run_bind, banned, banLapsed, hfind, ha]
          by_cases ho : nextOf os = .ok
          · refine ⟨t.bans.deleteWhere (·.uid = b.uid), ?_⟩
            rw [exec_of_head_ok hdelete ho]
            simp [hlapsed, huid]
            rfl
          · refine ⟨t.bans, ?_⟩
            rw [exec_of_head_not_ok ho, failed_idle]
            simp [hlapsed, huid]
            rfl
    · exact ⟨t.bans, by simp [ha]; rfl⟩

theorem countUse_eq_some (code : String) (inv : DbInvite) (t : Tables) :
    ∃ t', countUse code inv t = some t' ∧ t'.members = t.members := by
  rw [countUse]
  split
  · exact ⟨_, rfl, rfl⟩
  · exact ⟨_, rfl, rfl⟩

/-- The invite is looked up where nothing was done yet. -/
structure Spent (r : Redemption) (t : Tables) (opened : Prop) (os : List Outcome)
    (res : (InviteResult × Option DbInvite) × Conn Tables) : Prop where
  idle : res.2.Idle
  members : res.2.tables.members = t.members
  change : res.1.1 ≠ .ok ∧ UsesKept r t.invites res.2.tables.invites ∨ ∃ inv, r.Finds t inv ∧
    res.1 = (.ok, some { inv with uses := inv.uses + 1 }) ∧ res.2.outcomes = os.tail.tail ∧
      (Stands opened os → countUse r.code { inv with uses := inv.uses + 1 } t = some res.2.tables) ∧
      (¬Stands opened os → res.2.tables = t)

theorem Spent.refused {result : InviteResult} {opened : Prop} {os' : List Outcome}
    (h : result ≠ .ok) : Spent r t opened os ((result, none), ⟨t, none, os'⟩) :=
  ⟨rfl, rfl, .inl ⟨h, .refl _ _⟩⟩

theorem Spent.dead {result : InviteResult} {opened : Prop} [Decidable opened] (h : result ≠ .ok)
    (hfind : t.invites.find? r.code = some inv) (hdead : inv.expired r.now ∨ inv.exhausted) :
    Spent r t opened os (StateT.run (do
      execCommit (deleteInvite r.code)
      return (result, none)) ⟨t, opening opened t, os⟩) := by
  have hdelete : deleteInvite r.code t =
    some { t with invites := t.invites.deleteWhere (·.code = r.code) } := rfl
  rw [run_bind, run_execCommit hdelete]
  by_cases hs : Stands opened os
  · rw [if_pos hs]
    exact ⟨rfl, rfl, .inl ⟨h, .of_dead hfind hdead⟩⟩
  · rw [if_neg hs]
    exact .refused h

theorem spendUse_spec (r : Redemption) (t : Tables) (opened : Prop) [Decidable opened]
    (os : List Outcome) : Spent r t opened os ((spendUse r).run ⟨t, opening opened t, os⟩) := by
  rw [spendUse, run_bind]
  by_cases hanswered : r.invite = .ok
  · rw [hanswered, run_lookup_ok]
    cases hfind : t.invites.find? r.code with
    | none =>
      simp only [run_bind, run_rollback_opening]
      exact .refused (by decide)
    | some inv =>
      dsimp only
      by_cases hfor : inv.isFor r.uid
      · rw [if_neg (not_not.2 hfor)]
        by_cases hexpired : inv.expired r.now
        · rw [if_pos hexpired]
          exact .dead (by decide) hfind (.inl hexpired)
        · rw [if_neg hexpired]
          by_cases hexhausted : inv.exhausted
          · rw [if_pos hexhausted]
            exact .dead (by decide) hfind (.inr hexhausted)
          · rw [if_neg hexhausted]
            obtain ⟨t', hcount, hmembers⟩ :=
              countUse_eq_some r.code { inv with uses := inv.uses + 1 } t
            rw [run_bind, run_execCommit hcount]
            have hfinds : r.Finds t inv := ⟨hanswered, hfind, hfor, hexpired, hexhausted⟩
            by_cases hs : Stands opened os
            · rw [if_pos hs]
              exact ⟨rfl, hmembers, .inr ⟨inv, hfinds, rfl, rfl,
                fun _ => hcount, fun h => absurd hs h⟩⟩
            · rw [if_neg hs]
              exact ⟨rfl, rfl, .inr ⟨inv, hfinds, rfl, rfl,
                fun h => absurd h hs, fun _ => rfl⟩⟩
      · rw [if_pos hfor, run_bind, run_rollback_opening]
        exact .refused (by decide)
  · obtain ⟨c, hlookup, hrollback⟩ := run_lookup_rollback hanswered
      (fun t : Tables => t.invites.find? r.code) opened
    rw [hlookup]
    simp only [run_bind, hrollback]
    exact .refused (by decide)

/-- A redemption from outside any transaction. -/
structure Redeemed (r : Redemption) (t : Tables)
    (res : (InviteResult × Option DbInvite) × Conn Tables) : Prop where
  idle : res.2.Idle
  members : res.2.tables.members = t.members
  change : res.1.1 ≠ .ok ∧ UsesKept r t.invites res.2.tables.invites ∨ ∃ inv, r.Grants t inv ∧
    res.1 = (.ok, some { inv with uses := inv.uses + 1 }) ∧
      res.2.outcomes = (r.left t).tail.tail.tail ∧ ∃ bans,
        (r.Counted t →
          countUse r.code { inv with uses := inv.uses + 1 } { t with bans } = some res.2.tables) ∧
        (¬r.Counted t → res.2.tables = { t with bans })

theorem Redeemed.refused {result : InviteResult} {bans : Table DbBan.uid} (h : result ≠ .ok) :
    Redeemed r t ((result, none), ⟨{ t with bans }, none, os⟩) :=
  ⟨rfl, rfl, .inl ⟨h, .refl _ _⟩⟩

theorem redeem_spec (r : Redemption) (t : Tables) :
    Redeemed r t ((redeem r).run ⟨t, none, r.outcomes⟩) := by
  obtain ⟨bans, hban⟩ := banActive_spec r.ban r.uid r.asked t r.outcomes
  rw [redeem, run_bind, hban]
  by_cases hbanned : (decide (r.ban = .ok) && t.banned r.uid r.asked) = true
  · rw [if_pos hbanned]
    exact .refused (by decide)
  rw [if_neg hbanned, run_bind, run_lookup_idle]
  by_cases hmember : (if r.member = .ok then t.members.find? r.uid else none).isSome = true
  · rw [if_pos hmember]
    exact .refused (by decide)
  rw [if_neg hmember, run_begin_bind]
  have hspent := spendUse_spec r { t with bans } (nextOf (r.left t) = .ok) (r.left t).tail
  refine ⟨hspent.idle, hspent.members, hspent.change.imp id ?_⟩
  rintro ⟨inv, hfinds, hres, hos, hcounted, hlost⟩
  refine ⟨inv, ⟨hfinds.of_bans, by simpa using hbanned, ?_⟩, hres, hos, bans, hcounted, hlost⟩
  rintro ⟨hok, hm⟩
  rw [if_pos hok] at hmember
  exact hmember ((isSome_member t r.uid).trans hm)

/-! ## Joining -/

/-- The account is written down as a member. -/
def Redemption.Recorded (r : Redemption) (t : Tables) : Prop :=
  0 < r.uid ∧ ¬t.isMember r.uid ∧ nextOf (r.left t).tail.tail.tail = .ok

instance : Decidable (r.Recorded t) := inferInstanceAs (Decidable (_ ∧ _ ∧ _))

namespace CommunityDb

variable {d : CommunityDb}

theorem run_redeemInvite (hd : d.conn.Idle) (r : Redemption) :
    (redeemInvite r).run (d.facing r.outcomes) =
      (((redeem r).run ⟨d.tables, none, r.outcomes⟩).1,
        { d with conn := ((redeem r).run ⟨d.tables, none, r.outcomes⟩).2 }) := by
  have hconn : (d.facing r.outcomes).conn = ⟨d.tables, none, r.outcomes⟩ :=
    congrArg (fun saved => (⟨d.tables, saved, r.outcomes⟩ : Conn Tables)) hd
  rw [← hconn]
  rfl

theorem exec_insertMember (m : DbMember) (t : Tables) (os : List Outcome) :
    let res := (exec (insertMember m)).run (⟨t, none, os⟩ : Conn Tables)
    let added := ¬t.isMember m.uid ∧ nextOf os = .ok
    res.2.Idle ∧ res.2.tables.invites = t.invites ∧
      (added ∧ res.1 = true ∧ res.2.tables.isMember m.uid ∨
        ¬added ∧ res.1 = false ∧ res.2.tables = t) := by
  by_cases ho : nextOf os = .ok
  · by_cases hm : m.uid ∈ t.members.keys
    · have hrefused : insertMember m t = none := by
        rw [insertMember, Table.insert, dif_pos hm, Option.map_none]
      have hrun : (exec (insertMember m)).run (⟨t, none, os⟩ : Conn Tables) =
          (false, ⟨t, none, os.tail⟩) := by
        have hn : (⟨t, none, os⟩ : Conn Tables).next = .ok := ho
        simp [exec, StateT.run, hn, hrefused, used]
      rw [hrun]
      exact ⟨rfl, rfl, .inr ⟨fun h => h.1 (contains_iff_mem.2 hm), rfl, rfl⟩⟩
    · have hadded : insertMember m t = some { t with members := t.members.append m hm } := by
        rw [insertMember, Table.insert_eq_some hm, Option.map_some]
      rw [exec_of_head_ok hadded ho]
      refine ⟨rfl, rfl, .inl ⟨⟨fun h => hm (contains_iff_mem.1 h), ho⟩, rfl, ?_⟩⟩
      exact contains_iff_mem.2 (mem_map_of_mem (mem_append_right _ (.head _)))
  · rw [exec_of_head_not_ok ho, failed_idle]
    exact ⟨rfl, rfl, .inr ⟨fun h => ho h.2, rfl, rfl⟩⟩

theorem addMember_spec {t : Tables} {os : List Outcome} (hd : d.conn = ⟨t, none, os⟩) (uid : Uid)
    (username : String) (nameIat now : Int) :
    let res := (addMember uid username nameIat now).run d
    let added := 0 < uid ∧ ¬t.isMember uid ∧ nextOf os = .ok
    res.2.conn.Idle ∧ res.2.tables.invites = t.invites ∧
      (added ∧ res.1 = true ∧ res.2.tables.isMember uid ∨
        ¬added ∧ res.1 = false ∧ res.2.tables = t) := by
  rw [addMember]
  by_cases huid : uid ≤ 0
  · rw [if_pos huid]
    have ht : d.tables = t := congrArg Conn.tables hd
    refine ⟨congrArg Conn.saved hd, congrArg Tables.invites ht, .inr ⟨fun h => ?_, rfl, ht⟩⟩
    exact absurd h.1 (Int.not_lt.2 huid)
  · have hpos : 0 < uid := Int.not_le.1 huid
    rw [if_neg huid]
    have hmember := exec_insertMember { uid, username, joinedAt := now, nameIat } t os
    rw [← hd] at hmember
    refine ⟨hmember.1, hmember.2.1, hmember.2.2.imp ?_ ?_⟩
    · exact fun h => ⟨⟨hpos, h.1⟩, h.2⟩
    · exact fun h => ⟨fun hadded => h.1 hadded.2, h.2⟩

/-- What a connection makes of a redemption. -/
structure Joined (r : Redemption) (d : CommunityDb)
    (res : (InviteResult × AuthReply) × CommunityDb) : Prop where
  idle : res.2.conn.Idle
  invites : res.2.tables.invites =
    ((redeem r).run ⟨d.tables, none, r.outcomes⟩).2.tables.invites
  result : res.1.1 = ((redeem r).run ⟨d.tables, none, r.outcomes⟩).1.1
  refused : res.1.1 ≠ .ok → res.2.tables.members = d.tables.members ∧
    (res.1.2 = .accepted ↔ res.1.1 = .alreadyMember)
  granted : res.1.1 = .ok → r.Recorded d.tables ∧ res.1.2 = .accepted ∧ res.2.tables.isMember r.uid ∨
    ¬r.Recorded d.tables ∧ res.1.2 ≠ .accepted ∧ res.2.tables.members = d.tables.members

theorem replyTo_eq_accepted {result : InviteResult} (h : result ≠ .ok) :
    replyTo result = .accepted ↔ result = .alreadyMember := by
  cases result <;> simp [replyTo] at h ⊢

theorem joinByInvite_spec (hd : d.conn.Idle) (r : Redemption) :
    Joined r d ((joinByInvite r).run (d.facing r.outcomes)) := by
  have hredeemed := redeem_spec r d.tables
  rw [joinByInvite, run_bind, run_redeemInvite hd]
  obtain ⟨hidle, hmembers, hchange⟩ := hredeemed
  generalize hrun : (redeem r).run ⟨d.tables, none, r.outcomes⟩ = res at *
  obtain ⟨⟨result, inv⟩, c⟩ := res
  dsimp only at hidle hmembers hchange ⊢
  by_cases hok : result = .ok
  · rw [if_pos hok, run_bind]
    obtain ⟨inv, -, -, hos, -⟩ := hchange.resolve_left fun h => h.1 hok
    have hc : ({ d with conn := c } : CommunityDb).conn =
        ⟨c.tables, none, (r.left d.tables).tail.tail.tail⟩ := by
      have hsaved : c.saved = none := hidle
      rw [← hos, ← hsaved]
    have hm : c.tables.isMember r.uid = d.tables.isMember r.uid := by
      rw [isMember, isMember, hmembers]
    obtain ⟨hidle', hinvites, hadd⟩ := addMember_spec hc r.uid r.username r.nameIat r.joinedAt
    rw [hm] at hadd
    rcases hadd with ⟨hadded, hres, hmember⟩ | ⟨hadded, hres, htables⟩
    · rw [if_pos hres]
      exact ⟨hidle', hinvites.trans (by rw [hrun]), by rw [hrun]; rfl, fun h => absurd hok h,
        fun _ => .inl ⟨hadded, rfl, hmember⟩⟩
    · rw [hres, if_neg Bool.false_ne_true]
      refine ⟨hidle', hinvites.trans (by rw [hrun]), by rw [hrun]; rfl, fun h => absurd hok h,
        fun _ => .inr ⟨hadded, ?_, ?_⟩⟩
      · exact AuthReply.noConfusion
      · exact (congrArg Tables.members htables).trans hmembers
  · rw [if_neg hok]
    exact ⟨hidle, by rw [hrun]; rfl, by rw [hrun]; rfl,
      fun _ => ⟨hmembers, replyTo_eq_accepted hok⟩, fun h => absurd h hok⟩

end CommunityDb

/-! ## The count -/

/-- Invites are as issued but for uses; a limited one's spent uses were given, no more than it has.
    -/
structure Tallied (invites : Table DbInvite.code) (issued : String → Option DbInvite)
    (redeemed : String → Nat) : Prop where
  rows : ∀ code row, invites.find? code = some row → ∃ inv, issued code = some inv ∧
    row = { inv with uses := row.uses } ∧ (0 < inv.maxUses → row.uses = redeemed code)
  bound : ∀ code inv, issued code = some inv → 0 < inv.maxUses → (redeemed code : Int) ≤ inv.maxUses

section Tallied

variable {was is : Table DbInvite.code} {issued : String → Option DbInvite} {redeemed : String → Nat}
  {code : String}

theorem tallied_empty : Tallied .empty (fun _ => none) fun _ => 0 := by
  constructor
  · intro code row h
    cases h
  · intro code inv h
    cases h

theorem Tallied.mono (h : Tallied was issued redeemed) (hsub : ∀ inv ∈ is.rows, inv ∈ was.rows) :
    Tallied is issued redeemed := by
  refine ⟨fun code row hfind => h.rows code row ?_, h.bound⟩
  obtain ⟨hrow, hkey⟩ := Table.find?_eq_some.1 hfind
  exact Table.find?_eq_some.2 ⟨hsub row hrow, hkey⟩

theorem Tallied.uncounted (h : Tallied was issued redeemed) (hfind : was.find? code = some inv)
    (hlimit : ¬0 < inv.maxUses) :
    Tallied was issued (Function.update redeemed code (redeemed code + 1)) := by
  obtain ⟨inv₀, hissued, hinv, -⟩ := h.rows code inv hfind
  have hlimit₀ : ¬0 < inv₀.maxUses := by rwa [hinv] at hlimit
  constructor
  · intro code' row hfind'
    by_cases hcode : code' = code
    · subst hcode
      obtain rfl : inv = row := Option.some.inj (hfind.symm.trans hfind')
      exact ⟨inv₀, hissued, hinv, fun h => absurd h hlimit₀⟩
    · rw [Function.update_of_ne hcode]
      exact h.rows code' row hfind'
  · intro code' inv' hissued' hpos
    by_cases hcode : code' = code
    · subst hcode
      obtain rfl : inv₀ = inv' := Option.some.inj (hissued.symm.trans hissued')
      exact absurd hpos hlimit₀
    · rw [Function.update_of_ne hcode]
      exact h.bound code' inv' hissued' hpos

theorem Tallied.counted (h : Tallied was issued redeemed) (hfind : was.find? code = some inv)
    (hunspent : ¬inv.exhausted)
    (his : is = was.deleteWhere (·.code = code) ∨
      is = was.updateWhere (·.code = code) ({ · with uses := inv.uses + 1 })) :
    Tallied is issued (Function.update redeemed code (redeemed code + 1)) := by
  obtain ⟨inv₀, hissued, hinv, hcount⟩ := h.rows code inv hfind
  have hmax : inv.maxUses = inv₀.maxUses := by rw [hinv]
  constructor
  · intro code' row hfind'
    by_cases hcode : code' = code
    · subst hcode
      rcases his with rfl | rfl
      · rw [Table.find?_deleteWhere_key, if_pos rfl] at hfind'
        cases hfind'
      · rw [Table.find?_updateWhere, hfind, Option.map_some, Option.some.injEq] at hfind'
        rw [if_pos (decide_eq_true (Table.find?_eq_some.1 hfind).2)] at hfind'
        refine ⟨inv₀, hissued, ?_, fun hpos => ?_⟩
        · rw [← hfind', hinv]
        · rw [← hfind', Function.update_self, Int.natCast_add, ← hcount hpos]
          rfl
    · rw [Function.update_of_ne hcode]
      refine h.rows code' row ?_
      rcases his with rfl | rfl
      · rwa [Table.find?_deleteWhere_key, if_neg hcode] at hfind'
      · rw [Table.find?_updateWhere] at hfind'
        obtain ⟨row', hrow', hrow⟩ := Option.map_eq_some_iff.1 hfind'
        have hne : row'.code ≠ code := (Table.find?_eq_some.1 hrow').2.trans_ne hcode
        rwa [if_neg (by simpa using hne), ← hrow] at *
  · intro code' inv' hissued' hpos
    by_cases hcode : code' = code
    · subst hcode
      obtain rfl : inv₀ = inv' := Option.some.inj (hissued.symm.trans hissued')
      have hless : ¬(0 < inv.maxUses ∧ inv.maxUses ≤ inv.uses) := hunspent
      rw [Function.update_self]
      have := hcount hpos
      omega
    · rw [Function.update_of_ne hcode]
      exact h.bound code' inv' hissued' hpos

theorem Tallied.issue (h : Tallied was issued redeemed) (his : was.insert inv = some is)
    (huses : inv.uses = 0) : Tallied is (Function.update issued inv.code (some inv))
      (Function.update redeemed inv.code 0) := by
  have hrows := Table.rows_of_insert his
  constructor
  · intro code row hfind
    obtain ⟨hrow, hkey⟩ := Table.find?_eq_some.1 hfind
    by_cases hcode : code = inv.code
    · subst hcode
      have hinv : inv ∈ is.rows := by rw [hrows]; exact mem_append_right _ (.head _)
      obtain rfl := Table.eq_of_key hrow hinv hkey
      refine ⟨row, Function.update_self .., rfl, fun _ => ?_⟩
      rw [Function.update_self, huses]
      rfl
    · rw [Function.update_of_ne hcode, Function.update_of_ne hcode]
      refine h.rows code row (Table.find?_eq_some.2 ⟨?_, hkey⟩)
      rw [hrows, mem_append] at hrow
      refine hrow.resolve_right fun hrow => hcode ?_
      rw [← hkey, mem_singleton.1 hrow]
  · intro code inv' hissued hpos
    by_cases hcode : code = inv.code
    · subst hcode
      rw [Function.update_self] at hissued ⊢
      cases hissued
      exact Int.le_of_lt hpos
    · rw [Function.update_of_ne hcode] at hissued ⊢
      exact h.bound code inv' hissued hpos

end Tallied

/-! ## Runs -/

/-- A server's database, and what the run issued and redeemed. -/
structure InviteRun where
  db : CommunityDb
  /-- The invite that was last issued under a code. -/
  issued : String → Option DbInvite := fun _ => none
  /-- How often it was redeemed since. -/
  redeemed : String → Nat := fun _ => 0

/-- What happens to a server. -/
inductive InviteAct
  | redeem (r : Redemption)
  | join (r : Redemption)
  | create (codes : List String) (createdByUid : Uid) (now expiresAt maxUses : Int) (forUid : Uid)
      (outcomes : List Outcome)
  | revoke (code : String) (outcomes : List Outcome)
  /-- Anything else that leaves the invites alone. -/
  | other (db : CommunityDb)

namespace InviteRun

open CommunityDb

/-- After a redemption. -/
def after (s : InviteRun) (db : CommunityDb) (code : String) (result : InviteResult) : InviteRun where
  db := db
  issued := s.issued
  redeemed :=
    if result = .ok then Function.update s.redeemed code (s.redeemed code + 1) else s.redeemed

/-- After an invite was created, if it was. -/
def afterCreation (s : InviteRun) (db : CommunityDb) : Option DbInvite → InviteRun
  | none => { s with db }
  | some inv => {
    db
    issued := Function.update s.issued inv.code (some inv)
    redeemed := Function.update s.redeemed inv.code 0 }

def next (s : InviteRun) : InviteAct → InviteRun
  | .redeem r =>
    let res := (redeemInvite r).run (s.db.facing r.outcomes)
    s.after res.2 r.code res.1.1
  | .join r =>
    let res := (joinByInvite r).run (s.db.facing r.outcomes)
    s.after res.2 r.code res.1.1
  | .create codes createdByUid now expiresAt maxUses forUid outcomes =>
    let res :=
      (createInvite codes createdByUid now expiresAt maxUses forUid).run (s.db.facing outcomes)
    s.afterCreation res.2 res.1
  | .revoke code outcomes => { s with db := ((revokeInvite code).run (s.db.facing outcomes)).2 }
  | .other db => { s with db }

end InviteRun

/-- The runs of a server that has no invites at first. -/
def inviteSystem : System InviteRun InviteAct where
  init s := s.db.conn.Idle ∧ s.db.tables.invites = .empty ∧ s.issued = (fun _ => none) ∧
    s.redeemed = fun _ => 0
  step s a s' := s' = s.next a ∧
    ∀ db, a = .other db → db.conn.Idle ∧ db.tables.invites = s.db.tables.invites

/-- A redemption with a use is no banned account's, and counts if the invite has a limit; with a
    connection, the member is written down. -/
def Heeded (s : InviteRun) : InviteAct → Prop
  | .redeem r => ∀ inv, r.Grants s.db.tables inv →
    ¬s.db.tables.banned r.uid r.asked ∧ (0 < inv.maxUses → r.Counted s.db.tables)
  | .join r => ∀ inv, r.Grants s.db.tables inv →
    ¬s.db.tables.banned r.uid r.asked ∧ (0 < inv.maxUses → r.Counted s.db.tables) ∧
      r.Recorded s.db.tables
  | _ => True

/-! ## What each step keeps -/

namespace CommunityDb

variable {d : CommunityDb}

theorem createUnder_spec (inv : DbInvite) (codes : List String) (hd : d.conn.Idle) :
    let res := (createUnder inv codes).run d
    res.2.conn.Idle ∧ (res.1 = none ∧ res.2.tables = d.tables ∨ ∃ created, res.1 = some created ∧
      created.uses = inv.uses ∧ d.tables.invites.insert created = some res.2.tables.invites) := by
  induction codes generalizing d with
  | nil => exact ⟨hd, .inl ⟨rfl, rfl⟩⟩
  | cons code codes ih =>
    have hinsert (e : Bool × Conn Tables)
        (he : (exec (insertInvite { inv with code })).run d.conn = e) :
        (createUnder inv (code :: codes)).run d =
          if e.1 then (some { inv with code }, { d with conn := e.2 })
          else if d.conn.next = .ok then (createUnder inv codes).run { d with conn := e.2 }
          else (none, { d with conn := e.2 }) := by
      have hget : (createUnder inv (code :: codes)).run d = StateT.run (do
          if ← sql (exec (insertInvite { inv with code })) then return some { inv with code }
          else if d.conn.next = .ok then createUnder inv codes
          else return none) d := rfl
      have hsql : (sql (exec (insertInvite { inv with code }))).run d =
          (e.1, { d with conn := e.2 }) := by
        rw [← he]
        rfl
      rw [hget, run_bind, hsql]
      dsimp only
      split
      · rfl
      · split <;> rfl
    obtain ⟨hidle, hexec⟩ := exec_idle (insertInvite { inv with code }) hd
    rw [hinsert _ rfl]
    rcases hexec with ⟨hok, hs⟩ | ⟨hok, ht⟩
    · rw [if_pos hok]
      refine ⟨hidle, .inr ⟨_, rfl, rfl, ?_⟩⟩
      obtain ⟨invites, hinvites, hs⟩ := Option.map_eq_some_iff.1 hs
      exact hinvites.trans (congrArg (some ·.invites) hs)
    · rw [hok, if_neg Bool.false_ne_true]
      split
      · -- the code was taken
        obtain ⟨hidle, hnext⟩ := ih (d := { d with conn := _ }) hidle
        have hd : ({ d with conn := ((exec (insertInvite { inv with code })).run d.conn).2 } :
            CommunityDb).tables = d.tables := ht
        rw [hd] at hnext
        exact ⟨hidle, hnext⟩
      · exact ⟨hidle, .inl ⟨rfl, ht⟩⟩

theorem revokeInvite_spec (code : String) (hd : d.conn.Idle) :
    ((revokeInvite code).run d).2.conn.Idle ∧
      ∀ inv ∈ ((revokeInvite code).run d).2.tables.invites.rows, inv ∈ d.tables.invites.rows := by
  obtain ⟨hidle, hexec⟩ := exec_idle (deleteInvite code) hd
  have hrun : ((revokeInvite code).run d).2.conn = ((exec (deleteInvite code)).run d.conn).2 := rfl
  rw [tables, hrun]
  refine ⟨hidle, ?_⟩
  rcases hexec with ⟨-, hs⟩ | ⟨-, ht⟩
  · rw [← Option.some.inj hs]
    exact fun inv hinv => (mem_filter.1 hinv).1
  · rw [ht]
    exact fun inv hinv => hinv

end CommunityDb

theorem countUse_invites {code : String} {inv : DbInvite} (h : countUse code inv t = some t') :
    t'.invites = t.invites.deleteWhere (·.code = code) ∨
      t'.invites = t.invites.updateWhere (·.code = code) ({ · with uses := inv.uses }) := by
  rw [countUse] at h
  split at h
  · exact .inl (congrArg Tables.invites (Option.some.inj h)).symm
  · exact .inr (congrArg Tables.invites (Option.some.inj h)).symm

theorem Redeemed.tallied {res : (InviteResult × Option DbInvite) × Conn Tables}
    {issued : String → Option DbInvite} {redeemed : String → Nat} (h : Redeemed r t res)
    (hcounted : ∀ inv, r.Grants t inv → 0 < inv.maxUses → r.Counted t)
    (ht : Tallied t.invites issued redeemed) : Tallied res.2.tables.invites issued
      (if res.1.1 = .ok then Function.update redeemed r.code (redeemed r.code + 1) else redeemed) := by
  rcases h.change with ⟨hres, hkept⟩ | ⟨inv, hgrants, hres, -, bans, hcount, hlost⟩
  · rw [if_neg hres]
    exact ht.mono hkept.old
  · have hok : res.1.1 = .ok := congrArg Prod.fst hres
    rw [if_pos hok]
    by_cases hc : r.Counted t
    · exact ht.counted hgrants.found hgrants.unspent (countUse_invites (hcount hc))
    · have hsame : res.2.tables.invites = t.invites := by rw [hlost hc]
      rw [hsame]
      exact ht.uncounted hgrants.found fun hpos => hc (hcounted inv hgrants hpos)

namespace InviteRun

open CommunityDb

/-- The count is right, and no transaction is open. -/
structure Settled (s : InviteRun) : Prop where
  idle : s.db.conn.Idle
  tallied : Tallied s.db.tables.invites s.issued s.redeemed

theorem Settled.next {s : InviteRun} (hs : s.Settled) {a : InviteAct} (ha : Heeded s a)
    (hother : ∀ db, a = .other db → db.conn.Idle ∧ db.tables.invites = s.db.tables.invites) :
    (s.next a).Settled := by
  cases a with
  | redeem r =>
    have hredeemed := redeem_spec r s.db.tables
    have htallied := hredeemed.tallied (fun inv h => (ha inv h).2) hs.tallied
    rw [InviteRun.next, run_redeemInvite hs.idle]
    exact ⟨hredeemed.idle, htallied⟩
  | join r =>
    have hjoined := joinByInvite_spec hs.idle r
    have htallied := (redeem_spec r s.db.tables).tallied (fun inv h => (ha inv h).2.1) hs.tallied
    rw [← hjoined.invites, ← hjoined.result] at htallied
    exact ⟨hjoined.idle, htallied⟩
  | create codes createdByUid now expiresAt maxUses forUid outcomes =>
    have hidle : (s.db.facing outcomes).conn.Idle := hs.idle
    rw [InviteRun.next, createInvite]
    obtain ⟨hidle, hcreated⟩ := createUnder_spec _ (codes.take maxCodeDraws) hidle
    rcases hcreated with ⟨hnone, ht⟩ | ⟨inv, hsome, huses, hinsert⟩
    · rw [hnone]
      refine ⟨hidle, ?_⟩
      have hsame : Tallied (s.db.facing outcomes).tables.invites s.issued s.redeemed := hs.tallied
      rw [← congrArg Tables.invites ht] at hsame
      exact hsame
    · rw [hsome]
      exact ⟨hidle, hs.tallied.issue hinsert huses⟩
  | revoke code outcomes =>
    have hidle : (s.db.facing outcomes).conn.Idle := hs.idle
    obtain ⟨hidle, hsub⟩ := revokeInvite_spec code hidle
    exact ⟨hidle, hs.tallied.mono hsub⟩
  | other db =>
    obtain ⟨hidle, hsame⟩ := hother db rfl
    refine ⟨hidle, ?_⟩
    rw [InviteRun.next, hsame]
    exact hs.tallied

theorem settled_of_reachable {s : InviteRun} (hs : (inviteSystem.given Heeded).Reachable s) :
    s.Settled := by
  refine System.reachable_invariant (I := Settled) ?_ ?_ hs
  · rintro s ⟨hidle, hinvites, hissued, hredeemed⟩
    refine ⟨hidle, ?_⟩
    rw [hinvites, hissued, hredeemed]
    exact tallied_empty
  · rintro s a s' hs ⟨⟨rfl, hother⟩, ha⟩
    exact hs.next ha hother

structure Accounted (s : InviteRun) (r : Redemption) (success : Prop) (t' : Tables) : Prop where
  /-- It was for the account, and in time. -/
  intended : success → ∃ inv, s.issued r.code = some inv ∧ inv.isFor r.uid ∧ ¬inv.expired r.now
  /-- A failed one spends nothing, and makes nobody a member. -/
  unchanged : ¬success → t'.members = s.db.tables.members ∧
    UsesKept r s.db.tables.invites t'.invites
  banned : s.db.tables.banned r.uid r.asked → ¬success

theorem Settled.intended {s : InviteRun} (hs : s.Settled) {r : Redemption} {inv : DbInvite}
    (h : r.Grants s.db.tables inv) :
    ∃ inv, s.issued r.code = some inv ∧ inv.isFor r.uid ∧ ¬inv.expired r.now := by
  obtain ⟨inv₀, hissued, hinv, -⟩ := hs.tallied.rows r.code inv h.found
  refine ⟨inv₀, hissued, ?_, ?_⟩
  · have hfor := h.intended
    rw [hinv] at hfor
    exact hfor
  · have hlive := h.live
    rw [hinv] at hlive
    exact hlive

end InviteRun

open CommunityDb

/-- Invites are accounted for: in every run whose redemptions are heeded a limited invite is
    redeemed within its limit, and each redemption is `Accounted`, alone or with its connection. -/
theorem invites_accounted {s : InviteRun} (hs : (inviteSystem.given Heeded).Reachable s) :
    (∀ code inv, s.issued code = some inv → 0 < inv.maxUses →
      (s.redeemed code : Int) ≤ inv.maxUses) ∧
    (∀ r, Heeded s (.redeem r) → let res := (redeemInvite r).run (s.db.facing r.outcomes)
      s.Accounted r (res.1.1 = .ok) res.2.tables) ∧
    ∀ r, Heeded s (.join r) → let res := (joinByInvite r).run (s.db.facing r.outcomes)
      s.Accounted r (res.1 = (.ok, .accepted)) res.2.tables := by
  have hs := InviteRun.settled_of_reachable hs
  refine ⟨hs.tallied.bound, fun r hr => ?_, fun r hr => ?_⟩
  · obtain ⟨-, hmembers, hchange⟩ := redeem_spec r s.db.tables
    rw [run_redeemInvite hs.idle]
    rcases hchange with ⟨hres, hkept⟩ | ⟨inv, hgrants, hres, -⟩
    · exact ⟨fun h => absurd h hres, fun _ => ⟨hmembers, hkept⟩, fun _ => hres⟩
    · have hok := congrArg Prod.fst hres
      exact ⟨fun _ => hs.intended hgrants, fun h => absurd hok h,
        fun hbanned => absurd hbanned (hr inv hgrants).1⟩
  · have hjoined := joinByInvite_spec hs.idle r
    obtain ⟨-, hmembers, hchange⟩ := redeem_spec r s.db.tables
    rw [← hjoined.invites] at hchange
    rcases hchange with ⟨hres, hkept⟩ | ⟨inv, hgrants, hres, -⟩
    · rw [← hjoined.result] at hres
      exact ⟨fun h => absurd (congrArg Prod.fst h) hres,
        fun _ => ⟨(hjoined.refused hres).1, hkept⟩, fun _ h => hres (congrArg Prod.fst h)⟩
    · have hok := hjoined.result.trans (congrArg Prod.fst hres)
      obtain ⟨hallowed, -, hrecorded⟩ := hr inv hgrants
      refine ⟨fun _ => hs.intended hgrants, fun h => ?_, fun hbanned => absurd hbanned hallowed⟩
      -- the member was written down
      rcases hjoined.granted hok with ⟨-, haccepted, -⟩ | ⟨hnot, -⟩
      · exact absurd (Prod.ext hok haccepted) h
      · exact absurd hrecorded hnot

/-! ## A run in which uses go uncounted -/

/-- A server on which nothing happened yet. -/
def untouched : InviteRun where
  db := { conn := { tables := {} } }

/-- An invite for one use. -/
def invited : InviteRun := untouched.next (.create ["A"] 1 0 0 1 0 [])

theorem reachable_invited : (inviteSystem.given Heeded).Reachable invited := by
  have hinit : inviteSystem.init untouched := ⟨rfl, rfl, rfl, rfl⟩
  refine .step _ (.init hinit) ⟨⟨rfl, fun db h => ?_⟩, trivial⟩
  cases h

def comes (uid : Uid) (outcomes : List Outcome) : Redemption where
  code := "A"
  uid := uid
  username := "u"
  asked := 1
  now := 1
  joinedAt := 1
  outcomes := outcomes

/-- Another process locks the database while the use is to be counted. -/
def locked : List Outcome := [.fail, .fail, .fail, .ok]

/-- The invite is redeemed twice. -/
theorem redeemed_past_limit :
    let s := (invited.next (.join (comes 5 locked))).next (.join (comes 6 locked))
    inviteSystem.Reachable s ∧ s.db.tables.members.keys = [5, 6] ∧
      ((s.issued "A").map DbInvite.maxUses, s.redeemed "A") = (some 1, 2) := by
  refine ⟨?_, by decide +kernel, by decide +kernel⟩
  have hinvited : inviteSystem.Reachable invited := .of_given reachable_invited
  have hfirst : inviteSystem.Reachable (invited.next (.join (comes 5 locked))) :=
    .step _ hinvited ⟨rfl, fun db h => by cases h⟩
  exact .step _ hfirst ⟨rfl, fun db h => by cases h⟩

/-- Where nothing fails, it is redeemed once. -/
theorem invited_accounted :
    (∀ code inv, invited.issued code = some inv → 0 < inv.maxUses →
      (invited.redeemed code : Int) ≤ inv.maxUses) ∧
    invited.Accounted (comes 5 []) (((joinByInvite (comes 5 [])).run (invited.db.facing [])).1 =
      (.ok, .accepted)) ((joinByInvite (comes 5 [])).run (invited.db.facing [])).2.tables := by
  have haccounted := invites_accounted reachable_invited
  refine ⟨haccounted.1, haccounted.2.2 (comes 5 []) fun inv _ => ⟨?_, fun _ => ?_, ?_⟩⟩
  · decide +kernel
  · decide +kernel
  · decide +kernel

end Decibell
