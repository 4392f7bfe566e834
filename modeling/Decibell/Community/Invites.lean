import Decibell.Community.DbMembers
import Decibell.Lib.Faults

/-!
# Invites

* `redeemInvite` spends a use of an invite for an account that is neither banned nor a member;
  `joinByInvite` is what a connection makes of it, which writes the member down after the use was
  spent.
* `createInvite` draws codes until one is free; `revokeInvite` deletes an invite.
-/

namespace Decibell

open Lib Lib.Conn Tables

/-! ## Bans -/

/-- The ban has run out. -/
def DbBan.lapsed (b : DbBan) (now : Int) : Bool := b.expiresAt ≠ 0 && b.expiresAt ≤ now

namespace Tables

/-- An account is banned. -/
def banned (t : Tables) (uid : Uid) (now : Int) : Bool :=
  uid ≠ 0 && (t.bans.find? uid).any (! ·.lapsed now)

/-- An account has a ban that has run out. -/
def banLapsed (t : Tables) (uid : Uid) (now : Int) : Bool :=
  uid ≠ 0 && (t.bans.find? uid).any (·.lapsed now)

def deleteBan (uid : Uid) : Stmt := fun t => some { t with bans := t.bans.deleteWhere (·.uid = uid) }

end Tables

/-- `ban_active_unlocked` deletes a ban that has run out. -/
def banActive (answer : Outcome) (uid : Uid) (now : Int) : StateM (Conn Tables) Bool := do
  if uid = 0 then return false
  else
    match ← lookup answer (·.bans.find? uid) with
    | none => return false
    | some b =>
      if b.lapsed now then
        let _ ← exec (deleteBan b.uid)
        return false
      else return true

/-! ## Redeeming -/

namespace Tables

def insertInvite (inv : DbInvite) : Stmt := fun t =>
  (t.invites.insert inv).map fun invites => { t with invites }

def deleteInvite (code : String) : Stmt := fun t =>
  some { t with invites := t.invites.deleteWhere (·.code = code) }

def setInviteUses (code : String) (uses : Int) : Stmt := fun t =>
  some { t with invites := t.invites.updateWhere (·.code = code) ({ · with uses }) }

end Tables

namespace DbInvite

/-- The invite is for everyone or for this account. -/
def isFor (inv : DbInvite) (uid : Uid) : Prop := inv.forUid = 0 ∨ inv.forUid = uid

def expired (inv : DbInvite) (now : Int) : Prop := 0 < inv.expiresAt ∧ inv.expiresAt ≤ now

/-- Every use is spent. -/
def exhausted (inv : DbInvite) : Prop := 0 < inv.maxUses ∧ inv.maxUses ≤ inv.uses

instance (inv : DbInvite) (uid : Uid) : Decidable (inv.isFor uid) :=
  inferInstanceAs (Decidable (_ ∨ _))

instance (inv : DbInvite) (now : Int) : Decidable (inv.expired now) :=
  inferInstanceAs (Decidable (_ ∧ _))

instance (inv : DbInvite) : Decidable inv.exhausted := inferInstanceAs (Decidable (_ ∧ _))

end DbInvite

inductive InviteResult
  | ok
  | unknown
  | expired
  | exhausted
  | banned
  | alreadyMember
  | notForYou
  deriving DecidableEq, Repr

/-- Who redeems which code, and what the database answers. -/
structure Redemption where
  code : String
  uid : Uid
  username : String
  nameIat : Int := 0
  /-- When ban and invite are looked up, and the member written down. -/
  asked : Int
  now : Int
  joinedAt : Int
  /-- The answers to the lookups. -/
  ban : Outcome := .ok
  member : Outcome := .ok
  invite : Outcome := .ok
  /-- The answers to the statements. -/
  outcomes : List Outcome := []

/-- Counts a use; the invite goes with the last. -/
def countUse (code : String) (inv : DbInvite) : Stmt :=
  if inv.exhausted then deleteInvite code else setInviteUses code inv.uses

/-- Looks the invite up and spends a use, in a transaction if there is one. -/
def spendUse (r : Redemption) : StateM (Conn Tables) (InviteResult × Option DbInvite) := do
  match ← lookup r.invite (·.invites.find? r.code) with
  | none =>
    rollback
    return (.unknown, none)
  | some inv =>
    if ¬inv.isFor r.uid then
      rollback
      return (.notForYou, none)
    else if inv.expired r.now then
      execCommit (deleteInvite r.code)
      return (.expired, none)
    else if inv.exhausted then
      execCommit (deleteInvite r.code)
      return (.exhausted, none)
    else
      let inv := { inv with uses := inv.uses + 1 }
      execCommit (countUse r.code inv)
      return (.ok, some inv)

/-- `redeem_invite`, with the invite as it is after a use. -/
def redeem (r : Redemption) : StateM (Conn Tables) (InviteResult × Option DbInvite) := do
  if ← banActive r.ban r.uid r.asked then return (.banned, none)
  -- a member does not waste a use
  else if (← lookup r.member (·.members.find? r.uid)).isSome then return (.alreadyMember, none)
  else
    let _ ← begin
    spendUse r

namespace CommunityDb

def redeemInvite (r : Redemption) : DbM (InviteResult × Option DbInvite) := sql (redeem r)

/-- What a connection that asked to come in is answered. -/
inductive AuthReply
  | accepted
  | refused (message why : String)
  deriving DecidableEq, Repr

/-- The answer without a use spent; who was let in meanwhile is let in. -/
def replyTo : InviteResult → AuthReply
  | .ok | .alreadyMember => .accepted
  | .banned => .refused "You are banned from this server." "banned"
  | .notForYou => .refused "This invite was sent to someone else." "invalid_invite"
  | .unknown | .expired | .exhausted =>
    .refused "Invite code is invalid, expired, or has been used up." "invalid_invite"

/-- An account that is no member comes with an invite code. -/
def joinByInvite (r : Redemption) : DbM (InviteResult × AuthReply) := do
  let (result, _) ← redeemInvite r
  if result = .ok then
    if ← addMember r.uid r.username r.nameIat r.joinedAt then return (result, .accepted)
    else return (result, .refused "Failed to record membership." "auth")
  else return (result, replyTo result)

/-! ## Creating and revoking -/

/-- How often a code is drawn. -/
def maxCodeDraws : Nat := 8

/-- Creates the invite under the first free code; another failure ends it. -/
def createUnder (inv : DbInvite) : List String → DbM (Option DbInvite)
  | [] => return none
  | code :: codes => do
    let answer := (← get).conn.next
    if ← sql (exec (insertInvite { inv with code })) then return some { inv with code }
    -- answered, and refused: the code is taken
    else if answer = .ok then createUnder inv codes
    else return none

/-- `codes` are those that are drawn. -/
def createInvite (codes : List String) (createdByUid : Uid) (now expiresAt maxUses : Int)
    (forUid : Uid) : DbM (Option DbInvite) :=
  createUnder { code := "", createdByUid, forUid, createdAt := now, expiresAt, maxUses, uses := 0 }
    (codes.take maxCodeDraws)

def revokeInvite (code : String) : DbM Bool := do
  let known := (← get).tables.invites.keys.contains code
  return (← sql (exec (deleteInvite code))) && known

end CommunityDb
end Decibell
