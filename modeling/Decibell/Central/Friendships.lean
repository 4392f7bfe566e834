import Decibell.Lib.Log
import Decibell.Lib.RowTxn

/-!
# Friendships and blocks

Two accounts share one row of `friendships`: a request, a friendship, a block of one of them or of
both. A request of either is a transaction that selects the row for update and then writes it. An
account has the other blocked if its last BLOCK came after its last REJECT or REMOVE
(`LastBlocked`).
-/

open Lib

namespace Decibell.Central

/-! ## The request -/

inductive FriendActionType
  | add
  | remove
  | block
  | accept
  | reject
  /-- A number that the enumeration does not have. -/
  | other (value : Int)
  deriving DecidableEq

inductive FriendStatus
  | pending
  | accepted
  | blocked
  | blockedBoth
  deriving DecidableEq

/-- A row of `friendships`, less its key. -/
structure Friendship where
  status : FriendStatus
  actionUid : Int
  deriving DecidableEq

def maxPendingIncoming : Nat := 1000

/-- The pair in uid order, which is the key of its row. -/
def friendshipKey (requester target : Int) : Int × Int :=
  (min requester target, max requester target)

/-- An action on a friendship; how many requests wait for the target is read elsewhere. -/
def handleFriendAction (requester : Int) (action : FriendActionType) (target : Int) :
    RowTxn Friendship Nat String :=
  if requester = target then .rollback "Cannot perform action on yourself."
  else .selectForUpdate fun rel =>
    let both := rel.any fun r => r.status = .blockedBoth
    let blockedByThem := rel.any fun r => r.status = .blocked ∧ r.actionUid ≠ requester
    let blockedByMe := rel.any fun r => r.status = .blocked ∧ r.actionUid = requester
    match action with
    | .add =>
      if rel.isSome then
        if both ∨ blockedByThem ∨ blockedByMe then .rollback "Cannot add user."
        else if rel.any (fun r => r.status = .accepted) then .rollback "Already friends."
        else .rollback "Friend request already exists."
      else .select fun waiting =>
        if maxPendingIncoming ≤ waiting then
          .rollback "This user can't take more friend requests right now."
        else .insert { status := .pending, actionUid := requester } (.commit "")
    | .accept =>
      if rel.any (fun r => r.status = .pending ∧ r.actionUid ≠ requester) then
        .update (fun r => { r with status := .accepted }) (.commit "")
      else .rollback "No pending friend request to accept."
    | .reject | .remove =>
      -- Only my side is lifted; theirs stays.
      if both then .update (fun _ => { status := .blocked, actionUid := target }) (.commit "")
      else if blockedByThem then .commit ""
      else .delete (.commit "")
    | .block =>
      if blockedByThem then .update (fun r => { r with status := .blockedBoth }) (.commit "")
      else if blockedByMe ∨ both then .commit ""
      else .upsert { status := .blocked, actionUid := requester } (.commit "")
    | .other _ => .rollback "Unknown action."

/-! ## The requests of a pair -/

/-- Two accounts, in uid order. -/
structure Pair where
  uid1 : Int
  uid2 : Int
  ordered : uid1 < uid2

/-- A request of one of a pair about the other. -/
structure FriendRequest (p : Pair) where
  requester : Int
  action : FriendActionType
  target : Int
  about : friendshipKey requester target = (p.uid1, p.uid2)

namespace FriendRequest

variable {p : Pair}

def txn (q : FriendRequest p) : RowTxn Friendship Nat String :=
  handleFriendAction q.requester q.action q.target

/-- It is a BLOCK of this account. -/
def Blocks (q : FriendRequest p) (x : Int) : Prop :=
  q.requester = x ∧ q.action = .block

/-- It is a REJECT or a REMOVE of this account. -/
def Lifts (q : FriendRequest p) (x : Int) : Prop :=
  q.requester = x ∧ (q.action = .reject ∨ q.action = .remove)

instance (q : FriendRequest p) (x : Int) : Decidable (q.Blocks x) :=
  inferInstanceAs (Decidable (_ ∧ _))

instance (q : FriendRequest p) (x : Int) : Decidable (q.Lifts x) :=
  inferInstanceAs (Decidable (_ ∧ _))

theorem requester_target (q : FriendRequest p) : (q.requester = p.uid1 ∧ q.target = p.uid2) ∨
    (q.requester = p.uid2 ∧ q.target = p.uid1) := by
  obtain ⟨hmin, hmax⟩ := Prod.ext_iff.1 q.about
  simp only [friendshipKey] at hmin hmax
  omega

theorem requester_ne (q : FriendRequest p) : q.requester ≠ q.target := by
  have := p.ordered
  have := q.requester_target
  omega

end FriendRequest

/-- The requests of a pair, statement by statement. -/
def friendSystem (p : Pair) :
    System (RowRun (FriendRequest p) Friendship Nat String) (RowAct (FriendRequest p) Nat) :=
  rowSystem FriendRequest.txn "Database error."

/-! ## What the row should say -/

variable {p : Pair}

/-- The row has a block by this account. -/
def HasBlocked (row : Option Friendship) (x : Int) : Prop :=
  ∃ r ∈ row, r.status = .blockedBoth ∨ (r.status = .blocked ∧ r.actionUid = x)

instance (row : Option Friendship) (x : Int) : Decidable (HasBlocked row x) :=
  inferInstanceAs (Decidable (∃ r ∈ row, _))

/-- The account's last BLOCK came after its last REJECT or REMOVE. -/
def LastBlocked (x : Int) (log : List (FriendRequest p)) : Prop :=
  Since (fun _ q => q.Blocks x) (fun q => q.Lifts x) log

instance (x : Int) (log : List (FriendRequest p)) : Decidable (LastBlocked x log) :=
  inferInstanceAs (Decidable (Since _ _ log))

/-- The row has an account's block exactly if its last BLOCK came after its last REJECT or REMOVE.
    -/
def BlocksAgree (row : Option Friendship) (log : List (FriendRequest p)) : Prop :=
  ∀ x, x = p.uid1 ∨ x = p.uid2 → (HasBlocked row x ↔ LastBlocked x log)

/-- One side asked and no block came since. -/
def Asked (x : Int) (log : List (FriendRequest p)) : Prop :=
  Since (fun _ q => q.requester = x ∧ q.action = .add) (fun q => q.action = .block) log

/-- One side accepted what the other asked, with no block since. -/
def Befriended (log : List (FriendRequest p)) : Prop :=
  Since (fun past q => q.action = .accept ∧ ∃ x, x ≠ q.requester ∧ Asked x past)
    (fun q => q.action = .block) log

/-- No commit meets a block that its request never saw: with no row found, a BLOCK replaces no block
    of the other side, nor does a deleting REJECT or REMOVE; one that deletes nothing leaves no
    block of its own. -/
def Unraced (q : FriendRequest p) (found : Option (Option Friendship)) (row : Option Friendship)
    (v : Option (Version Friendship)) : Prop :=
  found = some none →
    match q.action with
    | .block => ¬ HasBlocked row q.target
    | .remove | .reject =>
      if v.isSome then ¬ HasBlocked row q.target else ¬ HasBlocked row q.requester
    | _ => True

/-! ## What a commit does -/

def Between (p : Pair) (row : Option Friendship) : Prop :=
  ∀ r ∈ row, r.actionUid = p.uid1 ∨ r.actionUid = p.uid2

/-- What a commit does to the row. -/
structure Effect (q : FriendRequest p) (found : Option (Option Friendship))
    (row : Option Friendship) (v : Option (Version Friendship)) : Prop where
  between : Between p (rowOf row v)
  blocks : Unraced q found row v ↔
    (HasBlocked (rowOf row v) q.requester ↔ q.action = .block ∨
        (q.action ≠ .reject ∧ q.action ≠ .remove ∧ HasBlocked row q.requester)) ∧
      (HasBlocked (rowOf row v) q.target ↔ HasBlocked row q.target)
  pending : ∀ r ∈ rowOf row v, r.status = .pending →
    (q.requester = r.actionUid ∧ q.action = .add) ∨ (q.action ≠ .block ∧ r ∈ row)
  accepted : ∀ r ∈ rowOf row v, r.status = .accepted →
    (q.action = .accept ∧ ∃ r' ∈ row, r'.status = .pending ∧ r'.actionUid ≠ q.requester) ∨
      (q.action ≠ .block ∧ r ∈ row)

variable {q : FriendRequest p} {row : Option Friendship} {r : Friendship}

@[simp] theorem hasBlocked_some {x : Int} : HasBlocked (some r) x ↔
    r.status = .blockedBoth ∨ (r.status = .blocked ∧ r.actionUid = x) := by
  simp [HasBlocked]

@[simp] theorem hasBlocked_none {x : Int} : ¬ HasBlocked none x := by
  simp [HasBlocked]

@[simp] theorem between_some : Between p (some r) ↔ r.actionUid = p.uid1 ∨ r.actionUid = p.uid2 := by
  simp [Between]

@[simp] theorem between_none : Between p none := nofun

theorem between_requester (q : FriendRequest p) :
    q.requester = p.uid1 ∨ q.requester = p.uid2 := by
  have := q.requester_target
  omega

theorem between_target (q : FriendRequest p) : q.target = p.uid1 ∨ q.target = p.uid2 := by
  have := q.requester_target
  omega

theorem actionUid_eq (q : FriendRequest p) (hr : Between p (some r)) :
    r.actionUid = q.requester ∨ r.actionUid = q.target := by
  have := q.requester_target
  have := between_some.1 hr
  omega

theorem unraced_seen {v : Option (Version Friendship)} : Unraced q (some (some r)) row v := nofun

theorem effect_lift (haction : q.action = .remove ∨ q.action = .reject)
    (hboth : r.status = .blockedBoth) : Effect q (some (some r)) (some r)
      (some (.written (some { status := .blocked, actionUid := q.target }))) where
  between := between_some.2 (between_target q)
  blocks := by
    have hne := q.requester_ne
    rcases haction with haction | haction <;>
      simp [unraced_seen, rowOf, Version.of, haction, hboth, Ne.symm hne]
  pending r' hr' hpending := by
    cases hr'
    exact nomatch hpending
  accepted r' hr' haccepted := by
    cases hr'
    exact nomatch haccepted

theorem effect_leave (hr : Between p (some r)) (haction : q.action = .remove ∨ q.action = .reject)
    (hblocked : r.status = .blocked) (htheirs : r.actionUid ≠ q.requester) :
    Effect q (some (some r)) (some r) (some .locked) where
  between := hr
  blocks := by
    rcases haction with haction | haction <;>
      simp [unraced_seen, rowOf, Version.of, haction, hblocked, htheirs]
  pending r' hr' hpending := by
    cases hr'
    exact nomatch hblocked.symm.trans hpending
  accepted r' hr' haccepted := by
    cases hr'
    exact nomatch hblocked.symm.trans haccepted

theorem effect_delete (haction : q.action = .remove ∨ q.action = .reject)
    (hboth : r.status ≠ .blockedBoth) (hmine : r.status = .blocked → r.actionUid = q.requester) :
    Effect q (some (some r)) (some r) (some (.written none)) where
  between := between_none
  blocks := by
    have htheirs : r.status = .blocked → r.actionUid ≠ q.target :=
      fun h => by rw [hmine h]; exact q.requester_ne
    rcases haction with haction | haction <;>
      simpa [unraced_seen, rowOf, Version.of, haction, hboth] using htheirs
  pending := nofun
  accepted := nofun

theorem effect_accept (hr : Between p (some r)) (haction : q.action = .accept) (hpending : r.status = .pending)
    (htheirs : r.actionUid ≠ q.requester) : Effect q (some (some r)) (some r)
      (some (.written (some { r with status := .accepted }))) where
  between := between_some.2 (hr r rfl)
  blocks := by simp [unraced_seen, rowOf, Version.of, haction, hpending]
  pending r' hr' hstatus := by
    cases hr'
    exact nomatch hstatus
  accepted r' hr' _ := .inl ⟨haction, r, rfl, hpending, htheirs⟩

theorem effect_blockBack (hr : Between p (some r)) (haction : q.action = .block) (hblocked : r.status = .blocked)
    (htheirs : r.actionUid ≠ q.requester) : Effect q (some (some r)) (some r)
      (some (.written (some { r with status := .blockedBoth }))) where
  between := between_some.2 (hr r rfl)
  blocks := by
    have htarget : r.actionUid = q.target := (actionUid_eq q hr).resolve_left htheirs
    simp [unraced_seen, rowOf, Version.of, haction, hblocked, htarget]
  pending r' hr' hpending := by
    cases hr'
    exact nomatch hpending
  accepted r' hr' haccepted := by
    cases hr'
    exact nomatch haccepted

theorem effect_blockAgain (hr : Between p (some r)) (haction : q.action = .block)
    (hmine : (r.status = .blocked ∧ r.actionUid = q.requester) ∨ r.status = .blockedBoth) :
    Effect q (some (some r)) (some r) (some .locked) where
  between := hr
  blocks := by
    simpa [unraced_seen, rowOf, Version.of, haction] using hmine.symm
  pending r' hr' hpending := by
    cases hr'
    rcases hmine with ⟨hblocked, -⟩ | hboth
    · exact nomatch hblocked.symm.trans hpending
    · exact nomatch hboth.symm.trans hpending
  accepted r' hr' haccepted := by
    cases hr'
    rcases hmine with ⟨hblocked, -⟩ | hboth
    · exact nomatch hblocked.symm.trans haccepted
    · exact nomatch hboth.symm.trans haccepted

theorem effect_block (haction : q.action = .block) (hblocked : r.status ≠ .blocked)
    (hboth : r.status ≠ .blockedBoth) : Effect q (some (some r)) (some r)
      (some (.written (some { status := .blocked, actionUid := q.requester }))) where
  between := between_some.2 (between_requester q)
  blocks := by
    simp [unraced_seen, rowOf, Version.of, haction, hblocked, hboth, q.requester_ne]
  pending r' hr' hpending := by
    cases hr'
    exact nomatch hpending
  accepted r' hr' haccepted := by
    cases hr'
    exact nomatch haccepted

/-! A request that found no row may meet one by the time that it writes. -/

theorem effect_add (haction : q.action = .add) : Effect q (some none) none
    (some (.written (some { status := .pending, actionUid := q.requester }))) where
  between := between_some.2 (between_requester q)
  blocks := by simp [Unraced, rowOf, Version.of, haction]
  pending r' hr' _ := by
    cases hr'
    exact .inl ⟨rfl, haction⟩
  accepted r' hr' haccepted := by
    cases hr'
    exact nomatch haccepted

theorem effect_blockUnseen (haction : q.action = .block) : Effect q (some none) row
    (some (.written (some { status := .blocked, actionUid := q.requester }))) where
  between := between_some.2 (between_requester q)
  blocks := by simp [Unraced, rowOf, Version.of, haction, q.requester_ne]
  pending r' hr' hpending := by
    cases hr'
    exact nomatch hpending
  accepted r' hr' haccepted := by
    cases hr'
    exact nomatch haccepted

theorem effect_deleteUnseen (haction : q.action = .remove ∨ q.action = .reject) :
    Effect q (some none) row (some (.written none)) where
  between := between_none
  blocks := by
    rcases haction with haction | haction <;> simp [Unraced, rowOf, Version.of, haction]
  pending := nofun
  accepted := nofun

theorem effect_unseen (haction : q.action = .remove ∨ q.action = .reject) (hrow : Between p row) :
    Effect q (some none) row none where
  between := hrow
  blocks := by
    rcases haction with haction | haction <;> simp [Unraced, haction, rowOf]
  pending r hr _ := .inr ⟨by rcases haction with haction | haction <;> simp [haction], hr⟩
  accepted r hr _ := .inr ⟨by rcases haction with haction | haction <;> simp [haction], hr⟩

theorem effect_free :
    q.txn.Free (fun found row v => Between p row → Effect q found row v) none := by
  rw [FriendRequest.txn, handleFriendAction, if_neg q.requester_ne]
  refine ⟨?_, fun r => ?_⟩
  · -- There is no row, and none is locked.
    rcases haction : q.action
    case remove | reject =>
      have hlifts : q.action = .remove ∨ q.action = .reject := by simp [haction]
      exact ⟨fun row => effect_unseen hlifts, fun r _ => effect_deleteUnseen hlifts⟩
    case add =>
      intro waiting
      dsimp only
      split
      · trivial
      · exact fun _ => effect_add haction
    case accept => trivial
    case block => exact fun row _ => effect_blockUnseen haction
    case other => trivial
  · -- The row that is there is held until the end.
    rcases haction : q.action
    case remove | reject =>
      have hlifts : q.action = .remove ∨ q.action = .reject := by simp [haction]
      dsimp only
      split
      · next hboth => exact fun _ => effect_lift hlifts (by simpa using hboth)
      · next hboth =>
        split
        · next htheirs =>
          have htheirs : r.status = .blocked ∧ r.actionUid ≠ q.requester := by simpa using htheirs
          exact fun hr => effect_leave hr hlifts htheirs.1 htheirs.2
        · next htheirs =>
          exact fun _ => effect_delete hlifts (by simpa using hboth) (by simpa using htheirs)
    case add =>
      dsimp only [Option.isSome_some]
      rw [if_pos rfl]
      split
      · trivial
      · split <;> trivial
    case accept =>
      dsimp only
      split
      · next hpending =>
        have hpending : r.status = .pending ∧ r.actionUid ≠ q.requester := by simpa using hpending
        exact fun hr => effect_accept hr haction hpending.1 hpending.2
      · trivial
    case block =>
      dsimp only
      split
      · next htheirs =>
        have htheirs : r.status = .blocked ∧ r.actionUid ≠ q.requester := by simpa using htheirs
        exact fun hr => effect_blockBack hr haction htheirs.1 htheirs.2
      · next htheirs =>
        split
        · next hmine => exact fun hr => effect_blockAgain hr haction (by simpa using hmine)
        · next hmine =>
          have hmine : (r.status = .blocked → r.actionUid ≠ q.requester) ∧
            r.status ≠ .blockedBoth := by simpa using hmine
          have hblocked : r.status ≠ .blocked := fun h => hmine.1 h (by simpa [h] using htheirs)
          exact fun _ => effect_block haction hblocked hmine.2
    case other => trivial

/-! ## Runs -/

variable {log : List (FriendRequest p)} {found : Option (Option Friendship)}
  {v : Option (Version Friendship)}

structure Agrees (row : Option Friendship) (log : List (FriendRequest p)) : Prop where
  between : Between p row
  blocks : BlocksAgree row log
  pending : ∀ r ∈ row, r.status = .pending → Asked r.actionUid log
  accepted : ∀ r ∈ row, r.status = .accepted → Befriended log

theorem forall_pair {P : Int → Prop} (q : FriendRequest p) :
    (∀ x, x = p.uid1 ∨ x = p.uid2 → P x) ↔ P q.requester ∧ P q.target := by
  rcases q.requester_target with ⟨h₁, h₂⟩ | ⟨h₁, h₂⟩ <;> rw [h₁, h₂] <;>
    simp [or_imp, forall_and, and_comm]

theorem lastBlocked_requester : LastBlocked q.requester (q :: log) ↔ q.action = .block ∨
    (q.action ≠ .reject ∧ q.action ≠ .remove ∧ LastBlocked q.requester log) := by
  simp [LastBlocked, Since, FriendRequest.Blocks, FriendRequest.Lifts, and_assoc]

theorem lastBlocked_of_ne {x : Int} (hx : q.requester ≠ x) :
    LastBlocked x (q :: log) ↔ LastBlocked x log := by
  simp [LastBlocked, Since, FriendRequest.Blocks, FriendRequest.Lifts, hx]

/-- After a commit the row agrees exactly if the commit was not raced. -/
theorem Effect.blocksAgree_iff (h : Effect q found row v) (hagree : BlocksAgree row log) :
    BlocksAgree (rowOf row v) (q :: log) ↔ Unraced q found row v := by
  have hreq := hagree q.requester (between_requester q)
  have htarget := hagree q.target (between_target q)
  rw [h.blocks, BlocksAgree, forall_pair q, lastBlocked_requester, hreq,
    lastBlocked_of_ne q.requester_ne, htarget]

theorem Effect.agrees (h : Effect q found row v) (hD : Unraced q found row v)
    (ha : Agrees row log) : Agrees (rowOf row v) (q :: log) where
  between := h.between
  blocks := (h.blocksAgree_iff ha.blocks).2 hD
  pending r hr hpending := by
    rcases h.pending r hr hpending with hadd | ⟨hkeeps, hrow⟩
    · exact .inl hadd
    · exact .inr ⟨hkeeps, ha.pending r hrow hpending⟩
  accepted r hr haccepted := by
    rcases h.accepted r hr haccepted with ⟨haccept, r', hr', hpending, hne⟩ | ⟨hkeeps, hrow⟩
    · exact .inl ⟨haccept, r'.actionUid, hne, ha.pending r' hr' hpending⟩
    · exact .inr ⟨hkeeps, ha.accepted r hrow haccepted⟩

variable {st st' : RowRun (FriendRequest p) Friendship Nat String}

theorem agrees_of_reachable (h : ((friendSystem p).given (atCommit Unraced)).Reachable st) :
    Agrees st.row st.log := by
  refine RowRun.invariant (fun q => effect_free) ?_ ?_ h
  · refine ⟨between_none, fun x _ => ?_, nofun, nofun⟩
    simp [LastBlocked, Since]
  · exact fun q found row v log heffect hD ha => (heffect ha.between).agrees hD ha

theorem blocksAgree_step {a : RowAct (FriendRequest p) Nat}
    (h : ((friendSystem p).given (atCommit Unraced)).Reachable st)
    (hstep : (friendSystem p).step st a st') :
    BlocksAgree st'.row st'.log ↔ atCommit Unraced st a := by
  have ha := agrees_of_reachable h
  rcases RowRun.step_cases hstep with ⟨hrow, hlog, hnone⟩ | ⟨i, e, c, b, rfl, hc, hp, hrow, hlog⟩
  · rw [hrow, hlog]
    refine iff_of_true ha.blocks ?_
    cases a with
    | run i e => exact fun c b hc hp => absurd hp (hnone i e c b rfl hc)
    | begin q => trivial
    | fail i => trivial
  · rw [hrow, hlog, (RowRun.good_commit (fun q => effect_free) h.of_given hc hp
      ha.between).blocksAgree_iff ha.blocks]
    refine ⟨?_, fun hD => hD c b hc hp⟩
    rintro hD d _ hd -
    cases hc.symm.trans hd
    exact hD

theorem befriended_iff : Befriended log ↔ ∃ later accept between ask past,
    log = later ++ accept :: (between ++ ask :: past) ∧ ask.action = .add ∧
      accept.action = .accept ∧ accept.requester ≠ ask.requester ∧
      ∀ q ∈ later ++ between, q.action ≠ .block := by
  simp only [Befriended, Asked, since_iff]
  constructor
  · rintro ⟨later, accept, _, rfl, ⟨haccept, x, hne, between, ask, past, rfl, ⟨hx, hadd⟩, hbetween⟩,
      hlater⟩
    refine ⟨later, accept, between, ask, past, rfl, hadd, haccept, ?_, ?_⟩
    · rw [hx]
      exact Ne.symm hne
    · exact List.forall_mem_append.2 ⟨hlater, hbetween⟩
  · rintro ⟨later, accept, between, ask, past, rfl, hadd, haccept, hne, hnone⟩
    obtain ⟨hlater, hbetween⟩ := List.forall_mem_append.1 hnone
    exact ⟨later, accept, _, rfl, ⟨haccept, ask.requester, Ne.symm hne, between, ask, past, rfl,
      ⟨rfl, hadd⟩, hbetween⟩, hlater⟩

/-- In every run without a raced commit an account has the other blocked exactly if its last BLOCK
    came after its last REJECT or REMOVE; only its own commits take its block; friends were asked
    and accepted, with no block since. A raced commit breaks the first at once. -/
theorem friends_apart (h : ((friendSystem p).given (atCommit Unraced)).Reachable st) :
    BlocksAgree st.row st.log ∧
      (∀ a st', (friendSystem p).step st a st' →
        (BlocksAgree st'.row st'.log ↔ atCommit Unraced st a)) ∧
      (∀ a st', ((friendSystem p).given (atCommit Unraced)).step st a st' →
        ∀ x, x = p.uid1 ∨ x = p.uid2 → (∀ q, st'.log = q :: st.log → q.requester ≠ x) →
          HasBlocked st.row x → HasBlocked st'.row x) ∧
      ∀ r ∈ st.row, r.status = .accepted → ∃ later accept between ask past,
        st.log = later ++ accept :: (between ++ ask :: past) ∧ ask.action = .add ∧
          accept.action = .accept ∧ accept.requester ≠ ask.requester ∧
          ∀ q ∈ later ++ between, q.action ≠ .block := by
  have ha := agrees_of_reachable h
  refine ⟨ha.blocks, fun a st' hstep => blocksAgree_step h hstep, ?_, ?_⟩
  · intro a st' hstep x hx hother hblocked
    have ha' := agrees_of_reachable (.step a h hstep)
    rw [ha'.blocks x hx]
    rw [ha.blocks x hx] at hblocked
    rcases RowRun.step_cases hstep.1 with ⟨-, hlog, -⟩ | ⟨i, e, c, b, -, -, -, -, hlog⟩
    · rw [hlog]
      exact hblocked
    · rw [hlog, lastBlocked_of_ne (hother _ hlog)]
      exact hblocked
  · exact fun r hr haccepted => befriended_iff.1 (ha.accepted r hr haccepted)

def onePair : Pair := { uid1 := 1, uid2 := 2, ordered := by decide }

def oneBlock : FriendRequest onePair :=
  { requester := 1, action := .block, target := 2, about := by decide }

theorem friends_apart_oneBlock :
    ∃ st, RowRun.run FriendRequest.txn "Database error." {}
        [.begin oneBlock, .run 0 0, .run 0 0, .run 0 0] = some st ∧
      BlocksAgree st.row st.log ∧ HasBlocked st.row 1 := by
  let S := (friendSystem onePair).given (atCommit Unraced)
  have h₁ : S.Reachable _ := .step (.begin oneBlock) (.init rfl) ⟨rfl, trivial⟩
  have h₂ : S.Reachable _ := .step (.run 0 0) h₁ ⟨rfl, fun c a hc hp => by cases hc; cases hp⟩
  have h₃ : S.Reachable _ := .step (.run 0 0) h₂ ⟨rfl, fun c a hc hp => by cases hc; cases hp⟩
  have h₄ : S.Reachable _ := .step (.run 0 0) h₃
    ⟨rfl, fun c a hc _ => by cases hc; exact fun _ => hasBlocked_none⟩
  exact ⟨_, rfl, (friends_apart h₄).1, by decide⟩

/-! ## Two blocks at once -/

/-- Every run ends with the blocks that the requests ask for. -/
def BlocksHold : Prop :=
  ∀ (p : Pair) (st : RowRun (FriendRequest p) Friendship Nat String),
    (friendSystem p).Reachable st → st.finished → BlocksAgree st.row st.log

/-- Both block each other, and both select before either writes. -/
def twoBlocks : List (RowAct (FriendRequest onePair) Nat) :=
  [.begin oneBlock,
    .begin { requester := 2, action := .block, target := 1, about := by decide },
    .run 0 0, .run 1 0, .run 0 0, .run 0 0, .run 1 0, .run 1 0]

/-- The second block replaces the first. -/
theorem not_blocksHold : ¬ BlocksHold := by
  intro h
  have hrun : ∃ st, RowRun.run FriendRequest.txn "Database error." {} twoBlocks = some st ∧
      st.finished ∧ ¬ HasBlocked st.row 1 ∧ LastBlocked 1 st.log :=
    ⟨_, rfl, by decide, by decide, by decide⟩
  obtain ⟨st, hrun, hfinished, hnone, hlast⟩ := hrun
  exact hnone ((h onePair st (reachable_run (.init rfl) hrun) hfinished 1 (.inl rfl)).2 hlast)

end Decibell.Central
