import Decibell.Central.DmConversations
import Decibell.Lib.Run

/-!
# The triggers that keep the conversations

Direct messages are inserted and deleted by transactions of their own, and a trigger of each brings
the row of the pair in `dm_conversations` up to date, at the isolation level *read committed*: a row
that another transaction wrote is written only once that one has ended.
-/

namespace Decibell.Central

open Lib Function

inductive DmRequest
  /-- `insertDm`: the message gets its id from the sequence. -/
  | insert (row : DmMessage)
  /-- `deleteDmMessage`. -/
  | delete (sender peer messageId : Int)

def DmRequest.pair : DmRequest → DmPair
  | .insert row => row.pair
  | .delete sender peer _ => pairOf sender peer

/-- What a transaction did to the messages. -/
inductive DmChange
  | nothing
  | inserted (m : DmMessage)
  | deleted (m : DmMessage)

/-- The next statement of a transaction. -/
inductive DmStage
  /-- `INSERT INTO dm_messages` or `DELETE FROM dm_messages`. -/
  | start
  /-- The trigger's `INSERT INTO dm_conversations … ON CONFLICT`. -/
  | upsert (m : DmMessage)
  /-- The trigger's `UPDATE dm_conversations` starts. -/
  | lookUp (m : DmMessage)
  /-- It found the row and its generation, and the id to fall back to. -/
  | rewrite (m : DmMessage) (last : Int) (generation : Nat)
  /-- The trigger's `DELETE … WHERE last_id = 0`. -/
  | cleanUp (m : DmMessage)
  | commit (change : DmChange)
  /-- Committed or rolled back. -/
  | ended

namespace DmStage

def inserts : DmStage → Option DmMessage
  | upsert m | commit (.inserted m) => some m
  | _ => none

/-- The message to delete whose row was looked at. -/
def looked : DmStage → Option DmMessage
  | cleanUp m | commit (.deleted m) => some m
  | _ => none

end DmStage

structure DmTxn where
  request : DmRequest
  stage : DmStage := .start

/-- What is committed, and the transactions that run. -/
structure DmRun where
  tables : DmTables
  nextId : Int
  /-- How often the pair's row was deleted: one made later is another. -/
  generation : DmPair → Nat := fun _ => 0
  /-- Who wrote the pair's row and has not ended, and its `last_id` (none: deleted). -/
  written : DmPair → Option (Nat × Option Int) := fun _ => none
  /-- Who deleted a message and has not ended. -/
  deleting : Int → Option Nat := fun _ => none
  txns : Nat → Option DmTxn := fun _ => none

/-- What an insert's trigger makes of a row's `last_id`, or of no row. -/
def greatest (last : Option Int) (id : Int) : Int :=
  match last with
  | some last => max last id
  | none => id

namespace DmTables

variable (t : DmTables)

/-- The largest id of a pair's messages without `m`, or 0. -/
def maxOther (m : DmMessage) : Int :=
  ((t.messages.rows.filter fun x => x.pair = m.pair ∧ x.id ≠ m.id).map (·.id)).max?.getD 0

def change : DmChange → DmTables
  | .nothing => t
  | .inserted m => { t with messages := t.messages.insertOrIgnore m }
  | .deleted m => { t with messages := t.messages.deleteWhere (·.id = m.id) }

/-- The row of a pair becomes this one, or goes. -/
def setLastId (p : DmPair) : Option Int → DmTables
  | some last => { t with conversations := t.conversations.upsert ⟨p.1, p.2, last⟩ }
  | none => { t with conversations := t.conversations.deleteWhere (·.pair = p) }

end DmTables

namespace DmRun

variable (st : DmRun)

/-- No other transaction has written the row of the pair. -/
def free (i : Nat) (p : DmPair) : Bool := (st.written p).all (·.1 = i)

/-- The `last_id` of a pair as transaction `i` sees it. -/
def seen (i : Nat) (p : DmPair) : Option Int :=
  match st.written p with
  | some (j, v) => if j = i then v else st.tables.lastId p
  | none => st.tables.lastId p

def goOn (i : Nat) (x : DmTxn) (s : DmStage) : DmRun :=
  { st with txns := update st.txns i (some { x with stage := s }) }

/-- Transaction `i` writes the row of a pair. -/
def write (i : Nat) (p : DmPair) (v : Option Int) : DmRun :=
  { st with written := update st.written p (some (i, v)) }

/-- Transaction `i` ends, and with it what it holds. -/
def finish (i : Nat) (x : DmTxn) : DmRun :=
  { st with
    written := fun p => (st.written p).filter (·.1 ≠ i)
    deleting := fun id => (st.deleting id).filter (· ≠ i)
    txns := update st.txns i (some { x with stage := .ended }) }

/-- What transaction `i` did is committed. -/
def commit (i : Nat) (x : DmTxn) (change : DmChange) : DmRun :=
  let p := x.request.pair
  let tables := st.tables.change change
  match st.written p with
  | some (j, v) =>
    if j = i then
      finish { st with
        tables := tables.setLastId p v
        generation := if v.isNone then update st.generation p (st.generation p + 1)
          else st.generation } i x
    else finish { st with tables } i x
  | none => finish { st with tables } i x

/-- The next statement of transaction `i`, unless it has to wait. -/
def next (i : Nat) (x : DmTxn) : Option DmRun :=
  match x.stage with
  | .start =>
    match x.request with
    | .insert row =>
      let st' := { st with nextId := st.nextId + 1 }
      -- The foreign keys.
      if (st.tables.users row.senderUid).isSome && (st.tables.users row.recipientUid).isSome then
        some (st'.goOn i x (.upsert { row with id := st.nextId }))
      else some (st'.finish i x)
    | .delete sender peer messageId =>
      match st.tables.messages.find? messageId with
      | some m =>
        if m.senderUid = sender ∧ m.recipientUid = peer then
          if (st.deleting m.id).isSome then none
          else some
            (goOn { st with deleting := update st.deleting m.id (some i) } i x (.lookUp m))
        else some (st.goOn i x (.commit .nothing))
      | none => some (st.goOn i x (.commit .nothing))
  | .upsert m =>
    if st.free i m.pair then
      some ((st.write i m.pair (some (greatest (st.tables.lastId m.pair) m.id))).goOn i x (.commit (.inserted m)))
    else none
  | .lookUp m =>
    if st.tables.lastId m.pair = some m.id then
      some (st.goOn i x (.rewrite m (st.tables.maxOther m) (st.generation m.pair)))
    else some (st.goOn i x (.cleanUp m))
  | .rewrite m last generation =>
    if st.free i m.pair then
      -- The row as it is now must still be the one found, and name the message.
      if st.tables.lastId m.pair = some m.id ∧ st.generation m.pair = generation then
        some ((st.write i m.pair (some last)).goOn i x (.cleanUp m))
      else some (st.goOn i x (.cleanUp m))
    else none
  | .cleanUp m =>
    if st.seen i m.pair = some 0 then
      if st.free i m.pair then
        some ((st.write i m.pair none).goOn i x (.commit (.deleted m)))
      else none
    else some (st.goOn i x (.commit (.deleted m)))
  | .commit change => some (st.commit i x change)
  | .ended => none

end DmRun

/-- A step of a run. -/
inductive DmAct
  /-- A request comes in. -/
  | begin (i : Nat) (request : DmRequest)
  /-- The next statement of a transaction. -/
  | run (i : Nat)
  /-- A transaction fails and is rolled back. -/
  | fail (i : Nat)

namespace DmRun

variable (st : DmRun)

def step : DmAct → Option DmRun
  | .begin i request =>
    if (st.txns i).isNone then some { st with txns := update st.txns i (some { request }) } else none
  | .run i => (st.txns i).bind (st.next i)
  | .fail i =>
    (st.txns i).bind fun x =>
      match x.stage with
      | .ended => none
      | _ => some (st.finish i x)

/-- Some steps, as far as they can be made. -/
def steps (st : DmRun) : List DmAct → Option DmRun
  | [] => some st
  | a :: as => (st.step a).bind fun st => st.steps as

/-- When a delete's trigger looks at the row, no other transaction has just rewritten it to the id
    that goes. When it writes the row, the id it found is the largest left, and not of a message
    being deleted whose trigger has looked. -/
def Careful : DmAct → Prop
  | .run i => ∀ x, st.txns i = some x →
    match x.stage with
    | .lookUp m => ∀ j last, st.written m.pair = some (j, some last) → last ≠ m.id
    | .rewrite m last _ => st.tables.lastId m.pair = some m.id →
      last = st.tables.maxOther m ∧
        ∀ j y n, st.txns j = some y → y.stage.looked = some n → n.id ≠ last
    | _ => True
  | _ => True

/-- Every transaction has ended. -/
def Quiet : Prop := ∀ i x, st.txns i = some x → x.stage = .ended

end DmRun

/-- The runs from tables that tell the truth, with nothing under way. -/
def dmSystem : System DmRun DmAct where
  init st := st.tables.TellsNewest ∧
    (∀ m ∈ st.tables.messages.rows, 0 < m.id ∧ m.id < st.nextId) ∧
    (∀ m ∈ st.tables.messages.rows,
      (st.tables.users m.senderUid).isSome ∧ (st.tables.users m.recipientUid).isSome) ∧
    0 < st.nextId ∧ ∃ tables nextId, st = { tables, nextId }
  step st a st' := st.step a = some st'

theorem reachable_steps {S : System DmRun DmAct} (hS : S.step = dmSystem.step) {st st' : DmRun}
    {as : List DmAct} (h : S.Reachable st) (hrun : st.steps as = some st') : S.Reachable st' := by
  induction as generalizing st with
  | nil =>
    cases hrun
    exact h
  | cons a as ih =>
    obtain ⟨st₁, hstep, hrest⟩ := Option.bind_eq_some_iff.1 hrun
    refine ih (.step a h ?_) hrest
    rw [hS]
    exact hstep

end Decibell.Central
