import Decibell.Lib.Run

/-!
# Concurrent transactions on one row

Transactions about one row of a table run their SQL statements in any order, at the isolation level
*read committed*: a row that is there is held by the transaction that first selects it for update or
writes it, until that one ends, and so is the key of a row that is inserted.
-/

namespace Lib

open List Option

variable {ι ρ ε α : Type}

/-- A transaction on a row `ρ`; it reads `ε` elsewhere and answers `α`. -/
inductive RowTxn (ρ ε α : Type)
  /-- What was written is kept. -/
  | commit (answer : α)
  /-- What was written is dropped. -/
  | rollback (answer : α)
  /-- The row, locked if it is there. -/
  | selectForUpdate (k : Option ρ → RowTxn ρ ε α)
  /-- A read of something else. -/
  | select (k : ε → RowTxn ρ ε α)
  /-- A new row; the transaction fails if there is one. -/
  | insert (row : ρ) (k : RowTxn ρ ε α)
  /-- The row becomes this one, whether it is there or not. -/
  | upsert (row : ρ) (k : RowTxn ρ ε α)
  /-- The row is changed, if it is there. -/
  | update (f : ρ → ρ) (k : RowTxn ρ ε α)
  /-- The row goes, if it is there. -/
  | delete (k : RowTxn ρ ε α)

/-- What the transaction that holds the row has made of it so far. -/
inductive Version (ρ : Type)
  /-- It only holds it. -/
  | locked
  /-- It wrote this (`none`: it deleted it). -/
  | written (row : Option ρ)

/-- The row as the transaction that holds it sees it. -/
def Version.of (row : Option ρ) : Version ρ → Option ρ
  | .locked => row
  | .written row => row

/-- The row as the transaction sees it, if it holds it. -/
def rowOf (row : Option ρ) : Option (Version ρ) → Option ρ
  | none => row
  | some v => v.of row

/-- The committed row, and who holds it. -/
structure RowState (ρ : Type) where
  row : Option ρ := none
  holder : Option (Nat × Version ρ) := none

namespace RowState

/-- What transaction `i` has made of the row, if it holds it. -/
def version (s : RowState ρ) (i : Nat) : Option (Version ρ) :=
  match s.holder with
  | some (j, v) => if j = i then some v else none
  | none => none

/-- No other transaction holds the row. -/
def free (s : RowState ρ) (i : Nat) : Bool :=
  match s.holder with
  | some (j, _) => j = i
  | none => true

/-- Another transaction has written the row and has not ended. -/
def pending (s : RowState ρ) (i : Nat) : Bool :=
  match s.holder with
  | some (j, .written _) => j ≠ i
  | _ => false

/-- The row as transaction `i` sees it. -/
def seen (s : RowState ρ) (i : Nat) : Option ρ :=
  rowOf s.row (s.version i)

def hold (s : RowState ρ) (i : Nat) (v : Version ρ) : RowState ρ :=
  { s with holder := some (i, v) }

/-- Transaction `i` ends, and with it what it holds. -/
def release (s : RowState ρ) (i : Nat) : RowState ρ :=
  if (s.version i).isSome then { s with holder := none } else s

/-- Transaction `i` is committed. -/
def commit (s : RowState ρ) (i : Nat) : RowState ρ :=
  { s.release i with row := s.seen i }

end RowState

/-- A request, what its locking select found, and what is left of it. -/
structure Client (ι ρ ε α : Type) where
  request : ι
  found : Option (Option ρ) := none
  stage : RowTxn ρ ε α ⊕ α

namespace Client

def goOn (c : Client ι ρ ε α) (p : RowTxn ρ ε α) : Client ι ρ ε α := { c with stage := .inl p }

def answer (c : Client ι ρ ε α) (a : α) : Client ι ρ ε α := { c with stage := .inr a }

/-- A client's next statement, unless it waits. -/
def next (s : RowState ρ) (i : Nat) (failed : α) (e : ε) (c : Client ι ρ ε α) :
    RowTxn ρ ε α → Option (RowState ρ × Client ι ρ ε α)
  | .commit a => some (s.commit i, c.answer a)
  | .rollback a => some (s.release i, c.answer a)
  | .selectForUpdate k =>
    match s.seen i with
    | none => some (s, { c with found := some none, stage := .inl (k none) })
    | some row =>
      if s.free i then
        some (s.hold i ((s.version i).getD .locked),
          { c with found := some (some row), stage := .inl (k (some row)) })
      else none
  | .select k => some (s, c.goOn (k e))
  | .insert row k =>
    match s.seen i with
    -- The key is there, unless the transaction that is changing its row takes it away.
    | some _ => if s.pending i then none else some (s.release i, c.answer failed)
    | none => if s.free i then some (s.hold i (.written (some row)), c.goOn k) else none
  | .upsert row k => if s.free i then some (s.hold i (.written (some row)), c.goOn k) else none
  | .update f k =>
    match s.seen i with
    | none => some (s, c.goOn k)
    | some row => if s.free i then some (s.hold i (.written (some (f row))), c.goOn k) else none
  | .delete k =>
    match s.seen i with
    | none => some (s, c.goOn k)
    | some _ => if s.free i then some (s.hold i (.written none), c.goOn k) else none

end Client

/-- The row, the requests about it, and those committed, latest first. -/
structure RowRun (ι ρ ε α : Type) extends RowState ρ where
  clients : List (Client ι ρ ε α) := []
  log : List ι := []

/-- A step of a run. -/
inductive RowAct (ι ε : Type)
  /-- A request comes in. -/
  | begin (request : ι)
  /-- A request's next statement, with what it reads elsewhere. -/
  | run (i : Nat) (e : ε)
  /-- A request fails: its transaction is rolled back. -/
  | fail (i : Nat)

def RowTxn.isCommit : RowTxn ρ ε α → Bool
  | .commit _ => true
  | _ => false

namespace RowRun

/-- One step, if it can be made. -/
def step (program : ι → RowTxn ρ ε α) (failed : α) (st : RowRun ι ρ ε α) :
    RowAct ι ε → Option (RowRun ι ρ ε α)
  | .begin q => some { st with clients := st.clients ++ [{ request := q, stage := .inl (program q) }] }
  | .run i e =>
    match st.clients[i]? with
    | some c =>
      match c.stage with
      | .inl p =>
        (c.next st.toRowState i failed e p).map fun r =>
          { toRowState := r.1, clients := st.clients.set i r.2
            log := if p.isCommit then c.request :: st.log else st.log }
      | .inr _ => none
    | none => none
  | .fail i =>
    match st.clients[i]? with
    | some c =>
      match c.stage with
      | .inl _ => some { st with toRowState := st.release i, clients := st.clients.set i (c.answer failed) }
      | .inr _ => none
    | none => none

/-- Some steps, as far as they can be made. -/
def run (program : ι → RowTxn ρ ε α) (failed : α) (st : RowRun ι ρ ε α) :
    List (RowAct ι ε) → Option (RowRun ι ρ ε α)
  | [] => some st
  | a :: as => (st.step program failed a).bind fun st => st.run program failed as

/-- Every request has its answer. -/
def finished (st : RowRun ι ρ ε α) : Bool :=
  st.clients.all fun c => c.stage.isRight

end RowRun

/-- The runs of requests about one row that is not there at first. -/
def rowSystem (program : ι → RowTxn ρ ε α) (failed : α) :
    System (RowRun ι ρ ε α) (RowAct ι ε) where
  init st := st = {}
  step st a st' := st.step program failed a = some st'

/-- A condition on commits: on the request, what was found, the committed row, and what is made of
    it. -/
def atCommit (D : ι → Option (Option ρ) → Option ρ → Option (Version ρ) → Prop)
    (st : RowRun ι ρ ε α) : RowAct ι ε → Prop
  | .run i _ => ∀ c a, st.clients[i]? = some c → c.stage = .inl (.commit a) →
      D c.request c.found st.row (st.version i)
  | _ => True

theorem reachable_run {program : ι → RowTxn ρ ε α} {failed : α} {st st' : RowRun ι ρ ε α}
    {as : List (RowAct ι ε)} (h : (rowSystem program failed).Reachable st)
    (hrun : st.run program failed as = some st') : (rowSystem program failed).Reachable st' := by
  induction as generalizing st with
  | nil =>
    cases hrun
    exact h
  | cons a as ih =>
    obtain ⟨st₁, hstep, hrest⟩ := bind_eq_some_iff.1 hrun
    exact ih (.step a h hstep) hrest

/-! ## What the commits of a transaction are -/

namespace RowTxn

variable (G : Option (Option ρ) → Option ρ → Option (Version ρ) → Prop)

/-- Every commit of a transaction that holds the row is good. -/
def Held : RowTxn ρ ε α → Option (Option ρ) → Option ρ → Version ρ → Prop
  | .commit _, found, row, v => G found row (some v)
  | .rollback _, _, _, _ => True
  | .selectForUpdate k, _, row, v => (k (v.of row)).Held (some (v.of row)) row v
  | .select k, found, row, v => ∀ e, (k e).Held found row v
  | .insert r k, found, row, v => v.of row = none → k.Held found row (.written (some r))
  | .upsert r k, found, row, _ => k.Held found row (.written (some r))
  | .update f k, found, row, v =>
    match v.of row with
    | none => k.Held found row v
    | some r => k.Held found row (.written (some (f r)))
  | .delete k, found, row, v =>
    match v.of row with
    | none => k.Held found row v
    | some _ => k.Held found row (.written none)

/-- Every commit of a transaction without the row is good, whatever the row then is. -/
def Free : RowTxn ρ ε α → Option (Option ρ) → Prop
  | .commit _, found => ∀ row, G found row none
  | .rollback _, _ => True
  | .selectForUpdate k, _ =>
    (k none).Free (some none) ∧ ∀ r, (k (some r)).Held G (some (some r)) (some r) .locked
  | .select k, found => ∀ e, (k e).Free found
  | .insert r k, found => k.Held G found none (.written (some r))
  | .upsert r k, found => ∀ row, k.Held G found row (.written (some r))
  | .update f k, found => k.Free found ∧ ∀ r, k.Held G found (some r) (.written (some (f r)))
  | .delete k, found => k.Free found ∧ ∀ r, k.Held G found (some r) (.written none)

/-- Every commit of what is left of a transaction is good. -/
def Good (s : RowState ρ) (i : Nat) (found : Option (Option ρ)) (p : RowTxn ρ ε α) : Prop :=
  match s.version i with
  | none => p.Free G found
  | some v => p.Held G found s.row v

end RowTxn

/-! ## The rule -/

section

variable {G : Option (Option ρ) → Option ρ → Option (Version ρ) → Prop} {s s' : RowState ρ}
  {c c' : Client ι ρ ε α} {p k : RowTxn ρ ε α} {i j : Nat} {v : Version ρ} {failed a : α} {e : ε}
  {found : Option (Option ρ)}

namespace RowState

@[simp] theorem version_hold_self : (s.hold i v).version i = some v := by
  simp [version, hold]

theorem version_hold (hfree : s.free i) (hne : j ≠ i) :
    (s.hold i v).version j = s.version j := by
  unfold free at hfree
  rcases hholder : s.holder with _ | ⟨k, w⟩
  · simp [version, hold, hholder, Ne.symm hne]
  · have hk : k = i := by simpa [hholder] using hfree
    simp [version, hold, hholder, hk, Ne.symm hne]

theorem version_release_self : (s.release i).version i = none := by
  unfold release
  split
  · rfl
  · next hnone => simpa using hnone

theorem version_release (hne : j ≠ i) : (s.release i).version j = s.version j := by
  unfold release
  split
  · next hsome =>
    -- The row has one holder, and that is `i`.
    rcases hholder : s.holder with _ | ⟨k, w⟩
    · simp [version, hholder]
    · have hk : k = i := by
        by_contra hk
        simp [version, hholder, hk] at hsome
      simp [version, hholder, hk, Ne.symm hne]
  · rfl

@[simp] theorem row_release : (s.release i).row = s.row := by
  unfold release
  split <;> rfl

theorem version_commit : (s.commit i).version j = (s.release i).version j := rfl

/-- The row has one holder. -/
theorem version_eq_none (hne : j ≠ i) (hv : s.version j = some v) : s.version i = none := by
  unfold version at hv ⊢
  rcases hholder : s.holder with _ | ⟨k, w⟩
  · rfl
  · have hk : k = j := by
      by_contra hk
      simp [hholder, hk] at hv
    simp [hk, hne]

end RowState

/-- After a statement of `i` the rest of it is good, and the others hold what they held. -/
structure Stepped (G : Option (Option ρ) → Option ρ → Option (Version ρ) → Prop) (s : RowState ρ)
    (i : Nat) (s' : RowState ρ) (c' : Client ι ρ ε α) : Prop where
  good : ∀ p, c'.stage = .inl p → p.Good G s' i c'.found
  others : ∀ j, j ≠ i → s'.version j = s.version j
  row : ∀ j v, j ≠ i → s.version j = some v → s'.row = s.row

namespace Stepped

/-- A statement that leaves the row alone. -/
theorem same (h : k.Good G s i found) :
    Stepped G s i s { c with found := found, stage := .inl k } where
  good p hp := by
    cases hp
    exact h
  others _ _ := rfl
  row _ _ _ _ := rfl

/-- A statement that takes hold of the row, or writes it. -/
theorem held (hfree : s.free i) (h : k.Held G found s.row v) :
    Stepped G s i (s.hold i v) { c with found := found, stage := .inl k } where
  good p hp := by
    cases hp
    rw [RowTxn.Good, RowState.version_hold_self]
    exact h
  others _ hj := RowState.version_hold hfree hj
  row _ _ _ _ := rfl

/-- The end of a transaction that leaves the row as it was. -/
theorem released : Stepped G s i (s.release i) (c.answer a) where
  good _ hp := nomatch hp
  others _ hj := RowState.version_release hj
  row _ _ _ _ := RowState.row_release

theorem committed : Stepped G s i (s.commit i) (c.answer a) where
  good _ hp := nomatch hp
  others _ hj := RowState.version_commit.trans (RowState.version_release hj)
  row j v hj hv := by
    change rowOf s.row (s.version i) = s.row
    rw [RowState.version_eq_none hj hv]
    rfl

end Stepped

theorem stepped_next (hgood : p.Good G s i c.found)
    (hnext : c.next s i failed e p = some (s', c')) : Stepped G s i s' c' := by
  rcases hversion : s.version i with _ | v
  · -- The transaction does not hold the row: it sees the committed one.
    have hseen : s.seen i = s.row := by rw [RowState.seen, hversion]; rfl
    have hfree : ∀ {k : RowTxn ρ ε α} {found}, k.Free G found → k.Good G s i found := by
      intro k found hk
      rw [RowTxn.Good, hversion]
      exact hk
    rw [RowTxn.Good, hversion] at hgood
    cases p with
    | commit a =>
      cases hnext
      exact .committed
    | rollback a =>
      cases hnext
      exact .released
    | selectForUpdate k =>
      rw [Client.next, hseen, hversion] at hnext
      rcases hrow : s.row with _ | r <;> rw [hrow] at hnext
      · cases hnext
        exact .same (hfree hgood.1)
      · obtain ⟨hi, hnext⟩ := ite_none_right_eq_some.1 hnext
        cases hnext
        exact .held hi (by rw [hrow]; exact hgood.2 r)
    | select k =>
      cases hnext
      exact .same (hfree (hgood e))
    | insert r k =>
      rw [Client.next, hseen] at hnext
      rcases hrow : s.row with _ | r' <;> rw [hrow] at hnext
      · obtain ⟨hi, hnext⟩ := ite_none_right_eq_some.1 hnext
        cases hnext
        exact .held hi (by rw [hrow]; exact hgood)
      · obtain ⟨-, hnext⟩ := ite_none_left_eq_some.1 hnext
        cases hnext
        exact .released
    | upsert r k =>
      obtain ⟨hi, hnext⟩ := ite_none_right_eq_some.1 hnext
      cases hnext
      exact .held hi (hgood s.row)
    | update f k =>
      rw [Client.next, hseen] at hnext
      rcases hrow : s.row with _ | r <;> rw [hrow] at hnext
      · cases hnext
        exact .same (hfree hgood.1)
      · obtain ⟨hi, hnext⟩ := ite_none_right_eq_some.1 hnext
        cases hnext
        exact .held hi (by rw [hrow]; exact hgood.2 r)
    | delete k =>
      rw [Client.next, hseen] at hnext
      rcases hrow : s.row with _ | r <;> rw [hrow] at hnext
      · cases hnext
        exact .same (hfree hgood.1)
      · obtain ⟨hi, hnext⟩ := ite_none_right_eq_some.1 hnext
        cases hnext
        exact .held hi (by rw [hrow]; exact hgood.2 r)
  · -- The transaction holds the row: it sees its own version, and nothing makes it wait.
    have hseen : s.seen i = v.of s.row := by rw [RowState.seen, hversion]; rfl
    have hheld : ∀ {k : RowTxn ρ ε α} {found}, k.Held G found s.row v → k.Good G s i found := by
      intro k found hk
      rw [RowTxn.Good, hversion]
      exact hk
    rw [RowTxn.Good, hversion] at hgood
    cases p with
    | commit a =>
      cases hnext
      exact .committed
    | rollback a =>
      cases hnext
      exact .released
    | selectForUpdate k =>
      rw [Client.next, hseen, hversion] at hnext
      change (k (v.of s.row)).Held G (some (v.of s.row)) s.row v at hgood
      rcases hrow : v.of s.row with _ | r <;> rw [hrow] at hnext hgood
      · cases hnext
        exact .same (hheld hgood)
      · obtain ⟨hi, hnext⟩ := ite_none_right_eq_some.1 hnext
        cases hnext
        exact .held hi hgood
    | select k =>
      cases hnext
      exact .same (hheld (hgood e))
    | insert r k =>
      rw [Client.next, hseen] at hnext
      rcases hrow : v.of s.row with _ | r' <;> rw [hrow] at hnext
      · obtain ⟨hi, hnext⟩ := ite_none_right_eq_some.1 hnext
        cases hnext
        exact .held hi (hgood hrow)
      · obtain ⟨-, hnext⟩ := ite_none_left_eq_some.1 hnext
        cases hnext
        exact .released
    | upsert r k =>
      obtain ⟨hi, hnext⟩ := ite_none_right_eq_some.1 hnext
      cases hnext
      exact .held hi hgood
    | update f k =>
      rw [Client.next, hseen] at hnext
      rcases hrow : v.of s.row with _ | r <;> rw [hrow] at hnext <;>
        simp only [RowTxn.Held, hrow] at hgood
      · cases hnext
        exact .same (hheld hgood)
      · obtain ⟨hi, hnext⟩ := ite_none_right_eq_some.1 hnext
        cases hnext
        exact .held hi hgood
    | delete k =>
      rw [Client.next, hseen] at hnext
      rcases hrow : v.of s.row with _ | r <;> rw [hrow] at hnext <;>
        simp only [RowTxn.Held, hrow] at hgood
      · cases hnext
        exact .same (hheld hgood)
      · obtain ⟨hi, hnext⟩ := ite_none_right_eq_some.1 hnext
        cases hnext
        exact .held hi hgood

/-- Only a commit changes the committed row. -/
theorem row_next (hp : p.isCommit = false) (hnext : c.next s i failed e p = some (s', c')) :
    s'.row = s.row := by
  cases p with
  | commit a => exact nomatch hp
  | rollback a =>
    cases hnext
    exact RowState.row_release
  | select k =>
    cases hnext
    rfl
  | upsert r k =>
    obtain ⟨-, hnext⟩ := ite_none_right_eq_some.1 hnext
    cases hnext
    rfl
  | insert r k =>
    rw [Client.next] at hnext
    split at hnext
    · obtain ⟨-, hnext⟩ := ite_none_left_eq_some.1 hnext
      cases hnext
      exact RowState.row_release
    · obtain ⟨-, hnext⟩ := ite_none_right_eq_some.1 hnext
      cases hnext
      rfl
  | selectForUpdate k | update f k | delete k =>
    -- What is there is held, what is not there is left.
    rw [Client.next] at hnext
    split at hnext
    · cases hnext
      rfl
    · obtain ⟨-, hnext⟩ := ite_none_right_eq_some.1 hnext
      cases hnext
      rfl

theorem request_next (hnext : c.next s i failed e p = some (s', c')) :
    c'.request = c.request := by
  cases p <;> simp only [Client.next] at hnext <;> (try split at hnext) <;> (try split at hnext) <;>
    cases hnext <;> rfl

end

namespace RowRun

variable {program : ι → RowTxn ρ ε α} {failed : α} {st st' : RowRun ι ρ ε α}
  {G : ι → Option (Option ρ) → Option ρ → Option (Version ρ) → Prop}

/-- What is left of each transaction commits well; who holds the row is one. -/
structure Inv (G : ι → Option (Option ρ) → Option ρ → Option (Version ρ) → Prop)
    (st : RowRun ι ρ ε α) : Prop where
  good : ∀ i (c : Client ι ρ ε α) p, st.clients[i]? = some c → c.stage = .inl p →
    p.Good (G c.request) st.toRowState i c.found
  there : ∀ i, st.clients[i]? = none → st.version i = none

theorem Inv.run {i : Nat} {e : ε} {c c' : Client ι ρ ε α} {p : RowTxn ρ ε α} {s : RowState ρ}
    {log : List ι} (h : Inv G st) (hc : st.clients[i]? = some c) (hp : c.stage = .inl p)
    (hnext : c.next st.toRowState i failed e p = some (s, c')) :
    Inv G { toRowState := s, clients := st.clients.set i c', log } where
  good j d k hd hk := by
    have hstepped := stepped_next (h.good i c p hc hp) hnext
    rw [getElem?_set] at hd
    split at hd
    · next heq =>
      subst heq
      split at hd
      · cases hd
        rw [request_next hnext]
        exact hstepped.good k hk
      · exact nomatch hd
    · next hne =>
      have hj := h.good j d k hd hk
      rcases hversion : st.version j with _ | v <;> rw [RowTxn.Good, hversion] at hj
      · rw [RowTxn.Good, hstepped.others j (Ne.symm hne), hversion]
        exact hj
      · rw [RowTxn.Good, hstepped.others j (Ne.symm hne), hversion,
          hstepped.row j v (Ne.symm hne) hversion]
        exact hj
  there j hj := by
    have hstepped := stepped_next (h.good i c p hc hp) hnext
    have hnone : st.clients[j]? = none := by simpa using hj
    have hne : j ≠ i := by
      rintro rfl
      exact nomatch hc.symm.trans hnone
    rw [hstepped.others j hne]
    exact h.there j hnone

theorem Inv.fail {i : Nat} {c : Client ι ρ ε α} {a : α} (h : Inv G st) :
    Inv G { st with toRowState := st.release i, clients := st.clients.set i (c.answer a) } where
  good j d k hd hk := by
    rw [getElem?_set] at hd
    split at hd
    · split at hd
      · cases hd
        exact nomatch hk
      · exact nomatch hd
    · next hne =>
      have hj := h.good j d k hd hk
      rw [RowTxn.Good] at hj ⊢
      rw [RowState.version_release (Ne.symm hne), RowState.row_release]
      exact hj
  there j hj := by
    by_cases heq : j = i
    · rw [heq]
      exact RowState.version_release_self
    · rw [RowState.version_release heq]
      exact h.there j (by simpa using hj)

theorem Inv.begin {q : ι} {p : RowTxn ρ ε α} (h : Inv G st) (hq : p.Free (G q) none) :
    Inv G { st with clients := st.clients ++ [{ request := q, stage := .inl p }] } where
  good j d k hd hk := by
    rcases Nat.lt_trichotomy j st.clients.length with hlt | heq | hgt
    · rw [getElem?_append_left hlt] at hd
      exact h.good j d k hd hk
    · -- The new request holds nothing.
      have hnone : st.version j = none := h.there j (getElem?_eq_none (Nat.le_of_eq heq.symm))
      rw [heq, getElem?_append_right (Nat.le_refl _), Nat.sub_self] at hd
      cases hd
      cases hk
      rw [RowTxn.Good, hnone]
      exact hq
    · rw [getElem?_append_right (Nat.le_of_lt hgt),
        getElem?_eq_none (by simp only [length_cons, length_nil]; omega)] at hd
      exact nomatch hd
  there j hj := by
    have hlen := List.getElem?_eq_none_iff.1 hj
    simp only [length_append, length_cons, length_nil] at hlen
    exact h.there j (getElem?_eq_none (by omega))

/-- A step leaves the committed row and the log, or commits a request. -/
inductive StepCases (st : RowRun ι ρ ε α) (a : RowAct ι ε) (st' : RowRun ι ρ ε α) : Prop
  | quiet (hrow : st'.row = st.row) (hlog : st'.log = st.log)
      (hnone : ∀ i e c b, a = .run i e → st.clients[i]? = some c → c.stage ≠ .inl (.commit b))
  | commit (i : Nat) (e : ε) (c : Client ι ρ ε α) (b : α) (ha : a = .run i e)
      (hc : st.clients[i]? = some c) (hp : c.stage = .inl (.commit b))
      (hrow : st'.row = rowOf st.row (st.version i)) (hlog : st'.log = c.request :: st.log)

theorem step_cases {a : RowAct ι ε} (hstep : st.step program failed a = some st') :
    StepCases st a st' := by
  cases a with
  | begin q =>
    cases hstep
    exact .quiet rfl rfl fun _ _ _ _ ha => nomatch ha
  | run i e =>
    rw [RowRun.step] at hstep
    rcases hc : st.clients[i]? with _ | c <;> rw [hc] at hstep
    · exact nomatch hstep
    · rcases hp : c.stage with p | b <;> simp only [hp] at hstep
      · obtain ⟨⟨s, c'⟩, hnext, heq⟩ := map_eq_some_iff.1 hstep
        subst heq
        by_cases hcommit : p.isCommit
        · obtain ⟨b, rfl⟩ : ∃ b, p = .commit b := by
            cases p with
            | commit b => exact ⟨b, rfl⟩
            | _ => exact nomatch hcommit
          cases hnext
          exact .commit i e c b rfl hc hp rfl rfl
        · refine .quiet (row_next (by simpa using hcommit) hnext) (if_neg hcommit) ?_
          rintro j _ d b hj hd hb
          cases hj
          cases hc.symm.trans hd
          cases hp.symm.trans hb
          exact hcommit rfl
      · exact nomatch hstep
  | fail i =>
    rw [RowRun.step] at hstep
    rcases hc : st.clients[i]? with _ | c <;> rw [hc] at hstep
    · exact nomatch hstep
    · rcases hp : c.stage with p | b <;> simp only [hp] at hstep
      · cases hstep
        exact .quiet RowState.row_release rfl fun _ _ _ _ ha => nomatch ha
      · exact nomatch hstep

theorem Inv.step {a : RowAct ι ε} (h : Inv G st) (hprogram : ∀ q, (program q).Free (G q) none)
    (hstep : st.step program failed a = some st') : Inv G st' := by
  cases a with
  | begin q =>
    cases hstep
    exact h.begin (hprogram q)
  | run i e =>
    rw [RowRun.step] at hstep
    rcases hc : st.clients[i]? with _ | c <;> rw [hc] at hstep
    · exact nomatch hstep
    · rcases hp : c.stage with p | b <;> simp only [hp] at hstep
      · obtain ⟨⟨s, c'⟩, hnext, heq⟩ := map_eq_some_iff.1 hstep
        subst heq
        exact h.run hc hp hnext
      · exact nomatch hstep
  | fail i =>
    rw [RowRun.step] at hstep
    rcases hc : st.clients[i]? with _ | c <;> rw [hc] at hstep
    · exact nomatch hstep
    · rcases hp : c.stage with p | b <;> simp only [hp] at hstep
      · cases hstep
        exact h.fail
      · exact nomatch hstep

/-- In every run commits are good if `RowTxn.Free` holds of the transactions. -/
theorem good_commit (hprogram : ∀ q, (program q).Free (G q) none)
    (h : (rowSystem program failed).Reachable st) {i : Nat} {c : Client ι ρ ε α} {a : α}
    (hc : st.clients[i]? = some c) (hp : c.stage = .inl (.commit a)) :
    G c.request c.found st.row (st.version i) := by
  have hinv : Inv G st := by
    refine System.reachable_invariant ?_ (fun s a s' hs hstep => hs.step hprogram hstep) h
    rintro _ rfl
    refine ⟨?_, fun _ _ => rfl⟩
    intro j d p hd
    exact nomatch hd
  have hgood := hinv.good i c _ hc hp
  rcases hversion : st.version i with _ | v <;> rw [RowTxn.Good, hversion] at hgood
  · exact hgood st.row
  · exact hgood

/-- What holds of the committed row and log at first, and is kept by good commits that meet the
    condition, holds in every run whose commits do. -/
theorem invariant {D : ι → Option (Option ρ) → Option ρ → Option (Version ρ) → Prop}
    {I : Option ρ → List ι → Prop} (hprogram : ∀ q, (program q).Free (G q) none)
    (hinit : I none []) (hcommit : ∀ q found row v log, G q found row v → D q found row v →
      I row log → I (rowOf row v) (q :: log))
    (h : ((rowSystem program failed).given (atCommit D)).Reachable st) : I st.row st.log := by
  induction h with
  | init h =>
    cases h
    exact hinit
  | @step s s' a hs hstep ih =>
    rcases step_cases hstep.1 with ⟨hrow, hlog, -⟩ | ⟨i, e, c, b, rfl, hc, hp, hrow, hlog⟩
    · rw [hrow, hlog]
      exact ih
    · rw [hrow, hlog]
      exact hcommit _ _ _ _ _ (good_commit hprogram hs.of_given hc hp) (hstep.2 c b hc hp) ih

end RowRun

end Lib
