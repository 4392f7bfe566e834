import Decibell.Central.DmTriggers

/-!
# When the conversations tell the truth

Two deletes of neighbouring messages do not see each other, and a delete that waits for an insert
does not see its message: either leaves a row that names a deleted message, or no row where there is
a message.

* `conversations_not_told`: runs in which that happens.
-/

namespace Decibell.Central

open Lib Function List

/-! ## The largest of some numbers -/

section Newest

variable {s s' : Int → Prop} {c : Option Int}

theorem IsNewest.congr (h : IsNewest s c) (hs : ∀ x, s' x ↔ s x) : IsNewest s' c := by
  rcases c with _ | newest
  · exact fun x hx => h x ((hs x).1 hx)
  · exact ⟨(hs _).2 h.1, fun x hx => h.2 x ((hs x).1 hx)⟩

theorem IsNewest.insert (h : IsNewest s c) (x : Int) :
    IsNewest (fun y => s y ∨ y = x) (some (greatest c x)) := by
  rcases c with _ | newest
  · refine ⟨.inr rfl, fun y hy => ?_⟩
    rcases hy with hy | rfl
    · exact absurd hy (h y)
    · exact Int.le_refl y
  · refine ⟨?_, fun y hy => ?_⟩
    · change s (max newest x) ∨ max newest x = x
      rcases Int.le_total newest x with hle | hle
      · exact .inr (Int.max_eq_right hle)
      · rw [Int.max_eq_left hle]
        exact .inl h.1
    · rcases hy with hy | rfl
      · exact (h.2 y hy).trans (Int.le_max_left _ _)
      · exact Int.le_max_right _ _

theorem IsNewest.mono (h : IsNewest s c) (hsub : ∀ x, s' x → s x)
    (hkeep : ∀ newest, c = some newest → s newest → s' newest) : IsNewest s' c := by
  rcases c with _ | newest
  · exact fun x hx => h x (hsub x hx)
  · exact ⟨hkeep newest rfl h.1, fun x hx => h.2 x (hsub x hx)⟩

theorem IsNewest.le {x : Int} (h : IsNewest s c) (hx : s x) : ∃ newest, c = some newest ∧ x ≤ newest := by
  rcases c with _ | newest
  · exact absurd hx (h x)
  · exact ⟨newest, rfl, h.2 x hx⟩

end Newest

/-! ## What the statements find and write -/

section Tables

variable {t : DmTables} {m : DmMessage} {p : DmPair} {x : Int}

theorem HasDm.unique {q : DmPair} (h : t.HasDm p x) (h' : t.HasDm q x) : p = q := by
  obtain ⟨m, hm, rfl, rfl⟩ := h
  obtain ⟨n, hn, rfl, hid⟩ := h'
  rw [inj_on_of_nodup_map t.messages.nodup hm hn hid.symm]

/-- The messages of a pair without `m`. -/
def DmTables.HasOther (t : DmTables) (m : DmMessage) (x : Int) : Prop := t.HasDm m.pair x ∧ x ≠ m.id

theorem isNewest_maxOther (h : ∀ r ∈ t.messages.rows, 0 < r.id) (m : DmMessage) :
    IsNewest (t.HasOther m) (if t.maxOther m = 0 then none else some (t.maxOther m)) := by
  have hmem : ∀ x, x ∈ (t.messages.rows.filter fun r => r.pair = m.pair ∧ r.id ≠ m.id).map (·.id) ↔
      t.HasOther m x := by
    intro x
    simp only [mem_map, mem_filter, decide_eq_true_eq, DmTables.HasOther, DmTables.HasDm]
    constructor
    · rintro ⟨r, ⟨hr, hpair, hne⟩, rfl⟩
      exact ⟨⟨r, hr, hpair, rfl⟩, hne⟩
    · rintro ⟨⟨r, hr, hpair, rfl⟩, hne⟩
      exact ⟨r, ⟨hr, hpair, hne⟩, rfl⟩
  rw [DmTables.maxOther]
  generalize (t.messages.rows.filter fun r => r.pair = m.pair ∧ r.id ≠ m.id).map (·.id) = ids at hmem ⊢
  cases hmax : ids.max? with
  | none =>
    rw [max?_eq_none_iff] at hmax
    subst hmax
    rw [Option.getD_none, if_pos rfl]
    exact fun x hx => absurd ((hmem x).2 hx) not_mem_nil
  | some newest =>
    obtain ⟨hin, hle⟩ := max?_eq_some_iff.1 hmax
    obtain ⟨⟨r, hr, -, hid⟩, -⟩ := (hmem newest).1 hin
    have hpos : newest ≠ 0 := Int.ne_of_gt (hid ▸ h r hr)
    rw [Option.getD_some, if_neg hpos]
    exact ⟨(hmem newest).1 hin, fun x hx => hle x ((hmem x).2 hx)⟩

theorem hasDm_inserted (hnew : ∀ r ∈ t.messages.rows, r.id ≠ m.id) :
    (t.change (.inserted m)).HasDm p x ↔ t.HasDm p x ∨ m.pair = p ∧ x = m.id := by
  have hkey : m.id ∉ t.messages.keys := by
    intro hmem
    obtain ⟨r, hr, hid⟩ := mem_map.1 hmem
    exact hnew r hr hid
  have hrows : (t.messages.insertOrIgnore m).rows = t.messages.rows ++ [m] := by
    rw [Table.insertOrIgnore, dif_neg hkey]
    rfl
  simp only [DmTables.HasDm, DmTables.change, hrows, mem_append, mem_singleton]
  constructor
  · rintro ⟨r, hr | rfl, hpair, hid⟩
    · exact .inl ⟨r, hr, hpair, hid⟩
    · exact .inr ⟨hpair, hid.symm⟩
  · rintro (⟨r, hr, hpair, hid⟩ | ⟨hpair, rfl⟩)
    · exact ⟨r, .inl hr, hpair, hid⟩
    · exact ⟨m, .inr rfl, hpair, rfl⟩

theorem hasDm_deleted : (t.change (.deleted m)).HasDm p x ↔ t.HasDm p x ∧ x ≠ m.id := by
  have hrows : (t.messages.deleteWhere (·.id = m.id)).rows =
      t.messages.rows.filter fun r => ! decide (r.id = m.id) := rfl
  simp only [DmTables.HasDm, DmTables.change, hrows, mem_filter, Bool.not_eq_true',
    decide_eq_false_iff_not]
  constructor
  · rintro ⟨r, ⟨hr, hne⟩, hpair, rfl⟩
    exact ⟨⟨r, hr, hpair, rfl⟩, hne⟩
  · rintro ⟨⟨r, hr, hpair, rfl⟩, hne⟩
    exact ⟨r, ⟨hr, hne⟩, hpair, rfl⟩

theorem lastId_setLastId (v : Option Int) (q : DmPair) :
    (t.setLastId p v).lastId q = if q = p then v else t.lastId q := by
  rcases v with _ | last
  · change ((t.conversations.deleteWhere (·.pair = p)).find? q).map _ = _
    rw [Table.find?_deleteWhere_key]
    split
    · rfl
    · rfl
  · change ((t.conversations.upsert ⟨p.1, p.2, last⟩).find? q).map _ = _
    by_cases heq : q = p
    · subst heq
      rw [if_pos rfl]
      exact congrArg _ Table.find?_upsert
    · rw [if_neg heq, Table.find?_upsert_of_ne heq]
      rfl

theorem lastId_change (change : DmChange) (q : DmPair) : (t.change change).lastId q = t.lastId q := by
  cases change <;> rfl

end Tables

/-! ## The invariant -/

namespace DmRun

variable (st : DmRun)

/-- A message inserted and not committed. -/
structure Fresh (m : DmMessage) : Prop where
  positive : 0 < m.id
  below : m.id < st.nextId
  new : ∀ r ∈ st.tables.messages.rows, r.id ≠ m.id
  accounts : (st.tables.users m.senderUid).isSome ∧ (st.tables.users m.recipientUid).isSome

/-- Transaction `i` deletes the message and has not ended. -/
structure Deletes (i : Nat) (m : DmMessage) : Prop where
  there : m ∈ st.tables.messages.rows
  holds : st.deleting m.id = some i

/-- The row, committed and as written, names a newer message than the deleted one. -/
structure Passed (m : DmMessage) : Prop where
  committed : ∃ last, st.tables.lastId m.pair = some last ∧ m.id < last
  pending : ∀ j last, st.written m.pair = some (j, some last) → m.id < last

/-- What transaction `i` relies on before each of its statements. -/
def Good (i : Nat) (p : DmPair) : DmStage → Prop
  | .upsert m => m.pair = p ∧ st.Fresh m
  | .commit (.inserted m) => m.pair = p ∧ st.Fresh m ∧ ∃ v, st.written p = some (i, v)
  | .lookUp m => m.pair = p ∧ st.Deletes i m
  | .rewrite m _ generation => m.pair = p ∧ st.Deletes i m ∧ st.generation p = generation
  | .cleanUp m | .commit (.deleted m) =>
    m.pair = p ∧ st.Deletes i m ∧ ((∃ v, st.written p = some (i, v)) ∨ st.Passed m)
  | _ => True

end DmRun

/-- What a transaction made of the row is true once committed; a delete may write 0 before it
    deletes the row. -/
def Writes (t : DmTables) (p : DmPair) (v : Option Int) : DmStage → Prop
  | .commit (.inserted m) => m.pair = p ∧ IsNewest (fun x => t.HasDm p x ∨ x = m.id) v
  | .cleanUp m => m.pair = p ∧ IsNewest (t.HasOther m) (v.filter (· ≠ 0)) ∧ v ≠ none
  | .commit (.deleted m) => m.pair = p ∧ IsNewest (t.HasOther m) v
  | _ => False

/-- The table tells the truth, whoever commits next. -/
structure DmRun.Sound (st : DmRun) : Prop where
  told : st.tables.TellsNewest
  sequence : 0 < st.nextId
  rows : ∀ m ∈ st.tables.messages.rows, 0 < m.id ∧ m.id < st.nextId
  accounts : ∀ m ∈ st.tables.messages.rows,
    (st.tables.users m.senderUid).isSome ∧ (st.tables.users m.recipientUid).isSome
  good : ∀ i x, st.txns i = some x → st.Good i x.request.pair x.stage
  apart : ∀ i j x y m n, st.txns i = some x → st.txns j = some y → i ≠ j →
    x.stage.inserts = some m → y.stage.inserts = some n → m.id ≠ n.id
  writer : ∀ p i v, st.written p = some (i, v) →
    ∃ x, st.txns i = some x ∧ x.request.pair = p ∧ Writes st.tables p v x.stage

theorem Writes.shrink {t t' : DmTables} {p : DmPair} {v : Option Int} {s : DmStage}
    (h : Writes t p v s) (hsub : ∀ x, t'.HasDm p x → t.HasDm p x)
    (hkeep : ∀ last, v = some last → last ≠ 0 → t.HasDm p last → t'.HasDm p last)
    (hzero : ¬ t.HasDm p 0) : Writes t' p v s := by
  have hkeep : ∀ last, v = some last → t.HasDm p last → t'.HasDm p last := by
    intro last hlast hhas
    exact hkeep last hlast (fun heq => hzero (heq ▸ hhas)) hhas
  cases s with
  | cleanUp m =>
    obtain ⟨rfl, hnewest, hsome⟩ := h
    refine ⟨rfl, hnewest.mono (fun x hx => ⟨hsub x hx.1, hx.2⟩) fun last hlast hhas => ?_, hsome⟩
    exact ⟨hkeep last (Option.filter_eq_some_iff.1 hlast).1 hhas.1, hhas.2⟩
  | commit change =>
    cases change with
    | nothing => exact h
    | inserted m =>
      exact ⟨h.1, h.2.mono (fun x hx => hx.imp (hsub x) id) fun last hlast hhas =>
        hhas.imp (hkeep last hlast) id⟩
    | deleted m =>
      obtain ⟨rfl, hnewest⟩ := h
      exact ⟨rfl, hnewest.mono (fun x hx => ⟨hsub x hx.1, hx.2⟩) fun last hlast hhas =>
        ⟨hkeep last hlast hhas.1, hhas.2⟩⟩
  | start | upsert m | lookUp m | rewrite m last generation | ended => exact h

namespace DmRun

variable {st st' : DmRun} {i : Nat} {x x' : DmTxn}

/-- What transaction `j` has is still there. -/
structure Leaves (st st' : DmRun) (j : Nat) : Prop where
  written : ∀ p v, st.written p = some (j, v) → st'.written p = some (j, v)
  deletes : ∀ m, st.Deletes j m → st'.Deletes j m
  generation : ∀ m, st.Deletes j m → st'.generation m.pair = st.generation m.pair

theorem Good.leaves {j : Nat} {p : DmPair} {s : DmStage} (hl : Leaves st st' j) (h : st.Good j p s)
    (hfresh : ∀ m, s.inserts = some m → st.Fresh m → st'.Fresh m)
    (hpassed : ∀ m, s.looked = some m → st.Deletes j m → st.Passed m → st'.Passed m) :
    st'.Good j p s := by
  have hwritten : ∀ p, (∃ v, st.written p = some (j, v)) → ∃ v, st'.written p = some (j, v) :=
    fun p hv => hv.imp fun v hv => hl.written p v hv
  cases s with
  | start | ended => trivial
  | upsert m => exact ⟨h.1, hfresh m rfl h.2⟩
  | lookUp m => exact ⟨h.1, hl.deletes m h.2⟩
  | rewrite m last generation =>
    obtain ⟨rfl, hdeletes, hgeneration⟩ := h
    exact ⟨rfl, hl.deletes m hdeletes, (hl.generation m hdeletes).trans hgeneration⟩
  | cleanUp m =>
    obtain ⟨rfl, hdeletes, hlooked⟩ := h
    exact ⟨rfl, hl.deletes m hdeletes, hlooked.imp (hwritten _) (hpassed m rfl hdeletes)⟩
  | commit change =>
    cases change with
    | nothing => trivial
    | inserted m =>
      obtain ⟨rfl, hm, hheld⟩ := h
      exact ⟨rfl, hfresh m rfl hm, hwritten _ hheld⟩
    | deleted m =>
      obtain ⟨rfl, hdeletes, hlooked⟩ := h
      exact ⟨rfl, hl.deletes m hdeletes, hlooked.imp (hwritten _) (hpassed m rfl hdeletes)⟩

/-- What a step of transaction `i` leaves to the others. -/
structure Frame (st st' : DmRun) (i : Nat) : Prop where
  users : st'.tables.users = st.tables.users
  nextId : st.nextId ≤ st'.nextId
  txns : ∀ j, j ≠ i → st'.txns j = st.txns j
  leaves : ∀ j, j ≠ i → Leaves st st' j
  written : ∀ p j v, j ≠ i → st'.written p = some (j, v) → st.written p = some (j, v)
  passed : ∀ j y m, j ≠ i → st.txns j = some y → y.stage.looked = some m → st.Deletes j m →
    st.Passed m → st'.Passed m
  new : ∀ m ∈ st'.tables.messages.rows, m ∈ st.tables.messages.rows ∨
    ∃ x, st.txns i = some x ∧ x.stage.inserts = some m

theorem Fresh.frame {m : DmMessage} (hframe : Frame st st' i) (h : st.Fresh m)
    (hnew : ∀ x n, st.txns i = some x → x.stage.inserts = some n → n.id ≠ m.id) : st'.Fresh m where
  positive := h.positive
  below := Int.lt_of_lt_of_le h.below hframe.nextId
  new r hr := by
    rcases hframe.new r hr with hr | ⟨x, hx, hinserts⟩
    · exact h.new r hr
    · exact hnew x r hx hinserts
  accounts := by
    rw [hframe.users]
    exact h.accounts

/-- A step of `i` that is right for `i` and leaves the others what they have. -/
theorem Sound.of_frame (h : st.Sound) (hframe : Frame st st' i) (hx : st'.txns i = some x')
    (htold : st'.tables.TellsNewest)
    (hrows : ∀ m ∈ st'.tables.messages.rows, 0 < m.id ∧ m.id < st'.nextId)
    (haccounts : ∀ m ∈ st'.tables.messages.rows,
      (st'.tables.users m.senderUid).isSome ∧ (st'.tables.users m.recipientUid).isSome)
    (hgood : st'.Good i x'.request.pair x'.stage)
    (hinserts : ∀ m, x'.stage.inserts = some m → (∃ x, st.txns i = some x ∧ x.stage.inserts = some m) ∨
      ∀ j y n, st.txns j = some y → y.stage.inserts = some n → m.id ≠ n.id)
    (hwrites : ∀ p v, st'.written p = some (i, v) →
      x'.request.pair = p ∧ Writes st'.tables p v x'.stage)
    (hothers : ∀ p j v s, j ≠ i → st.written p = some (j, v) → Writes st.tables p v s →
      Writes st'.tables p v s) : st'.Sound where
  told := htold
  sequence := Int.lt_of_lt_of_le h.sequence hframe.nextId
  rows := hrows
  accounts := haccounts
  good j y hy := by
    by_cases hj : j = i
    · subst hj
      obtain rfl : x' = y := Option.some.inj (hx.symm.trans hy)
      exact hgood
    · rw [hframe.txns j hj] at hy
      refine (h.good j y hy).leaves (hframe.leaves j hj) (fun m hm hfresh => ?_) fun m =>
        hframe.passed j y m hj hy
      exact hfresh.frame hframe fun x n hx hn => h.apart i j x y n m hx hy (Ne.symm hj) hn hm
  apart j k y z m n hy hz hne hm hn := by
    -- Only the step's own transaction may have inserted something new.
    have hone : ∀ k z m n, k ≠ i → st'.txns k = some z → x'.stage.inserts = some m →
        z.stage.inserts = some n → m.id ≠ n.id := by
      intro k z m n hk hz hm hn
      rw [hframe.txns k hk] at hz
      rcases hinserts m hm with ⟨x, hx, hsame⟩ | hnew
      · exact h.apart i k x z m n hx hz (Ne.symm hk) hsame hn
      · exact hnew k z n hz hn
    by_cases hj : j = i
    · subst hj
      obtain rfl : x' = y := Option.some.inj (hx.symm.trans hy)
      exact hone k z m n (Ne.symm hne) hz hm hn
    · by_cases hk : k = i
      · subst hk
        obtain rfl : x' = z := Option.some.inj (hx.symm.trans hz)
        exact (hone j y n m hj hy hn hm).symm
      · rw [hframe.txns j hj] at hy
        rw [hframe.txns k hk] at hz
        exact h.apart j k y z m n hy hz hne hm hn
  writer p j v hv := by
    by_cases hj : j = i
    · subst hj
      exact ⟨x', hx, hwrites p v hv⟩
    · obtain ⟨y, hy, hpair, hwrites⟩ := h.writer p j v (hframe.written p j v hj hv)
      exact ⟨y, (hframe.txns j hj).trans hy, hpair, hothers p j v _ hj (hframe.written p j v hj hv) hwrites⟩

/-! ## Statements that commit nothing -/

theorem Sound.fresh (h : st.Sound) (hx : st.txns i = some x) {m : DmMessage}
    (hm : x.stage.inserts = some m) : st.Fresh m := by
  have hgood := h.good i x hx
  generalize x.stage = s at hm hgood
  cases s with
  | upsert n =>
    cases hm
    exact hgood.2
  | commit change =>
    cases change with
    | inserted n =>
      cases hm
      exact hgood.2.1
    | nothing | deleted n => cases hm
  | start | lookUp n | rewrite n last generation | cleanUp n | ended => cases hm

theorem Sound.writes (h : st.Sound) (hx : st.txns i = some x) {p : DmPair} {v : Option Int}
    (hv : st.written p = some (i, v)) : x.request.pair = p ∧ Writes st.tables p v x.stage := by
  obtain ⟨y, hy, hwrites⟩ := h.writer p i v hv
  obtain rfl : x = y := Option.some.inj (hx.symm.trans hy)
  exact hwrites

theorem Sound.quiet (h : st.Sound) (i : Nat) (x' : DmTxn) (hx : st'.txns i = some x')
    (htables : st'.tables = st.tables)
    (hgeneration : st'.generation = st.generation) (hid : st.nextId ≤ st'.nextId)
    (htxns : ∀ j, j ≠ i → st'.txns j = st.txns j)
    (hdeleting : ∀ id j, j ≠ i → st.deleting id = some j → st'.deleting id = some j)
    (hwritten : ∀ p j v, j ≠ i → (st'.written p = some (j, v) ↔ st.written p = some (j, v)))
    (hpassed : ∀ j y m last, j ≠ i → st.txns j = some y → y.stage.looked = some m →
      st.Deletes j m → st.Passed m → st'.written m.pair = some (i, some last) → m.id < last)
    (hgood : st'.Good i x'.request.pair x'.stage)
    (hinserts : ∀ m, x'.stage.inserts = some m → (∃ x, st.txns i = some x ∧ x.stage.inserts = some m) ∨
      ∀ j y n, st.txns j = some y → y.stage.inserts = some n → m.id ≠ n.id)
    (hwrites : ∀ p v, st'.written p = some (i, v) →
      x'.request.pair = p ∧ Writes st'.tables p v x'.stage) : st'.Sound := by
  have hframe : Frame st st' i := by
    refine ⟨by rw [htables], hid, htxns, fun j hj => ⟨fun p v => (hwritten p j v hj).2,
      fun m hdel => ?_, fun m _ => ?_⟩, fun p j v hj => (hwritten p j v hj).1,
      fun j y m hj hy hm hdel hpast => ⟨?_, fun k last hk => ?_⟩, fun m hm => .inl (htables ▸ hm)⟩
    · exact ⟨htables ▸ hdel.there, hdeleting _ j hj hdel.holds⟩
    · rw [hgeneration]
    · rw [htables]
      exact hpast.committed
    · by_cases hki : k = i
      · subst hki
        exact hpassed j y m last hj hy hm hdel hpast hk
      · exact hpast.pending k last ((hwritten _ k _ hki).1 hk)
  refine h.of_frame hframe hx ?_ (fun m hm => ?_) ?_ hgood hinserts hwrites fun p j v s _ _ hs => ?_
  · rw [htables]
    exact h.told
  · rw [htables] at hm
    exact ⟨(h.rows m hm).1, Int.lt_of_lt_of_le (h.rows m hm).2 hid⟩
  · rw [htables]
    exact h.accounts
  · rw [htables]
    exact hs

theorem Sound.skipId (h : st.Sound) : Sound { st with nextId := st.nextId + 1 } where
  told := h.told
  sequence := by have := h.sequence; dsimp only; omega
  rows m hm := by have := h.rows m hm; dsimp only; omega
  accounts := h.accounts
  good j y hy := by
    have hleaves : Leaves st { st with nextId := st.nextId + 1 } j :=
      ⟨fun _ _ hv => hv, fun _ hdel => ⟨hdel.there, hdel.holds⟩, fun _ _ => rfl⟩
    refine (h.good j y hy).leaves hleaves (fun m _ hm => ?_) fun m _ _ hpast =>
      ⟨hpast.committed, hpast.pending⟩
    exact ⟨hm.positive, by have := hm.below; dsimp only; omega, hm.new, hm.accounts⟩
  apart := h.apart
  writer := h.writer

theorem Sound.finish (h : st.Sound) (i : Nat) (x : DmTxn) : (st.finish i x).Sound := by
  have hnone : ∀ p v, ¬ (st.finish i x).written p = some (i, v) := by
    intro p v hv
    have hne := (Option.filter_eq_some_iff.1 hv).2
    simp at hne
  refine h.quiet i { x with stage := .ended } (update_self ..) rfl rfl (Int.le_refl _)
    (fun j hj => update_of_ne hj ..) (fun id j hj hdel => ?_) (fun p j v hj => ?_)
    (fun j y m last _ _ _ _ _ hv => absurd hv (hnone _ _)) trivial (fun m hm => nomatch hm)
    fun p v hv => absurd hv (hnone p v)
  · exact Option.filter_eq_some_iff.2 ⟨hdel, decide_eq_true hj⟩
  · refine ⟨fun hv => (Option.filter_eq_some_iff.1 hv).1, fun hv => ?_⟩
    exact Option.filter_eq_some_iff.2 ⟨hv, decide_eq_true hj⟩

theorem Sound.goOn (h : st.Sound) (hx : st.txns i = some x) {s : DmStage}
    (hgood : st.Good i x.request.pair s) (hinserts : ∀ m, s.inserts = some m → x.stage.inserts = some m)
    (hwrites : ∀ p v, st.written p = some (i, v) → Writes st.tables p v x.stage →
      Writes st.tables p v s) :
    (st.goOn i x s).Sound := by
  refine h.quiet i { x with stage := s } (update_self ..) rfl rfl (Int.le_refl _)
    (fun j hj => update_of_ne hj ..) (fun _ _ _ hdel => hdel) (fun _ _ _ _ => Iff.rfl)
    (fun j y m last _ _ _ _ hpast hv => hpast.pending i last hv) ?_ (fun m hm => .inl ⟨x, hx, hinserts m hm⟩)
    fun p v hv => ?_
  · have hleaves : Leaves st (st.goOn i x s) i :=
      ⟨fun _ _ hv => hv, fun _ hdel => ⟨hdel.there, hdel.holds⟩, fun _ _ => rfl⟩
    exact hgood.leaves hleaves (fun m _ hm => ⟨hm.positive, hm.below, hm.new, hm.accounts⟩)
      fun m _ _ hpast => ⟨hpast.committed, hpast.pending⟩
  · obtain ⟨hpair, hw⟩ := h.writes hx hv
    exact ⟨hpair, hwrites p v hv hw⟩

theorem Sound.begin (h : st.Sound) (hi : st.txns i = none) (request : DmRequest) :
    Sound { st with txns := update st.txns i (some { request }) } := by
  have hnone : ∀ p v, ¬ st.written p = some (i, v) := by
    intro p v hv
    obtain ⟨x, hx, -⟩ := h.writer p i v hv
    cases hi.symm.trans hx
  exact h.quiet i { request } (update_self ..) rfl rfl (Int.le_refl _)
    (fun j hj => update_of_ne hj ..) (fun _ _ _ hdel => hdel) (fun _ _ _ _ => Iff.rfl)
    (fun j y m last _ _ _ _ hpast hv => hpast.pending i last hv) trivial (fun m hm => nomatch hm)
    fun p v hv => absurd hv (hnone p v)

/-- Transaction `i` writes its pair's row, which nobody else has written. -/
theorem Sound.write (h : st.Sound) (hx : st.txns i = some x) {p : DmPair} (hpair : x.request.pair = p)
    (hfree : st.free i p) (v : Option Int) {s : DmStage}
    (hinserts : ∀ m, s.inserts = some m → x.stage.inserts = some m)
    (hpassed : ∀ j y m last, j ≠ i → st.txns j = some y → y.stage.looked = some m →
      st.Deletes j m → st.Passed m → m.pair = p → v = some last → m.id < last)
    (hgood : (st.write i p v).Good i p s) (hwrites : Writes st.tables p v s) :
    ((st.write i p v).goOn i x s).Sound := by
  have hfree : ∀ j w, st.written p = some (j, w) → j = i := by
    intro j w hw
    rw [DmRun.free, hw] at hfree
    exact of_decide_eq_true hfree
  refine h.quiet i { x with stage := s } (update_self ..) rfl rfl (Int.le_refl _)
    (fun j hj => update_of_ne hj ..) (fun _ _ _ hdel => hdel) (fun q j w hj => ?_)
    (fun j y m last hj hy hm hdel hpast hw => ?_) ?_ (fun m hm => .inl ⟨x, hx, hinserts m hm⟩)
    fun q w hw => ?_
  · by_cases hq : q = p
    · subst hq
      change update st.written q (some (i, v)) q = _ ↔ _
      rw [update_self]
      refine ⟨fun hw => ?_, fun hw => absurd (hfree j w hw) hj⟩
      cases hw
      exact absurd rfl hj
    · change update st.written p (some (i, v)) q = _ ↔ _
      rw [update_of_ne hq]
  · by_cases hq : m.pair = p
    · change update st.written p (some (i, v)) m.pair = _ at hw
      rw [hq, update_self] at hw
      cases hw
      exact hpassed j y m last hj hy hm hdel hpast hq rfl
    · change update st.written p (some (i, v)) m.pair = _ at hw
      rw [update_of_ne hq] at hw
      exact hpast.pending i last hw
  · have hleaves : Leaves (st.write i p v) ((st.write i p v).goOn i x s) i :=
      ⟨fun _ _ hv => hv, fun _ hdel => ⟨hdel.there, hdel.holds⟩, fun _ _ => rfl⟩
    subst hpair
    exact hgood.leaves hleaves (fun m _ hm => ⟨hm.positive, hm.below, hm.new, hm.accounts⟩)
      fun m _ _ hpast => ⟨hpast.committed, hpast.pending⟩
  · by_cases hq : q = p
    · subst hq
      change update st.written q (some (i, v)) q = _ at hw
      rw [update_self] at hw
      cases hw
      exact ⟨hpair, hwrites⟩
    · change update st.written p (some (i, v)) q = _ at hw
      rw [update_of_ne hq] at hw
      exact absurd ((h.writes hx hw).1.symm.trans hpair) hq

theorem Sound.start (h : st.Sound) (hx : st.txns i = some x) (hstage : x.stage = .start)
    (hnext : st.next i x = some st') : st'.Sound := by
  have hnone : ∀ p v, ¬ st.written p = some (i, v) := by
    intro p v hv
    have hw := (h.writes hx hv).2
    rw [hstage] at hw
    exact hw
  rw [next, hstage] at hnext
  dsimp only at hnext
  split at hnext
  · rename_i row hrow
    split at hnext
    · rename_i haccounts
      rw [Bool.and_eq_true] at haccounts
      cases hnext
      -- The new message has an id that none has.
      refine h.skipId.quiet i { x with stage := .upsert { row with id := st.nextId } }
        (update_self ..) rfl rfl (Int.le_refl _) (fun j hj => update_of_ne hj ..)
        (fun _ _ _ hdel => hdel) (fun _ _ _ _ => Iff.rfl)
        (fun j y m last _ _ _ _ hpast hv => hpast.pending i last hv) ⟨?_, ?_⟩ (fun m hm => .inr ?_)
        fun p v hv => absurd hv (hnone p v)
      · rw [hrow]
        rfl
      · exact ⟨h.sequence, Int.lt_succ _, fun r hr => Int.ne_of_lt (h.rows r hr).2, haccounts⟩
      · cases hm
        intro j y n hy hn
        exact Int.ne_of_gt (h.fresh hy hn).below
    · cases hnext
      exact h.skipId.finish i x
  · rename_i sender peer messageId hrequest
    have hnothing : (st.goOn i x (.commit .nothing)).Sound :=
      h.goOn hx trivial (fun m hm => nomatch hm) fun p v hv => absurd hv (hnone p v)
    split at hnext
    · rename_i m hfind
      obtain ⟨hm, hid⟩ := Table.find?_eq_some.1 hfind
      split at hnext
      · rename_i hauth
        split at hnext
        · cases hnext
        · rename_i hdeleting
          have hdeleting : st.deleting m.id = none := by simpa using hdeleting
          cases hnext
          refine h.quiet i { x with stage := .lookUp m } (update_self ..) rfl rfl
            (Int.le_refl _) (fun j hj => update_of_ne hj ..) (fun id j hj hdel => ?_)
            (fun _ _ _ _ => Iff.rfl) (fun j y m last _ _ _ _ hpast hv => hpast.pending i last hv) ⟨?_, ?_⟩
            (fun m hm => nomatch hm) fun p v hv => absurd hv (hnone p v)
          · have hne : id ≠ m.id := by
              rintro rfl
              cases hdeleting.symm.trans hdel
            exact (update_of_ne hne ..).trans hdel
          · rw [hrequest]
            change pairOf m.senderUid m.recipientUid = pairOf sender peer
            rw [hauth.1, hauth.2]
          · exact ⟨hm, update_self ..⟩
      · cases hnext
        exact hnothing
    · cases hnext
      exact hnothing

theorem le_greatest {last id c : Int} {o : Option Int} (h : o = some last) (hc : greatest o id = c) :
    last ≤ c := by
  subst h
  exact hc ▸ Int.le_max_left last id

theorem Sound.upsert (h : st.Sound) (hx : st.txns i = some x) {m : DmMessage}
    (hstage : x.stage = .upsert m) (hnext : st.next i x = some st') : st'.Sound := by
  have hgood := h.good i x hx
  rw [hstage] at hgood
  obtain ⟨hpair, hfresh⟩ := hgood
  rw [next, hstage] at hnext
  dsimp only at hnext
  obtain ⟨hfree, hnext⟩ := Option.ite_none_right_eq_some.1 hnext
  cases hnext
  refine h.write hx hpair.symm hfree _ (fun n hn => ?_) (fun j y n last _ _ _ _ hpast hn hlast => ?_)
    ⟨rfl, ⟨hfresh.positive, hfresh.below, hfresh.new, hfresh.accounts⟩, _, update_self ..⟩
    ⟨rfl, (h.told m.pair).insert m.id⟩
  · rw [hstage]
    exact hn
  · obtain ⟨c, hc, hlt⟩ := hpast.committed
    rw [hn] at hc
    exact Int.lt_of_lt_of_le hlt (le_greatest hc (Option.some.inj hlast))

/-- What another transaction wrote names no older message than one being deleted. -/
theorem Sound.le_written (h : st.Sound) {m : DmMessage} (hm : st.Deletes i m) {j : Nat} (hj : j ≠ i)
    {v : Option Int} (hv : st.written m.pair = some (j, v)) : ∃ last, v = some last ∧ m.id ≤ last := by
  have hhas : st.tables.HasDm m.pair m.id := ⟨m, hm.there, rfl, rfl⟩
  obtain ⟨y, hy, -, hwrites⟩ := h.writer m.pair j v hv
  have hgood := h.good j y hy
  -- The message is not the one that the other transaction deletes.
  have hother : ∀ n, st.Deletes j n → n.pair = m.pair → st.tables.HasOther n m.id := by
    intro n hn hpair
    refine ⟨hpair ▸ hhas, fun heq => hj ?_⟩
    have hsame := hn.holds
    rw [← heq, hm.holds] at hsame
    exact (Option.some.inj hsame).symm
  generalize y.stage = s at hwrites hgood
  cases s with
  | cleanUp n =>
    obtain ⟨last, hlast, hle⟩ := hwrites.2.1.le (hother n hgood.2.1 hwrites.1)
    exact ⟨last, (Option.filter_eq_some_iff.1 hlast).1, hle⟩
  | commit change =>
    cases change with
    | inserted n => exact hwrites.2.le (.inl hhas)
    | deleted n => exact hwrites.2.le (hother n hgood.2.1 hwrites.1)
    | nothing => exact absurd hwrites id
  | start | upsert n | lookUp n | rewrite n last generation | ended => exact absurd hwrites id

theorem Sound.le_lastId (h : st.Sound) {m : DmMessage} (hm : st.Deletes i m) :
    ∃ last, st.tables.lastId m.pair = some last ∧ m.id ≤ last :=
  (h.told m.pair).le ⟨m, hm.there, rfl, rfl⟩

theorem Sound.lookUp (h : st.Sound) (hx : st.txns i = some x) {m : DmMessage}
    (hstage : x.stage = .lookUp m) (hcareful : st.Careful (.run i))
    (hnext : st.next i x = some st') : st'.Sound := by
  have hgood := h.good i x hx
  rw [hstage] at hgood
  obtain ⟨hpair, hdeletes⟩ := hgood
  have hcareful := hcareful x hx
  rw [hstage] at hcareful
  rw [next, hstage] at hnext
  dsimp only at hnext hcareful
  split at hnext
  · cases hnext
    exact h.goOn hx ⟨hpair, hdeletes, hpair ▸ rfl⟩ (fun n hn => nomatch hn) fun p v _ hw => by
      rw [hstage] at hw
      exact absurd hw id
  · rename_i hne
    cases hnext
    refine h.goOn hx ⟨hpair, hdeletes, .inr ⟨?_, fun j last hv => ?_⟩⟩ (fun n hn => nomatch hn)
      fun p v _ hw => by
        rw [hstage] at hw
        exact absurd hw id
    · obtain ⟨last, hlast, hle⟩ := h.le_lastId hdeletes
      refine ⟨last, hlast, lt_of_le_of_ne hle fun heq => hne ?_⟩
      rw [hlast, heq]
    · by_cases hj : j = i
      · subst hj
        have hwrites := (h.writes hx hv).2
        rw [hstage] at hwrites
        exact absurd hwrites id
      · obtain ⟨last', hlast, hle⟩ := h.le_written hdeletes hj hv
        cases hlast
        exact lt_of_le_of_ne hle (hcareful j last hv).symm

theorem Sound.rewrite (h : st.Sound) (hx : st.txns i = some x) {m : DmMessage} {last : Int}
    {generation : Nat} (hstage : x.stage = .rewrite m last generation)
    (hcareful : st.Careful (.run i)) (hnext : st.next i x = some st') : st'.Sound := by
  have hgood := h.good i x hx
  rw [hstage] at hgood
  obtain ⟨hpair, hdeletes, hgeneration⟩ := hgood
  have hcareful := hcareful x hx
  rw [hstage] at hcareful
  rw [next, hstage] at hnext
  dsimp only at hnext hcareful
  obtain ⟨hfree, hnext⟩ := Option.ite_none_right_eq_some.1 hnext
  have hmax := isNewest_maxOther (fun r hr => (h.rows r hr).1) m
  split at hnext
  · rename_i hrow
    obtain ⟨rfl, hlooked⟩ := hcareful hrow.1
    cases hnext
    refine h.write hx hpair.symm hfree _ (fun n hn => nomatch hn)
      (fun j y n last hj hy hn hdel _ hsame hlast => ?_)
      ⟨rfl, ⟨hdeletes.there, hdeletes.holds⟩, .inl ⟨_, update_self ..⟩⟩ ⟨rfl, ?_, nofun⟩
    · -- Another message that is being deleted is one of those left.
      have hne : n.id ≠ m.id := by
        intro heq
        have hholds := hdel.holds
        rw [heq, hdeletes.holds] at hholds
        exact hj (Option.some.inj hholds).symm
      obtain ⟨newest, hnewest, hle⟩ := hmax.le ⟨⟨n, hdel.there, hsame, rfl⟩, hne⟩
      have heq : newest = st.tables.maxOther m := by
        split at hnewest
        · cases hnewest
        · exact (Option.some.inj hnewest).symm
      cases hlast
      subst heq
      exact lt_of_le_of_ne hle (hlooked j y n hy hn)
    · have hfilter : (some (st.tables.maxOther m)).filter (· ≠ 0) =
          if st.tables.maxOther m = 0 then none else some (st.tables.maxOther m) := by
        by_cases hzero : st.tables.maxOther m = 0 <;> simp [hzero]
      rw [hfilter]
      exact hmax
  · -- The row was taken away by nobody: it names a newer message by now.
    rename_i hrow
    cases hnext
    obtain ⟨last, hlast, hle⟩ := h.le_lastId hdeletes
    refine h.goOn hx ⟨hpair, hdeletes, .inr ⟨⟨last, hlast, lt_of_le_of_ne hle fun heq => hrow ⟨?_, ?_⟩⟩,
      fun j last hv => ?_⟩⟩ (fun n hn => nomatch hn) fun p v _ hw => by
        rw [hstage] at hw
        exact absurd hw id
    · rw [hlast, heq]
    · rw [hpair]
      exact hgeneration
    · rw [DmRun.free, hv] at hfree
      obtain rfl : j = i := of_decide_eq_true hfree
      have hwrites := (h.writes hx hv).2
      rw [hstage] at hwrites
      exact absurd hwrites id

theorem Sound.cleanUp (h : st.Sound) (hx : st.txns i = some x) {m : DmMessage}
    (hstage : x.stage = .cleanUp m) (hnext : st.next i x = some st') : st'.Sound := by
  have hgood := h.good i x hx
  rw [hstage] at hgood
  obtain ⟨hpair, hdeletes, hlooked⟩ := hgood
  have hmine : ∀ v, st.written m.pair = some (i, v) →
      IsNewest (st.tables.HasOther m) (v.filter (· ≠ 0)) ∧ v ≠ none := by
    intro v hv
    have hwrites := (h.writes hx hv).2
    rw [hstage] at hwrites
    exact hwrites.2
  -- A committed row names a message, so it is not this one that has to go.
  have hzero : st.tables.lastId m.pair ≠ some 0 := by
    intro hzero
    have htold := h.told m.pair
    rw [hzero] at htold
    obtain ⟨r, hr, -, hid⟩ := htold.1
    exact Int.ne_of_gt (h.rows r hr).1 hid
  rw [next, hstage] at hnext
  dsimp only at hnext
  split at hnext
  · rename_i hseen
    obtain ⟨hfree, hnext⟩ := Option.ite_none_right_eq_some.1 hnext
    cases hnext
    have hv : st.written m.pair = some (i, some 0) := by
      rw [seen] at hseen
      split at hseen
      · rename_i j v hv
        split at hseen
        · rename_i hj
          rw [hv, hj, hseen]
        · exact absurd hseen hzero
      · exact absurd hseen hzero
    exact h.write hx hpair.symm hfree _ (fun n hn => nomatch hn)
      (fun j y n last _ _ _ _ _ _ hlast => nomatch hlast)
      ⟨rfl, ⟨hdeletes.there, hdeletes.holds⟩, .inl ⟨_, update_self ..⟩⟩ ⟨rfl, (hmine _ hv).1⟩
  · rename_i hseen
    cases hnext
    refine h.goOn hx ⟨hpair, hdeletes, hlooked⟩ (fun n hn => nomatch hn) fun p v hv hw => ?_
    rw [hstage] at hw
    obtain ⟨rfl, hnewest, hsome⟩ := hw
    refine ⟨rfl, ?_⟩
    have hne : v ≠ some 0 := by
      rintro rfl
      refine hseen ?_
      rw [seen, hv]
      exact if_pos rfl
    have hkeep : v.filter (· ≠ 0) = v := by
      obtain ⟨last, rfl⟩ := Option.ne_none_iff_exists'.1 hsome
      have hlast : last ≠ 0 := fun heq => hne (heq ▸ rfl)
      simp [hlast]
    exact hkeep ▸ hnewest

/-! ## A commit -/

theorem commit_eq (st : DmRun) (i : Nat) (x : DmTxn) (change : DmChange) :
    ∃ tables generation, st.commit i x change = finish { st with tables, generation } i x ∧
      tables.messages = (st.tables.change change).messages ∧ tables.users = st.tables.users ∧
      (∀ p, p ≠ x.request.pair → generation p = st.generation p) ∧
      ((∃ v, st.written x.request.pair = some (i, v) ∧
          (∀ q, tables.lastId q = if q = x.request.pair then v else st.tables.lastId q) ∧
          (v ≠ none → generation = st.generation)) ∨
        ((∀ v, st.written x.request.pair ≠ some (i, v)) ∧ (∀ q, tables.lastId q = st.tables.lastId q) ∧
          generation = st.generation)) := by
  have husers : (st.tables.change change).users = st.tables.users := by cases change <;> rfl
  have hother : (∀ v, st.written x.request.pair ≠ some (i, v)) →
      ∃ tables generation, finish { st with tables := st.tables.change change } i x =
          finish { st with tables, generation } i x ∧
        tables.messages = (st.tables.change change).messages ∧ tables.users = st.tables.users ∧
        (∀ p, p ≠ x.request.pair → generation p = st.generation p) ∧
        ((∃ v, st.written x.request.pair = some (i, v) ∧
            (∀ q, tables.lastId q = if q = x.request.pair then v else st.tables.lastId q) ∧
            (v ≠ none → generation = st.generation)) ∨
          ((∀ v, st.written x.request.pair ≠ some (i, v)) ∧
            (∀ q, tables.lastId q = st.tables.lastId q) ∧ generation = st.generation)) :=
    fun hnone => ⟨_, st.generation, rfl, rfl, husers, fun _ _ => rfl,
      .inr ⟨hnone, lastId_change change, rfl⟩⟩
  rw [commit]
  split
  · rename_i j v hv
    split
    · rename_i hj
      subst hj
      refine ⟨_, _, rfl, ?_, ?_, fun p hp => ?_, .inl ⟨v, hv, fun q => ?_, fun hsome => ?_⟩⟩
      · cases v <;> rfl
      · cases v <;> exact husers
      · split
        · exact update_of_ne hp ..
        · rfl
      · rw [lastId_setLastId, lastId_change]
      · exact if_neg (by simpa using hsome)
    · rename_i hj
      refine hother fun w hw => hj ?_
      rw [hv] at hw
      exact congrArg Prod.fst (Option.some.inj hw)
  · rename_i hv
    exact hother fun w hw => nomatch hv.symm.trans hw

theorem Sound.not_hasDm_zero (h : st.Sound) (p : DmPair) : ¬ st.tables.HasDm p 0 := by
  rintro ⟨r, hr, -, hid⟩
  exact Int.ne_of_gt (h.rows r hr).1 hid

theorem Deletes.other {j : Nat} {m n : DmMessage} (hm : st.Deletes i m) (hn : st.Deletes j n)
    (hj : j ≠ i) : n.id ≠ m.id := by
  intro heq
  have hholds := hn.holds
  rw [heq, hm.holds] at hholds
  exact hj (Option.some.inj hholds).symm

/-- A commit is the truth about its pair, and leaves the others what they have. -/
theorem Sound.commit_of (h : st.Sound) (hx : st.txns i = some x) {tables : DmTables}
    {generation : DmPair → Nat} (husers : tables.users = st.tables.users)
    (hnew : ∀ m ∈ tables.messages.rows, m ∈ st.tables.messages.rows ∨ x.stage.inserts = some m)
    (hkept : ∀ j m, j ≠ i → st.Deletes j m → m ∈ tables.messages.rows)
    (hrow : ∀ j m, j ≠ i → st.Deletes j m → generation m.pair = st.generation m.pair ∧
      (st.Passed m → ∃ last, tables.lastId m.pair = some last ∧ m.id < last))
    (htold : tables.TellsNewest)
    (hothers : ∀ p j v s, j ≠ i → st.written p = some (j, v) → Writes st.tables p v s →
      Writes tables p v s) : (DmRun.finish { st with tables, generation } i x).Sound := by
  have hnone : ∀ p v, ¬ (DmRun.finish { st with tables, generation } i x).written p = some (i, v) := by
    intro p v hv
    have hne := (Option.filter_eq_some_iff.1 hv).2
    simp at hne
  have hwritten : ∀ p j v, j ≠ i → ((DmRun.finish { st with tables, generation } i x).written p =
      some (j, v) ↔ st.written p = some (j, v)) := by
    intro p j v hj
    refine ⟨fun hv => (Option.filter_eq_some_iff.1 hv).1, fun hv => ?_⟩
    exact Option.filter_eq_some_iff.2 ⟨hv, decide_eq_true hj⟩
  have hframe : Frame st (DmRun.finish { st with tables, generation } i x) i := by
    refine ⟨husers, Int.le_refl _, fun j hj => update_of_ne hj .., fun j hj =>
      ⟨fun p v => (hwritten p j v hj).2, fun m hm => ⟨hkept j m hj hm, ?_⟩,
        fun m hm => (hrow j m hj hm).1⟩, fun p j v hj => (hwritten p j v hj).1,
      fun j y m hj _ _ hm hpast => ⟨(hrow j m hj hm).2 hpast, fun k last hk => ?_⟩, fun m hm => ?_⟩
    · exact Option.filter_eq_some_iff.2 ⟨hm.holds, decide_eq_true hj⟩
    · exact hpast.pending k last (Option.filter_eq_some_iff.1 hk).1
    · exact (hnew m hm).imp id fun hm => ⟨x, hx, hm⟩
  have hfresh : ∀ m ∈ tables.messages.rows, (0 < m.id ∧ m.id < st.nextId) ∧
      (st.tables.users m.senderUid).isSome ∧ (st.tables.users m.recipientUid).isSome := by
    intro m hm
    rcases hnew m hm with hm | hm
    · exact ⟨h.rows m hm, h.accounts m hm⟩
    · have hfresh := h.fresh hx hm
      exact ⟨⟨hfresh.positive, hfresh.below⟩, hfresh.accounts⟩
  refine h.of_frame hframe (update_self ..) htold (fun m hm => (hfresh m hm).1) (fun m hm => ?_)
    trivial (fun m hm => nomatch hm) (fun p v hv => absurd hv (hnone p v)) hothers
  rw [hframe.users]
  exact (hfresh m hm).2

theorem hasDm_of_messages {t t' : DmTables} (h : t.messages = t'.messages) {p : DmPair} {id : Int} :
    t.HasDm p id ↔ t'.HasDm p id := by
  rw [DmTables.HasDm, DmTables.HasDm, h]

theorem Sound.commit_nothing (h : st.Sound) (hx : st.txns i = some x)
    (hstage : x.stage = .commit .nothing) : (st.commit i x .nothing).Sound := by
  obtain ⟨tables, generation, heq, hmessages, husers, -, ⟨v, hv, -⟩ | ⟨-, hlast, hgen⟩⟩ :=
    commit_eq st i x .nothing
  · have hw := (h.writes hx hv).2
    rw [hstage] at hw
    exact absurd hw id
  have hhas : ∀ q y, tables.HasDm q y ↔ st.tables.HasDm q y := fun q y => hasDm_of_messages hmessages
  change tables.messages = st.tables.messages at hmessages
  rw [heq]
  refine h.commit_of hx husers (fun m hm => .inl (hmessages ▸ hm)) (fun j m _ hm => hmessages ▸ hm.there)
    (fun j m _ _ => ⟨by rw [hgen], fun hpast => ?_⟩) (fun q => ?_) fun q j v s _ _ hs => ?_
  · rw [hlast]
    exact hpast.committed
  · rw [hlast]
    exact (h.told q).congr (hhas q)
  · exact hs.shrink (fun y => (hhas q y).1) (fun last _ _ => (hhas q last).2) (h.not_hasDm_zero q)

/-- If the row was written, it names a newer message than the deleted one. -/
theorem Sound.commit_inserted (h : st.Sound) (hx : st.txns i = some x) {m : DmMessage}
    (hstage : x.stage = .commit (.inserted m)) : (st.commit i x (.inserted m)).Sound := by
  have hgood := h.good i x hx
  rw [hstage] at hgood
  obtain ⟨hpair, hfresh, w, hw⟩ := hgood
  obtain ⟨tables, generation, heq, hmessages, husers, -, ⟨v, hv, hlast, hgen⟩ | ⟨hno, -⟩⟩ :=
    commit_eq st i x (.inserted m)
  swap
  · exact absurd hw (hno w)
  rw [← hpair] at hv hlast
  have hnewest := (h.writes hx hv).2
  rw [hstage] at hnewest
  obtain ⟨-, hnewest⟩ := hnewest
  have hsome : v ≠ none := by
    rintro rfl
    exact hnewest m.id (.inr rfl)
  have hhas : ∀ q y, tables.HasDm q y ↔ st.tables.HasDm q y ∨ m.pair = q ∧ y = m.id :=
    fun q y => (hasDm_of_messages hmessages).trans (hasDm_inserted hfresh.new)
  have hrows : tables.messages.rows = st.tables.messages.rows ++ [m] := by
    have hkey : m.id ∉ st.tables.messages.keys := by
      intro hmem
      obtain ⟨r, hr, hid⟩ := mem_map.1 hmem
      exact hfresh.new r hr hid
    rw [hmessages]
    change (st.tables.messages.insertOrIgnore m).rows = _
    rw [Table.insertOrIgnore, dif_neg hkey]
    rfl
  rw [heq]
  refine h.commit_of hx husers (fun n hn => ?_) (fun j n _ hn => ?_)
    (fun j n _ _ => ⟨by rw [hgen hsome], fun hpast => ?_⟩) (fun q => ?_) fun q j u s hj hu hs => ?_
  · rw [hrows] at hn
    rcases mem_append.1 hn with hn | hn
    · exact .inl hn
    · rw [mem_singleton.1 hn, hstage]
      exact .inr rfl
  · rw [hrows]
    exact mem_append_left _ hn.there
  · rw [hlast]
    split
    · rename_i hq
      obtain ⟨last, rfl⟩ := Option.ne_none_iff_exists'.1 hsome
      exact ⟨last, rfl, hpast.pending i last (hq ▸ hv)⟩
    · exact hpast.committed
  · rw [hlast]
    split
    · rename_i hq
      subst hq
      exact hnewest.congr fun y => (hhas _ y).trans (or_congr_right (and_iff_right rfl))
    · rename_i hq
      exact (h.told q).congr fun y => (hhas q y).trans (or_iff_left fun hm => hq hm.1.symm)
  · have hq : m.pair ≠ q := by
      rintro rfl
      rw [hv] at hu
      cases hu
      exact hj rfl
    have hsame : ∀ y, tables.HasDm q y ↔ st.tables.HasDm q y :=
      fun y => (hhas q y).trans (or_iff_left fun hm => hq hm.1)
    exact hs.shrink (fun y => (hsame y).1) (fun last _ _ => (hsame last).2) (h.not_hasDm_zero q)

theorem Sound.commit_deleted (h : st.Sound) (hx : st.txns i = some x) {m : DmMessage}
    (hstage : x.stage = .commit (.deleted m)) : (st.commit i x (.deleted m)).Sound := by
  have hgood := h.good i x hx
  rw [hstage] at hgood
  obtain ⟨hpair, hdeletes, hlooked⟩ := hgood
  obtain ⟨tables, generation, heq, hmessages, husers, hgenOther, hrow⟩ :=
    commit_eq st i x (.deleted m)
  rw [← hpair] at hlooked hrow hgenOther
  have hhas : ∀ q y, tables.HasDm q y ↔ st.tables.HasDm q y ∧ y ≠ m.id :=
    fun q y => (hasDm_of_messages hmessages).trans hasDm_deleted
  have hrows : ∀ n, n ∈ tables.messages.rows ↔ n ∈ st.tables.messages.rows ∧ n.id ≠ m.id := by
    intro n
    rw [hmessages]
    change n ∈ st.tables.messages.rows.filter (fun r => ! decide (r.id = m.id)) ↔ _
    simp
  -- The message goes from its own pair only.
  have hother : ∀ q, q ≠ m.pair → ∀ y, tables.HasDm q y ↔ st.tables.HasDm q y := by
    refine fun q hq y => (hhas q y).trans (and_iff_left_of_imp ?_)
    rintro hy rfl
    exact hq (HasDm.unique hy ⟨m, hdeletes.there, rfl, rfl⟩)
  rw [heq]
  refine h.commit_of hx husers (fun n hn => .inl ((hrows n).1 hn).1)
    (fun j n hj hn => (hrows n).2 ⟨hn.there, hdeletes.other hn hj⟩)
    (fun j n hj hn => ?_) (fun q => ?_) fun q j u s hj hu hs => ?_
  · -- Another message that is being deleted.
    rcases hrow with ⟨v, hv, hlast, hgen⟩ | ⟨-, hlast, hgen⟩
    swap
    · rw [hlast, hgen]
      exact ⟨rfl, fun hpast => hpast.committed⟩
    by_cases hq : n.pair = m.pair
    · have hnewest := (h.writes hx hv).2
      rw [hstage] at hnewest
      obtain ⟨last, rfl, -⟩ := hnewest.2.le
        ⟨⟨n, hn.there, hq, rfl⟩, hdeletes.other hn hj⟩
      rw [hgen nofun, hlast, if_pos hq]
      exact ⟨rfl, fun hpast => ⟨last, rfl, hpast.pending i last (hq ▸ hv)⟩⟩
    · rw [hgenOther _ hq, hlast, if_neg hq]
      exact ⟨rfl, fun hpast => hpast.committed⟩
  · by_cases hq : q = m.pair
    · subst hq
      rcases hrow with ⟨v, hv, hlast, -⟩ | ⟨hno, hlast, -⟩
      · have hnewest := (h.writes hx hv).2
        rw [hstage] at hnewest
        rw [hlast, if_pos rfl]
        exact hnewest.2.congr (hhas _)
      · obtain ⟨last, hlast', hlt⟩ := (hlooked.resolve_left fun ⟨v, hv⟩ => hno v hv).committed
        have htold := h.told m.pair
        rw [hlast'] at htold
        rw [hlast, hlast']
        exact ⟨(hhas _ last).2 ⟨htold.1, Int.ne_of_gt hlt⟩, fun y hy => htold.2 y ((hhas _ y).1 hy).1⟩
    · have htold := (h.told q).congr (hother q hq)
      rcases hrow with ⟨v, -, hlast, -⟩ | ⟨-, hlast, -⟩
      · rw [hlast, if_neg hq]
        exact htold
      · rw [hlast]
        exact htold
  · by_cases hq : q = m.pair
    · subst hq
      have hpast : st.Passed m := by
        refine hlooked.resolve_left ?_
        rintro ⟨v, hv⟩
        rw [hv] at hu
        cases hu
        exact hj rfl
      refine hs.shrink (fun y hy => ((hhas _ y).1 hy).1) (fun last hlast _ hy => ?_)
        (h.not_hasDm_zero _)
      subst hlast
      exact (hhas _ last).2 ⟨hy, Int.ne_of_gt (hpast.pending j last hu)⟩
    · exact hs.shrink (fun y => (hother q hq y).1) (fun last _ _ => (hother q hq last).2)
        (h.not_hasDm_zero q)

/-! ## Runs -/

theorem Sound.step {a : DmAct} (h : st.Sound) (hcareful : st.Careful a)
    (hstep : st.step a = some st') : st'.Sound := by
  cases a with
  | begin i request =>
    obtain ⟨hi, hstep⟩ := Option.ite_none_right_eq_some.1 hstep
    cases hstep
    exact h.begin (Option.isNone_iff_eq_none.1 hi) request
  | run i =>
    obtain ⟨x, hx, hnext⟩ := Option.bind_eq_some_iff.1 hstep
    cases hstage : x.stage with
    | start => exact h.start hx hstage hnext
    | upsert m => exact h.upsert hx hstage hnext
    | lookUp m => exact h.lookUp hx hstage hcareful hnext
    | rewrite m last generation => exact h.rewrite hx hstage hcareful hnext
    | cleanUp m => exact h.cleanUp hx hstage hnext
    | commit change =>
      rw [next, hstage] at hnext
      cases hnext
      cases change with
      | nothing => exact h.commit_nothing hx hstage
      | inserted m => exact h.commit_inserted hx hstage
      | deleted m => exact h.commit_deleted hx hstage
    | ended =>
      rw [next, hstage] at hnext
      cases hnext
  | fail i =>
    obtain ⟨x, hx, hnext⟩ := Option.bind_eq_some_iff.1 hstep
    split at hnext
    · cases hnext
    · cases hnext
      exact h.finish i x

theorem Sound.init (h : dmSystem.init st) : st.Sound := by
  obtain ⟨htold, hrows, haccounts, hsequence, tables, nextId, rfl⟩ := h
  refine ⟨htold, hsequence, hrows, haccounts, fun _ _ hx => ?_, fun _ _ _ _ _ _ hx => ?_,
    fun _ _ _ hv => ?_⟩
  · cases hx
  · cases hx
  · cases hv

end DmRun

theorem sound_of_careful {st : DmRun} (h : (dmSystem.given DmRun.Careful).Reachable st) : st.Sound := by
  refine System.reachable_invariant (S := dmSystem.given DmRun.Careful)
    (fun _ hinit => DmRun.Sound.init hinit) (fun s a s' hs hstep => ?_) h
  exact hs.step hstep.2 hstep.1

/-- In the runs whose steps are all careful the table always tells the truth, and each user's pages
    have each conversation once, newest first. -/
theorem conversations_told {st : DmRun} (h : (dmSystem.given DmRun.Careful).Reachable st) :
    st.tables.TellsNewest ∧ ∀ uid fuel, (conversationsOf st.tables uid).length < fuel →
      followConversations st.tables uid fuel =
        some ((conversationsOf st.tables uid).map (shown uid)) := by
  have hsound := sound_of_careful h
  let db : DmDb := { st.tables with
    positive := fun m hm => (hsound.rows m hm).1
    accounts := hsound.accounts }
  exact ⟨hsound.told, fun uid fuel hfuel => conversations_page_completely (t := db) hsound.told uid hfuel⟩

/-! ## Two accounts -/

/-- Two accounts without messages. -/
def twoAccounts : DmRun where
  tables :=
    { users := fun uid => if uid = 1 ∨ uid = 2 then some "a" else none
      messages := .empty
      conversations := .empty
      readCursors := fun _ _ => 0 }
  nextId := 1

theorem init_twoAccounts : dmSystem.init twoAccounts :=
  ⟨fun _ _ h => absurd h (by rintro ⟨m, hm, -⟩; exact absurd hm not_mem_nil),
    fun _ hm => absurd hm not_mem_nil, fun _ hm => absurd hm not_mem_nil, by decide,
    _, _, rfl⟩

/-- A message from the first one to the second. -/
def aMessage : DmRequest := .insert { id := 0, senderUid := 1, recipientUid := 2 }

/-- One message is sent: it is the conversation of both. -/
theorem conversations_told_one : ∃ st, (dmSystem.given DmRun.Careful).Reachable st ∧
    followConversations st.tables 2 2 = some [(1, 1)] := by
  have hreach := System.Reachable.step (S := dmSystem.given DmRun.Careful) (.run 0)
    (.step (.run 0) (.step (.run 0) (.step (.begin 0 aMessage) (.init init_twoAccounts)
      ⟨rfl, trivial⟩) ⟨rfl, fun x hx => by cases hx; trivial⟩)
      ⟨rfl, fun x hx => by cases hx; trivial⟩) ⟨rfl, fun x hx => by cases hx; trivial⟩
  exact ⟨_, hreach, (conversations_told hreach).2 2 2 (by decide)⟩

/-- Two messages are deleted at once: each delete finds the other message, or the row naming it. -/
def twoDeletes : List DmAct :=
  [.begin 0 aMessage, .run 0, .run 0, .run 0, .begin 1 aMessage, .run 1, .run 1, .run 1,
    .begin 2 (.delete 1 2 2), .run 2, .begin 3 (.delete 1 2 1), .run 3, .run 2, .run 2, .run 3,
    .run 2, .run 2, .run 3, .run 3]

/-- A message with an early number is committed while the delete of the newer one waits. -/
def lateInsert : List DmAct :=
  [.begin 0 aMessage, .run 0, .begin 1 aMessage, .run 1, .run 1, .run 1, .begin 2 (.delete 1 2 2),
    .run 2, .run 0, .run 2, .run 0, .run 2, .run 2, .run 2]

/-- A row names a message that is gone, or a message has no row. -/
theorem conversations_not_told :
    (∃ st, dmSystem.Reachable st ∧ st.Quiet ∧ st.tables.messages.rows = [] ∧
      st.tables.conversations.rows = [⟨1, 2, 1⟩] ∧ ¬ st.tables.TellsNewest) ∧
    ∃ st, dmSystem.Reachable st ∧ st.Quiet ∧ st.tables.messages.rows.map (·.id) = [1] ∧
      st.tables.conversations.rows = [] ∧ ¬ st.tables.TellsNewest := by
  have hrun : ∀ as st, twoAccounts.steps as = some st → dmSystem.Reachable st :=
    fun as st h => reachable_steps rfl (.init init_twoAccounts) h
  constructor
  · refine ⟨_, hrun twoDeletes _ rfl, fun i x hx => ?_, rfl, rfl, fun htold => ?_⟩
    · rcases i with _ | _ | _ | _ | i <;> cases hx <;> rfl
    · obtain ⟨m, hm, -⟩ := (htold (1, 2)).1
      exact absurd hm List.not_mem_nil
  · refine ⟨_, hrun lateInsert _ rfl, fun i x hx => ?_, rfl, rfl, fun htold => ?_⟩
    · rcases i with _ | _ | _ | i <;> cases hx <;> rfl
    · exact htold (1, 2) 1 ⟨_, .head _, rfl, rfl⟩

end Decibell.Central
