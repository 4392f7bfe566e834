import Decibell.Central.Names

/-!
# A name stays with its account

A request checks whether its name is held, then whether it is reserved, and takes it later, in
another statement which only the unique index guards.
-/

namespace Decibell.Central

open Lib List

/-! ## What is to be shown -/

/-- A name left is not taken by another account within the reservation. -/
def NameMove.Respects : NameMove → NameMove → Prop
  | .left u x t, .took u' x' t' => x = x' → u ≠ u' → t + nameReservationSeconds ≤ t'
  | _, _ => True

/-- Another's leaving of the name does not fall into its reservation, over by `clock`. -/
def NameMove.InOrder (clock : Int) : NameMove → NameMove → Prop
  | .left u x t, .left u' x' _ => x = x' → u ≠ u' → t + nameReservationSeconds ≤ clock
  | _, _ => True

/-- The account that leaves the name in a move. -/
def NameMove.leaver (x : Bytes) : NameMove → Option Int
  | .left u x' _ => if x' = x then some u else none
  | .took _ _ _ => none

/-- The account that left a name last. -/
def lastLeaver (moves : List NameMove) (x : Bytes) : Option Int :=
  (moves.filterMap (NameMove.leaver x)).getLast?

/-- Others than `uid` left the name a reservation or more before `time`. -/
def FreeBy (moves : List NameMove) (uid : Int) (x : Bytes) (time : Int) : Prop :=
  ∀ u t, .left u x t ∈ moves → u ≠ uid → t + nameReservationSeconds ≤ time

/-- Since the request's check no other has left the name, or it is free again. -/
def NameDb.NotLeftSince (db : NameDb) (checked : Nat) (uid : Int) (x : Bytes) : Prop :=
  FreeBy (db.moves.drop checked) uid x db.clock

/-- A name is not left between its check and the statement that takes it. -/
def NamesRun.Careful (st : NamesRun) : NameEvent → Prop
  | .statement i _ =>
    match st.requests i with
    | some (.register name _ _ (.insert _ checked)) => st.db.NotLeftSince checked 0 name
    | some (.rename uid name _ (.update _ _ checked)) => st.db.NotLeftSince checked uid name
    | _ => True
  | _ => True

/-! ## The invariant -/

theorem FreeBy.mono {moves moves' : List NameMove} {uid : Int} {x : Bytes} {time time' : Int}
    (h : FreeBy moves uid x time) (hmoves : ∀ m ∈ moves', m ∈ moves) (htime : time ≤ time') :
    FreeBy moves' uid x time' := fun u t hm hu => Int.le_trans (h u t (hmoves _ hm) hu) htime

/-- What holds of the committed rows and the record. -/
structure NameDb.Sound (db : NameDb) : Prop where
  uids : 0 < db.nextUid ∧ ∀ u ∈ db.users.table.rows, u.uid ≠ 0
  leavers : ∀ u x t, .left u x t ∈ db.moves → u ≠ 0 ∧ u ∈ db.users.table.keys
  /-- A leaving that reserves its name has a row. -/
  rows : ∀ u x t, .left u x t ∈ db.moves → db.clock < t + nameReservationSeconds →
    ∃ c ∈ db.changes.rows, c.uid = u ∧ c.oldUsername = x ∧ c.changedAt = t
  moved : ∀ c ∈ db.changes.rows, .left c.uid c.oldUsername c.changedAt ∈ db.moves
  /-- The others that left a name that is held did so long ago. -/
  held : ∀ u ∈ db.users.table.rows, FreeBy db.moves u.uid u.username db.clock
  inOrder : db.moves.Pairwise (NameMove.InOrder db.clock)
  respects : db.moves.Pairwise NameMove.Respects

/-- The rename has its account's row. -/
structure NameDb.Locked (db : NameDb) (i : Nat) (uid : Int) (old : Bytes) : Prop where
  lock : db.locks.rows uid = some i
  row : ∃ u ∈ db.users.table.rows, u.uid = uid ∧ u.username = old

/-- The request found the name free, `checked` moves into the record. -/
structure NameDb.Checked (db : NameDb) (checked : Nat) (uid : Int) (name : Bytes) : Prop where
  bound : checked ≤ db.moves.length
  free : FreeBy (db.moves.take checked) uid name db.clock

/-- The request is taking the name since `time`. -/
structure NameDb.Taking (db : NameDb) (i : Nat) (uid : Int) (name : Bytes) (time : Int) : Prop where
  lock : db.locks.names name = some i
  past : time ≤ db.clock
  free : FreeBy db.moves uid name time
  unheld : ∀ u ∈ db.users.table.rows, u.username ≠ name

/-- The rename is taking one name for another. -/
structure NameDb.Renaming (db : NameDb) (i : Nat) (uid : Int) (name old : Bytes) (time : Int) :
    Prop where
  locked : db.Locked i uid old
  taking : db.Taking i uid name time

/-- What a registration has secured. -/
def RegisterStage.Holds (db : NameDb) (i : Nat) (name : Bytes) : RegisterStage → Prop
  | .insert _ checked => db.Checked checked 0 name
  | .commit _ uid time => uid ≠ 0 ∧ db.Taking i 0 name time
  | _ => True

/-- What a rename has secured. -/
def RenameStage.Holds (db : NameDb) (i : Nat) (uid : Int) (name : Bytes) : RenameStage → Prop
  | .recent old => db.Locked i uid old
  | .holders old _ => db.Locked i uid old
  | .nameReserved old _ => db.Locked i uid old
  | .update old _ checked => db.Locked i uid old ∧ db.Checked checked uid name
  | .record old _ time => db.Renaming i uid name old time
  | .prune row time =>
    row.uid = uid ∧ row.newUsername = name ∧ db.Renaming i uid name row.oldUsername time
  | .commit row time gone =>
    row.uid = uid ∧ row.newUsername = name ∧ db.Renaming i uid name row.oldUsername time ∧
      ∀ c ∈ gone, c.changedAt + nameReservationSeconds ≤ db.clock
  | _ => True

def NameRequest.Holds (db : NameDb) (i : Nat) : NameRequest → Prop
  | .register name _ _ stage => stage.Holds db i name
  | .rename uid name _ stage => stage.Holds db i uid name

/-- The invariant of the runs. -/
structure NamesRun.Sound (st : NamesRun) : Prop where
  db : st.db.Sound
  requests : ∀ i r, st.requests i = some r → r.Holds st.db i

/-! ## What others leave alone -/

/-- What request `j` relies on is left as it is. -/
structure NameDb.Frame (db db' : NameDb) (j : Nat) : Prop where
  clock : db.clock ≤ db'.clock
  rows : ∀ u, db.locks.rows u = some j → db'.locks.rows u = some j
  names : ∀ x, db.locks.names x = some j → db'.locks.names x = some j
  kept : ∀ u ∈ db.users.table.rows, db.locks.rows u.uid = some j → u ∈ db'.users.table.rows
  untaken : ∀ u ∈ db'.users.table.rows, db.locks.names u.username = some j →
    ∃ u' ∈ db.users.table.rows, u'.username = u.username
  moves : ∃ new, db'.moves = db.moves ++ new ∧
    ∀ u x t, .left u x t ∈ new → ∃ u' ∈ db.users.table.rows, u'.username = x

section Frame

variable {db db' : NameDb} {i j : Nat} {uid : Int} {name old : Bytes} {time : Int}

theorem NameDb.Locked.frame (hframe : db.Frame db' j) (h : db.Locked j uid old) :
    db'.Locked j uid old := by
  obtain ⟨u, hu, rfl, hold⟩ := h.row
  exact ⟨hframe.rows _ h.lock, u, hframe.kept u hu h.lock, rfl, hold⟩

theorem NameDb.Checked.frame {checked : Nat} (hframe : db.Frame db' j)
    (h : db.Checked checked uid name) : db'.Checked checked uid name := by
  obtain ⟨new, hmoves, -⟩ := hframe.moves
  refine ⟨?_, ?_⟩
  · rw [hmoves, length_append]
    exact Nat.le_trans h.bound (Nat.le_add_right _ _)
  · rw [hmoves, take_append_of_le_length h.bound]
    exact h.free.mono (fun m hm => hm) hframe.clock

theorem NameDb.Taking.frame (hframe : db.Frame db' j) (h : db.Taking j uid name time) :
    db'.Taking j uid name time := by
  obtain ⟨new, hmoves, hnew⟩ := hframe.moves
  refine ⟨hframe.names _ h.lock, Int.le_trans h.past hframe.clock, fun u t hm hu => ?_,
    fun u hu hname => ?_⟩
  · rw [hmoves, mem_append] at hm
    rcases hm with hm | hm
    · exact h.free u t hm hu
    · -- Who leaves the name has had it, but nobody did.
      obtain ⟨u', hu', hname⟩ := hnew u name t hm
      exact absurd hname (h.unheld u' hu')
  · obtain ⟨u', hu', hname'⟩ := hframe.untaken u hu (hname ▸ h.lock)
    exact h.unheld u' hu' (hname'.trans hname)

theorem NameDb.Renaming.frame (hframe : db.Frame db' j) (h : db.Renaming j uid name old time) :
    db'.Renaming j uid name old time :=
  ⟨h.locked.frame hframe, h.taking.frame hframe⟩

theorem NameRequest.Holds.frame {r : NameRequest} (hframe : db.Frame db' j) (h : r.Holds db j) :
    r.Holds db' j := by
  cases r with
  | register name email password stage =>
    cases stage with
    | insert hash checked => exact NameDb.Checked.frame hframe h
    | commit hash uid time => exact ⟨h.1, h.2.frame hframe⟩
    | _ => trivial
  | rename uid name password stage =>
    cases stage with
    | recent old => exact NameDb.Locked.frame hframe h
    | holders old now => exact NameDb.Locked.frame hframe h
    | nameReserved old now => exact NameDb.Locked.frame hframe h
    | update old now checked => exact ⟨h.1.frame hframe, h.2.frame hframe⟩
    | record old now time => exact NameDb.Renaming.frame hframe h
    | prune row time => exact ⟨h.1, h.2.1, h.2.2.frame hframe⟩
    | commit row time gone =>
      exact ⟨h.1, h.2.1, h.2.2.1.frame hframe, fun c hc =>
        Int.le_trans (h.2.2.2 c hc) hframe.clock⟩
    | _ => trivial

theorem NameDb.frame_of_locks (hclock : db'.clock = db.clock) (husers : db'.users = db.users)
    (hmoves : db'.moves = db.moves)
    (hrows : ∀ u, db.locks.rows u = some j → db'.locks.rows u = some j)
    (hnames : ∀ x, db.locks.names x = some j → db'.locks.names x = some j) : db.Frame db' j where
  clock := Int.le_of_eq hclock.symm
  rows := hrows
  names := hnames
  kept u hu _ := husers ▸ hu
  untaken u hu _ := ⟨u, husers ▸ hu, rfl⟩
  moves := ⟨[], by rw [hmoves, append_nil], fun u x t hm => by cases hm⟩

theorem NameLocks.release_of_ne (hij : j ≠ i) {holder : Option Nat}
    (h : holder = some j) : (if holder = some i then none else holder) = some j := by
  rw [if_neg (fun hi => hij (Option.some.inj (h.symm.trans hi))), h]

theorem NameDb.frame_release (hij : j ≠ i) : db.Frame (db.release i) j :=
  NameDb.frame_of_locks rfl rfl rfl (fun _ => NameLocks.release_of_ne hij)
    (fun _ => NameLocks.release_of_ne hij)

theorem NameDb.frame_self : db.Frame db j :=
  NameDb.frame_of_locks rfl rfl rfl (fun _ h => h) (fun _ h => h)

theorem NameLocks.update_of_freeFor {K : Type} [DecidableEq K] {f : K → Option Nat} {k : K}
    (hij : j ≠ i) (hfree : NameLocks.freeFor (f k) i = true) {x : K} (h : f x = some j) :
    Function.update f k (some i) x = some j := by
  rw [NameLocks.freeFor, Bool.or_eq_true, decide_eq_true_iff, decide_eq_true_iff] at hfree
  by_cases hx : x = k
  · subst hx
    rcases hfree with hnone | hmine
    · cases h.symm.trans hnone
    · exact absurd (Option.some.inj (h.symm.trans hmine)) hij
  · rw [Function.update_of_ne hx, h]

end Frame

/-! ## One statement -/

namespace Users

variable {t t' : Users} {u : UserRow} {uid : Int} {name : Bytes}

theorem table_of_indexed {table : Table UserRow.uid} (h : indexed table = some t) :
    t.table = table := by
  rw [indexed] at h
  split at h
  · cases h
    rfl
  · cases h

theorem mem_of_add (h : t.add u = some t') {x : UserRow} :
    x ∈ t'.table.rows ↔ x ∈ t.table.rows ∨ x = u := by
  obtain ⟨table, hinsert, hindexed⟩ := Option.bind_eq_some_iff.1 h
  rw [table_of_indexed hindexed, Table.rows_of_insert hinsert, mem_append,
    mem_singleton]

theorem mem_of_rename (h : t.rename uid name = some t') {x : UserRow} (hx : x ∈ t'.table.rows) :
    x ∈ t.table.rows ∧ x.uid ≠ uid ∨ x.uid = uid ∧ x.username = name := by
  rw [table_of_indexed h] at hx
  obtain ⟨u, hu, rfl⟩ := mem_map.1 hx
  by_cases hid : u.uid = uid
  · rw [if_pos (decide_eq_true hid)]
    exact .inr ⟨hid, rfl⟩
  · rw [if_neg (fun h => hid (of_decide_eq_true h))]
    exact .inl ⟨hu, hid⟩

theorem keys_of_rename (h : t.rename uid name = some t') : t'.table.keys = t.table.keys := by
  rw [table_of_indexed h]
  exact Table.keys_updateWhere (f := fun u : UserRow => { u with username := name })
    (h := fun _ => rfl)

theorem mem_rename_of_ne (h : t.rename uid name = some t') {x : UserRow} (hx : x ∈ t.table.rows)
    (hne : x.uid ≠ uid) : x ∈ t'.table.rows := by
  rw [table_of_indexed h]
  exact mem_map.2 ⟨x, hx, if_neg fun h => hne (of_decide_eq_true h)⟩

theorem eq_of_username {x : UserRow} (hu : u ∈ t.table.rows) (hx : x ∈ t.table.rows)
    (h : u.username = x.username) : u = x :=
  inj_on_of_nodup_map t.names hu hx h

end Users

namespace NameDb

variable {db db' : NameDb} {i : Nat} {uid : Int} {name email : Bytes} {time : Int}

theorem Sound.of_eq (h : db.Sound) (husers : db'.users = db.users)
    (hchanges : db'.changes = db.changes) (hclock : db'.clock = db.clock)
    (hmoves : db'.moves = db.moves) (huid : db.nextUid ≤ db'.nextUid) : db'.Sound where
  uids := ⟨Int.lt_of_lt_of_le h.uids.1 huid, husers ▸ h.uids.2⟩
  leavers := hmoves ▸ husers ▸ h.leavers
  rows := hmoves ▸ hclock ▸ hchanges ▸ h.rows
  moved := hmoves ▸ hchanges ▸ h.moved
  held := hmoves ▸ hclock ▸ husers ▸ h.held
  inOrder := hmoves ▸ hclock ▸ h.inOrder
  respects := hmoves ▸ h.respects

theorem not_userExists (h : db.userExists name email = false) :
    ∀ u ∈ db.users.table.rows, u.username ≠ name := by
  intro u hu hname
  refine absurd (any_eq_true.2 ⟨u, hu, ?_⟩) (Bool.not_eq_true _ ▸ h)
  rw [Bool.or_eq_true, decide_eq_true_iff]
  exact .inl hname

theorem not_nameReservedForOther (hsound : db.Sound)
    (h : db.nameReservedForOther name uid = false) : FreeBy db.moves uid name db.clock := by
  intro u t hm hu
  by_contra hlate
  obtain ⟨c, hc, rfl, rfl, rfl⟩ := hsound.rows u name t hm (by omega)
  refine absurd (any_eq_true.2 ⟨c, hc, ?_⟩) (Bool.not_eq_true _ ▸ h)
  simp only [decide_true, Bool.true_and, Bool.and_eq_true, decide_eq_true_iff]
  exact ⟨by omega, hu⟩

theorem Checked.freeBy {checked : Nat} (h : db.Checked checked uid name)
    (hsince : db.NotLeftSince checked uid name) : FreeBy db.moves uid name db.clock := by
  intro u t hm hu
  rw [← take_append_drop checked db.moves, mem_append] at hm
  rcases hm with hm | hm
  · exact h.free u t hm hu
  · exact hsince u t hm hu

theorem Checked.of_free (h : FreeBy db.moves uid name db.clock) :
    db.Checked db.moves.length uid name := by
  refine ⟨Nat.le_refl _, ?_⟩
  rw [take_length]
  exact h

theorem respects_took
    (hleavers : ∀ u x t, .left u x t ∈ db.moves → u ≠ 0 ∧ u ∈ db.users.table.keys)
    {owner : Int} (howner : uid = 0 ∨ uid = owner) (hfree : FreeBy db.moves uid name time) :
    ∀ m ∈ db.moves, NameMove.Respects m (.took owner name time) := by
  intro m hm
  cases m with
  | took u x t => trivial
  | left u x t =>
    rintro rfl hu
    refine hfree u t hm ?_
    rcases howner with rfl | rfl
    · exact (hleavers u x t hm).1
    · exact hu

theorem Sound.add {u : UserRow} {users : Users} (hsound : db.Sound)
    (hadd : db.users.add u = some users) (huid : u.uid ≠ 0)
    (htaking : db.Taking i 0 u.username time) :
    ({ db.release i with users, moves := db.moves ++ [.took u.uid u.username time] } :
      NameDb).Sound := by
  have hleft : ∀ u' x t, .left u' x t ∈ db.moves ++ [.took u.uid u.username time] →
      .left u' x t ∈ db.moves := by
    intro u' x t hm
    rcases mem_append.1 hm with hm | hm
    · exact hm
    · cases mem_singleton.1 hm
  refine ⟨⟨hsound.uids.1, fun v hv => ?_⟩, fun v x t hm => ?_,
    fun v x t hm => hsound.rows v x t (hleft v x t hm),
    fun c hc => mem_append_left _ (hsound.moved c hc), fun v hv w t hm hw => ?_, ?_, ?_⟩
  · rcases (Users.mem_of_add hadd).1 hv with hv | rfl
    · exact hsound.uids.2 v hv
    · exact huid
  · obtain ⟨hne, hkey⟩ := hsound.leavers v x t (hleft v x t hm)
    obtain ⟨w, hw, hwid⟩ := mem_map.1 hkey
    exact ⟨hne, mem_map.2 ⟨w, (Users.mem_of_add hadd).2 (.inl hw), hwid⟩⟩
  · have hold := hleft w _ t hm
    rcases (Users.mem_of_add hadd).1 hv with hv | rfl
    · exact hsound.held v hv w t hold hw
    · exact Int.le_trans (htaking.free w t hold (hsound.leavers w _ t hold).1) htaking.past
  · refine pairwise_append.2 ⟨hsound.inOrder, pairwise_singleton _ _, ?_⟩
    intro m _ m' hm'
    cases mem_singleton.1 hm'
    cases m <;> trivial
  · refine pairwise_append.2 ⟨hsound.respects, pairwise_singleton _ _, ?_⟩
    intro m hm m' hm'
    cases mem_singleton.1 hm'
    exact respects_took hsound.leavers (.inl rfl) htaking.free m hm

theorem Sound.commitRename {row : NameChange} {gone : List NameChange} (hsound : db.Sound)
    (hcommit : db.commitRename i row time gone = some db')
    (hrenaming : db.Renaming i row.uid row.newUsername row.oldUsername time)
    (hgone : ∀ c ∈ gone, c.changedAt + nameReservationSeconds ≤ db.clock) :
    db'.Sound ∧ ∀ j, j ≠ i → db.Frame db' j := by
  obtain ⟨users, husers, hcommit⟩ := Option.bind_eq_some_iff.1 hcommit
  obtain ⟨changes, hinsert, rfl⟩ := Option.map_eq_some_iff.1 hcommit
  obtain ⟨u, hu, huid, hname⟩ := hrenaming.locked.row
  have hfree := hrenaming.taking.free
  -- Of the moves, one is a leaving that was not there before.
  have hleft : ∀ w x t, .left w x t ∈ db.moves ++
      [.left row.uid row.oldUsername row.changedAt, .took row.uid row.newUsername time] →
      .left w x t ∈ db.moves ∨ w = row.uid ∧ x = row.oldUsername ∧ t = row.changedAt := by
    intro w x t hm
    rcases mem_append.1 hm with hm | hm
    · exact .inl hm
    · rcases mem_cons.1 hm with hm | hm
      · cases hm
        exact .inr ⟨rfl, rfl, rfl⟩
      · cases mem_singleton.1 hm
  have hchange : ∀ c, c ∈ (changes.deleteWhere fun c => c ∈ gone).rows ↔
      (c ∈ db.changes.rows ∨ c = row) ∧ c ∉ gone := by
    intro c
    rw [Table.rows_deleteWhere, mem_filter, Table.rows_of_insert hinsert, mem_append,
      mem_singleton, Bool.not_eq_true', decide_eq_false_iff_not]
  have hkept : ∀ c, db.clock < c.changedAt + nameReservationSeconds → c ∉ gone :=
    fun c hlate hc => absurd (hgone c hc) (Int.not_le.2 hlate)
  refine ⟨⟨⟨hsound.uids.1, fun v hv => ?_⟩, fun w x t hm => ?_, fun w x t hm hlate => ?_,
    fun c hc => ?_, fun v hv w t hm hw => ?_, ?_, ?_⟩, fun j hij => ?_⟩
  · rcases Users.mem_of_rename husers hv with ⟨hv, -⟩ | ⟨hvid, -⟩
    · exact hsound.uids.2 v hv
    · rw [hvid, ← huid]
      exact hsound.uids.2 u hu
  · have hkeys : ∀ k ∈ db.users.table.keys, k ∈ users.table.keys := by
      rw [Users.keys_of_rename husers]
      exact fun _ hk => hk
    rcases hleft w x t hm with hm | ⟨rfl, -⟩
    · exact ⟨(hsound.leavers w x t hm).1, hkeys w (hsound.leavers w x t hm).2⟩
    · rw [← huid]
      exact ⟨hsound.uids.2 u hu, hkeys _ (mem_map_of_mem hu)⟩
  · rcases hleft w x t hm with hm | ⟨rfl, rfl, rfl⟩
    · obtain ⟨c, hc, rfl, rfl, rfl⟩ := hsound.rows w x t hm hlate
      exact ⟨c, (hchange c).2 ⟨.inl hc, hkept c hlate⟩, rfl, rfl, rfl⟩
    · exact ⟨row, (hchange row).2 ⟨.inr rfl, hkept row hlate⟩, rfl, rfl, rfl⟩
  · rcases ((hchange c).1 hc).1 with hc | rfl
    · exact mem_append_left _ (hsound.moved c hc)
    · exact mem_append_right _ (.head _)
  · rcases Users.mem_of_rename husers hv with ⟨hv, hvid⟩ | ⟨hvid, hvname⟩
    · rcases hleft w _ t hm with hm | ⟨-, hvname, -⟩
      · exact hsound.held v hv w t hm hw
      · -- Nobody else had the name that is left.
        have hsame := Users.eq_of_username hu hv (hname.trans hvname.symm)
        exact absurd (hsame ▸ huid) hvid
    · rw [hvid] at hw
      rw [hvname] at hm
      rcases hleft w _ t hm with hm | ⟨rfl, -⟩
      · exact Int.le_trans (hfree w t hm hw) hrenaming.taking.past
      · exact absurd rfl hw
  · refine pairwise_append.2 ⟨hsound.inOrder, ?_, fun m hm m' hm' => ?_⟩
    · exact pairwise_pair.2 trivial
    · rcases mem_cons.1 hm' with rfl | hm'
      · -- It had the name that is left, so the others left it long ago.
        cases m with
        | took w x t => trivial
        | left w x t =>
          rintro rfl hw
          exact hsound.held u hu w t (hname ▸ hm) (huid ▸ hw)
      · cases mem_singleton.1 hm'
        cases m <;> trivial
  · refine pairwise_append.2 ⟨hsound.respects, ?_, fun m hm m' hm' => ?_⟩
    · exact pairwise_pair.2 fun _ hne => absurd rfl hne
    · rcases mem_cons.1 hm' with rfl | hm'
      · cases m <;> trivial
      · cases mem_singleton.1 hm'
        exact respects_took hsound.leavers (.inr rfl) hfree m hm
  · have hlocks : db.Frame (db.release i) j := NameDb.frame_release hij
    have hother : ∀ {holder : Option Nat}, holder = some i → holder ≠ some j :=
      fun hi hj => hij (Option.some.inj (hj.symm.trans hi))
    refine ⟨Int.le_refl _, hlocks.rows, hlocks.names, fun v hv hlock => ?_, fun v hv hlock => ?_,
      _, rfl, fun w x t hm => ?_⟩
    · refine Users.mem_rename_of_ne husers hv fun hvid => ?_
      exact hother (hvid ▸ hrenaming.locked.lock) hlock
    · rcases Users.mem_of_rename husers hv with ⟨hv, -⟩ | ⟨-, hvname⟩
      · exact ⟨v, hv, rfl⟩
      · exact absurd hlock (hother (hvname ▸ hrenaming.taking.lock))
    · rcases mem_cons.1 hm with hm | hm
      · cases hm
        exact ⟨u, hu, hname⟩
      · cases mem_singleton.1 hm

end NameDb

section Statements

variable {bcrypt : Bcrypt} {db db' : NameDb} {i salt : Nat} {uid : Int}
  {name email password : Bytes}

theorem NameLocks.freeFor_of_nameFree {l : NameLocks} (h : l.nameFree name i = true) :
    NameLocks.freeFor (l.names name) i = true := (Bool.and_eq_true_iff.1 h).1

/-- A registration's statement keeps the invariant, secures what the next relies on, and frames. -/
theorem RegisterStage.run_sound {stage stage' : RegisterStage} (hsound : db.Sound)
    (hholds : stage.Holds db i name)
    (hcareful : ∀ hash checked, stage = .insert hash checked → db.NotLeftSince checked 0 name)
    (hrun : stage.run bcrypt db i salt name email password = some (db', stage')) :
    db'.Sound ∧ stage'.Holds db' i name ∧ ∀ j, j ≠ i → db.Frame db' j := by
  have hself : ∀ j, j ≠ i → db.Frame db j := fun _ _ => NameDb.frame_self
  cases stage with
  | userExists =>
    cases hrun
    refine ⟨hsound, ?_, hself⟩
    split <;> trivial
  | nameReserved =>
    cases hrun
    refine ⟨hsound, ?_, hself⟩
    split
    · trivial
    · rename_i hfree
      exact .of_free (NameDb.not_nameReservedForOther hsound (Bool.not_eq_true _ ▸ hfree))
  | insert hash checked =>
    rw [RegisterStage.run] at hrun
    split at hrun
    · cases hrun
    · rename_i hlocks
      rw [Bool.not_eq_true, Bool.or_eq_false_iff, Bool.not_eq_false'] at hlocks
      have hnames := NameLocks.freeFor_of_nameFree hlocks.1
      split at hrun
      · cases hrun
        exact ⟨hsound, trivial, hself⟩
      · rename_i hexists
        cases hrun
        refine ⟨hsound.of_eq rfl rfl rfl rfl (Int.le_add_one (Int.le_refl _)), ?_, fun j hij => ?_⟩
        · refine ⟨Int.ne_of_gt hsound.uids.1, Function.update_self _ _ _, Int.le_refl _, ?_, ?_⟩
          · exact hholds.freeBy (hcareful hash checked rfl)
          · exact NameDb.not_userExists (Bool.not_eq_true _ ▸ hexists)
        · exact NameDb.frame_of_locks rfl rfl rfl (fun _ h => h)
            (fun _ => NameLocks.update_of_freeFor hij hnames)
  | commit hash uid time =>
    rw [RegisterStage.run] at hrun
    split at hrun
    · cases hrun
      exact ⟨hsound.of_eq rfl rfl rfl rfl (Int.le_refl _), trivial,
        fun j hij => NameDb.frame_release hij⟩
    · rename_i users hadd
      cases hrun
      refine ⟨hsound.add hadd hholds.1 hholds.2, trivial, fun j hij => ?_⟩
      have hlocks : db.Frame (db.release i) j := NameDb.frame_release hij
      refine ⟨Int.le_refl _, hlocks.rows, hlocks.names,
        fun v hv _ => (Users.mem_of_add hadd).2 (.inl hv), fun v hv hlock => ?_, _, rfl,
        fun u x t hm => by cases mem_singleton.1 hm⟩
      rcases (Users.mem_of_add hadd).1 hv with hv | rfl
      · exact ⟨v, hv, rfl⟩
      · exact absurd (Option.some.inj (hlock.symm.trans hholds.2.lock)) hij
  | answered error => cases hrun

theorem RenameStage.run_sound {stage stage' : RenameStage} (hsound : db.Sound)
    (hholds : stage.Holds db i uid name)
    (hcareful : ∀ old now checked, stage = .update old now checked →
      db.NotLeftSince checked uid name)
    (hrun : stage.run bcrypt db i uid name password = some (db', stage')) :
    db'.Sound ∧ stage'.Holds db' i uid name ∧ ∀ j, j ≠ i → db.Frame db' j := by
  have hself : ∀ j, j ≠ i → db.Frame db j := fun _ _ => NameDb.frame_self
  have hrefused : ∀ error, (db.release i).Sound ∧
      (RenameStage.answered error).Holds (db.release i) i uid name ∧
      ∀ j, j ≠ i → db.Frame (db.release i) j := fun _ =>
    ⟨hsound.of_eq rfl rfl rfl rfl (Int.le_refl _), trivial, fun j hij => NameDb.frame_release hij⟩
  cases stage with
  | lockRow =>
    rw [RenameStage.run] at hrun
    split at hrun
    · cases hrun
    · rename_i hlock
      rw [Bool.not_eq_true, Bool.not_eq_false'] at hlock
      split at hrun
      · cases hrun
        exact ⟨hsound, trivial, hself⟩
      · rename_i me hme
        split at hrun
        · cases hrun
          exact ⟨hsound, trivial, hself⟩
        · split at hrun
          · cases hrun
            exact ⟨hsound, trivial, hself⟩
          · cases hrun
            obtain ⟨hrow, hid⟩ := Table.find?_eq_some.1 hme
            refine ⟨hsound.of_eq rfl rfl rfl rfl (Int.le_refl _), ?_, fun j hij => ?_⟩
            · exact ⟨Function.update_self _ _ _, me, hrow, hid, rfl⟩
            · exact NameDb.frame_of_locks rfl rfl rfl
                (fun _ => NameLocks.update_of_freeFor hij hlock) (fun _ h => h)
  | recent old =>
    rw [RenameStage.run] at hrun
    split at hrun <;> cases hrun
    · exact hrefused _
    · exact ⟨hsound, hholds, hself⟩
  | holders old now =>
    rw [RenameStage.run] at hrun
    split at hrun <;> cases hrun
    · exact hrefused _
    · exact ⟨hsound, hholds, hself⟩
  | nameReserved old now =>
    rw [RenameStage.run] at hrun
    split at hrun
    · cases hrun
      exact hrefused _
    · rename_i hfree
      cases hrun
      exact ⟨hsound, ⟨hholds, .of_free (NameDb.not_nameReservedForOther hsound
        (Bool.not_eq_true _ ▸ hfree))⟩, hself⟩
  | update old now checked =>
    rw [RenameStage.run] at hrun
    split at hrun
    · cases hrun
    · rename_i hlock
      rw [Bool.not_eq_true, Bool.not_eq_false'] at hlock
      split at hrun
      · cases hrun
        exact hrefused _
      · rename_i hheld
        cases hrun
        have hnames := NameLocks.freeFor_of_nameFree hlock
        refine ⟨hsound.of_eq rfl rfl rfl rfl (Int.le_refl _), ⟨?_, ?_⟩, fun j hij => ?_⟩
        · exact ⟨hholds.1.lock, hholds.1.row⟩
        · refine ⟨Function.update_self _ _ _, Int.le_refl _, ?_, fun u hu hname => ?_⟩
          · exact hholds.2.freeBy (hcareful old now checked rfl)
          · exact hheld (any_eq_true.2 ⟨u, hu, decide_eq_true hname⟩)
        · exact NameDb.frame_of_locks rfl rfl rfl (fun _ h => h)
            (fun _ => NameLocks.update_of_freeFor hij hnames)
  | record old now time =>
    cases hrun
    refine ⟨hsound.of_eq rfl rfl rfl rfl (Int.le_refl _), ⟨rfl, rfl, ?_⟩, fun j _ => ?_⟩
    · exact ⟨⟨hholds.locked.lock, hholds.locked.row⟩, hholds.taking.lock, hholds.taking.past,
        hholds.taking.free, hholds.taking.unheld⟩
    · exact NameDb.frame_of_locks rfl rfl rfl (fun _ h => h) (fun _ h => h)
  | prune row time =>
    cases hrun
    refine ⟨hsound, ⟨hholds.1, hholds.2.1, hholds.2.2, fun c hc => ?_⟩, hself⟩
    have hlate := of_decide_eq_true (mem_filter.1 hc).2
    omega
  | commit row time gone =>
    rw [RenameStage.run] at hrun
    split at hrun
    · cases hrun
      exact hrefused _
    · rename_i db₁ hcommit
      cases hrun
      obtain ⟨rfl, rfl, hrenaming, hgone⟩ := hholds
      obtain ⟨hsound', hframe⟩ := hsound.commitRename hcommit hrenaming hgone
      exact ⟨hsound', trivial, hframe⟩
  | answered error => cases hrun

end Statements

/-! ## Every run -/

theorem NameMove.InOrder.mono {clock clock' : Int} (h : clock ≤ clock') {m m' : NameMove}
    (hm : m.InOrder clock m') : m.InOrder clock' m' := by
  cases m with
  | took u x t => trivial
  | left u x t =>
    cases m' with
    | took u' x' t' => trivial
    | left u' x' t' => exact fun hx hu => Int.le_trans (hm hx hu) h

theorem NameDb.Sound.tick {db : NameDb} (h : db.Sound) (seconds : Nat) :
    ({ db with clock := db.clock + seconds } : NameDb).Sound := by
  have hle : db.clock ≤ db.clock + seconds := by omega
  refine ⟨h.uids, h.leavers, fun u x t hm hlate => h.rows u x t hm ?_, h.moved,
    fun u hu => (h.held u hu).mono (fun _ hm => hm) hle, h.inOrder.imp fun hm => hm.mono hle,
    h.respects⟩
  exact Int.lt_of_le_of_lt hle hlate

theorem NameDb.Sound.prune {db : NameDb} (h : db.Sound) : db.pruneNameChanges.Sound := by
  refine ⟨h.uids, h.leavers, fun u x t hm hlate => ?_, fun c hc => ?_, h.held, h.inOrder,
    h.respects⟩
  · obtain ⟨c, hc, rfl, rfl, rfl⟩ := h.rows u x t hm hlate
    refine ⟨c, mem_filter.2 ⟨hc, ?_⟩, rfl, rfl, rfl⟩
    rw [Bool.not_eq_true', decide_eq_false_iff_not]
    intro hgone
    -- A row that is deleted is older than the reservation.
    have hold := of_decide_eq_true (mem_filter.1 hgone).2
    change db.clock < _ at hlate
    omega
  · exact h.moved c (mem_filter.1 hc).1

namespace NamesRun

variable {bcrypt : Bcrypt} {st st' : NamesRun} {i : Nat}

theorem Sound.put (h : st.Sound) {db : NameDb} {r : NameRequest} (hdb : db.Sound)
    (hr : r.Holds db i) (hframe : ∀ j, j ≠ i → st.db.Frame db j) : (st.put db i r).Sound := by
  refine ⟨hdb, fun j r' hr' => ?_⟩
  by_cases hj : j = i
  · subst hj
    cases (Function.update_self _ _ _).symm.trans hr'
    exact hr
  · exact (h.requests j r' ((Function.update_of_ne hj _ _).symm.trans hr')).frame (hframe j hj)

theorem Sound.step (h : st.Sound) {e : NameEvent} (hcareful : st.Careful e) :
    (st.step bcrypt e).Sound := by
  have hreceive : ∀ i r, r.Holds st.db i → (st.receive i r).Sound := by
    intro i r hr
    rw [receive]
    split
    · exact h
    · exact h.put h.db hr fun _ _ => NameDb.frame_self
  cases e with
  | register i name email password =>
    refine hreceive i _ ?_
    rw [NameRequest.Holds, registerUser]
    repeat' split
    all_goals trivial
  | rename i uid name password =>
    refine hreceive i _ ?_
    rw [NameRequest.Holds, renameUser]
    split <;> trivial
  | statement i salt =>
    rw [NamesRun.step]
    cases hr : st.requests i with
    | none => exact h
    | some r =>
      have hholds := h.requests i r hr
      cases r with
      | register name email password stage =>
        dsimp only
        cases hrun : stage.run bcrypt st.db i salt name email password with
        | none => exact h
        | some done =>
          have hsince : ∀ hash checked, stage = .insert hash checked →
              st.db.NotLeftSince checked 0 name := by
            rintro hash checked rfl
            rw [Careful, hr] at hcareful
            exact hcareful
          obtain ⟨hdb, hnext, hframe⟩ := RegisterStage.run_sound h.db hholds hsince hrun
          exact h.put hdb hnext hframe
      | rename uid name password stage =>
        dsimp only
        cases hrun : stage.run bcrypt st.db i uid name password with
        | none => exact h
        | some done =>
          have hsince : ∀ old now checked, stage = .update old now checked →
              st.db.NotLeftSince checked uid name := by
            rintro old now checked rfl
            rw [Careful, hr] at hcareful
            exact hcareful
          obtain ⟨hdb, hnext, hframe⟩ := RenameStage.run_sound h.db hholds hsince hrun
          exact h.put hdb hnext hframe
  | fail i =>
    rw [NamesRun.step]
    have hdb : (st.db.release i).Sound := h.db.of_eq rfl rfl rfl rfl (Int.le_refl _)
    cases hr : st.requests i with
    | none => exact h
    | some r =>
      cases r with
      | register name email password stage =>
        refine h.put hdb ?_ fun j hij => NameDb.frame_release hij
        cases stage <;> trivial
      | rename uid name password stage =>
        refine h.put hdb ?_ fun j hij => NameDb.frame_release hij
        cases stage <;> trivial
  | pruneNameChanges =>
    refine ⟨h.db.prune, fun i r hr => (h.requests i r hr).frame ?_⟩
    exact NameDb.frame_of_locks rfl rfl rfl (fun _ h => h) (fun _ h => h)
  | tick seconds =>
    refine ⟨h.db.tick seconds, fun i r hr => (h.requests i r hr).frame ?_⟩
    exact ⟨Int.le_add_of_nonneg_right (Int.natCast_nonneg _), fun _ h => h, fun _ h => h,
      fun _ hu _ => hu, fun u hu _ => ⟨u, hu, rfl⟩, [], (append_nil _).symm,
      fun _ _ _ hm => by cases hm⟩

theorem sound_of_reachable (h : ((nameSystem bcrypt).given NamesRun.Careful).Reachable st) :
    st.Sound := by
  refine System.reachable_invariant ?_ ?_ h
  · rintro st ⟨huids, hchanges, hmoves, hrequests⟩
    have hnone : ∀ m, m ∉ st.db.moves := fun m hm => by rw [hmoves] at hm; cases hm
    refine ⟨⟨huids, fun u x t hm => absurd hm (hnone _), fun u x t hm => absurd hm (hnone _),
      fun c hc => ?_, fun u _ w t hm => absurd hm (hnone _), ?_, ?_⟩, fun i r hr => ?_⟩
    · rw [hchanges] at hc
      cases hc
    · rw [hmoves]
      exact .nil
    · rw [hmoves]
      exact .nil
    · rw [hrequests] at hr
      cases hr
  · rintro st e _ hst ⟨rfl, hcareful⟩
    exact hst.step hcareful

end NamesRun

/-! ## Signing in -/

namespace NameDb

variable {db : NameDb} {name : Bytes}

theorem getCredentials_eq_some {stored : StoredCredentials}
    (h : db.getCredentials name = some stored) :
    ∃ u ∈ db.users.table.rows, u.username = name ∧ u.credentials = stored := by
  obtain ⟨u, hu, hstored⟩ := Option.map_eq_some_iff.1 h
  exact ⟨u, mem_of_find?_eq_some hu, by simpa using find?_some hu, hstored⟩

theorem getCredentials_eq_none (h : db.getCredentials name = none) :
    ∀ u ∈ db.users.table.rows, u.username ≠ name := fun u hu hname =>
  find?_eq_none.1 (Option.map_eq_none_iff.1 h) u hu (decide_eq_true hname)

theorem getCredentialsByReservedName_eq_some {stored : StoredCredentials}
    (h : db.getCredentialsByReservedName name = some stored) :
    ∃ c ∈ db.changes.rows, c.oldUsername = name ∧
      db.clock < c.changedAt + nameReservationSeconds ∧ stored.uid = c.uid := by
  obtain ⟨c, hc, hstored⟩ := Option.bind_eq_some_iff.1 h
  obtain ⟨u, hu, rfl⟩ := Option.map_eq_some_iff.1 hstored
  have hmem := mem_mergeSort.1 (mem_of_mem_head? hc)
  simp only [mem_filter, Bool.and_eq_true, decide_eq_true_iff] at hmem
  obtain ⟨hrow, ⟨rfl, hlate⟩, -⟩ := hmem
  exact ⟨c, hrow, rfl, by omega, (Table.find?_eq_some.1 hu).2⟩

theorem getCredentialsByReservedName_eq_none (h : db.getCredentialsByReservedName name = none) :
    ∀ c ∈ db.changes.rows, c.uid ∈ db.users.table.keys → c.oldUsername = name →
      c.changedAt + nameReservationSeconds ≤ db.clock := by
  intro c hc hkey hname
  by_contra hlate
  rw [getCredentialsByReservedName, Option.bind_eq_none_iff] at h
  have hmem : c ∈ db.changes.rows.filter fun c =>
      c.oldUsername = name && db.clock - nameReservationSeconds < c.changedAt &&
        c.uid ∈ db.users.table.keys := by
    simp only [mem_filter, Bool.and_eq_true, decide_eq_true_iff]
    exact ⟨hc, ⟨hname, by omega⟩, hkey⟩
  have hhead : ∀ l : List NameChange, c ∈ l →
      ∃ latest ∈ l, (l.mergeSort latestFirst).head? = some latest := by
    intro l hc
    have hsorted : c ∈ l.mergeSort latestFirst := mem_mergeSort.2 hc
    obtain ⟨latest, hlatest⟩ :=
      Option.isSome_iff_exists.1 (isSome_head?.2 (ne_nil_of_mem hsorted))
    exact ⟨latest, mem_mergeSort.1 (mem_of_mem_head? hlatest), hlatest⟩
  -- There is a latest one, and its account has a row.
  obtain ⟨latest, hlatest', hlatest⟩ := hhead _ hmem
  simp only [mem_filter, Bool.and_eq_true, decide_eq_true_iff] at hlatest'
  obtain ⟨u, hu⟩ := Table.mem_keys.1 hlatest'.2.2
  have hnone := h latest hlatest
  rw [hu] at hnone
  cases hnone

theorem lastLeaver_of_late (hsound : db.Sound) {u t : Int} (hm : .left u name t ∈ db.moves)
    (hlate : db.clock < t + nameReservationSeconds) : lastLeaver db.moves name = some u := by
  obtain ⟨before, after, hmoves⟩ := append_of_mem hm
  have hleaver : NameMove.leaver name (.left u name t) = some u := if_pos rfl
  rw [lastLeaver, hmoves, filterMap_append, filterMap_cons_some hleaver,
    getLast?_append, getLast?_cons]
  cases hlast : (after.filterMap (NameMove.leaver name)).getLast? with
  | none => rfl
  | some u' =>
    obtain ⟨m, hm', hu'⟩ := mem_filterMap.1 (mem_of_getLast? hlast)
    have horder := (pairwise_append.1 (hmoves ▸ hsound.inOrder)).2.1
    have hpair := rel_of_pairwise_cons horder hm'
    suffices u' = u by rw [this]; rfl
    cases m with
    | took v x t' => cases hu'
    | left v x t' =>
      rw [NameMove.leaver] at hu'
      split at hu'
      · rename_i hx
        cases hu'
        by_contra hne
        exact absurd (hpair hx.symm (Ne.symm hne)) (Int.not_le.2 hlate)
      · cases hu'

end NameDb

namespace NamesRun

variable {bcrypt : Bcrypt} {st st' : NamesRun}

/-- In every run in which no other account leaves a name, within the reservation, between a check
    and the statement that takes it, nobody takes a name another left within the reservation; and a
    name signs in the account that has it, or else the one that left it last, within the
    reservation, if no other has it by then. -/
theorem name_stays {events : List NameEvent} {name : Bytes}
    (h : ((nameSystem bcrypt).given NamesRun.Careful).Reachable st)
    (hruns : ((nameSystem bcrypt).given NamesRun.Careful).Runs st events st') :
    st.db.moves.Pairwise NameMove.Respects ∧
    match signIn st.db st'.db name with
    | some stored =>
      (∃ u ∈ st.db.users.table.rows, u.username = name ∧ u.uid = stored.uid) ∨
      ((∀ u ∈ st.db.users.table.rows, u.username ≠ name) ∧
        (∀ u ∈ st'.db.users.table.rows, u.username = name → u.uid = stored.uid) ∧
        lastLeaver st'.db.moves name = some stored.uid ∧
        ∃ t, .left stored.uid name t ∈ st'.db.moves ∧
          st'.db.clock < t + nameReservationSeconds)
    | none =>
      (∀ u ∈ st.db.users.table.rows, u.username ≠ name) ∧
      ∀ u t, .left u name t ∈ st'.db.moves → t + nameReservationSeconds ≤ st'.db.clock := by
  have hsound := (sound_of_reachable h).db
  have hsound' := (sound_of_reachable (h.of_runs hruns)).db
  refine ⟨hsound.respects, ?_⟩
  rw [signIn]
  cases hheld : st.db.getCredentials name with
  | some stored =>
    obtain ⟨u, hu, hname, rfl⟩ := NameDb.getCredentials_eq_some hheld
    exact .inl ⟨u, hu, hname, rfl⟩
  | none =>
    have hnobody := NameDb.getCredentials_eq_none hheld
    dsimp only
    cases hreserved : st'.db.getCredentialsByReservedName name with
    | some stored =>
      obtain ⟨c, hc, rfl, hlate, huid⟩ := NameDb.getCredentialsByReservedName_eq_some hreserved
      have hleft := hsound'.moved c hc
      refine .inr ⟨hnobody, fun u hu hname => ?_, ?_, c.changedAt, ?_, hlate⟩
      · by_contra hne
        have hfree := hsound'.held u hu c.uid c.changedAt (hname ▸ hleft)
          fun hsame => hne (hsame ▸ huid.symm)
        exact absurd hfree (Int.not_le.2 hlate)
      · rw [huid]
        exact NameDb.lastLeaver_of_late hsound' hleft hlate
      · rw [huid]
        exact hleft
    | none =>
      refine ⟨hnobody, fun u t hm => ?_⟩
      by_contra hlate
      obtain ⟨c, hc, rfl, rfl, rfl⟩ := hsound'.rows u name t hm (by omega)
      exact hlate <| NameDb.getCredentialsByReservedName_eq_none hreserved c hc
        (hsound'.leavers _ _ _ hm).2 rfl

end NamesRun

/-! ## Runs -/

instance : DecidableRel NameMove.Respects
  | .left u x t, .took u' x' t' =>
    inferInstanceAs (Decidable (x = x' → u ≠ u' → t + nameReservationSeconds ≤ t'))
  | .left _ _ _, .left _ _ _ => .isTrue trivial
  | .took _ _ _, _ => .isTrue trivial

/-- No leaving by another account that still reserves the name. -/
def NameMove.isFree (uid : Int) (x : Bytes) (time : Int) : NameMove → Bool
  | .left u x' t => x' ≠ x || u = uid || t + nameReservationSeconds ≤ time
  | .took _ _ _ => true

instance (moves : List NameMove) (uid : Int) (x : Bytes) (time : Int) :
    Decidable (FreeBy moves uid x time) :=
  decidable_of_iff (∀ m ∈ moves, m.isFree uid x time = true) <| by
    constructor
    · intro h u t hm hu
      simpa [NameMove.isFree, hu] using h _ hm
    · intro h m hm
      cases m with
      | took u x' t => rfl
      | left u x' t =>
        by_cases hx : x' = x
        · by_cases hu : u = uid
          · simp [NameMove.isFree, hu]
          · simpa [NameMove.isFree, hx, hu] using h u t (hx ▸ hm) hu
        · simp [NameMove.isFree, hx]

namespace NamesRun

def isCareful (st : NamesRun) : NameEvent → Bool
  | .statement i _ =>
    match st.requests i with
    | some (.register name _ _ (.insert _ checked)) =>
      FreeBy (st.db.moves.drop checked) 0 name st.db.clock
    | some (.rename uid name _ (.update _ _ checked)) =>
      FreeBy (st.db.moves.drop checked) uid name st.db.clock
    | _ => true
  | _ => true

instance (st : NamesRun) (e : NameEvent) : Decidable (st.Careful e) :=
  decidable_of_iff (st.isCareful e = true) <| by
    cases e with
    | statement i salt =>
      rw [isCareful, Careful]
      split
      · rw [decide_eq_true_iff]
        rfl
      · rw [decide_eq_true_iff]
        rfl
      · exact ⟨fun _ => trivial, fun _ => rfl⟩
    | _ => exact ⟨fun _ => trivial, fun _ => rfl⟩

def noAccounts : NamesRun where
  db := { users := { table := .empty, names := List.nodup_nil, emails := List.nodup_nil }
          changes := .empty }

/-- A password that is kept as it is. -/
def plain : Bcrypt where
  hash _ password := password
  verify password hash := password = hash

def ann : Bytes := [97, 110, 110]
def bob : Bytes := [98, 111, 98]
def cat : Bytes := [99, 97, 116]

/-- The next statements of a request. -/
def statements (i n : Nat) : List NameEvent := List.replicate n (.statement i 0)

/-- Somebody registers as `ann`, with 8 bytes for a password. -/
def registerAnn : List NameEvent :=
  .register 0 ann [64] (List.replicate 8 0) :: statements 0 4

/-- And is renamed to `bob` and then to `cat`. -/
def renameAnn : List NameEvent :=
  .rename 2 1 bob (List.replicate 8 0) :: statements 2 8 ++
    .rename 3 1 cat (List.replicate 8 0) :: statements 3 8

/-- Somebody registers as `bob`; the renames of `ann` come after the checks. -/
def renamesInBetween : List NameEvent :=
  registerAnn ++ .register 1 bob [64, 64] (List.replicate 8 0) :: statements 1 2 ++ renameAnn ++
    statements 1 2

def runNames (events : List NameEvent) : NamesRun := events.foldl (NamesRun.step plain) noAccounts

theorem init_noAccounts : (nameSystem plain).init noAccounts :=
  ⟨⟨by decide, fun u hu => by cases hu⟩, rfl, rfl, rfl⟩

theorem name_stays_renamed :
    let st := runNames (registerAnn ++ renameAnn)
    let st' := st.step plain (.tick 5)
    st.db.moves.Pairwise NameMove.Respects ∧
    match signIn st.db st'.db bob with
    | some stored =>
      (∃ u ∈ st.db.users.table.rows, u.username = bob ∧ u.uid = stored.uid) ∨
      ((∀ u ∈ st.db.users.table.rows, u.username ≠ bob) ∧
        (∀ u ∈ st'.db.users.table.rows, u.username = bob → u.uid = stored.uid) ∧
        lastLeaver st'.db.moves bob = some stored.uid ∧
        ∃ t, .left stored.uid bob t ∈ st'.db.moves ∧
          st'.db.clock < t + nameReservationSeconds)
    | none =>
      (∀ u ∈ st.db.users.table.rows, u.username ≠ bob) ∧
      ∀ u t, .left u bob t ∈ st'.db.moves → t + nameReservationSeconds ≤ st'.db.clock := by
  have hlater : ((nameSystem plain).given NamesRun.Careful).Runs
      (runNames (registerAnn ++ renameAnn)) [.tick 5]
      ((runNames (registerAnn ++ renameAnn)).step plain (.tick 5)) :=
    .cons ⟨rfl, trivial⟩ (.nil _)
  exact name_stays (.foldl_given (fun _ _ => rfl) (.init init_noAccounts) (by decide +kernel))
    hlater

/-- `ann` leaves `bob`, which is then given to the other account. -/
theorem name_does_not_stay :
    let st := runNames renamesInBetween
    (nameSystem plain).Reachable st ∧
      st.db.moves = [.took 1 ann 0, .left 1 ann 0, .took 1 bob 0, .left 1 bob 0, .took 1 cat 0,
        .took 2 bob 0] ∧
      ¬ st.db.moves.Pairwise NameMove.Respects :=
  ⟨.foldl (fun _ _ => rfl) _ (.init init_noAccounts), by decide +kernel, by decide +kernel⟩

end NamesRun

end Decibell.Central
