import Decibell.Community.Faults

/-!
# Deleting a channel when statements fail

A category's channels get its rows as their own before it goes, and the whole deletion is one
transaction. A failure that undoes it does not stop the deletions that follow: `DeletesAtomically`
is when it is atomic, from the answers to the statements.
-/

namespace Decibell

open Lib Lib.Conn Tables ChannelLayout List

/-! ## What a deletion should leave -/

/-- Some channel follows the category. -/
def Tables.Followed (t : Tables) (channelId : String) : Prop := ∃ id, Follows t.ordered id channelId

/-- A deletion of `t` that reports `r`: without success nothing is committed; if the channel is gone
    its followers have its rows. -/
structure DeletedAtomically (channelId : String) (t t' : Tables)
    (r : Option CommunityDb.WipeChannelResult) : Prop where
  undone : r = none → t' = t
  kept : channelId ∈ t.channels.keys → channelId ∉ t'.channels.keys →
    ∀ id, Follows t.ordered id channelId →
      t'.overwritesOf id = (t.overwritesOf channelId).map (.of id) ∧ t'.Unsynced id

namespace CommunityDb

/-- The deletions of a channel's escrowed keys. -/
def keyDeletes (channelId : String) : List Stmt := [
  fun t => some { t with keyBlobs := t.keyBlobs.deleteWhere (·.channelId = channelId) },
  fun t => some { t with keyEpochs := t.keyEpochs.deleteWhere (·.channelId = channelId) },
  fun t => some { t with keyRefusals := t.keyRefusals.deleteWhere (·.channelId = channelId) },
  fun t => some { t with keyRotations := t.keyRotations.deleteWhere (·.channelId = channelId) }]

/-- How the copies of a category's rows fare. -/
def copyAnswers (channelId : String) (t : Tables) (os : List Outcome) : Answered :=
  answers (copyCount (fun _ => t.overwritesOf channelId)
    ((t.layout.followers channelId).map (·, channelId))) os

/-- The keys' deletions after a failure undid the transaction; none if it is still open. -/
def undoneBefore (channelId : String) (copies : Answered) : Option (List Stmt) :=
  if copies.last = .abort then some (runsOf copies.left (keyDeletes channelId))
  else undoneBy copies.left (keyDeletes channelId)

/-- When a deletion is atomic with the answers `os`: where the channel exists and the transaction
    opens,

    * if it stays open past the keys, a later deletion or the commit fails, or the copies were
      made, or none was due;
    * if a failure undid it, the later deletions run and no copy was due, or one fails after
      those that found nothing. -/
def DeletesAtomically (channelId : String) (t : Tables) (os : List Outcome) : Prop :=
  channelId ∈ t.channels.keys → nextOf os = .ok →
    let copies := copyAnswers channelId t os.tail
    let wipe := answers 4 (copies.left.drop 4)
    match undoneBefore channelId copies with
    | none => wipe.last = .ok → nextOf wipe.left = .ok → copies.last = .ok ∨ ¬t.Followed channelId
    | some runs =>
      if wipe.last = .ok then ¬t.Followed channelId
      else applyAll (runs ++ (wipeChannel channelId).take wipe.ran) t = some t

/-! ## What the deletions leave -/

variable {channelId : String} {t t' u w : Tables} {os : List Outcome}

theorem deleteChannelKeys_eq (channelId : String) :
    deleteChannelKeys channelId = execEach (keyDeletes channelId) := rfl

theorem keyDeletes_total (channelId : String) (stmt : Stmt) (h : stmt ∈ keyDeletes channelId)
    (t : Tables) : stmt t ≠ none := by
  simp only [keyDeletes, mem_cons, not_mem_nil, or_false] at h
  rcases h with rfl | rfl | rfl | rfl <;> exact Option.some_ne_none _

def SameRows (t t' : Tables) : Prop := t'.channels = t.channels ∧ t'.overwrites = t.overwrites

theorem sameRows_keyDeletes {stmts : List Stmt} (hs : stmts.Sublist (keyDeletes channelId))
    (h : applyAll stmts t = some t') : SameRows t t' := by
  refine Preserves.applyAll (R := SameRows t) (fun stmt hm v v' hv hv' => ?_) ⟨rfl, rfl⟩ h
  have hm := hs.mem hm
  simp only [keyDeletes, mem_cons, not_mem_nil, or_false] at hm
  rcases hm with rfl | rfl | rfl | rfl <;> cases hv' <;> exact hv

/-- The channel is deleted with its rows. -/
structure Wiped (channelId : String) (t t' : Tables) : Prop where
  channels : t'.channels.rows = t.channels.rows.filter fun c => ! decide (c.id = channelId)
  overwrites : t'.overwrites.rows =
    t.overwrites.rows.filter fun ow => ! decide (ow.channelId = channelId)

theorem exists_wiped (t : Tables) (channelId : String) :
    ∃ t', applyAll (wipeChannel channelId) t = some t' ∧ Wiped channelId t t' :=
  ⟨_, rfl, rfl, rfl⟩

theorem Wiped.gone (h : Wiped channelId t t') : channelId ∉ t'.channels.keys := by
  rw [Table.keys, h.channels]
  simp

theorem Wiped.mem {c : DbChannel} (h : Wiped channelId t t') (hc : c ∈ t.channels.rows)
    (hid : c.id ≠ channelId) : c ∈ t'.channels.rows := by
  rw [h.channels]
  exact mem_filter.2 ⟨hc, by simpa using hid⟩

theorem Wiped.overwritesOf {id : String} (h : Wiped channelId t t') (hid : id ≠ channelId) :
    t'.overwritesOf id = t.overwritesOf id := by
  rw [Tables.overwritesOf, h.overwrites, filter_filter, Tables.overwritesOf]
  refine filter_congr fun ow _ => ?_
  by_cases how : ow.channelId = id
  · simp [how, hid]
  · simp [how]

theorem Wiped.unsynced {id : String} (h : Wiped channelId t t') (hu : t.Unsynced id) :
    t'.Unsynced id := by
  intro c hc hid
  rw [h.channels] at hc
  exact hu c (mem_filter.1 hc).1 hid

/-! ## The runs of a deletion -/

section Runs

variable {r : WipeChannelResult}

theorem facing_deleted {ok : Bool} :
    Triple (Facing (fun _ => True) ⟨w, none, os⟩) (do
        eraseOverwritesCache channelId
        invalidateChannelLayout
        if ok then
          normalizeChannelOrder
          return some r
        else return none)
      fun a d => SameLayout w d.tables ∧ (ok = true → a ≠ none) ∧
        (ok = false → a = none ∧ d.tables = w) := by
  refine Triple.bind (Q := fun _ => Facing (fun _ => True) ⟨w, none, os⟩)
    (fun _ hd => ⟨trivial, hd.conn⟩) fun _ => ?_
  refine facing_invalidateLayout (N := fun _ => True) (fun _ _ => trivial) ?_
  cases ok with
  | true =>
    refine (facing_normalizeChannelOrder fun _ _ => trivial).bind fun _ => .pure ?_
    rintro d ⟨w', hw, hd⟩
    exact ⟨hd.tables ▸ hw, fun _ => Option.some_ne_none r, nofun⟩
  | false => exact .pure fun d hd => ⟨hd.tables ▸ .refl w, nofun, fun _ => ⟨rfl, hd.tables⟩⟩

/-- The deletions, and what is done after them. -/
def wipeAndEnd (channelId : String) (r : WipeChannelResult) : DbM (Option WipeChannelResult) := do
  let ok ← sql (execAll (wipeChannel channelId))
  sql (finish ok)
  eraseOverwritesCache channelId
  invalidateChannelLayout
  if ok then
    normalizeChannelOrder
    return some r
  else return none

theorem facing_wipe_open : Triple (Facing (fun _ => True) ⟨u, some t, os⟩) (wipeAndEnd channelId r)
    fun a d =>
      let wipe := answers 4 os
      (wipe.last = .ok ∧ nextOf wipe.left = .ok ∧ a ≠ none ∧
        ∃ w, Wiped channelId u w ∧ SameLayout w d.tables) ∨
      (wipe.last = .ok ∧ nextOf wipe.left ≠ .ok ∧ a ≠ none ∧ SameLayout t d.tables) ∨
      (wipe.last ≠ .ok ∧ a = none ∧ d.tables = t) := by
  obtain ⟨w, hw, hwiped⟩ := exists_wiped u channelId
  refine facing_transaction hw (facing_deleted.conseq (fun _ h => h) fun a d h => ?_)
  have hlen : (wipeChannel channelId).length = 4 := rfl
  obtain ⟨hsame, hok, hno⟩ := h
  rw [hlen] at hsame hok hno
  by_cases hlast : (answers 4 os).last = .ok
  · have hr := hok (decide_eq_true hlast)
    by_cases hnext : nextOf (answers 4 os).left = .ok
    · have hc : committed 4 os := ⟨hlast, hnext⟩
      rw [if_pos hc] at hsame
      exact .inl ⟨hlast, hnext, hr, w, hwiped, hsame⟩
    · have hc : ¬committed 4 os := fun h => hnext h.2
      rw [if_neg hc] at hsame
      exact .inr (.inl ⟨hlast, hnext, hr, hsame⟩)
  · have hc : ¬committed 4 os := fun h => hlast h.1
    rw [if_neg hc] at hno
    exact .inr (.inr ⟨hlast, hno (decide_eq_false hlast)⟩)

theorem facing_wipe_undone : Triple (Facing (fun _ => True) ⟨u, none, os⟩) (wipeAndEnd channelId r)
    fun a d =>
      let wipe := answers 4 os
      (wipe.last = .ok ∧ a ≠ none ∧ ∃ w, Wiped channelId u w ∧ SameLayout w d.tables) ∨
      (wipe.last ≠ .ok ∧ a = none ∧
        applyAll ((wipeChannel channelId).take wipe.ran) u = some d.tables) := by
  obtain ⟨w, hw, hwiped⟩ := exists_wiped u channelId
  refine facing_statements hw (fun hlast => ?_) fun hlast v hv => ?_
  · exact facing_deleted.conseq (fun _ h => h) fun a d h => .inl ⟨hlast, h.2.1 rfl, w, hwiped, h.1⟩
  · refine facing_deleted.conseq (fun _ h => h) fun a d h => .inr ⟨hlast, (h.2.2 rfl).1, ?_⟩
    rw [(h.2.2 rfl).2]
    exact hv

end Runs

/-! ## When it is atomic -/

section Atomic

variable {r : Option WipeChannelResult}

theorem deletedAtomically_of_keys (hr : r ≠ none) (hk : t'.channels.keys = t.channels.keys) :
    DeletedAtomically channelId t t' r :=
  ⟨fun h => absurd h hr, fun hid hgone => absurd hid (hk ▸ hgone)⟩

theorem deletedAtomically_refused : DeletedAtomically channelId t t none :=
  ⟨fun _ => rfl, fun hid hgone => absurd hid hgone⟩

theorem deletedAtomically_iff_of_synced (hid : channelId ∈ t.channels.keys) (hr : r ≠ none)
    (hw : Wiped channelId u w) (hs : SameLayout w t')
    (hu : t.Followed channelId → ∃ id, Follows t.ordered id channelId ∧
      ∀ c ∈ t.channels.rows, c.id = id → c ∈ u.channels.rows) :
    DeletedAtomically channelId t t' r ↔ ¬t.Followed channelId := by
  constructor
  · rintro h hf
    obtain ⟨id, hf, hrow⟩ := hu hf
    have hne : id ≠ channelId := (ne_of_parentIn t.nodup_ordered hf.under hf.named).symm
    have hgone : channelId ∉ t'.channels.keys := hs.keys ▸ hw.gone
    obtain ⟨c, hc, hcid, hsynced⟩ := hf.synced
    have hc := hw.mem (hrow c (mem_ordered.1 hc) hcid) (hcid ▸ hne)
    obtain ⟨f, hf'⟩ := hs.rows
    have hc' : { c with position := f c } ∈ t'.channels.rows := hf' ▸ mem_map_of_mem hc
    have := (h.kept hid hgone id hf).2 _ hc' hcid
    simp [hsynced] at this
  · exact fun hf => ⟨fun h => absurd h hr, fun _ _ id h => absurd ⟨id, h⟩ hf⟩

theorem deletedAtomically_of_kept {v : Tables} {followers : List String} (hr : r ≠ none)
    (hf : ∀ id, Follows t.ordered id channelId → id ∈ followers)
    (hk : Kept (fun _ => t.overwritesOf channelId) (followers.map (·, channelId)) t v)
    (hv : SameRows v u) (hw : Wiped channelId u w) (hs : SameLayout w t') :
    DeletedAtomically channelId t t' r := by
  refine ⟨fun h => absurd h hr, fun _ _ id h => ?_⟩
  have hne : id ≠ channelId := (ne_of_parentIn t.nodup_ordered h.under h.named).symm
  have hmem : (id, channelId) ∈ followers.map (·, channelId) := mem_map_of_mem (hf id h)
  constructor
  · rw [overwritesOf_eq hs.overwrites, hw.overwritesOf hne, overwritesOf_eq hv.2]
    exact hk.own _ hmem
  · have hvu : v.Unsynced id := hk.unsynced (.inl (mem_map_of_mem (f := Prod.fst) hmem))
    have huu : u.Unsynced id := fun c hc => hvu c (hv.1 ▸ hc)
    exact hs.unsynced (hw.unsynced huu)

theorem facing_open_atomic {a : WipeChannelResult} (hid : channelId ∈ t.channels.keys)
    (ho : nextOf os = .ok) (hun : undoneBefore channelId (copyAnswers channelId t os.tail) = none)
    {v : Tables} (hv : SameRows v u)
    (hcopies : (copyAnswers channelId t os.tail).last = .ok ∧
        Kept (fun _ => t.overwritesOf channelId)
          ((t.layout.followers channelId).map (·, channelId)) t v ∨
      (copyAnswers channelId t os.tail).last ≠ .ok ∧ (t.Followed channelId →
        ∃ id, Follows t.ordered id channelId ∧ Untouched id t v)) :
    Triple (Facing (fun _ => True) ⟨u, some t, (copyAnswers channelId t os.tail).left.drop 4⟩)
      (wipeAndEnd channelId a)
      fun r d => DeletedAtomically channelId t d.tables r ↔ DeletesAtomically channelId t os := by
  refine facing_wipe_open.conseq (fun _ h => h) fun r d h => ?_
  rw [DeletesAtomically]
  simp only [hid, ho, true_imp_iff, hun]
  rcases h with ⟨hlast, hnext, hr, w, hw, hs⟩ | ⟨-, hnext, hr, hs⟩ | ⟨hlast, rfl, ht⟩
  · simp only [hlast, hnext, true_imp_iff]
    rcases hcopies with ⟨hok, hkept⟩ | ⟨hno, hu⟩
    · refine iff_of_true ?_ (.inl hok)
      exact deletedAtomically_of_kept hr
        (fun id h => (mem_followers t.nodup_ordered h.named).2 h) hkept hv hw hs
    · rw [or_iff_right hno]
      refine deletedAtomically_iff_of_synced hid hr hw hs fun hf => ?_
      obtain ⟨id, hf, hrow⟩ := hu hf
      exact ⟨id, hf, fun c hc hcid => hv.1 ▸ hrow c hc hcid⟩
  · exact iff_of_true (deletedAtomically_of_keys hr hs.keys) fun _ h => absurd h hnext
  · exact iff_of_true (ht ▸ deletedAtomically_refused) fun h => absurd h hlast

theorem facing_undone_atomic {a : WipeChannelResult} (hid : channelId ∈ t.channels.keys)
    (ho : nextOf os = .ok) {runs : List Stmt}
    (hun : undoneBefore channelId (copyAnswers channelId t os.tail) = some runs)
    (hruns : applyAll runs t = some u) (hu : SameRows t u) :
    Triple (Facing (fun _ => True) ⟨u, none, (copyAnswers channelId t os.tail).left.drop 4⟩)
      (wipeAndEnd channelId a)
      fun r d => DeletedAtomically channelId t d.tables r ↔ DeletesAtomically channelId t os := by
  refine facing_wipe_undone.conseq (fun _ h => h) fun r d h => ?_
  rw [DeletesAtomically]
  simp only [hid, ho, true_imp_iff, hun]
  rcases h with ⟨hlast, hr, w, hw, hs⟩ | ⟨hlast, rfl, hrun⟩
  · rw [if_pos hlast]
    refine deletedAtomically_iff_of_synced hid hr hw hs fun ⟨id, hf⟩ => ⟨id, hf, fun c hc _ => ?_⟩
    exact hu.1 ▸ hc
  · rw [if_neg hlast, applyAll_append, hruns, Option.bind_some, hrun]
    refine ⟨fun h => congrArg some (h.undone rfl), fun h => ?_⟩
    rw [Option.some.inj h]
    exact deletedAtomically_refused

theorem facing_keys_open {a : WipeChannelResult} {v : Tables} (hid : channelId ∈ t.channels.keys)
    (ho : nextOf os = .ok) (hopen : (copyAnswers channelId t os.tail).last ≠ .abort)
    (hcopies : (copyAnswers channelId t os.tail).last = .ok ∧
        Kept (fun _ => t.overwritesOf channelId)
          ((t.layout.followers channelId).map (·, channelId)) t v ∨
      (copyAnswers channelId t os.tail).last ≠ .ok ∧ (t.Followed channelId →
        ∃ id, Follows t.ordered id channelId ∧ Untouched id t v)) :
    Triple (Facing (fun _ => True) ⟨v, some t, (copyAnswers channelId t os.tail).left⟩)
      (do sql (deleteChannelKeys channelId); wipeAndEnd channelId a)
      fun r d => DeletedAtomically channelId t d.tables r ↔ DeletesAtomically channelId t os := by
  rw [deleteChannelKeys_eq]
  rcases run_execEach (keyDeletes_total channelId) v t (copyAnswers channelId t os.tail).left with
    ⟨hun, u, hu, hrun⟩ | ⟨runs, hun, u, hu, hrun⟩
  · exact (facing_sql hrun).bind_eq (facing_open_atomic hid ho ((if_neg hopen).trans hun)
      (sameRows_keyDeletes (runsOf_sublist _ _) hu) hcopies)
  · exact (facing_sql hrun).bind_eq (facing_undone_atomic hid ho ((if_neg hopen).trans hun) hu
      (sameRows_keyDeletes (undoneBy_sublist hun) hu))

theorem facing_keys_undone {a : WipeChannelResult} (hid : channelId ∈ t.channels.keys)
    (ho : nextOf os = .ok) (hundone : (copyAnswers channelId t os.tail).last = .abort) :
    Triple (Facing (fun _ => True) ⟨t, none, (copyAnswers channelId t os.tail).left⟩)
      (do sql (deleteChannelKeys channelId); wipeAndEnd channelId a)
      fun r d => DeletedAtomically channelId t d.tables r ↔ DeletesAtomically channelId t os := by
  rw [deleteChannelKeys_eq]
  obtain ⟨u, hu, hrun⟩ := run_execEach_idle (keyDeletes_total channelId) t
    (copyAnswers channelId t os.tail).left
  exact (facing_sql hrun).bind_eq (facing_undone_atomic hid ho (if_pos hundone) hu
    (sameRows_keyDeletes (runsOf_sublist _ _) hu))

theorem facing_deleteChannel {X : Uid → Table DbMeta.key → Prop} (t : Tables) (os : List Outcome)
    (channelId : String) : Triple (Facing (Memory.Sound X · t) ⟨t, none, os⟩) (deleteChannel channelId)
      fun r d => DeletedAtomically channelId t d.tables r ↔ DeletesAtomically channelId t os := by
  refine .get_bind fun d hd => ?_
  rw [hd.tables]
  refine .ite (fun hid => .pure fun d hd => ?_) fun hid => ?_
  · have hid : channelId ∉ t.channels.keys := by simpa using hid
    rw [hd.tables]
    exact iff_of_true deletedAtomically_refused fun h => absurd h hid
  have hid : channelId ∈ t.channels.keys := by simpa using hid
  refine facing_getLayout (facing_overwritesIf
    (facing_begin (fun ho => ?_) fun ho => .pure fun d hd => ?_))
  swap
  · rw [hd.tables]
    exact iff_of_true deletedAtomically_refused fun _ h => absurd h ho
  refine Triple.bind ((facing_copies (nodup_followers t.layout channelId)).conseq
    (fun _ h => h.imp fun _ _ => trivial) fun _ _ h => h) fun kept => ?_
  rintro d (⟨-, hok, v, hkept, hd⟩ | ⟨-, hno, v, ⟨e, he, huntouched⟩, hd⟩)
  · have hopen : (copyAnswers channelId t os.tail).last ≠ .abort := by
      rw [copyAnswers, hok]
      decide
    exact facing_keys_open hid ho hopen (.inl ⟨hok, hkept⟩) d hd
  · by_cases hab : (copyAnswers channelId t os.tail).last = .abort
    · have hundone : failed (copyAnswers channelId t os.tail).last
          (⟨v, some t, (copyAnswers channelId t os.tail).left⟩ : Conn Tables) =
          ⟨t, none, (copyAnswers channelId t os.tail).left⟩ := if_pos hab
      exact facing_keys_undone hid ho hab d (hundone ▸ hd)
    · have hopen : failed (copyAnswers channelId t os.tail).last
          (⟨v, some t, (copyAnswers channelId t os.tail).left⟩ : Conn Tables) =
          ⟨v, some t, (copyAnswers channelId t os.tail).left⟩ := if_neg hab
      refine facing_keys_open hid ho hab (.inr ⟨hno, ?_⟩) d (hopen ▸ hd)
      rintro ⟨_, hf⟩
      obtain ⟨id, hid, rfl⟩ := mem_map.1 he
      exact ⟨id, (mem_followers t.nodup_ordered hf.named).1 hid, huntouched⟩

/-- A syncing category `k` that hides its channels, and its follower `a`. -/
def hidden : Tables where
  channels := ⟨[
    { id := "k", name := [107], type := .category, position := 0, permSynced := false,
      categorySync := true },
    { id := "a", name := [97], type := .text, position := 1 }], by decide⟩
  roles := ⟨[{ id := 1, name := [], position := 0, permissions := Perms.kViewChannel,
               isDefault := true }], by decide⟩
  overwrites := .ofRows [⟨"k", 0, "1", 0, Perms.kViewChannel⟩]

/-- The database of these tables, with the answers `os`. -/
def privateCategory (os : List Outcome) : CommunityDb where
  conn := { tables := hidden, outcomes := os }

theorem quiet_privateCategory (os : List Outcome) :
    Quiet (Memory.Sound fun _ _ => True) (privateCategory os) :=
  ⟨⟨trivial, Memo.sound_empty, Memo.sound_empty, nofun, nofun⟩, rfl⟩

theorem follows_hidden : Follows hidden.ordered "a" "k" :=
  (mem_followers (nodup_ordered _) (by decide)).1 (by decide +kernel)

end Atomic

end CommunityDb
end Decibell
