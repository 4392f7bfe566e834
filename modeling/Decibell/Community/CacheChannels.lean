import Decibell.Community.CacheSound
import Decibell.Community.Order

/-!
# Channels keep the caches sound

The channel writers drop the layout and what was resolved through it when they are done, so while
they run only the users' entries and the overwrite rows count (`Moving`).
-/

namespace Decibell

open Lib Lib.Conn Tables List

namespace Memory

/-- The users' entries, and overwrite rows outside `S`, are what the tables give. -/
structure Moving (X : Uid → Table DbMeta.key → Prop) (S : String → Prop) (m : Memory) (t : Tables) :
    Prop where
  owner : X m.ownerCache t.serverMeta
  perm : m.permCache.Sound (t.permEntry m.ownerCache)
  overwrites : ∀ k rows, ¬S k → m.overwritesCache.find? k = some rows → rows = t.overwritesOf k

variable {X : Uid → Table DbMeta.key → Prop} {S S' : String → Prop} {m : Memory} {t t' : Tables}
  {id : String}

theorem Sound.moving (h : m.Sound X t) : m.Moving X S t :=
  ⟨h.owner, h.perm, fun k rows _ => h.overwrites k rows⟩

theorem Moving.mono (h : m.Moving X S t) (hS : ∀ k, S k → S' k) : m.Moving X S' t :=
  { h with overwrites := fun k rows hk => h.overwrites k rows fun hs => hk (hS k hs) }

theorem Moving.erase (h : m.Moving X (fun k => S k ∨ k = id) t) :
    ({ m with overwritesCache := m.overwritesCache.erase id } : Memory).Moving X S t := by
  refine { h with overwrites := fun k rows hk hf => ?_ }
  rw [Memo.find?_erase] at hf
  split at hf
  · cases hf
  · exact h.overwrites k rows (fun h' => h'.elim hk ‹_›) hf

theorem Moving.sound (h : m.Moving X (fun _ => False) t) :
    ({ m with layoutValid := false, channelPermCache := .empty } : Memory).Sound X t :=
  ⟨h.owner, h.perm, fun k rows => h.overwrites k rows id, nofun, by simp⟩

end Memory

namespace Tables

/-- The statement rewrites channels, and overwrite rows in `S` only. -/
def Rewrites (S : String → Prop) (stmt : Stmt) : Prop := ∀ t t', stmt t = some t' →
  t'.serverMeta = t.serverMeta ∧ t'.roles = t.roles ∧ t'.memberRoles = t.memberRoles ∧
    t'.roleSequence = t.roleSequence ∧ ∀ k, ¬S k → t'.overwritesOf k = t.overwritesOf k

variable {S : String → Prop} {stmt : Stmt} {id : String}

theorem rewrites_of_frame (h : ∀ t t', stmt t = some t' → t'.serverMeta = t.serverMeta ∧
    t'.roles = t.roles ∧ t'.memberRoles = t.memberRoles ∧ t'.roleSequence = t.roleSequence ∧
      t'.overwrites = t.overwrites) :
    Rewrites S stmt := fun t t' hs => by
  obtain ⟨hx, hr, hm, hq, ho⟩ := h t t' hs
  exact ⟨hx, hr, hm, hq, fun k _ => by rw [overwritesOf_congr ho]⟩

theorem rewrites_of_rows (hid : S id)
    (h : ∀ t t', stmt t = some t' → ∃ overwrites, t' = { t with overwrites } ∧
      ∀ k, k ≠ id → overwrites.rows.filter (·.channelId = k) = t.overwritesOf k) :
    Rewrites S stmt := fun t t' hs => by
  obtain ⟨overwrites, rfl, ho⟩ := h t t' hs
  exact ⟨rfl, rfl, rfl, rfl, fun k hk => ho k fun h' => hk (h' ▸ hid)⟩

theorem rewrites_setPosition (position : Int) : Rewrites S (setPosition id position) :=
  rewrites_of_frame (by rintro t _ ⟨⟩; exact ⟨rfl, rfl, rfl, rfl, rfl⟩)

theorem rewrites_setPermSynced (synced : Bool) : Rewrites S (setPermSynced id synced) :=
  rewrites_of_frame (by rintro t _ ⟨⟩; exact ⟨rfl, rfl, rfl, rfl, rfl⟩)

theorem rewrites_setCategorySync (on : Bool) : Rewrites S (setCategorySync id on) :=
  rewrites_of_frame (by rintro t _ ⟨⟩; exact ⟨rfl, rfl, rfl, rfl, rfl⟩)

theorem rewrites_deleteRows {p : DbOverwrite → Bool} (hid : S id)
    (hp : ∀ ow, p ow = true → ow.channelId = id) : Rewrites S (deleteOverwrites p) :=
  rewrites_of_rows hid (by
    rintro t _ ⟨⟩
    refine ⟨_, rfl, fun k hk => ?_⟩
    rw [Table.rows_deleteWhere, filter_filter, overwritesOf]
    refine filter_congr fun ow _ => ?_
    cases hpo : p ow with
    | false => simp
    | true => simp [hp ow hpo, Ne.symm hk])

theorem rewrites_insertRow {ow : DbOverwrite} (hid : S id) (how : ow.channelId = id) :
    Rewrites S (insertOverwrite ow) :=
  rewrites_of_rows hid fun t t' hs => by
    obtain ⟨overwrites, hi, rfl⟩ := Option.map_eq_some_iff.1 hs
    refine ⟨overwrites, rfl, fun k hk => ?_⟩
    rw [Table.rows_of_insert hi, overwritesOf, filter_append]
    simp [how, Ne.symm hk]

theorem rewrites_upsertRow {ow : DbOverwrite} (hid : S id) (how : ow.channelId = id) :
    Rewrites S (upsertOverwrite ow) :=
  rewrites_of_rows hid (by
    rintro t _ ⟨⟩
    refine ⟨_, rfl, fun k hk => Table.filter_upsert fun x hx => ?_⟩
    have : x.channelId = id := (congrArg Prod.fst hx).trans how
    simp [this, Ne.symm hk])

theorem rewrites_writeOwnOverwrites {rows : List DbOverwrite} {synced : Bool} (hid : S id)
    (hs : stmt ∈ writeOwnOverwrites id rows synced) : Rewrites S stmt := by
  rw [writeOwnOverwrites, cons_append, mem_cons, mem_append, mem_map,
    mem_singleton] at hs
  rcases hs with rfl | ⟨ow, -, rfl⟩ | rfl
  · exact rewrites_deleteRows hid fun ow => of_decide_eq_true
  · exact rewrites_insertRow hid rfl
  · exact rewrites_setPermSynced _

end Tables

theorem Memory.Moving.preserves {X : Uid → Table DbMeta.key → Prop} {S : String → Prop} {m : Memory}
    {stmt : Stmt} (h : Rewrites S stmt) : Preserves (Memory.Moving X S m) stmt := by
  intro t t' hm hs
  obtain ⟨hx, hr, hmr, -, ho⟩ := h t t' hs
  refine ⟨hx ▸ hm.owner, hm.perm.congr fun u _ _ => (permEntry_congr hr ?_).symm, fun k rows hk hf => ?_⟩
  · simp only [assignments, hmr]
  · rw [ho k hk]
    exact hm.overwrites k rows hk hf

namespace CommunityDb

open Memory

variable {X : Uid → Table DbMeta.key → Prop} {S : String → Prop}

/-! ## Steps in memory -/

theorem triple_invalidateChannelLayout :
    Triple (Quiet (Moving X fun _ => False)) invalidateChannelLayout fun _ => Quiet (Sound X) :=
  fun _ hd => ⟨hd.rel.sound, hd.idle⟩

theorem triple_eraseOverwritesCache (id : String) :
    Triple (Quiet (Moving X (fun k => S k ∨ k = id))) (eraseOverwritesCache id)
      fun _ => Quiet (Moving X S) :=
  fun _ hd => ⟨hd.rel.erase, hd.idle⟩

theorem triple_forgetChannel (id : String) {β : Type} {f : DbM β} {Q : β → CommunityDb → Prop}
    (hf : Triple (Quiet (Sound X)) f Q) :
    Triple (Quiet (Moving X (· = id)))
      (do eraseOverwritesCache id; invalidateChannelLayout; f) Q := by
  refine Triple.bind (Q := fun _ => Quiet (Moving X fun _ => False)) ?_ fun _ =>
    triple_invalidateChannelLayout.bind fun _ => hf
  exact (triple_eraseOverwritesCache id).conseq
    (fun _ h => h.imp fun _ _ hm => hm.mono fun _ => .inr) fun _ _ h => h

theorem keeps_of_answers {α : Type} {q : DbM α} {f : CommunityDb → α}
    (h : ∀ d, Quiet (Sound X) d → Answers X d q (f d)) : Keeps (Quiet (Sound X)) q :=
  fun d hd => (h d hd).quiet

theorem keeps_getLayout : Keeps (Quiet (Sound X)) getLayout :=
  keeps_of_answers fun _ hd => getLayout_spec hd

theorem keeps_overwrites (id : String) : Keeps (Quiet (Sound X)) (overwrites id) :=
  keeps_of_answers fun _ hd => overwrites_spec hd id

theorem keeps_overwritesIf (wanted : Bool) (id : String) :
    Keeps (Quiet (Sound X)) (overwritesIf wanted id) :=
  .ite (keeps_overwrites id) .pure

/-! ## Display order -/

theorem keeps_renumber (ids : List String) (position : Nat → Int) :
    Keeps (Inv (Moving X S)) (sql (execAll (renumber ids position))) :=
  keeps_execAll fun stmt hs m => by
    obtain ⟨i, hi, rfl⟩ := mem_mapIdx.1 hs
    exact .preserves (rewrites_setPosition _)

theorem triple_endMove (ok : Bool) {β : Type} {f : DbM β} {Q : β → CommunityDb → Prop}
    (hf : Triple (Quiet (Sound X)) f Q) :
    Triple (Inv (Moving X fun _ => False)) (do sql (finish ok); invalidateChannelLayout; f) Q :=
  triple_finish.bind fun _ => triple_invalidateChannelLayout.bind fun _ => hf

theorem keeps_normalizeChannelOrder : Keeps (Quiet (Sound X)) normalizeChannelOrder := by
  refine .get_bind fun d _ => triple_begin ?_ Keeps.pure
  refine Triple.conseq (Keeps.seq (keeps_renumber _ _) fun ok =>
    triple_finish.bind fun _ => triple_invalidateChannelLayout)
    (fun _ h => h.imp fun _ _ hm => hm.moving) fun _ _ h => h

theorem keeps_enforceSyncInvariant : Keeps (Quiet (Sound X)) enforceSyncInvariant := by
  refine keeps_getLayout.seq fun layout => .ite (fun _ => ?_) fun _ => Keeps.pure
  refine triple_begin ?_ Keeps.pure
  refine Triple.conseq (Keeps.seq (keeps_execAll fun stmt hs m => ?_) fun ok =>
    triple_finish.bind fun _ => triple_invalidateChannelLayout)
    (fun _ h => h.imp fun _ _ hm => hm.moving) fun _ _ h => h
  obtain ⟨id, -, rfl⟩ := mem_map.1 hs
  exact .preserves (rewrites_setPermSynced _)

/-! ## Overwrites and category sync -/

theorem keeps_writeOwnOverwrites {id : String} (hid : S id) (rows : List DbOverwrite) (synced : Bool) :
    Keeps (Inv (Moving X S)) (sql (execAll (writeOwnOverwrites id rows synced))) :=
  keeps_execAll fun _ hs _ => .preserves (rewrites_writeOwnOverwrites hid hs)

/-- The transaction that writes a channel's own rows, and what is forgotten. -/
theorem triple_writeOwn (id : String) (rows : List DbOverwrite) (synced : Bool) :
    Triple (Inv (Sound X)) (do
      let ok ← sql (execAll (writeOwnOverwrites id rows synced))
      sql (finish ok)
      eraseOverwritesCache id
      invalidateChannelLayout
      return ok) fun _ => Quiet (Sound X) := by
  refine Triple.conseq (P := Inv (Moving X (· = id))) ?_
    (fun _ h => h.imp fun _ _ hm => hm.moving) fun _ _ h => h
  refine (keeps_writeOwnOverwrites (S := (· = id)) rfl rows synced).seq fun ok => ?_
  exact triple_finish.bind fun _ => triple_forgetChannel id Keeps.pure

theorem keeps_syncChannelPermissions (id : String) :
    Keeps (Quiet (Sound X)) (syncChannelPermissions id) :=
  keeps_getLayout.seq fun _ => .ite (fun _ => Keeps.pure) fun _ =>
    triple_begin (triple_writeOwn id [] true) Keeps.pure

theorem keeps_restoreChannelOverwrites (id : String) (rows : List DbOverwrite) :
    Keeps (Quiet (Sound X)) (restoreChannelOverwrites id rows) :=
  triple_begin (triple_writeOwn id rows false) Keeps.pure

theorem keeps_setOverwrite (ow : DbOverwrite) : Keeps (Quiet (Sound X)) (setOverwrite ow) := by
  refine .get_bind fun d _ => ?_
  dsimp only
  cases d.tables.channels.find? ow.channelId with
  | none => exact Keeps.pure
  | some channel =>
  refine .ite (fun _ => Keeps.pure) fun _ => ?_
  refine (keeps_of_answers fun _ hd => overwriteSource_spec hd _).seq fun source => ?_
  refine (keeps_overwritesIf _ source).seq fun inherited => ?_
  -- dropped before the write as well, where it changes nothing
  refine Triple.bind (Q := fun _ => Quiet (Sound X)) ?_ fun _ => ?_
  · exact fun d hd => ⟨{ hd.rel with overwrites := hd.rel.overwrites.erase _ }, hd.idle⟩
  refine Triple.bind (Q := fun _ => Quiet (Sound X)) ?_ fun _ => ?_
  · exact fun d hd => ⟨hd.rel.moving.sound, hd.idle⟩
  refine Triple.conseq (P := Quiet (Moving X (· = ow.channelId))) ?_
    (fun _ h => h.imp fun _ _ hm => hm.moving) fun _ _ h => h
  refine Keeps.seq (keeps_transact fun stmt hs m => ?_) fun ok =>
    triple_forgetChannel ow.channelId Keeps.pure
  rcases mem_append.1 hs with hs | hs
  · rcases mem_append.1 hs with hs | hs
    · split at hs
      · cases hs
      · exact .preserves (rewrites_writeOwnOverwrites rfl hs)
    · split at hs
      · cases hs
      · obtain rfl := mem_singleton.1 hs
        exact .preserves (rewrites_setPermSynced _)
  · obtain rfl := mem_singleton.1 hs
    split
    · exact .preserves (rewrites_deleteRows rfl fun x hx => congrArg Prod.fst (of_decide_eq_true hx))
    · exact .preserves (rewrites_upsertRow rfl rfl)

theorem keeps_ownCopy (id : String) (r : List DbOverwrite) :
    Keeps (Inv (Moving X fun _ => False)) (do
      let ok ← sql (execAll (writeOwnOverwrites id r false))
      eraseOverwritesCache id
      return ok) := by
  refine Triple.conseq (P := Inv (Moving X (fun k => False ∨ k = id))) ?_
    (fun _ h => h.imp fun _ _ hm => hm.mono fun _ => .inl) fun _ _ h => h
  refine (keeps_writeOwnOverwrites (.inr rfl) r false).seq fun ok => ?_
  exact fun d hd => ⟨hd.1.erase, fun t ht => (hd.2 t ht).erase⟩

theorem keeps_keepOverwrites (rows : List DbOverwrite) (channels : List (String × String)) :
    Keeps (Inv (Moving X fun _ => False)) (keepOverwrites (fun _ => pure rows) channels) :=
  .allM fun ⟨id, _⟩ _ => .pure_bind (keeps_ownCopy id rows)

theorem keeps_setCategorySync (id : String) (on : Bool) :
    Keeps (Quiet (Sound X)) (setCategorySync id on) := by
  refine keeps_getLayout.seq fun layout => ?_
  cases layout.categorySyncOf.find? id with
  | none => exact Keeps.pure
  | some was =>
  refine .ite (fun _ => Keeps.pure) fun _ => ?_
  refine (keeps_overwritesIf _ id).seq fun rows => triple_begin ?_ Keeps.pure
  refine Triple.conseq (P := Inv (Moving X fun _ => False)) ?_
    (fun _ h => h.imp fun _ _ hm => hm.moving) fun _ _ h => h
  refine (keeps_keepOverwrites rows _).seq fun ok => ?_
  refine (keeps_execIf fun m => .preserves (rewrites_setCategorySync on)).seq fun ok => ?_
  exact triple_endMove ok Keeps.pure

theorem keeps_deleteChannelKeys (id : String) :
    Keeps (Inv (Moving X S)) (sql (deleteChannelKeys id)) := by
  refine keeps_sql fun m => ?_
  refine (within_exec ?_).bind fun _ => (within_exec ?_).bind fun _ => (within_exec ?_).bind fun _ =>
    (within_exec ?_).bind fun _ => .pure
  all_goals
    refine .preserves (rewrites_of_frame ?_)
    rintro t _ ⟨⟩
    exact ⟨rfl, rfl, rfl, rfl, rfl⟩

theorem keeps_deleteChannel (id : String) : Keeps (Quiet (Sound X)) (deleteChannel id) := by
  refine .get_bind fun d _ => .ite (fun _ => Keeps.pure) fun _ => ?_
  refine keeps_getLayout.seq fun layout => (keeps_overwritesIf _ id).seq fun rows => ?_
  refine triple_begin ?_ Keeps.pure
  refine Triple.conseq (P := Inv (Moving X fun _ => False)) ?_
    (fun _ h => h.imp fun _ _ hm => hm.moving) fun _ _ h => h
  refine (keeps_keepOverwrites rows _).seq fun _ => (keeps_deleteChannelKeys id).seq fun _ => ?_
  refine Triple.conseq (P := Inv (Moving X (· = id))) ?_
    (fun _ h => h.imp fun _ _ hm => hm.mono nofun) fun _ _ h => h
  refine (keeps_execAll fun stmt hs m => .preserves ?_).seq fun ok => triple_finish.bind fun _ =>
    triple_forgetChannel id ?_
  · exact .ite (fun _ => keeps_normalizeChannelOrder.seq fun _ => Keeps.pure) fun _ => Keeps.pure
  · simp only [wipeChannel, mem_cons, not_mem_nil, or_false] at hs
    rcases hs with rfl | rfl | rfl | rfl
    · exact rewrites_of_frame (by rintro t _ ⟨⟩; exact ⟨rfl, rfl, rfl, rfl, rfl⟩)
    · exact rewrites_of_frame (by rintro t _ ⟨⟩; exact ⟨rfl, rfl, rfl, rfl, rfl⟩)
    · exact rewrites_deleteRows rfl fun ow => of_decide_eq_true
    · exact rewrites_of_frame (by rintro t _ ⟨⟩; exact ⟨rfl, rfl, rfl, rfl, rfl⟩)

/-! ## Reordering -/

/-- While the categories' (`P`) rows are copied onto channels in `S`. -/
structure Copying (X : Uid → Table DbMeta.key → Prop) (P : String → Prop)
    (rows : String → List DbOverwrite) (S : String → Prop) (m : Memory) (t : Tables) : Prop
    extends m.Moving X S t where
  copied : ∀ k, P k → t.overwritesOf k = rows k

variable {P : String → Prop} {rows : String → List DbOverwrite}

theorem Copying.preserves {m : Memory} {stmt : Stmt} (h : Rewrites S stmt) (hP : ∀ k, P k → ¬S k) :
    Preserves (Copying X P rows S m) stmt := fun t t' hm hs =>
  { Moving.preserves h t t' hm.toMoving hs with
    copied := fun k hk => ((h t t' hs).2.2.2.2 k (hP k hk)).trans (hm.copied k hk) }

/-- A category's rows may be cached in the transaction, which rewrites none. -/
theorem overwrites_of_copying {k : String} (hk : P k) (hS : ¬S k) {d : CommunityDb}
    (hd : Inv (Copying X P rows S) d) :
    ((overwrites k).run d).1 = rows k ∧ ((overwrites k).run d).2.conn = d.conn ∧
      Inv (Copying X P rows S) ((overwrites k).run d).2 := by
  cases hf : d.overwritesCache.find? k with
  | some r =>
    have hrun : (overwrites k).run d = (r, d) := by simp [overwrites, hf]; rfl
    rw [hrun]
    exact ⟨(hd.1.overwrites k r hS hf).trans (hd.1.copied k hk), rfl, hd⟩
  | none =>
    let cache := (d.overwritesCache.bound cacheBound).emplace k (d.tables.overwritesOf k)
    have hrun : (overwrites k).run d =
        (d.tables.overwritesOf k, { d with overwritesCache := cache }) := by
      simp [overwrites, hf]; rfl
    rw [hrun]
    have fill : ∀ t, Copying X P rows S d.toMemory t →
        Copying X P rows S { d.toMemory with overwritesCache := cache } t := fun t ht =>
      { ht with
        overwrites := fun k' r hk' hr => by
          rcases Memo.find?_of_emplace hr with hr | ⟨rfl, rfl⟩
          · exact ht.overwrites k' r hk' (Memo.find?_of_bound hr)
          · exact (hd.1.copied k' hk).trans (ht.copied k' hk).symm }
    exact ⟨hd.1.copied k hk, rfl, fill _ hd.1, fun t ht => fill t (hd.2 t ht)⟩

theorem keeps_copy {id : String} (hid : ¬P id) (r : List DbOverwrite) :
    Keeps (Inv (Copying X P rows fun _ => False)) (do
      let ok ← sql (execAll (writeOwnOverwrites id r false))
      eraseOverwritesCache id
      return ok) := by
  refine Triple.conseq (P := Inv (Copying X P rows (fun k => False ∨ k = id))) ?_
    (fun _ h => h.imp fun _ _ hm => { hm with toMoving := hm.toMoving.mono fun _ => .inl })
    fun _ _ h => h
  refine Keeps.seq (keeps_execAll fun stmt hs m => Copying.preserves
    (rewrites_writeOwnOverwrites (.inr rfl) hs) ?_) fun ok => ?_
  · rintro k hk (hf | rfl)
    · exact hf
    · exact hid hk
  · exact fun d hd => ⟨{ hd.1 with toMoving := hd.1.erase },
      fun t ht => { hd.2 t ht with toMoving := (hd.2 t ht).erase }⟩

theorem keeps_copies {channels : List (String × String)}
    (h : ∀ e ∈ channels, P e.2 ∧ ¬P e.1) :
    Keeps (Inv (Copying X P rows fun _ => False)) (keepOverwrites overwrites channels) :=
  .allM fun ⟨_, _⟩ he => Keeps.seq
    (fun _ hd => (overwrites_of_copying (h _ he).1 id hd).2.2) fun r => keeps_copy (h _ he).2 r

theorem triple_getLayout {β : Type} {f : ChannelLayout → DbM β} {Q : β → CommunityDb → Prop}
    (h : ∀ rows : List DbChannel, (rows.map DbChannel.id).Nodup →
      Triple (Quiet (Sound X)) (f (.ofRows rows "" {})) Q) :
    Triple (Quiet (Sound X)) (getLayout >>= f) Q := by
  intro d hd
  have ha := getLayout_spec hd
  rw [run_bind, ha.value]
  exact h _ (nodup_ids d.tables.perm_ordered) _ ha.quiet

theorem keeps_reorderChannels (orderedIds : List String) :
    Keeps (Quiet (Sound X)) (reorderChannels orderedIds) := by
  refine .get_bind fun d _ => .ite (fun _ => ?_) fun _ => Keeps.pure
  refine triple_getLayout fun rows hn => ?_
  -- the rest, once the copies are made or none is to be made
  have hend : Keeps (Quiet (Sound X)) (do enforceSyncInvariant; return true) :=
    keeps_enforceSyncInvariant.seq fun _ => Keeps.pure
  refine triple_begin ?_ Keeps.pure
  refine Triple.conseq (P := Inv (Moving X fun _ => False)) ?_
    (fun _ h => h.imp fun _ _ hm => hm.moving) fun _ _ h => h
  refine (keeps_renumber _ _).seq fun ok => triple_endMove ok (.ite (fun _ => ?_) fun _ => Keeps.pure)
  refine keeps_normalizeChannelOrder.seq fun _ => ?_
  refine Triple.bind (Q := fun _ => Quiet (Sound X)) ?_ fun _ => keeps_getLayout.seq fun layout => ?_
  · exact fun d hd => ⟨{ hd.rel with layout := fun _ => rfl }, hd.idle⟩
  refine .ite (fun _ => triple_tables fun t₀ => triple_begin ?_ ?_) fun _ => hend
  · -- the categories that were followed, with the rows they have now
    refine Triple.conseq (P := Inv (Copying X (fun k => ∃ id, ChannelLayout.Follows rows id k)
      t₀.overwritesOf fun _ => False)) ?_ (fun _ h => h.imp ?_) fun _ _ h => h
    · refine Keeps.seq (keeps_copies ?followed) fun kept => ?copied
      case followed =>
        intro ⟨id, parent⟩ he
        have hf := (ChannelLayout.mem_followed hn).1 (mem_filter.1 he).1
        exact ⟨⟨id, hf⟩, fun ⟨_, hf'⟩ => hf.ne_parent hn hf' rfl⟩
      case copied =>
        refine Triple.bind (Q := fun _ => Quiet (Moving X fun _ => False)) ?_ fun _ =>
          triple_invalidateChannelLayout.bind fun _ => hend
        exact triple_finish.conseq (fun _ h => h.imp fun _ _ hm => hm.toMoving) fun _ _ h => h
    · rintro m t ⟨hm, rfl⟩
      exact { hm.moving with copied := fun _ _ => rfl }
  · exact hend.conseq (fun _ h => h.imp fun _ _ hm => hm.1) fun _ _ h => h

/-! ## Creating a channel -/

/-- The right layout is left: one is cached, or no position's failure leaves the transaction open.
    -/
def CreatesSoundly (d : CommunityDb) : Prop :=
  d.layoutValid = true ∨
    ∀ o ∈ d.conn.outcomes.tail.take d.tables.channels.rows.length, o ≠ .fail

instance (d : CommunityDb) : Decidable d.CreatesSoundly :=
  inferInstanceAs (Decidable (_ ∨ ∀ o ∈ _, o ≠ _))

/-- In a creation's transaction: undoing leads to `t₀`, for which the memory is right. -/
structure Creating (X : Uid → Table DbMeta.key → Prop) (t₀ : Tables) (d : CommunityDb) : Prop where
  inv : Inv (Moving X fun _ => False) d
  sound : d.toMemory.Sound X t₀
  base : d.conn.base = t₀

variable {t₀ : Tables}

theorem triple_renumber_creating {d : CommunityDb} (hd : Quiet (Sound X) d)
    (hc : d.CreatesSoundly) (hb : ((begin (T := Tables)).run d.conn).1 = true) (idx : Nat) :
    Triple (· = ((sql begin).run d).2)
      (sql (execAll (renumber (d.tables.ordered.map DbChannel.id)
        fun i => if i < idx then i else i + 1)))
      fun ok d' => Creating X d.tables d' ∧ (ok = true → d'.conn.saved = some d.tables) ∧
        (d'.layoutValid = true ∨ d'.tables.layout = d.tables.layout) := by
  rintro s rfl
  have hconn : ((sql begin).run d).2.conn = { d.conn.used with saved := some d.tables } :=
    begin_of_true hb
  generalize hpos : (fun i : Nat => if i < idx then (i : Int) else i + 1) = position
  have hmono : ∀ i j, i < j → position i < position j := hpos ▸ gap_lt idx
  have hn := nodup_ids d.tables.perm_ordered
  have hinv : Inv (Sound X) ((sql begin).run d).2 := within_begin d.conn hd.inv
  have hinv := keeps_renumber (d.tables.ordered.map DbChannel.id) position _
    (hinv.imp fun _ _ hm => hm.moving (S := fun _ => False))
  have hsaved : ((sql begin).run d).2.conn.saved = some d.tables := by rw [hconn]
  have happly : applyAll (renumber (d.tables.ordered.map DbChannel.id) position)
      ((sql begin).run d).2.conn.tables =
        some (d.tables.repositioned (d.tables.ordered.map DbChannel.id) position) := by
    rw [hconn]
    exact applyAll_renumber hn position d.tables
  have hlayout := layout_repositioned d.tables.perm_ordered hmono
  rcases execAll_spec _ hsaved with ⟨hok, ha, hs⟩ | ⟨hok, hbase⟩
  · refine ⟨⟨hinv, hd.rel, ?_⟩, fun _ => hs, .inr ?_⟩
    · exact (congrArg (Option.getD · _) hs)
    · rw [happly] at ha
      exact (congrArg Tables.layout (Option.some.inj ha)).symm.trans hlayout
  · refine ⟨⟨hinv, hd.rel, hbase⟩, fun h => absurd (hok.symm.trans h) Bool.false_ne_true, ?_⟩
    -- a position that is not written here is answered by undoing the transaction
    refine hc.imp id fun hf => ?_
    have habort := execAll_of_no_fail (renumber (d.tables.ordered.map DbChannel.id) position)
      hsaved (fun stmt hs t => ?_) (by
        rw [hconn]
        simpa [used, renumber, d.tables.perm_ordered.length_eq] using hf)
    · rcases habort with h | ⟨-, ht⟩
      · exact absurd (hok.symm.trans h) Bool.false_ne_true
      · exact congrArg Tables.layout ht
    · obtain ⟨i, hi, rfl⟩ := mem_mapIdx.1 hs
      exact Option.some_ne_none _

theorem triple_getLayout_creating {ok : Bool} :
    Triple (fun d => Creating X t₀ d ∧ (ok = true → d.conn.saved = some t₀) ∧
        (d.layoutValid = true ∨ d.tables.layout = t₀.layout)) getLayout
      fun _ d => Creating X t₀ d ∧ (ok = true → d.conn.saved = some t₀) := by
  rintro d ⟨hd, hs, hl⟩
  cases hv : d.layoutValid with
  | true =>
    have hrun : getLayout.run d = (d.layout, d) := by simp [getLayout, hv]; rfl
    rw [hrun]
    exact ⟨hd, hs⟩
  | false =>
    have hrun : getLayout.run d =
        (d.tables.layout, { d with layout := d.tables.layout, layoutValid := true }) := by
      simp [getLayout, hv, rebuildChannelLayout]; rfl
    rw [hrun]
    have hl : d.tables.layout = t₀.layout := hl.resolve_left (by simp [hv])
    have fill : ∀ t, Moving X (fun _ => False) d.toMemory t → Moving X (fun _ => False)
        { d.toMemory with layout := d.tables.layout, layoutValid := true } t := fun _ ht =>
      ⟨ht.owner, ht.perm, ht.overwrites⟩
    exact ⟨⟨⟨fill _ hd.inv.1, fun t ht => fill t (hd.inv.2 t ht)⟩,
      { hd.sound with layout := fun _ => hl }, hd.base⟩, hs⟩

theorem triple_insert_creating {ok : Bool} {stmt : Stmt} (h : Rewrites (fun _ => False) stmt) :
    Triple (fun d => Creating X t₀ d ∧ (ok = true → d.conn.saved = some t₀)) (sql (execIf ok stmt))
      fun _ => Creating X t₀ := by
  rintro d ⟨hd, hs⟩
  refine ⟨keeps_execIf (fun m => .preserves h) d hd.inv, hd.sound, ?_⟩
  cases ok with
  | true => exact base_exec (hs rfl)
  | false => exact hd.base

/-- A creation ends: undone, all is as before; committed, the layout and what it resolved are
    dropped. -/
theorem triple_finish_creating {ok : Bool} {channel : DbChannel} :
    Triple (Creating X t₀) (do
      sql (finish ok)
      if ok then
        normalizeChannelOrder
        invalidateChannelLayout
        return some channel
      else return none) fun _ => Quiet (Sound X) := by
  cases ok with
  | false =>
    intro d hd
    refine ⟨?_, rfl⟩
    have hs := hd.sound
    rw [← hd.base] at hs
    exact hs
  | true =>
    refine Triple.conseq (P := Inv (Moving X fun _ => False)) ?_ (fun _ h => h.inv) fun _ _ h => h
    refine triple_finish.bind fun _ => ?_
    refine Triple.bind (Q := fun _ => Quiet (Moving X fun _ => False)) ?_ fun _ =>
      triple_invalidateChannelLayout.bind fun _ => Keeps.pure
    refine .get_bind fun d _ => triple_begin ?_ Keeps.pure
    exact Keeps.seq (keeps_renumber _ _) fun ok => triple_finish.bind fun _ =>
      triple_invalidateChannelLayout.conseq (fun _ h => h) fun _ _ h => h.imp fun _ _ hm => hm.moving

theorem rewrites_insertChannel (c : DbChannel) {S : String → Prop} : Rewrites S (insertChannel c) :=
  rewrites_of_frame fun t t' h => by
    obtain ⟨channels, -, rfl⟩ := Option.map_eq_some_iff.1 h
    exact ⟨rfl, rfl, rfl, rfl, rfl⟩

theorem triple_createChannel {d : CommunityDb} (hd : Quiet (Sound X) d) (hc : d.CreatesSoundly)
    (rawName : Bytes) (type : ChannelType) (voiceBitrateKbps : Int) (categoryId : String)
    (encrypted : Bool) :
    Triple (d = ·) (createChannel rawName type voiceBitrateKbps categoryId encrypted)
      fun _ => Quiet (Sound X) := by
  have hpure : ∀ r : Option DbChannel, Triple (d = ·) (pure r) fun _ => Quiet (Sound X) :=
    fun _ _ h => h ▸ hd
  refine .get_bind ?_
  rintro _ rfl
  refine .ite (fun _ => hpure _) fun _ => ?_
  cases insertionIndex d.tables.ordered type categoryId with
  | none => exact hpure _
  | some idx =>
    rintro _ rfl
    rw [run_bind]
    rcases begin_spec hd.idle with ⟨hb, -, -⟩ | ⟨hb, -, hi⟩
    · have hb' : ((sql begin).run d).1 = true := hb
      rw [hb', if_pos rfl]
      refine Triple.bind (R := fun _ => Quiet (Sound X)) (triple_renumber_creating hd hc hb idx)
        (fun ok => ?_) _ rfl
      exact triple_getLayout_creating.bind fun layout =>
        (triple_insert_creating (rewrites_insertChannel _)).bind fun ok => triple_finish_creating
    · have hb' : ((sql begin).run d).1 = false := hb
      have hinv : Inv (Sound X) ((sql begin).run d).2 := within_begin d.conn hd.inv
      rw [hb', if_neg Bool.false_ne_true]
      exact hinv.quiet hi

/-! ## Voice passes -/

theorem Sound.setPasses {m : Memory} {t : Tables} (h : m.Sound X t) {uid : Uid}
    {passes : Memo Uid (List String)}
    (hp : ∀ u, u ≠ uid → passes.find? u = m.voicePasses.find? u) :
    ({ m with voicePasses := passes, channelPermCache := m.channelPermCache.erase uid } :
      Memory).Sound X t :=
  { h with
    channelPerm := fun u c hu => by
      rw [Memo.find?_erase] at hu
      split at hu
      · cases hu
      · refine (h.channelPerm u c hu).congr fun ch _ _ => ?_
        rw [Memory.channelPermissions, Memory.channelPermissions, Memory.hasVoicePass,
          Memory.hasVoicePass, hp u ‹_›] }

theorem keeps_grantVoicePass (uid : Uid) (id : String) :
    Keeps (Quiet (Sound X)) (grantVoicePass uid id) :=
  fun d hd => ⟨Sound.setPasses hd.rel fun u hu => by rw [Memo.find?_set, if_neg hu], hd.idle⟩

theorem keeps_revokeVoicePass (uid : Uid) (id : String) :
    Keeps (Quiet (Sound X)) (revokeVoicePass uid id) := by
  refine .get_bind fun d _ => .ite (fun _ => ?_) fun _ => Keeps.pure
  refine Triple.bind (Q := fun _ => Quiet (Sound X)) ?_ fun _ => Keeps.pure
  refine fun d hd => ⟨Sound.setPasses hd.rel fun u hu => ?_, hd.idle⟩
  split
  · rw [Memo.find?_erase, if_neg hu]
  · rw [Memo.find?_set, if_neg hu]

end CommunityDb
end Decibell
