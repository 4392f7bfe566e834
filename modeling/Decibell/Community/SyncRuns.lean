import Decibell.Community.Faults

/-!
# Category sync never leaks permissions

The channel writers as they run with no statement failing (`Sees`): each leaves the tables that
`SyncInv` and the rules of the surviving channels are known for.
-/

namespace Decibell

open Lib Lib.Conn Tables ChannelLayout List

namespace CommunityDb

open Memory

/-! ## Running without failures -/

section Clean

variable {M N : Memory → Prop} {t t' t₀ : Tables} {sv : Option Tables} {β : Type} {m₁ m₂ : DbM β}
  {Q : β → CommunityDb → Prop}

/-- The connection sees `t`, nothing fails, and the memory satisfies `M`. -/
structure Sees (M : Memory → Prop) (t : Tables) (sv : Option Tables) (d : CommunityDb) : Prop where
  memory : M d.toMemory
  conn : d.conn = ⟨t, sv, []⟩

theorem Sees.tables {d : CommunityDb} (h : Sees M t sv d) : d.tables = t := congrArg Conn.tables h.conn

theorem Sees.imp {d : CommunityDb} (h : Sees M t sv d) (hM : ∀ m, M m → N m) : Sees N t sv d :=
  ⟨hM _ h.memory, h.conn⟩

theorem sees_begin (h : Triple (Sees M t (some t)) m₁ Q) :
    Triple (Sees M t none) (do if ← sql begin then m₁ else m₂) Q := by
  refine Triple.bind_eq (a := true) (S := Sees M t (some t)) (fun d hd => ?_) h
  have hb : (begin (T := Tables)).run d.conn = (true, ⟨t, some t, []⟩) := by
    rw [hd.conn]
    rfl
  exact ⟨congrArg Prod.fst hb, hd.memory, congrArg Prod.snd hb⟩

theorem sees_execAll {stmts : List Stmt} (h : applyAll stmts t = some t') :
    Triple (Sees M t sv) (sql (execAll stmts)) fun ok d => ok = true ∧ Sees M t' sv d := by
  intro d hd
  have he : (execAll stmts).run d.conn = (true, ⟨t', sv, []⟩) := by rw [hd.conn, run_execAll_of_ok h]
  exact ⟨congrArg Prod.fst he, hd.memory, congrArg Prod.snd he⟩

theorem sees_execAll_refused {stmts : List Stmt} (h : applyAll stmts t = none) :
    Triple (Sees M t sv) (sql (execAll stmts)) fun ok d => ok = false ∧ ∃ t', Sees M t' sv d := by
  intro d hd
  obtain ⟨t', he⟩ := run_execAll_of_refused sv h
  rw [← hd.conn] at he
  exact ⟨congrArg Prod.fst he, t', hd.memory, congrArg Prod.snd he⟩

theorem sees_finish {ok : Bool} :
    Triple (Sees M t (some t₀)) (sql (finish ok)) fun _ => Sees M (if ok then t else t₀) none := by
  intro d hd
  have hf : ((finish ok).run d.conn).2 = ⟨if ok then t else t₀, none, []⟩ := by
    rw [hd.conn]
    cases ok <;> rfl
  exact ⟨hd.memory, hf⟩

theorem sees_modify {f : Memory → Memory} (hf : ∀ m, M m → N (f m)) :
    Triple (Sees M t sv) (modify fun d => { d with toMemory := f d.toMemory })
      fun _ => Sees N t sv :=
  fun _ hd => ⟨hf _ hd.memory, hd.conn⟩

theorem sees_answer {X : Uid → Table DbMeta.key → Prop} {α : Type} {q : DbM α} {a : α} {f : α → DbM β}
    (h : ∀ d, Quiet (Sound X) d → d.tables = t → Answers X d q a)
    (hf : Triple (Sees (Sound X · t) t none) (f a) Q) :
    Triple (Sees (Sound X · t) t none) (q >>= f) Q := by
  refine Triple.bind_eq (a := a) (S := Sees (Sound X · t) t none) (fun d hd => ?_) hf
  have ht := hd.tables
  have ha := h d ⟨ht.symm ▸ hd.memory, congrArg Conn.saved hd.conn⟩ ht
  refine ⟨ha.value, ?_, ha.same.conn.trans hd.conn⟩
  have := ha.quiet.rel
  rwa [ha.same.tables, ht] at this

theorem sees_transaction {stmts : List Stmt} {f : Bool → DbM β} (h : applyAll stmts t = some t')
    (hf : Triple (Sees M t' none) (f true) Q) :
    Triple (Sees M t (some t₀)) (do
      let ok ← sql (execAll stmts)
      sql (finish ok)
      f ok) Q :=
  (sees_execAll h).bind_eq (Triple.bind (Q := fun _ => Sees M t' none) sees_finish fun _ => hf)

theorem sees_transaction_refused {stmts : List Stmt} {f : Bool → DbM β} (h : applyAll stmts t = none)
    (hf : Triple (Sees M t₀ none) (f false) Q) :
    Triple (Sees M t (some t₀)) (do
      let ok ← sql (execAll stmts)
      sql (finish ok)
      f ok) Q := by
  refine Triple.bind_eq (a := false) (S := fun d => ∃ t', Sees M t' (some t₀) d)
    (sees_execAll_refused h) ?_
  rintro d ⟨t', hd⟩
  exact Triple.bind (Q := fun _ => Sees M t₀ none) sees_finish (fun _ => hf) d hd

theorem sees_invalidateLayout {f : DbM β}
    (hM : ∀ m, M m → N { m with layoutValid := false, channelPermCache := .empty })
    (hf : Triple (Sees N t sv) f Q) :
    Triple (Sees M t sv) (do invalidateChannelLayout; f) Q :=
  (sees_modify hM).bind fun _ => hf

theorem sees_normalizeChannelOrder
    (hM : ∀ m, M m → N { m with layoutValid := false, channelPermCache := .empty }) :
    Triple (Sees M t none) normalizeChannelOrder fun _ => Sees N (normalized t) none := by
  refine .get_bind fun d hd => ?_
  rw [hd.tables]
  have hn := nodup_ids ((normalizeRows_perm t.ordered [] []).trans t.perm_ordered)
  exact sees_begin (sees_transaction (applyAll_renumber hn _ t) (sees_modify hM))

theorem sees_iff {d : CommunityDb} : Sees M t sv d ↔ Facing M ⟨t, sv, []⟩ d :=
  ⟨fun h => ⟨h.memory, h.conn⟩, fun h => ⟨h.memory, h.conn⟩⟩

theorem sees_of_facing {m : DbM Bool} {n : Nat} {R : Tables → Prop}
    {U : Tables → Prop} (h : Triple (Facing M ⟨t, sv, []⟩) m fun ok d =>
      (ok = true ∧ (answers n []).last = .ok ∧ ∃ t', R t' ∧ Facing M ⟨t', sv, (answers n []).left⟩ d) ∨
      (ok = false ∧ (answers n []).last ≠ .ok ∧ ∃ u, U u ∧
        Facing M (failed (answers n []).last ⟨u, sv, (answers n []).left⟩) d)) :
    Triple (Sees M t sv) m fun ok d => ok = true ∧ ∃ t', R t' ∧ Sees M t' sv d := by
  intro d hd
  have hcopies := h d (sees_iff.1 hd)
  rw [answers_nil] at hcopies
  obtain ⟨hok, -, t', hk, hd⟩ | ⟨-, hno, -⟩ := hcopies
  · exact ⟨hok, t', hk, sees_iff.2 hd⟩
  · exact absurd rfl hno

end Clean

/-! ## Reordering -/

section Operations

variable {X : Uid → Table DbMeta.key → Prop} {t : Tables}

/-- The operation leaves tables of which `R` holds; nothing fails next. -/
def Leaves (R : Tables → Prop) (d : CommunityDb) : Prop := ∃ t', d.conn = ⟨t', none, []⟩ ∧ R t'

/-- Sync is as it should be, and channels but `k` have the rules they had. -/
def SameRules (t : Tables) (k : Option String) (t' : Tables) : Prop :=
  SyncInv t' ∧ ∀ id, some id ≠ k → t'.rules id = t.rules id

theorem leaves_refl {M : Memory → Prop} {d : CommunityDb} {k : Option String} (ht : SyncInv t)
    (hd : Sees M t none d) : Leaves (SameRules t k) d :=
  ⟨t, hd.conn, ht, fun _ _ => rfl⟩

theorem sees_getLayout {β : Type} {f : ChannelLayout → DbM β} {Q : β → CommunityDb → Prop}
    (hf : Triple (Sees (Sound X · t) t none) (f t.layout) Q) :
    Triple (Sees (Sound X · t) t none) (getLayout >>= f) Q :=
  sees_answer (fun _ hd ht => ht ▸ getLayout_spec hd) hf

/-- The layout of the tables, if one is remembered. -/
def RemembersLayout (l : ChannelLayout) (m : Memory) : Prop := m.layoutValid = true → m.layout = l

theorem sees_getLayout_fresh {β : Type} {f : ChannelLayout → DbM β} {Q : β → CommunityDb → Prop}
    {M : Memory → Prop} {sv : Option Tables} {l : ChannelLayout} (hl : t.layout = l)
    (hM : ∀ m, M m → RemembersLayout l m)
    (hset : ∀ m, M m → M { m with layout := l, layoutValid := true })
    (hf : Triple (Sees M t sv) (f l) Q) : Triple (Sees M t sv) (getLayout >>= f) Q :=
  (facing_getLayout_fresh hl hM hset (hf.conseq (fun _ => sees_iff.2) fun _ _ h => h)).conseq
    (fun _ => sees_iff.1) fun _ _ h => h

theorem sees_enforceSyncInvariant (ht : SyncInv t) :
    Triple (Sees (RemembersLayout t.layout) t none) enforceSyncInvariant
      fun _ => Sees (RemembersLayout t.layout) t none := by
  refine sees_getLayout_fresh rfl (fun _ h => h) (fun _ _ _ => rfl) (.ite (fun h => ?_) fun _ => ?_)
  · refine absurd (map_eq_nil_iff.2 (filter_eq_nil_iff.2 ?_)) h
    rintro ⟨id, synced⟩ he hs
    simp only [Bool.and_eq_true, decide_eq_true_eq] at hs
    obtain ⟨rfl, hsource⟩ := hs
    rw [Memo.mem_entries] at he
    rcases ht.follows_or_unsynced id with ⟨parent, hf⟩ | hu
    · exact ne_of_parentIn t.nodup_ordered hf.under hf.named ((source_of_follows hf).symm.trans hsource)
    · rw [Tables.layout, find?_syncedOf t.nodup_ordered] at he
      cases hc : t.ordered.find? (·.id = id) with
      | none =>
        rw [hc] at he
        cases he
      | some c =>
        have hcu := hu c (mem_ordered.1 (mem_of_find?_eq_some hc))
          (by simpa using find?_some hc)
        simp [hc, hcu] at he
  · exact .pure fun _ h => h

theorem sees_reorderChannels (ht : SyncInv t) (orderedIds : List String) :
    Triple (Sees (Sound X · t) t none) (reorderChannels orderedIds)
      fun _ => Leaves (SameRules t none) := by
  refine .get_bind fun d hd => ?_
  rw [hd.tables]
  refine .ite (fun hids => sees_getLayout ?_) fun _ => .pure fun _ => leaves_refl ht
  -- from here on only the rows of the followed categories are asked for
  let M : Memory → Prop := fun m => m.overwritesCache.Sound t.overwritesOf
  refine Triple.conseq (P := Sees M t none) (sees_begin ?_)
    (fun _ h => h.imp fun _ hm => hm.overwrites) fun _ _ h => h
  refine sees_transaction (applyAll_renumber hids.1 _ t)
    (sees_invalidateLayout (N := M) (fun _ h => h) ?_)
  refine (sees_normalizeChannelOrder (N := M) fun _ h => h).bind fun _ => ?_
  generalize hu : normalized (t.repositioned orderedIds fun i => i) = u
  have hr : Reordered t u := hu ▸ (reordered_repositioned t _ _).trans (reordered_repositioned _ _ _)
  let ML : Memory → Prop := fun m => M m ∧ RemembersLayout u.layout m
  refine Triple.bind (Q := fun _ => Sees ML u none)
    (fun d hd => ⟨⟨hd.memory, fun _ => congrArg Tables.layout hd.tables⟩, hd.conn⟩) fun _ => ?_
  refine sees_getLayout_fresh rfl (fun _ h => h.2) (fun _ h => ⟨h.1, fun _ => rfl⟩) ?_
  -- who followed a category, and is no longer under it
  generalize hm : u.layout.movedFrom t.layout.followed = moved
  have hmoved : ∀ id parent, (id, parent) ∈ moved ↔
      Follows t.ordered id parent ∧ u.layout.parentCategory id ≠ parent := fun id parent => by
    rw [← hm, movedFrom, mem_filter, ← mem_followed t.nodup_ordered]
    exact and_congr_right fun _ => decide_eq_true_iff
  have hend : ∀ t', Kept u.overwritesOf moved u t' →
      Triple (Sees (RemembersLayout t'.layout) t' none) (do enforceSyncInvariant; return true)
        fun _ => Leaves (SameRules t none) := fun t' hk => by
    obtain ⟨hinv, hrules⟩ := ht.reordered hr hk hmoved
    exact (sees_enforceSyncInvariant hinv).bind fun _ =>
      .pure fun _ h => ⟨t', h.conn, hinv, fun id _ => hrules id⟩
  refine .ite (fun _ => sees_begin ?_) fun hnil => ?_
  · have hcopies : Triple (Sees ML u (some u)) (keepOverwrites overwrites moved) fun ok d =>
        ok = true ∧ ∃ t', Kept u.overwritesOf moved u t' ∧ Sees ML t' (some u) d :=
      sees_of_facing <| facing_keepOverwrites (P := fun k => ∃ id, Follows t.ordered id k) ?nodup ?parents
        (fun k => ⟨u, k, rfl⟩) ?rows (fun id m h => ⟨h.1.erase id, h.2⟩) fun _ _ => rfl
    · refine hcopies.bind fun kept => ?_
      rintro d ⟨rfl, t', hk, hd⟩
      have hfinish : Triple (Sees ML t' (some u)) (sql (finish true)) fun _ => Sees ML t' none :=
        sees_finish
      exact hfinish.bind (fun _ => sees_invalidateLayout (N := RemembersLayout t'.layout)
        (fun _ _ h => by cases h) (hend t' hk)) d hd
    case nodup =>
      rw [← hm]
      exact t.layout.parentOf.nodup.sublist ((filter_sublist.trans filter_sublist).map _)
    case parents =>
      intro e he
      have hf := ((hmoved e.1 e.2).1 he).1
      exact fun ⟨_, hf'⟩ => hf.ne_parent t.nodup_ordered hf' rfl
    case rows =>
      have hover : u.overwritesOf = t.overwritesOf := funext (overwritesOf_eq hr.overwrites)
      intro e he v os hv
      refine facing_overwrites (fun m h v hf => ?_) (fun m h => ⟨?_, h.2⟩)
        (hv e.2 ⟨_, ((hmoved _ _).1 he).1⟩)
      · rw [hover]
        exact h.1 _ v hf
      · rw [hover]
        exact (h.1.bound _).emplace e.2
  · rw [not_not] at hnil
    subst hnil
    exact (hend u .nil).conseq (fun _ h => h.imp fun _ hm => hm.2) fun _ _ h => h

/-! ## Rows of one channel, and category sync -/

theorem sees_overwriteSource {β : Type} {id : String} {f : String → DbM β} {Q : β → CommunityDb → Prop}
    (hf : Triple (Sees (Sound X · t) t none) (f (t.layout.source id)) Q) :
    Triple (Sees (Sound X · t) t none) (overwriteSource id >>= f) Q :=
  sees_answer (fun _ hd ht => ht ▸ overwriteSource_spec hd id) hf

theorem sees_overwritesIf {β : Type} {wanted : Prop} [Decidable wanted] {id : String}
    {f : List DbOverwrite → DbM β} {Q : β → CommunityDb → Prop}
    (hf : Triple (Sees (Sound X · t) t none) (f (if wanted then t.overwritesOf id else [])) Q) :
    Triple (Sees (Sound X · t) t none) (overwritesIf wanted id >>= f) Q := by
  refine sees_answer (fun d hd ht => ?_) hf
  by_cases hw : wanted
  · simpa only [overwritesIf, hw, decide_true, if_true] using ht ▸ overwrites_spec hd id
  · simpa [overwritesIf, hw] using Answers.pure hd []

theorem category_of_layout {k : String} {on : Bool} (h : t.layout.categorySyncOf.find? k = some on) :
    ∃ c ∈ t.channels.rows, c.id = k ∧ c.type = .category ∧ c.categorySync = on := by
  rw [Tables.layout, find?_categorySyncOf t.nodup_ordered] at h
  cases hc : t.ordered.find? fun c => c.id = k && c.type = .category with
  | none =>
    rw [hc] at h
    cases h
  | some c =>
    have hp := find?_some hc
    simp only [Bool.and_eq_true, decide_eq_true_eq] at hp
    rw [hc] at h
    exact ⟨c, mem_ordered.1 (mem_of_find?_eq_some hc), hp.1, hp.2, by simpa using h⟩

theorem parentIn_of_parentCategory {id : String} (h : t.layout.parentCategory id ≠ "") :
    parentIn t.ordered "" id = some (t.layout.parentCategory id) := by
  rw [ChannelLayout.parentCategory, Tables.layout, find?_parentOf_ofRows t.nodup_ordered] at h ⊢
  cases hp : parentIn t.ordered "" id with
  | none => exact absurd (by rw [hp]; rfl) h
  | some p => rfl

theorem sees_forgetChannel {M : Memory → Prop} {id : String} {β : Type} {b : β}
    {R : Tables → Prop} (h : R t) :
    Triple (Sees M t none) (do eraseOverwritesCache id; invalidateChannelLayout; return b)
      fun _ => Leaves R :=
  fun _ hd => ⟨t, hd.conn, h⟩

theorem sees_syncChannelPermissions (ht : SyncInv t) (id : String) :
    Triple (Sees (Sound X · t) t none) (syncChannelPermissions id) fun _ => Leaves SyncInv := by
  refine sees_getLayout (.ite (fun _ => .pure fun d hd => ⟨t, hd.conn, ht⟩) fun hparent => ?_)
  rw [not_or, not_not] at hparent
  obtain ⟨t', ht'⟩ := applyAll_writeOwn "" {} t id true
  refine sees_begin (sees_transaction ht' (sees_forgetChannel ?_))
  exact ht.synced (parentIn_of_parentCategory hparent.1) hparent.1
    (category_of_layout hparent.2) (wrote_of_applyAll ht')

theorem sees_restoreChannelOverwrites (ht : SyncInv t) {id : String} (hid : id ∈ t.channels.keys)
    (rows : List DbOverwrite) :
    Triple (Sees (Sound X · t) t none) (restoreChannelOverwrites id rows) fun _ => Leaves SyncInv := by
  cases ha : applyAll (writeOwnOverwrites id rows false) t with
  | none => exact sees_begin (sees_transaction_refused ha (sees_forgetChannel ht))
  | some t' =>
    obtain ⟨he, hu⟩ := (wrote_of_applyAll ha).edits
    exact sees_begin (sees_transaction ha (sees_forgetChannel (ht.of_edits hid he hu)))

theorem edits_write {ow : DbOverwrite} {t' : Tables}
    (h : (if ow.allow = 0 ∧ ow.deny = 0 then deleteOverwrites (·.key = ow.key) else upsertOverwrite ow)
      t = some t') : Edits ow.channelId t t' ∧ t'.channels = t.channels := by
  split at h <;> cases h
  · refine ⟨.of_rows rfl (fun k hk => ?_) fun r hr => .inl (mem_filter.1 hr).1, rfl⟩
    exact (rewrites_deleteRows (S := (· = ow.channelId)) rfl
      fun x hx => congrArg Prod.fst (of_decide_eq_true hx)) t _ rfl |>.2.2.2.2 k hk
  · refine ⟨.of_rows rfl (fun k hk => ?_) fun r hr => ?_, rfl⟩
    · exact (rewrites_upsertRow (S := (· = ow.channelId)) rfl rfl) t _ rfl |>.2.2.2.2 k hk
    · exact (Table.mem_upsert hr).imp_right fun h => by rw [h]

theorem sees_transact {M : Memory → Prop} {stmts : List Stmt} :
    Triple (Sees M t none) (sql (transact stmts))
      fun _ => Sees M ((applyAll stmts t).getD t) none := by
  intro d hd
  have hrun : ((transact stmts).run d.conn).2 = _ := hd.conn ▸ run_transact stmts t
  exact ⟨hd.memory, hrun⟩

theorem edits_setOverwrite (ht : SyncInv t) {channel : DbChannel} (hc : channel ∈ t.channels.rows)
    {ow : DbOverwrite} (how : ow.channelId = channel.id) {inherited : List DbOverwrite} {t' : Tables}
    (h : applyAll ((if inherited = [] then [] else writeOwnOverwrites ow.channelId inherited false) ++
      (if channel.type = .category then [] else [setPermSynced ow.channelId false]) ++
      [if ow.allow = 0 ∧ ow.deny = 0 then deleteOverwrites (·.key = ow.key) else upsertOverwrite ow])
        t = some t') : Edits ow.channelId t t' ∧ t'.Unsynced ow.channelId := by
  rw [applyAll_append, applyAll_append] at h
  obtain ⟨u₂, h₂, h₃⟩ := Option.bind_eq_some_iff.1 h
  obtain ⟨u₁, h₁, h₂⟩ := Option.bind_eq_some_iff.1 h₂
  have hcopy : Edits ow.channelId t u₁ := by
    split at h₁
    · cases h₁
      exact .refl
    · exact (wrote_of_applyAll h₁).edits.1
  have hunsync : Edits ow.channelId t u₂ ∧ u₂.Unsynced ow.channelId := by
    split at h₂
    · cases h₂
      exact ⟨hcopy, hcopy.unsynced (how ▸ ht.unsynced_of_category hc ‹_›)⟩
    · obtain ⟨he, hu⟩ := edits_setPermSynced (by simpa [applyAll] using h₂)
      exact ⟨hcopy.trans he, hu⟩
  obtain ⟨hw, -⟩ := edits_write (by simpa [applyAll] using h₃)
  exact ⟨hunsync.1.trans hw, hw.unsynced hunsync.2⟩

theorem sees_setOverwrite (ht : SyncInv t) (ow : DbOverwrite) :
    Triple (Sees (Sound X · t) t none) (setOverwrite ow) fun _ => Leaves SyncInv := by
  have hpure : ∀ b : Bool, Triple (Sees (Sound X · t) t none) (pure b) fun _ => Leaves SyncInv :=
    fun _ d hd => ⟨t, hd.conn, ht⟩
  refine .get_bind fun d hd => ?_
  rw [hd.tables]
  dsimp only
  cases hc : t.channels.find? ow.channelId with
  | none => exact hpure _
  | some channel =>
  obtain ⟨hrow, hid⟩ := Table.find?_eq_some.1 hc
  refine .ite (fun _ => hpure _) fun _ => sees_overwriteSource (sees_overwritesIf ?_)
  generalize (if t.layout.source ow.channelId ≠ ow.channelId then
    t.overwritesOf (t.layout.source ow.channelId) else []) = inherited
  refine Triple.conseq (P := Sees (fun _ => True) t none) ?_ (fun _ h => h.imp fun _ _ => trivial)
    fun _ _ h => h
  refine Triple.bind (Q := fun _ => Sees (fun _ => True) t none)
    (fun d hd => ⟨trivial, hd.conn⟩) fun _ => ?_
  refine sees_invalidateLayout (N := fun _ => True) (fun _ h => h)
    (sees_transact.bind fun ok => sees_forgetChannel ?_)
  cases ha : applyAll (_ ++ [_]) t with
  | none => exact ht
  | some t' =>
    have hid' : (maskOverwrite ow).channelId = channel.id := hid.symm
    obtain ⟨he, hu⟩ := edits_setOverwrite ht hrow hid' ha
    exact ht.of_edits (mem_map.2 ⟨channel, hrow, hid⟩) he hu

theorem sees_copies {M : Memory → Prop} {sv : Option Tables} {k : String} {followers : List String}
    (hn : followers.Nodup) :
    Triple (Sees M t sv) (keepOverwrites
      (fun _ => pure (if followers ≠ [] then t.overwritesOf k else [])) (followers.map (·, k)))
      fun ok d => ok = true ∧ ∃ t', Kept (fun _ => t.overwritesOf k) (followers.map (·, k)) t t' ∧
        Sees (fun _ => True) t' sv d :=
  fun _ hd => sees_of_facing (facing_copies hn) _ ⟨trivial, hd.conn⟩

theorem sees_lastly {M : Memory → Prop} {β : Type} {f : Bool → DbM β} {Q : β → CommunityDb → Prop}
    {t₀ t' : Tables} {stmt : Stmt} (h : stmt t = some t') (hf : Triple (Sees M t' none) (f true) Q) :
    Triple (Sees M t (some t₀)) (do
      let ok ← sql (execIf true stmt)
      sql (finish ok)
      f ok) Q := by
  refine Triple.bind_eq (a := true) (S := Sees M t' (some t₀)) (fun d hd => ?_)
    (Triple.bind (Q := fun _ => Sees M t' none) sees_finish fun _ => hf)
  have he : (exec stmt).run d.conn = (true, ⟨t', some t₀, []⟩) := by rw [hd.conn, run_exec_of_ok h]
  exact ⟨congrArg Prod.fst he, hd.memory, congrArg Prod.snd he⟩

theorem sees_lastly_refused {M : Memory → Prop} {β : Type} {f : Bool → DbM β}
    {Q : β → CommunityDb → Prop} {t₀ : Tables} {stmt : Stmt} (h : stmt t = none)
    (hf : Triple (Sees M t₀ none) (f false) Q) :
    Triple (Sees M t (some t₀)) (do
      let ok ← sql (execIf true stmt)
      sql (finish ok)
      f ok) Q := by
  refine Triple.bind_eq (a := false) (S := Sees M t (some t₀)) (fun d hd => ?_)
    (Triple.bind (Q := fun _ => Sees M t₀ none) sees_finish fun _ => hf)
  have he : (exec stmt).run d.conn = (false, ⟨t, some t₀, []⟩) := by
    rw [hd.conn, run_exec_of_refused h]
  exact ⟨congrArg Prod.fst he, hd.memory, congrArg Prod.snd he⟩

theorem sees_setCategorySync (ht : SyncInv t) (k : String) (on : Bool) :
    Triple (Sees (Sound X · t) t none) (setCategorySync k on)
      fun _ => Leaves (SameRules t none) := by
  have hpure : ∀ b : Bool, Triple (Sees (Sound X · t) t none) (pure b)
      fun _ => Leaves (SameRules t none) := fun _ _ hd => leaves_refl ht hd
  refine sees_getLayout ?_
  cases hs : t.layout.categorySyncOf.find? k with
  | none => exact hpure _
  | some was =>
  obtain ⟨c, hc, rfl, -⟩ := category_of_layout hs
  have hk : c.id ≠ "" := fun h => ht.named (h ▸ mem_map_of_mem hc)
  refine .ite (fun _ => hpure _) fun _ => sees_overwritesIf (sees_begin ?_)
  generalize hfo : (if on then [] else t.layout.followers c.id) = followers
  have hmem : ∀ id ∈ followers, Follows t.ordered id c.id := fun id hid => by
    subst hfo
    split at hid
    · cases hid
    · exact (mem_followers t.nodup_ordered hk).1 hid
  have hn : followers.Nodup := by
    subst hfo
    split
    · exact nodup_nil
    · exact nodup_followers _ _
  refine (sees_copies hn).bind fun ok => .of_and fun hok => .of_exists fun u => .of_and fun hkept => ?_
  subst hok
  refine sees_lastly rfl fun d hd => ⟨_, hd.conn,
    (ht.categorySync hkept ?_ ?_ rfl).imp_right fun h id _ => h id⟩
  · intro e he
    obtain ⟨id, hid, rfl⟩ := mem_map.1 he
    exact hmem id hid
  · rintro rfl id hf
    refine mem_map.2 ⟨(id, c.id), mem_map_of_mem ?_, rfl⟩
    exact hfo ▸ (mem_followers t.nodup_ordered hk).2 hf

/-! ## Deleting a channel -/

theorem sees_deleteChannelKeys {M : Memory → Prop} {sv : Option Tables} (id : String) :
    Triple (Sees M t sv) (sql (deleteChannelKeys id)) fun _ d =>
      ∃ t', t'.channels = t.channels ∧ t'.overwrites = t.overwrites ∧ Sees M t' sv d := by
  intro d hd
  have hrun : ∃ t' : Tables, t'.channels = t.channels ∧ t'.overwrites = t.overwrites ∧
      ((deleteChannelKeys id).run d.conn).2 = ⟨t', sv, []⟩ := by
    rw [hd.conn]
    refine ⟨_, ?_, ?_, rfl⟩ <;> rfl
  obtain ⟨t', hc, ho, hrun⟩ := hrun
  exact ⟨t', hc, ho, hd.memory, hrun⟩

theorem applyAll_wipeChannel (t : Tables) (id : String) :
    ∃ t', applyAll (wipeChannel id) t = some t' ∧
      t'.channels.rows = t.channels.rows.filter (fun c => ! decide (c.id = id)) ∧
      t'.overwrites.rows = t.overwrites.rows.filter fun ow => ! decide (ow.channelId = id) :=
  ⟨_, rfl, rfl, rfl⟩

theorem sees_deleteChannel (ht : SyncInv t) (id : String) :
    Triple (Sees (Sound X · t) t none) (deleteChannel id) fun _ => Leaves fun t' =>
      SameRules t (some id) t' ∧ ∀ ow ∈ t'.overwritesOf id, ow ∈ t.overwritesOf id := by
  refine .get_bind fun d hd => ?_
  rw [hd.tables]
  refine .ite (fun _ _ hd => ⟨t, hd.conn, ⟨ht, fun _ _ => rfl⟩, fun _ how => how⟩) fun hid => ?_
  have hk : id ≠ "" := fun h => ht.named (by simpa [h] using hid)
  have hmem : ∀ x, x ∈ t.layout.followers id ↔ Follows t.ordered x id := fun x =>
    mem_followers t.nodup_ordered hk
  refine sees_getLayout (sees_overwritesIf (sees_begin ?_))
  have hpairs : ∀ x, x ∈ ((t.layout.followers id).map (·, id)).map Prod.fst ↔
      Follows t.ordered x id := fun x => by simp [map_map, Function.comp_def, hmem]
  refine (sees_copies (nodup_followers _ _)).bind fun _ =>
    .of_and fun _ => .of_exists fun u => .of_and fun hkept => ?_
  refine (sees_deleteChannelKeys id).bind fun _ =>
    .of_exists fun u' => .of_and fun hc => .of_and fun ho => ?_
  obtain ⟨t', ha, hrows, hover⟩ := applyAll_wipeChannel u' id
  rw [hc] at hrows
  rw [ho] at hover
  refine sees_transaction ha ?_
  refine Triple.bind (Q := fun _ => Sees (fun _ => True) t' none) (fun _ h => ⟨trivial, h.conn⟩)
    fun _ => sees_invalidateLayout (N := fun _ => True) (fun _ h => h) ?_
  refine (sees_normalizeChannelOrder (N := fun _ => True) fun _ h => h).bind fun _ d hd =>
    ⟨_, hd.conn, ?_⟩
  obtain ⟨hinv, hrules⟩ := ht.deleted hkept hpairs hrows hover
  obtain ⟨hinv', hrules'⟩ := hinv.sameLayout (sameLayout_normalized t')
  refine ⟨⟨hinv', fun x hx => (hrules' x).trans (hrules x fun h => hx (congrArg some h))⟩,
    fun ow how => ?_⟩
  -- the rows of the channel are gone
  obtain ⟨how, hown⟩ := mem_filter.1 how
  have hrow : ow ∈ t'.overwrites.rows := how
  rw [hover] at hrow
  exact absurd hown (by simpa using (mem_filter.1 hrow).2)

/-! ## Creating a channel -/

theorem slugifyChannelName_ne_empty (name : Bytes) : slugifyChannelName name ≠ "" := by
  rw [slugifyChannelName]
  split
  · decide
  · rename_i h
    intro he
    have hl := congrArg String.toList he
    rw [String.toList_ofList, String.toList_empty, reverse_eq_nil_iff] at hl
    exact h (List.isEmpty_iff.2 hl)

theorem freeChannelId_ne_empty (t : Tables) (base : String) (tries suffix : Nat) {id : String}
    (hid : id ≠ "") : t.freeChannelId base tries suffix id ≠ "" := by
  induction tries generalizing suffix id with
  | zero => exact hid
  | succ tries ih =>
    rw [freeChannelId]
    split
    · refine ih _ fun h => ?_
      have := congrArg String.toList h
      simp at this
    · exact hid

theorem sees_insertCreated (ht : SyncInv t) {c : DbChannel} {idx : Nat} {categoryId : String}
    (hi : insertionIndex t.ordered c.type categoryId = some idx) (hpos : c.position = idx)
    (hid : c.id ≠ "") (hsync : c.permSynced = true → c.type ≠ .category ∧
      ∃ k ∈ t.channels.rows, k.id = categoryId ∧ k.type = .category ∧ k.categorySync = true) :
    Triple (Sees (fun _ => True) (t.repositioned (t.ordered.map DbChannel.id) (gap idx)) (some t))
      (do
        let ok ← sql (execIf true (insertChannel c))
        sql (finish ok)
        if ok then
          normalizeChannelOrder
          invalidateChannelLayout
          return some c
        else return none)
      fun _ => Leaves fun t' => t'.overwrites = t.overwrites ∧ SyncInv t' ∧
        ∀ id ∈ t.channels.keys, t'.rules id = t.rules id := by
  have hkeys := (reordered_repositioned t (t.ordered.map DbChannel.id) (gap idx)).keys
  by_cases hnew : c.id ∈ t.channels.keys
  · exact sees_lastly_refused (by simp [insertChannel, Table.insert, hkeys, hnew])
      fun _ hd => ⟨t, hd.conn, rfl, ht, fun _ _ => rfl⟩
  obtain ⟨t', hins, hover, hrows⟩ : ∃ t', insertChannel c
      (t.repositioned (t.ordered.map DbChannel.id) (gap idx)) = some t' ∧
      t'.overwrites = t.overwrites ∧ t'.channels.rows =
        (t.repositioned (t.ordered.map DbChannel.id) (gap idx)).channels.rows ++ [c] := by
    rw [insertChannel, Table.insert_eq_some (hkeys ▸ hnew)]
    exact ⟨_, rfl, rfl, rfl⟩
  refine sees_lastly hins ?_
  rw [if_pos rfl]
  refine (sees_normalizeChannelOrder (N := fun _ => True) fun _ _ => trivial).bind fun _ =>
    sees_invalidateLayout (N := fun _ => True) (fun _ h => h) fun d hd => ⟨_, hd.conn, ?_⟩
  obtain ⟨hlen, hlast, hcat⟩ := insertionIndex_spec hi
  have hl : (t.ordered.take idx).length = idx := by rw [length_take, min_eq_left hlen]
  rw [← hl] at hrows
  obtain ⟨hinv, hrules⟩ := ht.created (take_append_drop idx _).symm (by rw [hl, hpos]) hnew hid
    hlast hcat hsync hover hrows
  obtain ⟨hinv', hrules'⟩ := hinv.sameLayout (sameLayout_normalized t')
  exact ⟨hover, hinv', fun x hx => (hrules' x).trans (hrules x fun h => hnew (h ▸ hx))⟩

theorem sees_createChannel (ht : SyncInv t) (rawName : Bytes) (type : ChannelType)
    (voiceBitrateKbps : Int) (categoryId : String) (encrypted : Bool) :
    Triple (Sees (Sound X · t) t none)
      (createChannel rawName type voiceBitrateKbps categoryId encrypted)
      fun _ => Leaves fun t' => t'.overwrites = t.overwrites ∧ SyncInv t' ∧
        ∀ id ∈ t.channels.keys, t'.rules id = t.rules id := by
  have hpure : Triple (Sees (Sound X · t) t none) (pure (none : Option DbChannel))
      fun _ => Leaves fun t' => t'.overwrites = t.overwrites ∧ SyncInv t' ∧
        ∀ id ∈ t.channels.keys, t'.rules id = t.rules id :=
    fun _ hd => ⟨t, hd.conn, rfl, ht, fun _ _ => rfl⟩
  refine .get_bind fun d hd => ?_
  rw [hd.tables]
  refine .ite (fun _ => hpure) fun _ => ?_
  have hid := freeChannelId_ne_empty t (slugifyChannelName (clampUtf8 rawName maxChannelNameBytes)) 998 2
    (slugifyChannelName_ne_empty (clampUtf8 rawName maxChannelNameBytes))
  cases hi : insertionIndex t.ordered type categoryId with
  | none => exact hpure
  | some idx =>
  refine Triple.conseq (P := Sees (RemembersLayout t.layout) t none) (sees_begin ?_)
    (fun _ h => h.imp fun _ hm => hm.layout) fun _ _ h => h
  -- the layout is read after the positions moved, which changed no order
  have hrenumber : applyAll (renumber (t.ordered.map DbChannel.id) (gap idx)) t = some _ :=
    applyAll_renumber t.nodup_ordered (gap idx) t
  have hlayout := layout_repositioned t.perm_ordered (gap_lt idx)
  refine (sees_execAll hrenumber).bind_eq ?_
  refine sees_getLayout_fresh hlayout (fun _ h => h) (fun _ _ _ => rfl) ?_
  refine Triple.conseq (sees_insertCreated ht hi rfl hid fun hs => ?_)
    (fun _ h => h.imp fun _ _ => trivial) fun _ _ h => h
  simp only [Bool.and_eq_true, decide_eq_true_eq] at hs
  exact ⟨hs.1, category_of_layout hs.2⟩

end Operations

/-! ## Runs -/

/-- The operations on channels, their sync and their rows. -/
def ofChannels : DbOp → Bool
  | .createChannel .. | .deleteChannel _ | .reorderChannels _ | .setCategorySync .. => true
  | .syncChannelPermissions _ | .setOverwrite _ | .restoreChannelOverwrites .. => true
  | _ => false

/-- The operations that change no rule of the channel `id`. -/
def sparing (id : String) : DbOp → Bool
  | .createChannel .. | .reorderChannels _ | .setCategorySync .. => true
  | .deleteChannel deleted => deleted ≠ id
  | _ => false

/-- The runs of these from a database without channels, nothing failing. -/
def channelSystem : System CommunityDb DbOp where
  init d := d.Opened ∧ d.tables.channels = .empty ∧ d.tables.overwrites = .empty
  step d op d' := ofChannels op = true ∧ d' = d.perform [] op

/-- Rows are restored to a channel that exists. -/
def RestoresExisting (d : CommunityDb) (op : DbOp) : Prop :=
  match op with
  | .restoreChannelOverwrites id _ => id ∈ d.tables.channels.keys
  | _ => True

/-- Every synced channel is under a syncing category, without rows. -/
def NoSyncedOnItsOwn (t : Tables) : Prop :=
  ∀ c ∈ t.channels.rows, c.permSynced = true →
    (∃ k ∈ t.channels.rows, k.id = t.layout.parentCategory c.id ∧ k.type = .category ∧
      k.categorySync = true) ∧ t.overwritesOf c.id = []

instance (t : Tables) : Decidable (NoSyncedOnItsOwn t) :=
  inferInstanceAs (Decidable (∀ c ∈ t.channels.rows, c.permSynced = true →
    (∃ k ∈ t.channels.rows, k.id = t.layout.parentCategory c.id ∧ k.type = .category ∧
      k.categorySync = true) ∧ t.overwritesOf c.id = []))

theorem noSyncedOnItsOwn_of_syncInv {t : Tables} (ht : SyncInv t) : NoSyncedOnItsOwn t := by
  intro c hc hs
  obtain ⟨parent, hf⟩ := ht.follows c hc hs
  obtain ⟨k, hk, hkid, hkt, hks⟩ := hf.syncs
  refine ⟨⟨k, mem_ordered.1 hk, ?_, hkt, hks⟩, ht.noRows c hc hs⟩
  rw [ChannelLayout.parentCategory, Tables.layout, find?_parentOf_ofRows t.nodup_ordered, hf.under, hkid]
  rfl

/-- What holds throughout: sound caches, and sync as it should be. -/
structure InSyncRun (d : CommunityDb) : Prop where
  quiet : Quiet (Sound fun _ _ => True) d
  sync : SyncInv d.tables

theorem syncInv_empty {t : Tables} (hc : t.channels = .empty) (ho : t.overwrites = .empty) :
    SyncInv t := by
  constructor <;> simp [hc, ho, Table.keys]

theorem InSyncRun.perform {d : CommunityDb} (hd : InSyncRun d) {op : DbOp} {R : Tables → Prop}
    (hop : ofChannels op = true)
    (h : Triple (Sees (Sound (fun _ _ => True) · d.tables) d.tables none) op.run fun _ => Leaves R) :
    Quiet (Sound fun _ _ => True) (d.perform [] op) ∧ R (d.perform [] op).tables := by
  constructor
  · refine quiet_perform hd.quiet ?_ (fun u h => by subst h; cases hop) fun u n now h => by
      subst h
      cases hop
    cases op <;> first | trivial | exact .inr (by simp [facing])
  · have hsees : Sees (Sound (fun _ _ => True) · d.tables) d.tables none (d.facing []) := by
      refine ⟨hd.quiet.rel, ?_⟩
      have hs : d.conn.saved = none := hd.quiet.idle
      simp only [facing, hs]
    obtain ⟨t', hc, hr⟩ := h _ hsees
    have ht : (d.perform [] op).tables = t' := congrArg Conn.tables hc
    rwa [ht]

theorem InSyncRun.step {d : CommunityDb} (hd : InSyncRun d) {op : DbOp} (hop : ofChannels op = true)
    (hr : RestoresExisting d op) : InSyncRun (d.perform [] op) ∧
      ∀ id ∈ d.tables.channels.keys, sparing id op = true →
        (d.perform [] op).tables.rules id = d.tables.rules id := by
  cases op with
  | createChannel n t v c e =>
    obtain ⟨hq, -, hs, hrules⟩ := hd.perform hop (sees_createChannel hd.sync n t v c e)
    exact ⟨⟨hq, hs⟩, fun id hid _ => hrules id hid⟩
  | deleteChannel k =>
    obtain ⟨hq, ⟨hs, hrules⟩, -⟩ := hd.perform hop (sees_deleteChannel hd.sync k)
    refine ⟨⟨hq, hs⟩, fun id _ hne => hrules id fun h => ?_⟩
    exact (of_decide_eq_true hne : k ≠ id) (Option.some.inj h).symm
  | reorderChannels ids =>
    obtain ⟨hq, hs, hrules⟩ := hd.perform hop (sees_reorderChannels hd.sync ids)
    exact ⟨⟨hq, hs⟩, fun id _ _ => hrules id (Option.some_ne_none id)⟩
  | setCategorySync k on =>
    obtain ⟨hq, hs, hrules⟩ := hd.perform hop (sees_setCategorySync hd.sync k on)
    exact ⟨⟨hq, hs⟩, fun id _ _ => hrules id (Option.some_ne_none id)⟩
  | syncChannelPermissions k =>
    obtain ⟨hq, hs⟩ := hd.perform hop (sees_syncChannelPermissions hd.sync k)
    exact ⟨⟨hq, hs⟩, fun _ _ h => by cases h⟩
  | setOverwrite ow =>
    obtain ⟨hq, hs⟩ := hd.perform hop (sees_setOverwrite hd.sync ow)
    exact ⟨⟨hq, hs⟩, fun _ _ h => by cases h⟩
  | restoreChannelOverwrites k rows =>
    obtain ⟨hq, hs⟩ := hd.perform hop (sees_restoreChannelOverwrites hd.sync hr rows)
    exact ⟨⟨hq, hs⟩, fun _ _ h => by cases h⟩
  | _ => cases hop

theorem inSyncRun_of_reachable {d : CommunityDb}
    (hd : (channelSystem.given RestoresExisting).Reachable d) : InSyncRun d := by
  refine System.reachable_invariant (I := InSyncRun) ?_ ?_ hd
  · rintro d ⟨ho, hc, how⟩
    exact ⟨ho.sound trivial, syncInv_empty hc how⟩
  · rintro d op _ hd ⟨⟨hop, rfl⟩, hr⟩
    exact (hd.step hop hr).1

/-- Category sync never leaks permissions: in every run in which rows are restored only to channels
    that exist no synced channel is on its own, and what a channel lists stays when others are
    created or deleted, channels reordered, or a category's sync set. -/
theorem category_sync_never_leaks {d : CommunityDb}
    (hd : (channelSystem.given RestoresExisting).Reachable d) :
    NoSyncedOnItsOwn d.tables ∧ ∀ id ∈ d.tables.channels.keys, ∀ op, sparing id op = true →
      (((listOverwrites id).run (d.perform [] op)).1).map DbOverwrite.rule =
        (((listOverwrites id).run d).1).map DbOverwrite.rule := by
  have hd := inSyncRun_of_reachable hd
  refine ⟨noSyncedOnItsOwn_of_syncInv hd.sync, fun id hid op hop => ?_⟩
  have hof : ofChannels op = true ∧ RestoresExisting d op := by
    cases op <;> first | exact ⟨rfl, trivial⟩ | cases hop
  obtain ⟨hd', hrules⟩ := hd.step hof.1 hof.2
  rw [(listOverwrites_spec hd'.quiet id).value, (listOverwrites_spec hd.quiet id).value]
  exact hrules id hid hop

/-- An opened database without channels. -/
def noChannels : CommunityDb := { conn := { tables := {} } }

theorem opened_noChannels : noChannels.Opened := ⟨rfl, by decide, rfl, rfl, rfl, nofun⟩

/-- A category `k` that syncs. -/
def syncingCategory : CommunityDb :=
  (noChannels.perform [] (.createChannel [107] .category 0 "" false)).perform []
    (.setCategorySync "k" true)

theorem reachable_syncingCategory : (channelSystem.given RestoresExisting).Reachable syncingCategory :=
  .step (.setCategorySync "k" true) (.step (.createChannel [107] .category 0 "" false)
    (.init ⟨opened_noChannels, rfl, rfl⟩) ⟨⟨rfl, rfl⟩, trivial⟩) ⟨⟨rfl, rfl⟩, trivial⟩

/-- The category hides its channels, and `a` is created in it. -/
def hiddenChannel : CommunityDb :=
  (syncingCategory.perform [] (.restoreChannelOverwrites "k" [⟨"k", 0, "1", 0, Perms.kViewChannel⟩])).perform
    [] (.createChannel [97] .text 0 "k" false)

/-- When the category stops syncing, what hides the channel stays. -/
theorem hiddenChannel_stays_hidden : NoSyncedOnItsOwn hiddenChannel.tables ∧
    (((listOverwrites "a").run (hiddenChannel.perform [] (.setCategorySync "k" false))).1).map
      DbOverwrite.rule = (((listOverwrites "a").run hiddenChannel).1).map DbOverwrite.rule := by
  have hk : "k" ∈ syncingCategory.tables.channels.keys := by decide
  have hd : (channelSystem.given RestoresExisting).Reachable hiddenChannel :=
    .step (.createChannel [97] .text 0 "k" false) (.step (.restoreChannelOverwrites "k" _)
      reachable_syncingCategory ⟨⟨rfl, rfl⟩, hk⟩) ⟨⟨rfl, rfl⟩, trivial⟩
  exact ⟨(category_sync_never_leaks hd).1,
    (category_sync_never_leaks hd).2 "a" (by decide) (.setCategorySync "k" false) rfl⟩

/-! ## Rows restored to an unknown channel -/

/-- Rows are restored to `a`, and then `a` is created in `k`. -/
def restoredThenCreated : CommunityDb :=
  (syncingCategory.perform [] (.restoreChannelOverwrites "a" [⟨"a", 0, "1", Perms.kViewChannel, 0⟩])).perform
    [] (.createChannel [97] .text 0 "k" false)

/-- The new channel is synced, and has the restored rows as its own. -/
theorem synced_with_own_rows : channelSystem.Reachable restoredThenCreated ∧
    ¬NoSyncedOnItsOwn restoredThenCreated.tables :=
  ⟨.step _ (.step _ reachable_syncingCategory.of_given ⟨rfl, rfl⟩) ⟨rfl, rfl⟩, by decide⟩

end CommunityDb
end Decibell
