import Decibell.Community.Db

/-!
# What the caches hold

`Memory.Sound` says that everything the object remembers is what the tables
give. It is the invariant that makes the caches invisible: under it each query
returns what it would compute from the tables (`effectivePermissions_spec`,
`memberLevel_spec`, `listOverwrites_spec`, `channelPermissions_spec`).
-/

namespace Decibell

open Lib Lib.Conn

namespace Tables

/-- A user's permissions in an existing channel; `owner` is the owner, `pass` a voice pass. -/
def channelPermissions (t : Tables) (owner : Uid) (pass : Bool) (uid : Uid) (channelId : String) :
    Permissions :=
  let base := (t.permEntry owner uid).permissions
  if base = Perms.kAll then Perms.kAll
  else resolveChannel base t.everyoneId (t.roleIdsOf uid) (toString uid)
    (t.overwritesOf (t.layout.source channelId)) pass

/-! ## What the queries depend on -/

variable {t t' : Tables} {uid : Uid}

def assignments (t : Tables) (uid : Uid) : List DbMemberRole :=
  t.memberRoles.rows.filter (·.uid = uid)

/-- A channel's overwrites that bear on a user: of roles, or of the user. -/
def rowsFor (uid : Uid) (rows : List DbOverwrite) : List DbOverwrite :=
  rows.filter fun ow => ow.targetType = 0 || ow.targetId = toString uid

theorem layout_congr (hc : t'.channels = t.channels) : t'.layout = t.layout := by
  simp only [layout, ordered, hc]

theorem overwritesOf_congr (ho : t'.overwrites = t.overwrites) :
    t'.overwritesOf = t.overwritesOf := by
  funext ch
  simp only [overwritesOf, ho]

theorem permEntry_congr {owner : Uid} (hr : t'.roles = t.roles)
    (hm : t'.assignments uid = t.assignments uid) :
    t'.permEntry owner uid = t.permEntry owner uid := by
  have mem : ∀ (u : Tables) (r : DbRole),
      (⟨uid, r.id⟩ ∈ u.memberRoles.rows ↔ ⟨uid, r.id⟩ ∈ u.assignments uid) := by
    simp [assignments]
  simp only [permEntry, permRows, rolesOf, mem, hr, hm]

theorem joinOverwrites_rowsFor {rows : List DbOverwrite} {p : DbOverwrite → Bool}
    (h : ∀ ow, p ow = true → (ow.targetType = 0 || ow.targetId = toString uid) = true) :
    joinOverwrites (rowsFor uid rows) p = joinOverwrites rows p := by
  rw [joinOverwrites, rowsFor, List.filter_filter, joinOverwrites]
  congr 1
  refine List.filter_congr fun ow _ => ?_
  cases hp : p ow with
  | false => rfl
  | true => rw [h ow hp]; rfl

theorem resolveChannel_rowsFor (base : Permissions) (everyoneId : String) (myRoles : List String)
    (rows : List DbOverwrite) (pass : Bool) :
    resolveChannel base everyoneId myRoles (toString uid) (rowsFor uid rows) pass =
      resolveChannel base everyoneId myRoles (toString uid) rows pass := by
  unfold resolveChannel
  rw [joinOverwrites_rowsFor (by simp +contextual), joinOverwrites_rowsFor (by simp +contextual),
    joinOverwrites_rowsFor (by simp +contextual)]

theorem channelPermissions_congr {owner : Uid} {pass : Bool} {channelId : String}
    (hr : t'.roles = t.roles) (hc : t'.channels = t.channels)
    (hm : t'.assignments uid = t.assignments uid)
    (ho : ∀ ch, rowsFor uid (t'.overwritesOf ch) = rowsFor uid (t.overwritesOf ch)) :
    t'.channelPermissions owner pass uid channelId = t.channelPermissions owner pass uid channelId := by
  have he : t'.everyoneId = t.everyoneId := by simp only [everyoneId, hr]
  have hi : t'.roleIdsOf uid = t.roleIdsOf uid := congrArg (List.map _) hm
  simp only [channelPermissions, permEntry_congr hr hm, layout_congr hc, he, hi]
  rw [← resolveChannel_rowsFor, ho, resolveChannel_rowsFor]

end Tables


namespace Memory

/-- Whether a user has a voice pass for a channel. -/
def hasVoicePass (m : Memory) (uid : Uid) (channelId : String) : Bool :=
  ((m.voicePasses.find? uid).getD []).contains channelId

/-- What the tables give for a user's channel permissions. -/
def channelPermissions (m : Memory) (t : Tables) (uid : Uid) (channelId : String) : Permissions :=
  t.channelPermissions m.ownerCache (m.hasVoicePass uid channelId) uid channelId

/-- The caches hold what the tables give; `X` is what else is known of the owner and `server_meta`.
    -/
structure Sound (X : Uid → Table DbMeta.key → Prop) (m : Memory) (t : Tables) : Prop where
  owner : X m.ownerCache t.serverMeta
  perm : m.permCache.Sound (t.permEntry m.ownerCache)
  overwrites : m.overwritesCache.Sound t.overwritesOf
  layout : m.layoutValid = true → m.layout = t.layout
  channelPerm : ∀ uid c, m.channelPermCache.find? uid = some c → c.Sound (m.channelPermissions t uid)

variable {X : Uid → Table DbMeta.key → Prop} {m : Memory} {t : Tables}

/-- What is held about a user once one more channel is resolved. -/
def addChannelPerm (m : Memory) (uid : Uid) (channelId : String) (p : Permissions) : Memory :=
  let perUser := ((m.channelPermCache.find? uid).getD .empty).bound CommunityDb.perUserBound
  { m with channelPermCache := m.channelPermCache.set uid (perUser.emplace channelId p) }

theorem Sound.addChannelPerm (h : m.Sound X t) (uid : Uid) (channelId : String) :
    (m.addChannelPerm uid channelId (m.channelPermissions t uid channelId)).Sound X t := by
  refine { h with channelPerm := fun uid' c hc => ?_ }
  rw [Memory.addChannelPerm, Memo.find?_set] at hc
  split at hc
  · cases hc
    subst uid'
    refine Memo.Sound.emplace (Memo.Sound.bound ?_ _) channelId
    cases hf : m.channelPermCache.find? uid with
    | none => exact Memo.sound_empty
    | some c => exact h.channelPerm uid c hf
  · exact h.channelPerm uid' c hc

end Memory

namespace CommunityDb

/-! ## Invariants of programs -/

/-- The memory fits the tables, and those an open transaction would go back to. -/
def Inv (R : Memory → Tables → Prop) (d : CommunityDb) : Prop := d.conn.Within (R d.toMemory)

/-- Outside transactions, with `R` between memory and tables. -/
structure Quiet (R : Memory → Tables → Prop) (d : CommunityDb) : Prop where
  rel : R d.toMemory d.tables
  idle : d.conn.Idle

section Rules

variable {R R' : Memory → Tables → Prop} {α β : Type} {P : CommunityDb → Prop}
  {Q : β → CommunityDb → Prop}

theorem Quiet.imp {d : CommunityDb} (h : Quiet R d) (hR : ∀ m t, R m t → R' m t) : Quiet R' d :=
  ⟨hR _ _ h.rel, h.idle⟩

theorem Quiet.inv {d : CommunityDb} (h : Quiet R d) : Inv R d :=
  ⟨h.rel, by rw [h.idle]; simp⟩

theorem Inv.imp {d : CommunityDb} (h : Inv R d) (hR : ∀ m t, R m t → R' m t) : Inv R' d :=
  ⟨hR _ _ h.1, fun t ht => hR _ _ (h.2 t ht)⟩

theorem Inv.quiet {d : CommunityDb} (h : Inv R d) (hi : d.conn.Idle) : Quiet R d := ⟨h.1, hi⟩

theorem keeps_sql {m : StateM (Conn Tables) α} (h : ∀ c, Keeps (Within (R c)) m) :
    Keeps (Inv R) (sql m) :=
  fun d hd => h d.toMemory d.conn hd

theorem keeps_exec {stmt : Tables → Option Tables} (h : ∀ c, Preserves (R c) stmt) :
    Keeps (Inv R) (sql (exec stmt)) :=
  keeps_sql fun c => within_exec (h c)

theorem keeps_execIf {ok : Bool} {stmt : Tables → Option Tables} (h : ∀ c, Preserves (R c) stmt) :
    Keeps (Inv R) (sql (execIf ok stmt)) :=
  keeps_sql fun c => within_execIf (h c)

theorem keeps_execAll {stmts : List (Tables → Option Tables)}
    (h : ∀ stmt ∈ stmts, ∀ c, Preserves (R c) stmt) : Keeps (Inv R) (sql (execAll stmts)) :=
  keeps_sql fun c => within_execAll fun stmt hs => h stmt hs c

theorem triple_tables {m : DbM β} (h : ∀ t₀, Triple (Quiet fun m t => R m t ∧ t = t₀) m Q) :
    Triple (Quiet R) m Q :=
  fun d hd => h d.tables d ⟨⟨hd.rel, rfl⟩, hd.idle⟩

/-! Opening and ending a transaction. -/

theorem triple_begin {m₁ m₂ : DbM β} (ht : Triple (Inv R) m₁ Q) (hf : Triple (Quiet R) m₂ Q) :
    Triple (Quiet R) (do if ← sql begin then m₁ else m₂) Q := by
  intro d hd
  rw [run_bind]
  have hw : Inv R ((sql begin).run d).2 := within_begin d.conn hd.inv
  rcases begin_spec hd.idle with ⟨hb, -, -⟩ | ⟨hb, -, hi⟩
  · have hb : ((sql begin).run d).1 = true := hb
    rw [hb, if_pos rfl]
    exact ht _ hw
  · have hb : ((sql begin).run d).1 = false := hb
    rw [hb, if_neg Bool.false_ne_true]
    exact hf _ (hw.quiet hi)

theorem triple_finish {ok : Bool} : Triple (Inv R) (sql (finish ok)) fun _ => Quiet R :=
  fun d hd => Inv.quiet (within_finish d.conn hd) (finish_spec ok d.conn).1

theorem triple_commit : Triple (Inv R) (sql commit) fun _ => Quiet R :=
  fun d hd => Inv.quiet (within_commit d.conn hd) (finish_spec true d.conn).1

theorem triple_rollback : Triple (Inv R) (sql rollback) fun _ => Quiet R :=
  fun _ hd => Inv.quiet (Within.undone hd) rfl

theorem keeps_quiet_exec {stmt : Tables → Option Tables} (h : ∀ c, Preserves (R c) stmt) :
    Keeps (Quiet R) (sql (exec stmt)) := by
  intro d hd
  refine (keeps_exec h d hd.inv).quiet ?_
  rcases exec_spec stmt d.conn with ⟨-, -, hs⟩ | ⟨-, ⟨-, hs⟩ | ⟨-, hs⟩⟩
  · exact hs.trans hd.idle
  · exact hs.trans hd.idle
  · exact hs

theorem keeps_transact {stmts : List (Tables → Option Tables)}
    (h : ∀ stmt ∈ stmts, ∀ c, Preserves (R c) stmt) : Keeps (Quiet R) (sql (transact stmts)) :=
  fun d hd => Inv.quiet (within_transact (fun stmt hs => h stmt hs _) d.conn hd.inv)
    (transact_spec hd.idle).1

/-- A transaction leaves the tables it found, or those after its statements. -/
theorem triple_transact {stmts : List (Tables → Option Tables)} {t₀ : Tables}
    (hR : ∀ m, R m t₀ → R' m t₀)
    (h : ∀ m t, R m t₀ → applyAll stmts t₀ = some t → R' m t) :
    Triple (Quiet fun m t => R m t ∧ t = t₀) (sql (transact stmts)) fun _ => Quiet R' := by
  rintro d ⟨⟨hd, rfl⟩, hi⟩
  obtain ⟨hi', hs⟩ := transact_spec hi
  refine ⟨?_, hi'⟩
  rcases hs with ht | ⟨-, ha⟩
  · change R' d.toMemory ((transact stmts).run d.conn).2.tables
    rw [ht]
    exact hR _ hd
  · exact h _ _ hd ha

theorem triple_exec {stmt : Tables → Option Tables} {t₀ : Tables} (hR : ∀ m, R m t₀ → R' m t₀)
    (h : ∀ m t, R m t₀ → stmt t₀ = some t → R' m t) :
    Triple (Quiet fun m t => R m t ∧ t = t₀) (sql (exec stmt)) fun _ => Quiet R' := by
  rintro d ⟨⟨hd, rfl⟩, hi⟩
  have hbase : d.conn.base = d.tables := by rw [base, hi, Option.getD_none]
  have hsame : ((exec stmt).run d.conn).2.tables = d.tables →
      R' d.toMemory ((exec stmt).run d.conn).2.tables := fun ht => ht ▸ hR _ hd
  rcases exec_spec stmt d.conn with ⟨-, ha, hs⟩ | ⟨-, ⟨ht, hs⟩ | ⟨ht, hs⟩⟩
  · exact ⟨h _ _ hd ha, hs.trans hi⟩
  · exact ⟨hsame ht, hs.trans hi⟩
  · exact ⟨hsame (ht.trans hbase), hs⟩

end Rules

/-! ## Queries -/

/-- Connection, owner and voice passes are the same; caches may not be. -/
structure SameState (d d' : CommunityDb) : Prop where
  conn : d'.conn = d.conn
  owner : d'.ownerCache = d.ownerCache
  passes : d'.voicePasses = d.voicePasses

theorem SameState.tables {d d' : CommunityDb} (h : SameState d d') : d'.tables = d.tables :=
  congrArg Conn.tables h.conn

theorem SameState.channelPermissions {d d' : CommunityDb} (h : SameState d d') :
    d'.toMemory.channelPermissions d'.tables = d.toMemory.channelPermissions d.tables := by
  funext uid channelId
  rw [Memory.channelPermissions, Memory.channelPermissions, Memory.hasVoicePass,
    Memory.hasVoicePass, h.tables, h.owner, h.passes]

theorem SameState.refl (d : CommunityDb) : SameState d d := ⟨rfl, rfl, rfl⟩

theorem SameState.trans {a b c : CommunityDb} (hab : SameState a b) (hbc : SameState b c) :
    SameState a c :=
  ⟨hbc.conn.trans hab.conn, hbc.owner.trans hab.owner, hbc.passes.trans hab.passes⟩

variable {X : Uid → Table DbMeta.key → Prop}

/-- The query `q` answers `a`, leaves sound caches and nothing else. -/
structure Answers {α : Type} (X : Uid → Table DbMeta.key → Prop) (d : CommunityDb) (q : DbM α) (a : α) : Prop where
  value : (q.run d).1 = a
  quiet : Quiet (Memory.Sound X) (q.run d).2
  same : SameState d (q.run d).2

theorem Answers.bind {α β : Type} {d : CommunityDb} {q : DbM α} {f : α → DbM β} {a : α} {b : β}
    (h : Answers X d q a)
    (hf : ∀ d', Quiet (Memory.Sound X) d' → SameState d d' → Answers X d' (f a) b) :
    Answers X d (q >>= f) b := by
  have h' := hf _ h.quiet h.same
  refine ⟨?_, ?_, h.same.trans ?_⟩ <;> rw [run_bind, h.value]
  · exact h'.value
  · exact h'.quiet
  · exact h'.same

theorem Answers.pure {α : Type} {d : CommunityDb} (hd : Quiet (Memory.Sound X) d) (a : α) :
    Answers X d (Pure.pure a) a :=
  ⟨rfl, hd, .refl d⟩

theorem Answers.get_bind {α : Type} {d : CommunityDb} {f : CommunityDb → DbM α} {a : α}
    (h : Answers X d (f d) a) : Answers X d (get >>= f) a :=
  ⟨h.value, h.quiet, h.same⟩

theorem Answers.gets {α : Type} {d : CommunityDb} (hd : Quiet (Memory.Sound X) d) (f : CommunityDb → α) :
    Answers X d (do return f (← get)) (f d) :=
  ⟨rfl, hd, .refl d⟩

theorem Answers.of_run {α : Type} {d d' : CommunityDb} {q : DbM α} {a : α} (h : q.run d = (a, d'))
    (hd' : Quiet (Memory.Sound X) d') (hs : SameState d d') : Answers X d q a := by
  constructor <;> rw [h]
  · exact hd'
  · exact hs

variable {d : CommunityDb} (hd : Quiet (Memory.Sound X) d)
include hd

theorem getLayout_spec : Answers X d getLayout d.tables.layout := by
  cases hv : d.layoutValid with
  | true =>
    have hrun : getLayout.run d = (d.layout, d) := by simp [getLayout, hv]; rfl
    rw [hd.rel.layout hv] at hrun
    exact .of_run hrun hd (.refl d)
  | false =>
    have hrun : getLayout.run d =
        (d.tables.layout, { d with layout := d.tables.layout, layoutValid := true }) := by
      simp [getLayout, hv, rebuildChannelLayout]; rfl
    exact .of_run hrun ⟨{ hd.rel with layout := fun _ => rfl }, hd.idle⟩ ⟨rfl, rfl, rfl⟩

theorem overwriteSource_spec (channelId : String) :
    Answers X d (overwriteSource channelId) (d.tables.layout.source channelId) :=
  (getLayout_spec hd).bind fun _ hd' _ => .pure hd' _

theorem overwrites_spec (channelId : String) :
    Answers X d (overwrites channelId) (d.tables.overwritesOf channelId) := by
  cases hf : d.overwritesCache.find? channelId with
  | some rows =>
    have hrun : (overwrites channelId).run d = (rows, d) := by simp [overwrites, hf]; rfl
    rw [hd.rel.overwrites _ _ hf] at hrun
    exact .of_run hrun hd (.refl d)
  | none =>
    let cache := (d.overwritesCache.bound cacheBound).emplace channelId
      (d.tables.overwritesOf channelId)
    have hrun : (overwrites channelId).run d =
        (d.tables.overwritesOf channelId, { d with overwritesCache := cache }) := by
      simp [overwrites, hf]; rfl
    exact .of_run hrun
      ⟨{ hd.rel with overwrites := (hd.rel.overwrites.bound _).emplace channelId }, hd.idle⟩
      ⟨rfl, rfl, rfl⟩

theorem permEntry_spec (uid : Uid) :
    Answers X d (permEntry uid) (d.tables.permEntry d.ownerCache uid) := by
  cases hf : d.permCache.find? uid with
  | some e =>
    have hrun : (permEntry uid).run d = (e, d) := by simp [permEntry, hf]; rfl
    rw [hd.rel.perm _ _ hf] at hrun
    exact .of_run hrun hd (.refl d)
  | none =>
    let cache := (d.permCache.bound cacheBound).emplace uid (d.tables.permEntry d.ownerCache uid)
    have hrun : (permEntry uid).run d =
        (d.tables.permEntry d.ownerCache uid, { d with permCache := cache }) := by
      simp [permEntry, hf]; rfl
    exact .of_run hrun ⟨{ hd.rel with perm := (hd.rel.perm.bound _).emplace uid }, hd.idle⟩
      ⟨rfl, rfl, rfl⟩

theorem effectivePermissions_spec (uid : Uid) :
    Answers X d (effectivePermissions uid) (d.tables.permEntry d.ownerCache uid).permissions :=
  (permEntry_spec hd uid).bind fun _ hd' _ => .pure hd' _

theorem memberLevel_spec (uid : Uid) :
    Answers X d (memberLevel uid) (d.tables.permEntry d.ownerCache uid).level :=
  (permEntry_spec hd uid).bind fun _ hd' _ => .pure hd' _

theorem listOverwrites_spec (channelId : String) :
    Answers X d (listOverwrites channelId)
      (d.tables.overwritesOf (d.tables.layout.source channelId)) :=
  (overwriteSource_spec hd channelId).bind fun d' hd' hs => by
    have := overwrites_spec hd' (d.tables.layout.source channelId)
    rwa [hs.tables] at this

theorem resolveChannelPermissions_spec (uid : Uid) (channelId : String) :
    Answers X d (resolveChannelPermissions uid channelId)
      (d.toMemory.channelPermissions d.tables uid channelId) := by
  rw [resolveChannelPermissions, Memory.channelPermissions, Tables.channelPermissions]
  refine (permEntry_spec hd uid).bind fun d₁ hd₁ hs₁ => ?_
  split
  · exact .pure hd₁ _
  · refine (overwriteSource_spec hd₁ channelId).bind fun d₂ hd₂ hs₂ => ?_
    refine (overwrites_spec hd₂ _).bind fun d₃ hd₃ hs₃ => ?_
    have hs := (hs₁.trans hs₂).trans hs₃
    rw [(hs₁.trans hs₂).tables, hs₁.tables]
    have h := Answers.gets hd₃ fun d' : CommunityDb =>
      resolveChannel (d.tables.permEntry d.ownerCache uid).permissions d'.tables.everyoneId
        (d'.tables.roleIdsOf uid) (toString uid)
        (d.tables.overwritesOf (d.tables.layout.source channelId)) (d'.hasVoicePass uid channelId)
    rw [hs.tables, Memory.hasVoicePass, hs.passes] at h
    exact h

theorem channelPermissions_spec (uid : Uid) (channelId : String) :
    Answers X d (channelPermissions uid channelId)
      (if d.tables.layout.parentOf.find? channelId = none then 0
        else d.toMemory.channelPermissions d.tables uid channelId) := by
  rw [channelPermissions]
  refine (getLayout_spec hd).bind fun d₁ hd₁ hs₁ => ?_
  split
  · exact .pure hd₁ _
  rw [← hs₁.channelPermissions]
  refine .get_bind ?_
  cases hp : ((d₁.channelPermCache.find? uid).getD .empty).find? channelId with
  | some p =>
    simp only [hp]
    cases hc : d₁.channelPermCache.find? uid with
    | none => rw [hc] at hp; cases hp
    | some c =>
      rw [hc, Option.getD_some] at hp
      rw [← hd₁.rel.channelPerm uid c hc channelId p hp]
      exact .pure hd₁ p
  | none =>
    simp only [hp]
    refine (resolveChannelPermissions_spec hd₁ uid channelId).bind fun d₂ hd₂ hs₂ => ?_
    rw [← hs₂.channelPermissions]
    exact .of_run rfl ⟨hd₂.rel.addChannelPerm uid channelId, hd₂.idle⟩ ⟨rfl, rfl, rfl⟩

end CommunityDb
end Decibell
