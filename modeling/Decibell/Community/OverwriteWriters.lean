import Decibell.Community.OverwriteRules

/-!
# The writers of overwrites, whatever fails

What a database at rest has (`On`: its tables, its owner and voice passes, the answers to come, the
caches being right) once one of the writers of overwrites has run. Each leaves its effect and says so,
or leaves the tables as they were (`Attempt`); the latter only where a statement fails.
-/

namespace Decibell

open Lib Lib.Conn Tables ChannelLayout

/-- No statement to come fails. -/
def NoneFails (os : List Outcome) : Prop := ∀ o ∈ os, o = .ok

theorem NoneFails.next {os : List Outcome} (h : NoneFails os) : nextOf os = .ok := by
  cases os with
  | nil => rfl
  | cons o os => exact h o (.head os)

theorem NoneFails.tail {os : List Outcome} (h : NoneFails os) : NoneFails os.tail :=
  fun o ho => h o (List.mem_of_mem_tail ho)

theorem NoneFails.answers {os : List Outcome} (h : NoneFails os) (n : Nat) :
    (answers n os).last = .ok ∧ NoneFails (answers n os).left := by
  induction n generalizing os with
  | zero => exact ⟨rfl, h⟩
  | succ n ih =>
    simp only [Lib.answers, if_pos h.next]
    exact ih h.tail

theorem NoneFails.committed {os : List Outcome} (h : NoneFails os) (n : Nat) :
    committed n os ∧ NoneFails (afterwards n os) := by
  obtain ⟨hlast, hleft⟩ := h.answers n
  refine ⟨⟨hlast, hleft.next⟩, ?_⟩
  rw [afterwards, if_pos hlast]
  exact hleft.tail

namespace CommunityDb

open Memory

variable {owner : Uid} {passes : Memo Uid (List String)} {t t' : Tables} {os : List Outcome}
  {α β : Type} {Q : β → CommunityDb → Prop}

/-! ## At rest -/

/-- Whose server it is, and who has voice passes. -/
structure Whose (owner : Uid) (passes : Memo Uid (List String)) (m : Memory) : Prop where
  owner : m.ownerCache = owner
  passes : m.voicePasses = passes

/-- The caches are right besides. -/
structure Known (owner : Uid) (passes : Memo Uid (List String)) (t : Tables) (m : Memory) : Prop
    extends Whose owner passes m where
  sound : m.Sound (fun _ _ => True) t

/-- The database is at rest. -/
abbrev On (owner : Uid) (passes : Memo Uid (List String)) (t : Tables) (os : List Outcome) :
    CommunityDb → Prop :=
  Facing (Known owner passes t) ⟨t, none, os⟩

theorem Facing.quiet {d : CommunityDb} (hd : On owner passes t os d) :
    Quiet (Sound fun _ _ => True) d := by
  refine ⟨?_, congrArg Conn.saved hd.conn⟩
  rw [hd.tables]
  exact hd.memory.sound

theorem Quiet.facing {d : CommunityDb} (hd : Quiet (Sound fun _ _ => True) d) :
    On d.ownerCache d.voicePasses d.tables d.conn.outcomes d := by
  refine ⟨⟨⟨rfl, rfl⟩, hd.rel⟩, ?_⟩
  have hs : d.conn.saved = none := hd.idle
  rw [← hs]

theorem overwritesIf_spec {X : Uid → Table DbMeta.key → Prop} {d : CommunityDb}
    (hd : Quiet (Sound X) d) {wanted : Prop} [Decidable wanted] {id : String} :
    Answers X d (overwritesIf wanted id) (if wanted then d.tables.overwritesOf id else []) := by
  by_cases hw : wanted
  · simpa only [overwritesIf, hw, decide_true, if_true] using overwrites_spec hd id
  · simpa [overwritesIf, hw] using Answers.pure hd []

theorem on_answer {q : DbM α} {a : α}
    (h : ∀ d, On owner passes t os d → Answers (fun _ _ => True) d q a) :
    Triple (On owner passes t os) q fun b d => b = a ∧ On owner passes t os d := by
  intro d hd
  have hq := h d hd
  refine ⟨hq.value, ⟨⟨?_, ?_⟩, ?_⟩, hq.same.conn.trans hd.conn⟩
  · exact hq.same.owner.trans hd.memory.owner
  · exact hq.same.passes.trans hd.memory.passes
  · have hs := hq.quiet.rel
    rwa [hq.same.tables, hd.tables] at hs

theorem on_getLayout : Triple (On owner passes t os) getLayout
    fun l d => l = t.layout ∧ On owner passes t os d := by
  refine on_answer fun d hd => ?_
  have htables : d.tables = t := hd.tables
  rw [← htables]
  exact getLayout_spec hd.quiet

/-! ## What a writer leaves -/

/-- The tables satisfy `E`, as the writer says, or are as before, with `os'` left. -/
def Left (E : Tables → Prop) (t : Tables) (os : List Outcome) (ok : Bool) (t' : Tables)
    (os' : List Outcome) : Prop :=
  (NoneFails os → NoneFails os') ∧ (ok = true ∧ E t' ∨ t' = t ∧ ¬NoneFails os)

/-- What a writer leaves where it is at rest afterwards. -/
def Attempt (owner : Uid) (passes : Memo Uid (List String)) (E : Tables → Prop) (t : Tables)
    (os : List Outcome) (ok : Bool) (d : CommunityDb) : Prop :=
  ∃ t' os', Left E t os ok t' os' ∧ On owner passes t' os' d

theorem attempt_of_keeps {E : Tables → Prop} {m : DbM Bool}
    (hk : Keeps (Quiet (Sound fun _ _ => True)) m)
    (h : Triple (On owner passes t os) m fun ok d => ∃ t' os', Left E t os ok t' os' ∧
      Facing (Whose owner passes) ⟨t', none, os'⟩ d) :
    Triple (On owner passes t os) m (Attempt owner passes E t os) := by
  intro d hd
  obtain ⟨t', os', hleft, hw⟩ := h d hd
  have hs := (hk d hd.quiet).rel
  rw [hw.tables] at hs
  exact ⟨t', os', hleft, ⟨hw.memory, hs⟩, hw.conn⟩

theorem facing_attempt {M : Memory → Prop} {stmts : List Stmt} {E : Tables → Prop}
    (h : applyAll stmts t = some t') (hE : E t') {f : Bool → DbM Bool}
    (hf : ∀ ok, Triple (fun d => ∃ t' os', Left E t os ok t' os' ∧ Facing M ⟨t', none, os'⟩ d) (f ok)
      fun ok d => ∃ t' os', Left E t os ok t' os' ∧ Facing M ⟨t', none, os'⟩ d) :
    Triple (Facing M ⟨t, none, os⟩) (do
      if ← sql begin then
        let ok ← sql (execAll stmts)
        sql (finish ok)
        f ok
      else return false)
      fun ok d => ∃ t' os', Left E t os ok t' os' ∧ Facing M ⟨t', none, os'⟩ d := by
  refine facing_begin (fun ho => ?_) fun ho => ?_
  · refine facing_transaction h ?_
    refine (hf _).conseq (fun d hd => ?_) fun _ _ h => h
    refine ⟨_, _, ⟨fun hos => (hos.tail.committed _).2, ?_⟩, hd⟩
    by_cases hc : committed stmts.length os.tail
    · rw [if_pos hc]
      exact .inl ⟨decide_eq_true hc.1, hE⟩
    · rw [if_neg hc]
      exact .inr ⟨rfl, fun hos => hc (hos.tail.committed _).1⟩
  · exact .pure fun d hd => ⟨t, os.tail, ⟨NoneFails.tail, .inr ⟨rfl, fun hos => ho hos.next⟩⟩, hd⟩

theorem facing_forgetChannel (id : String) (ok : Bool) {E : Tables → Prop} :
    Triple (fun d => ∃ t' os', Left E t os ok t' os' ∧ Facing (Whose owner passes) ⟨t', none, os'⟩ d)
      (do eraseOverwritesCache id; invalidateChannelLayout; return ok)
      fun ok d => ∃ t' os', Left E t os ok t' os' ∧
        Facing (Whose owner passes) ⟨t', none, os'⟩ d := by
  rintro d ⟨t', os', hleft, hd⟩
  exact ⟨t', os', hleft, ⟨hd.memory.owner, hd.memory.passes⟩, hd.conn⟩

theorem on_writeOwn {id : String} {rows : List DbOverwrite} {synced : Bool} {E : Tables → Prop}
    (h : applyAll (writeOwnOverwrites id rows synced) t = some t') (hE : E t') :
    Triple (On owner passes t os) (do
      if ← sql begin then
        let ok ← sql (execAll (writeOwnOverwrites id rows synced))
        sql (finish ok)
        eraseOverwritesCache id
        invalidateChannelLayout
        return ok
      else return false) (Attempt owner passes E t os) := by
  refine attempt_of_keeps (triple_begin (triple_writeOwn id rows synced) Keeps.pure) ?_
  exact (facing_attempt h hE fun ok => facing_forgetChannel id ok).conseq
    (fun _ hd => hd.imp fun _ hm => hm.toWhose) fun _ _ h => h

theorem on_restoreChannelOverwrites {id source : String} {t₀ : Tables} :
    Triple (On owner passes t os) (restoreChannelOverwrites id (t₀.overwritesOf source))
      (Attempt owner passes
        (fun t' => Wrote id (t₀.overwritesOf source) false t t' ∧ SamePeople t t') t os) := by
  obtain ⟨t', ht'⟩ := applyAll_writeOwn source t₀ t id false
  exact on_writeOwn ht' ⟨wrote_of_applyAll ht', people_of_writeOwn ht'⟩

theorem on_syncChannelPermissions {id : String} (hparent : t.layout.parentCategory id ≠ "")
    (hsync : t.layout.categorySyncOf.find? (t.layout.parentCategory id) = some true) :
    Triple (On owner passes t os) (syncChannelPermissions id)
      (Attempt owner passes (fun t' => Wrote id [] true t t' ∧ SamePeople t t') t os) := by
  obtain ⟨t', ht'⟩ := applyAll_writeOwn "" {} t id true
  refine on_getLayout.bind_eq ?_
  rw [if_neg (not_or.2 ⟨hparent, not_not.2 hsync⟩)]
  exact on_writeOwn ht' ⟨wrote_of_applyAll ht', people_of_writeOwn ht'⟩

theorem applyAll_setOverwrite {ow : DbOverwrite} (channel : DbChannel) {inherited : List DbOverwrite}
    {source : String} (h : inherited = if source ≠ ow.channelId then t.overwritesOf source else []) :
    ∃ t', applyAll ((if inherited = [] then [] else writeOwnOverwrites ow.channelId inherited false) ++
      (if channel.type = .category then [] else [setPermSynced ow.channelId false]) ++
      [if ow.allow = 0 ∧ ow.deny = 0 then deleteOverwrites (·.key = ow.key) else upsertOverwrite ow])
        t = some t' := by
  have hcopy : ∃ u, applyAll (if inherited = [] then []
      else writeOwnOverwrites ow.channelId inherited false) t = some u := by
    split
    · exact ⟨t, rfl⟩
    · rename_i hne
      have hrows : inherited = t.overwritesOf source := by
        rw [h]
        refine if_pos fun hs => hne ?_
        rw [h, if_neg (not_not.2 hs)]
      rw [hrows]
      exact applyAll_writeOwn source t t ow.channelId false
  have hunsync : ∀ u, ∃ v, applyAll (if channel.type = .category then []
      else [setPermSynced ow.channelId false]) u = some v := by
    intro u
    split
    · exact ⟨u, rfl⟩
    · exact ⟨_, rfl⟩
  have hwrite : ∀ v, ∃ t', applyAll [if ow.allow = 0 ∧ ow.deny = 0
      then deleteOverwrites (·.key = ow.key) else upsertOverwrite ow] v = some t' := by
    intro v
    split <;> exact ⟨_, rfl⟩
  obtain ⟨u, hu⟩ := hcopy
  obtain ⟨v, hv⟩ := hunsync u
  obtain ⟨t', ht'⟩ := hwrite v
  refine ⟨t', ?_⟩
  rw [applyAll_append, applyAll_append, hu]
  simp only [Option.bind_some, hv, ht']

theorem sql_transact (stmts : List Stmt) : sql (transact stmts) = (do
    if ← sql begin then
      let ok ← sql (execAll stmts)
      sql (finish ok)
      return ok
    else return false) := by
  have hite : ∀ b : Bool, sql (if b then do
      let ok ← execAll stmts
      finish ok
      return ok
    else return false) = if b then do
      let ok ← sql (execAll stmts)
      sql (finish ok)
      return ok
    else return false := fun b => by cases b <;> rfl
  exact congrArg (sql begin >>= ·) (funext hite)

theorem on_setOverwrite (ht : SyncInv t) {channel : DbChannel} (hc : channel ∈ t.channels.rows)
    {ow : DbOverwrite} (how : ow.channelId = channel.id) (hrow : maskOverwrite ow = ow)
    (htarget : targetExists t ow = true) :
    Triple (On owner passes t os) (setOverwrite ow)
      (Attempt owner passes (Sets ow t) t os) := by
  refine attempt_of_keeps (keeps_setOverwrite ow) (.get_bind fun d hd => ?_)
  have hfind : t.channels.find? ow.channelId = some channel := Table.find?_eq_some.2 ⟨hc, how.symm⟩
  simp only [hd.tables, hfind, htarget, hrow, Bool.not_true, Bool.false_eq_true, if_false]
  refine (on_answer fun d hd => hd.tables ▸ overwriteSource_spec hd.quiet ow.channelId).bind_eq ?_
  generalize hsource : t.layout.source ow.channelId = source
  have hinherited : Triple (On owner passes t os) (overwritesIf (source ≠ ow.channelId) source)
      fun rows d => rows = (if source ≠ ow.channelId then t.overwritesOf source else []) ∧
        On owner passes t os d := by
    refine on_answer fun d hd => ?_
    have htables : d.tables = t := hd.tables
    rw [← htables]
    exact overwritesIf_spec hd.quiet
  refine hinherited.bind fun inherited => .of_and fun hrows => ?_
  obtain ⟨t', ht'⟩ := applyAll_setOverwrite channel hrows
  have hsets : Sets ow t t' := sets_of_applyAll ht hc how (by rw [hsource]; exact hrows) ht'
  refine Triple.bind (Q := fun _ => Facing (Whose owner passes) ⟨t, none, os⟩)
    (fun d hd => ⟨⟨hd.memory.owner, hd.memory.passes⟩, hd.conn⟩) fun _ => ?_
  refine Triple.bind (Q := fun _ => Facing (Whose owner passes) ⟨t, none, os⟩)
    (fun d hd => ⟨⟨hd.memory.owner, hd.memory.passes⟩, hd.conn⟩) fun _ => ?_
  rw [sql_transact]
  exact Triple.bind (facing_attempt ht' hsets fun ok => .pure fun _ h => h) fun ok =>
    facing_forgetChannel ow.channelId ok

theorem on_setOverwrite_refused {ow : DbOverwrite} (htarget : targetExists t ow = false) :
    Triple (On owner passes t os) (setOverwrite ow)
      fun ok d => ok = false ∧ On owner passes t os d := by
  refine .get_bind fun d hd => ?_
  simp only [hd.tables, htarget, Bool.not_false, if_true]
  cases t.channels.find? ow.channelId with
  | none => exact .pure fun d hd => ⟨rfl, hd⟩
  | some channel => exact .pure fun d hd => ⟨rfl, hd⟩

/-! ## The audit log -/

/-- Channels, overwrites and members are as they were. -/
structure Logged (t t' : Tables) : Prop extends SamePeople t t' where
  channels : t'.channels = t.channels
  overwrites : t'.overwrites = t.overwrites

theorem Logged.settled (h : Logged t t') (ht : Settled t) : Settled t' := by
  have hord : t'.ordered = t.ordered := by simp only [ordered, h.channels]
  have hsame : SameLayout t t' :=
    ⟨⟨h.overwrites, DbChannel.position, by simp [h.channels]⟩, fun id => by rw [hord]⟩
  refine ⟨(ht.sync.sameLayout hsame).1, ?_⟩
  rw [ProperRows, h.overwrites]
  exact ht.proper

theorem Logged.permitted {perms : String → Permissions} {ids : List String} {u : Tables}
    (h : Logged t' u) (hc : Permitted perms ids t t') : Permitted perms ids t u := by
  have hbits : u.bitsIn = t'.bitsIn := by
    funext id targetType targetId
    rw [bitsIn, bitsIn, layout_congr h.channels, overwritesOf_congr h.overwrites]
  refine ⟨?_, ?_, ?_⟩
  · rw [hbits]
    exact hc.held
  · rw [overwritesOf_congr h.overwrites]
    exact hc.rows
  · rw [h.channels]
    exact hc.flags

theorem Logged.follows {id k : String} (h : Logged t t') (hf : Follows t.ordered id k) :
    Follows t'.ordered id k := by
  have hord : t'.ordered = t.ordered := by simp only [ordered, h.channels]
  rwa [hord]

theorem run_exec_idle (stmt : Stmt) (t : Tables) (os : List Outcome) :
    ∃ b t', (t' = t ∨ stmt t = some t') ∧ (exec stmt).run ⟨t, none, os⟩ = (b, ⟨t', none, os.tail⟩) := by
  simp only [exec, StateT.run]
  split
  · exact ⟨true, _, .inr ‹_›, rfl⟩
  · exact ⟨false, t, .inl rfl, rfl⟩
  · exact ⟨false, t, .inl rfl, rfl⟩
  · exact ⟨false, t, .inl rfl, rfl⟩

theorem on_addAudit (now : Int) (s : Session) (action : String) (targetUid : Uid) (target : Bytes)
    (channelId : String) (details : Bytes) :
    Triple (On owner passes t os) (addAudit now s action targetUid target channelId details)
      fun _ d => ∃ t', Logged t t' ∧ On owner passes t' os.tail d := by
  intro d hd
  have hrow : ∀ row t', Tables.insertAudit row t = some t' → Logged t t' := by
    intro row t' h
    obtain ⟨auditLog, -, rfl⟩ := Option.map_eq_some_iff.1 h
    exact ⟨⟨rfl, rfl, rfl⟩, rfl, rfl⟩
  have hkeeps : Keeps (Quiet (Sound fun _ _ => True))
      (addAudit now s action targetUid target channelId details) := by
    refine Keeps.bind (keeps_quiet_exec fun m => Sound.preserves fun u u' hu => ?_) fun _ => .pure
    obtain ⟨auditLog, -, rfl⟩ := Option.map_eq_some_iff.1 hu
    exact ⟨fun h => h, rfl, rfl, rfl, rfl⟩
  have hs := (hkeeps d hd.quiet).rel
  obtain ⟨b, t', ht', hrun⟩ := run_exec_idle (Tables.insertAudit {
    id := 0
    timestamp := now
    actorUid := s.uid
    actor := s.username
    action, targetUid, channelId
    target := clampUtf8 target maxAuditTargetBytes
    details := clampUtf8 details maxAuditDetailsBytes }) t os
  have hconn : ((addAudit now s action targetUid target channelId details).run d).2.conn =
      ⟨t', none, os.tail⟩ := by
    rw [← hd.conn] at hrun
    exact congrArg Prod.snd hrun
  have hlogged : Logged t t' := by
    rcases ht' with rfl | h
    · exact ⟨.refl _, rfl, rfl⟩
    · exact hrow _ _ h
  refine ⟨t', hlogged, ⟨⟨hd.memory.owner, hd.memory.passes⟩, ?_⟩, hconn⟩
  rwa [tables, hconn] at hs

end CommunityDb
end Decibell
