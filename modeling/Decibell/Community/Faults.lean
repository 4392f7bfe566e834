import Mathlib.Algebra.GroupWithZero.Nat
import Decibell.Community.Coherence
import Decibell.Community.Sync
import Decibell.Lib.Faults

/-!
# Writers whose statements fail

The rules for a writer from a connection with given answers to come (`Facing`): a transaction leaves
the tables after its statements, or those before it where a statement or the commit failed. Copies
of a category's rows stop at the first failing statement; the channel that it is of stays synced
(`facing_keepOverwrites`).
-/

namespace Decibell

open Lib Lib.Conn Tables ChannelLayout List

theorem Tables.SameLayout.refl (t : Tables) : SameLayout t t :=
  ⟨⟨rfl, DbChannel.position, by simp⟩, fun _ => rfl⟩

namespace CommunityDb

open Memory

variable {M N : Memory → Prop} {t t' t₀ : Tables} {sv : Option Tables} {os : List Outcome}
  {α β : Type} {Q : β → CommunityDb → Prop}

/-- The connection is `c`, and what is remembered satisfies `M`. -/
structure Facing (M : Memory → Prop) (c : Conn Tables) (d : CommunityDb) : Prop where
  memory : M d.toMemory
  conn : d.conn = c

/-- Any memory. -/
abbrev Whatever : Memory → Prop := fun _ => True

theorem Facing.of_facing {d : CommunityDb} (hd : d.conn.Idle) (os : List Outcome) :
    Facing Whatever ⟨d.tables, none, os⟩ (d.facing os) :=
  ⟨trivial, congrArg (fun sv => (⟨d.tables, sv, os⟩ : Conn Tables)) hd⟩

theorem Facing.tables {c : Conn Tables} {d : CommunityDb} (h : Facing M c d) : d.tables = c.tables :=
  congrArg Conn.tables h.conn

theorem Facing.imp {c : Conn Tables} {d : CommunityDb} (h : Facing M c d) (hM : ∀ m, M m → N m) :
    Facing N c d :=
  ⟨hM _ h.memory, h.conn⟩

theorem facing_sql {c c' : Conn Tables} {m : StateM (Conn Tables) α} {a : α} (h : m.run c = (a, c')) :
    Triple (Facing M c) (sql m) fun b d => b = a ∧ Facing M c' d := by
  intro d hd
  rw [← hd.conn] at h
  exact ⟨congrArg Prod.fst h, hd.memory, congrArg Prod.snd h⟩

theorem facing_begin {m₁ m₂ : DbM β}
    (h₁ : nextOf os = .ok → Triple (Facing M ⟨t, some t, os.tail⟩) m₁ Q)
    (h₂ : nextOf os ≠ .ok → Triple (Facing M ⟨t, none, os.tail⟩) m₂ Q) :
    Triple (Facing M ⟨t, none, os⟩) (do if ← sql begin then m₁ else m₂) Q := by
  have hb := run_begin t os
  by_cases ho : nextOf os = .ok
  · rw [if_pos ho] at hb
    exact (facing_sql hb).bind_eq (h₁ ho)
  · rw [if_neg ho] at hb
    exact (facing_sql hb).bind_eq (h₂ ho)

/-- A transaction of these statements leaves `t` if committed, else `t₀`. -/
def ended (os : List Outcome) (n : Nat) (t t₀ : Tables) : Conn Tables where
  tables := if committed n os then t else t₀
  outcomes := afterwards n os

theorem facing_transaction {stmts : List Stmt} {f : Bool → DbM β} (h : applyAll stmts t = some t')
    (hf : Triple (Facing M (ended os stmts.length t' t₀))
      (f ((answers stmts.length os).last = .ok)) Q) :
    Triple (Facing M ⟨t, some t₀, os⟩) (do
      let ok ← sql (execAll stmts)
      sql (finish ok)
      f ok) Q := by
  rcases run_execAll h (some t₀) os with ⟨hok, hrun⟩ | ⟨hno, u, -, hrun⟩
  · rw [ended, afterwards, if_pos hok, decide_eq_true hok] at hf
    simp only [committed, hok, true_and] at hf
    exact (facing_sql hrun).bind_eq ((facing_sql run_finish_true).bind_eq hf)
  · rw [ended, afterwards, if_neg hno, decide_eq_false hno, if_neg fun h => hno h.1] at hf
    exact (facing_sql hrun).bind_eq ((facing_sql (run_finish_false _)).bind_eq hf)

theorem facing_statements {stmts : List Stmt} {f : Bool → DbM β} (h : applyAll stmts t = some t')
    (hok : (answers stmts.length os).last = .ok →
      Triple (Facing M ⟨t', none, (answers stmts.length os).left.tail⟩) (f true) Q)
    (hno : (answers stmts.length os).last ≠ .ok → ∀ u,
      applyAll (stmts.take (answers stmts.length os).ran) t = some u →
        Triple (Facing M ⟨u, none, (answers stmts.length os).left⟩) (f false) Q) :
    Triple (Facing M ⟨t, none, os⟩) (do
      let ok ← sql (execAll stmts)
      sql (finish ok)
      f ok) Q := by
  rcases run_execAll h none os with ⟨hlast, hrun⟩ | ⟨hlast, u, hu, hrun⟩
  · exact (facing_sql hrun).bind_eq ((facing_sql (run_finish_idle true)).bind_eq (hok hlast))
  · rw [failed_idle] at hrun
    exact (facing_sql hrun).bind_eq ((facing_sql (run_finish_idle false)).bind_eq (hno hlast u hu))

theorem facing_modify {c : Conn Tables} {f : Memory → Memory} (hf : ∀ m, M m → N (f m)) :
    Triple (Facing M c) (modify fun d => { d with toMemory := f d.toMemory }) fun _ => Facing N c :=
  fun _ hd => ⟨hf _ hd.memory, hd.conn⟩

theorem facing_answer {X : Uid → Table DbMeta.key → Prop} {q : DbM α} {a : α} {f : α → DbM β}
    (h : ∀ d, Quiet (Sound X) d → d.tables = t → Answers X d q a)
    (hf : Triple (Facing (Sound X · t) ⟨t, none, os⟩) (f a) Q) :
    Triple (Facing (Sound X · t) ⟨t, none, os⟩) (q >>= f) Q := by
  refine Triple.bind_eq (a := a) (S := Facing (Sound X · t) ⟨t, none, os⟩) (fun d hd => ?_) hf
  have ht : d.tables = t := hd.tables
  have ha := h d ⟨ht.symm ▸ hd.memory, congrArg Conn.saved hd.conn⟩ ht
  refine ⟨ha.value, ?_, ha.same.conn.trans hd.conn⟩
  have := ha.quiet.rel
  rwa [ha.same.tables, ht] at this

theorem facing_getLayout {X : Uid → Table DbMeta.key → Prop} {f : ChannelLayout → DbM β}
    (hf : Triple (Facing (Sound X · t) ⟨t, none, os⟩) (f t.layout) Q) :
    Triple (Facing (Sound X · t) ⟨t, none, os⟩) (getLayout >>= f) Q :=
  facing_answer (fun _ hd ht => ht ▸ getLayout_spec hd) hf

theorem facing_getLayout_fresh {l : ChannelLayout} {f : ChannelLayout → DbM β} (hl : t.layout = l)
    (hM : ∀ m, M m → m.layoutValid = true → m.layout = l)
    (hset : ∀ m, M m → M { m with layout := l, layoutValid := true })
    (hf : Triple (Facing M ⟨t, sv, os⟩) (f l) Q) :
    Triple (Facing M ⟨t, sv, os⟩) (getLayout >>= f) Q := by
  refine Triple.bind_eq (a := l) (S := Facing M ⟨t, sv, os⟩) (fun d hd => ?_) hf
  cases hv : d.layoutValid with
  | true =>
    have hrun : getLayout.run d = (d.layout, d) := by simp [getLayout, hv]; rfl
    rw [hrun]
    exact ⟨hM _ hd.memory hv, hd⟩
  | false =>
    have hrun : getLayout.run d =
        (d.tables.layout, { d with layout := d.tables.layout, layoutValid := true }) := by
      simp [getLayout, hv, rebuildChannelLayout]; rfl
    have ht : d.tables = t := hd.tables
    rw [hrun, ht, hl]
    exact ⟨rfl, hset _ hd.memory, hd.conn⟩

theorem facing_overwritesIf {X : Uid → Table DbMeta.key → Prop} {wanted : Prop} [Decidable wanted]
    {id : String} {f : List DbOverwrite → DbM β}
    (hf : Triple (Facing (Sound X · t) ⟨t, none, os⟩)
      (f (if wanted then t.overwritesOf id else [])) Q) :
    Triple (Facing (Sound X · t) ⟨t, none, os⟩) (overwritesIf wanted id >>= f) Q := by
  refine facing_answer (fun d hd ht => ?_) hf
  by_cases hw : wanted
  · simpa only [overwritesIf, hw, decide_true, if_true] using ht ▸ overwrites_spec hd id
  · simpa [overwritesIf, hw] using Answers.pure hd []

theorem facing_forgetLayout {c : Conn Tables}
    (hM : ∀ m, M m → N { m with layoutValid := false, channelPermCache := .empty }) :
    Triple (Facing M c) invalidateChannelLayout fun _ => Facing N c :=
  facing_modify hM

theorem facing_invalidateLayout {c : Conn Tables} {f : DbM β}
    (hM : ∀ m, M m → N { m with layoutValid := false, channelPermCache := .empty })
    (hf : Triple (Facing N c) f Q) : Triple (Facing M c) (do invalidateChannelLayout; f) Q :=
  (facing_forgetLayout hM).bind fun _ => hf

/-! ## Display order -/

/-- The tables once the groups are in normal order. -/
def normalized (t : Tables) : Tables :=
  t.repositioned ((normalizeRows t.ordered [] []).map DbChannel.id) fun i => i

theorem length_renumber (ids : List String) (position : Nat → Int) :
    (renumber ids position).length = ids.length := by
  simp [renumber]

/-- The normal order is committed, where there are `n` channels. -/
def Normalizes (n : Nat) (os : List Outcome) : Prop := nextOf os = .ok ∧ committed n os.tail

instance (n : Nat) (os : List Outcome) : Decidable (Normalizes n os) :=
  inferInstanceAs (Decidable (_ ∧ _))

theorem facing_normalize (hM : ∀ m, M m → M { m with layoutValid := false, channelPermCache := .empty }) :
    Triple (Facing M ⟨t, none, os⟩) normalizeChannelOrder fun _ =>
      Facing M ⟨if Normalizes t.channels.rows.length os then normalized t else t, none,
        transacted t.channels.rows.length os⟩ := by
  refine .get_bind fun d hd => ?_
  rw [hd.tables]
  have hperm := (normalizeRows_perm t.ordered [] []).trans t.perm_ordered
  have hlen : (renumber ((normalizeRows t.ordered [] []).map DbChannel.id) fun i => i).length =
      t.channels.rows.length := by
    rw [length_renumber, length_map]
    exact hperm.length_eq
  refine facing_begin (fun ho => ?_) fun ho => ?_
  · refine facing_transaction (applyAll_renumber (nodup_ids hperm) _ t) ?_
    refine (facing_forgetLayout hM).conseq (fun _ h => h) fun _ d hd => ?_
    rw [transacted, if_pos ho, ← hlen]
    simp only [Normalizes, ho, true_and]
    exact hd
  · refine .pure fun d hd => ?_
    rw [transacted, if_neg ho, if_neg fun h => ho h.1]
    exact hd

/-- Normalizing, whatever fails, leaves each channel under its category. -/
theorem facing_normalizeChannelOrder
    (hM : ∀ m, M m → M { m with layoutValid := false, channelPermCache := .empty }) :
    Triple (Facing M ⟨t, none, os⟩) normalizeChannelOrder fun _ d =>
      ∃ t', SameLayout t t' ∧ Facing M ⟨t', none, transacted t.channels.rows.length os⟩ d := by
  refine (facing_normalize hM).conseq (fun _ h => h) fun _ d hd => ⟨_, ?_, hd⟩
  split
  · exact sameLayout_normalized t
  · exact .refl t

/-! ## Copies -/

theorem nodup_followers (l : ChannelLayout) (k : String) : (l.followers k).Nodup :=
  l.parentOf.nodup.sublist (filter_sublist.map _)

theorem facing_overwrites {k : String} {rows : List DbOverwrite}
    (hM : ∀ m, M m → ∀ v, m.overwritesCache.find? k = some v → v = rows)
    (hfill : ∀ m, M m →
      M { m with overwritesCache := (m.overwritesCache.bound cacheBound).emplace k rows })
    (ht : t.overwritesOf k = rows) :
    Triple (Facing M ⟨t, sv, os⟩) (overwrites k) fun v d => v = rows ∧ Facing M ⟨t, sv, os⟩ d := by
  intro d hd
  cases hf : d.overwritesCache.find? k with
  | some v =>
    have hrun : (overwrites k).run d = (v, d) := by simp [overwrites, hf]; rfl
    rw [hrun]
    exact ⟨hM _ hd.memory v hf, hd⟩
  | none =>
    have htables : d.tables.overwritesOf k = rows := (congrArg (overwritesOf · k) hd.tables).trans ht
    have hrun : (overwrites k).run d = (rows, { d with
        overwritesCache := (d.overwritesCache.bound cacheBound).emplace k rows }) := by
      simp [overwrites, hf, htables]; rfl
    rw [hrun]
    exact ⟨rfl, hfill _ hd.memory, hd.conn⟩

/-- How many statements the copies take. -/
def copyCount (rows : String → List DbOverwrite) (channels : List (String × String)) : Nat :=
  (channels.map fun e => (rows e.2).length + 2).sum

theorem length_writeOwnOverwrites (id : String) (rows : List DbOverwrite) (synced : Bool) :
    (writeOwnOverwrites id rows synced).length = rows.length + 2 := by
  simp [writeOwnOverwrites]

/-- A channel is still as it was. -/
def Untouched (id : String) (t t' : Tables) : Prop :=
  ∀ c ∈ t.channels.rows, c.id = id → c ∈ t'.channels.rows

theorem untouched_of_take {id : String} {rows : List DbOverwrite} {n : Nat} {u : Tables}
    (hn : n < rows.length + 2)
    (h : applyAll ((writeOwnOverwrites id rows false).take n) t = some u) :
    u.channels = t.channels := by
  have hp : ∀ stmt ∈ (writeOwnOverwrites id rows false).take n,
      Preserves (fun v : Tables => v.channels = t.channels) stmt := by
    intro stmt hm v v' hv hs
    have hlen : (deleteOverwrites (·.channelId = id) ::
        rows.map fun ow => insertOverwrite { ow with channelId := id }).length =
          rows.length + 1 := by
      simp
    rw [writeOwnOverwrites, take_append_of_le_length (by omega)] at hm
    rcases mem_cons.1 (mem_of_mem_take hm) with rfl | hm
    · cases hs
      exact hv
    · obtain ⟨ow, -, rfl⟩ := mem_map.1 hm
      obtain ⟨overwrites, -, rfl⟩ := Option.map_eq_some_iff.1 hs
      exact hv
  exact Preserves.applyAll hp (R := fun v : Tables => v.channels = t.channels) rfl h

theorem facing_keepOverwrites {rows : String → DbM (List DbOverwrite)} {r : String → List DbOverwrite}
    {P : String → Prop} {channels : List (String × String)} (hn : (channels.map Prod.fst).Nodup)
    (hP : ∀ e ∈ channels, ¬P e.1)
    (hr : ∀ k, ∃ (t₀ : Tables) (source : String), r k = t₀.overwritesOf source)
    (hrows : ∀ e ∈ channels, ∀ t os, (∀ k, P k → t.overwritesOf k = r k) →
      Triple (Facing M ⟨t, sv, os⟩) (rows e.2) fun v d => v = r e.2 ∧ Facing M ⟨t, sv, os⟩ d)
    (hM : ∀ id m, M m → M { m with overwritesCache := m.overwritesCache.erase id })
    (ht : ∀ k, P k → t.overwritesOf k = r k) :
    Triple (Facing M ⟨t, sv, os⟩) (keepOverwrites rows channels) fun ok d =>
      let body := answers (copyCount r channels) os
      (ok = true ∧ body.last = .ok ∧ ∃ t', Kept r channels t t' ∧ Facing M ⟨t', sv, body.left⟩ d) ∨
      (ok = false ∧ body.last ≠ .ok ∧ ∃ u, (∃ e ∈ channels, Untouched e.1 t u) ∧
        Facing M (failed body.last ⟨u, sv, body.left⟩) d) := by
  induction channels generalizing t os with
  | nil => exact fun d hd => .inl ⟨rfl, rfl, t, .nil, hd⟩
  | cons e channels ih =>
    rw [map_cons, nodup_cons] at hn
    obtain ⟨t₁, source, hsource⟩ := hr e.2
    obtain ⟨u, hu⟩ := applyAll_writeOwn source t₁ t e.1 false
    rw [← hsource] at hu
    have hw := wrote_of_applyAll hu
    have hne := hP e (.head channels)
    have hlen := length_writeOwnOverwrites e.1 (r e.2) false
    have hcount : copyCount r (e :: channels) = ((r e.2).length + 2) + copyCount r channels := by
      simp [copyCount]
    rw [hcount, answers_add]
    intro d hd
    rw [keepOverwrites, run_allM_cons]
    rcases run_execAll hu sv os with ⟨hok, hrun⟩ | ⟨hno, v, hv, hrun⟩
    · rw [hlen] at hok hrun
      have hstep : Triple (Facing M ⟨t, sv, os⟩) (do
          let ok ← sql (execAll (writeOwnOverwrites e.1 (← rows e.2) false))
          eraseOverwritesCache e.1
          return ok) fun ok d => ok = true ∧
            Facing M ⟨u, sv, (answers ((r e.2).length + 2) os).left⟩ d :=
        (hrows e (.head channels) t os ht).bind_eq ((facing_sql hrun).bind_eq
          ((facing_modify (hM e.1)).bind fun _ d hd => ⟨rfl, hd⟩))
      obtain ⟨htrue, hd⟩ := hstep d hd
      rw [htrue, if_pos rfl, if_pos hok]
      have htail := ih hn.2 (fun e' he => hP e' (.tail e he)) (fun e' he => hrows e' (.tail e he))
        (fun k hk => (hw.other k fun h => hne (h ▸ hk)).trans (ht k hk)) _ hd
      refine htail.imp ?_ ?_
      · rintro ⟨hok', hl, t', hk, hd⟩
        exact ⟨hok', hl, t', .cons hn.1 hw hk, hd⟩
      · rintro ⟨hok', hl, v, ⟨e', he, huntouched⟩, hd⟩
        refine ⟨hok', hl, v, ⟨e', .tail e he, fun c hc hid => huntouched c ?_ hid⟩, hd⟩
        have hother : c.id ≠ e.1 := fun h => hn.1 (h ▸ hid ▸ mem_map_of_mem he)
        rw [hw.flags]
        exact mem_map.2 ⟨c, hc, if_neg hother⟩
    · have hran : (answers (writeOwnOverwrites e.1 (r e.2) false).length os).ran <
          (r e.2).length + 2 := hlen ▸ answers_ran_lt hno
      have huntouched := untouched_of_take hran hv
      rw [hlen] at hno hrun
      have hstep : Triple (Facing M ⟨t, sv, os⟩) (do
          let ok ← sql (execAll (writeOwnOverwrites e.1 (← rows e.2) false))
          eraseOverwritesCache e.1
          return ok) fun ok d => ok = false ∧ Facing M (failed (answers ((r e.2).length + 2) os).last
            ⟨v, sv, (answers ((r e.2).length + 2) os).left⟩) d :=
        (hrows e (.head channels) t os ht).bind_eq ((facing_sql hrun).bind_eq
          ((facing_modify (hM e.1)).bind fun _ d hd => ⟨rfl, hd⟩))
      obtain ⟨hfalse, hd⟩ := hstep d hd
      rw [hfalse, if_neg Bool.false_ne_true, if_neg hno]
      exact .inr ⟨rfl, hno, v, ⟨e, .head channels, fun c hc _ => huntouched ▸ hc⟩, hd⟩

theorem facing_copies {k : String} {followers : List String} (hn : followers.Nodup) :
    Triple (Facing (fun _ => True) ⟨t, sv, os⟩) (keepOverwrites
      (fun _ => pure (if followers ≠ [] then t.overwritesOf k else [])) (followers.map (·, k)))
      fun ok d =>
        let body := answers (copyCount (fun _ => t.overwritesOf k) (followers.map (·, k))) os
        (ok = true ∧ body.last = .ok ∧
          ∃ t', Kept (fun _ => t.overwritesOf k) (followers.map (·, k)) t t' ∧
            Facing (fun _ => True) ⟨t', sv, body.left⟩ d) ∨
        (ok = false ∧ body.last ≠ .ok ∧
          ∃ u, (∃ e ∈ followers.map (·, k), Untouched e.1 t u) ∧
            Facing (fun _ => True) (failed body.last ⟨u, sv, body.left⟩) d) := by
  refine facing_keepOverwrites (P := fun _ => False) ?nodup (fun _ _ h => h) (fun _ => ⟨t, k, rfl⟩)
    ?rows (fun _ _ _ => trivial) nofun
  case nodup => simpa only [map_map, Function.comp_def, map_id'] using hn
  case rows =>
    intro e he t' os' _ d hd
    obtain ⟨id, hid, rfl⟩ := mem_map.1 he
    exact ⟨if_pos (ne_nil_of_mem hid), hd⟩

end CommunityDb
end Decibell
