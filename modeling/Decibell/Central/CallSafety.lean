import Decibell.Central.CallRoutes

/-!
# Calls stay between two connections

The runs of the server, with the connections that come, sign in, are replaced and go, and the
signals and sweeps in between.

* `CallInv`: a connection with a place in an account has signed in as that account, from
  that device, and the registry is `Kept`.
-/

namespace Decibell.Central

open Function Lib List SessionManager

variable {st st' : CallState} {d : SessionManager} {who : Who} {now : Clock} {s s' : Nat}
  {id : String} {c c' : Call}

/-! ## What the directory does to calls -/

/-- A connection in an account has signed in as that account, from its device. -/
def BoundTo (who : Who) (d : SessionManager) : Prop :=
  ∀ s c, d.sessions s = some c → 0 < c.uid → who s = some (c.uid, c.deviceId)

/-- The connections that are there. -/
def SessionManager.Live (d : SessionManager) (s : Nat) : Prop := (d.sessions s).isSome

theorem SessionManager.Consistent.uid_of_listed {a : Account} {uid : Int} (h : d.Consistent)
    (ha : d.accounts uid = some a) (hs : s ∈ a.sessions) :
    0 < uid ∧ ∃ conn, d.sessions s = some conn ∧ conn.uid = uid := by
  obtain ⟨seat, hseat⟩ := ((h.accountOk ha).seated.mem s).1 hs
  obtain ⟨conn, hconn, huid, _⟩ := seats_eq_some.1 hseat
  exact ⟨h.account_pos uid (by rw [ha]; rfl), conn, hconn, huid⟩

theorem finds_of_bound (h : d.Consistent) (hbound : BoundTo who d) : Finds who d.Live d := by
  intro uid device except s hs
  obtain ⟨_, hne, ⟨a, ha, hmem⟩, conn, hconn, hdevice⟩ := SessionManager.deviceSession_eq_some hs
  obtain ⟨hpos, conn', hconn', huid⟩ := h.uid_of_listed ha hmem
  cases hconn.symm.trans hconn'
  refine ⟨?_, ?_, hne⟩
  · rw [hbound s conn hconn (huid ▸ hpos), huid, hdevice]
  · unfold SessionManager.Live
    rw [hconn]
    rfl

/-- No call signal is among the packets. -/
def NoSignals (out : Fanout) : Prop := ∀ s sig, (s, Packet.callSignal sig) ∉ out.run

theorem noSignals_nil : NoSignals [] := fun _ _ hmem => nomatch hmem

theorem mem_run_add {out : Fanout} {recipients : List Nat} {p : Packet} {sig : CallSignal}
    (hp : ∀ sig, p ≠ .callSignal sig) (h : (s, Packet.callSignal sig) ∈ (out.add recipients p).run) :
    (s, Packet.callSignal sig) ∈ out.run := by
  rw [Fanout.run_add, mem_append] at h
  rcases h with h | h
  · exact h
  · obtain ⟨_, _, heq⟩ := mem_map.1 h
    exact absurd (Prod.mk.inj heq).2 (hp sig)

theorem presenceDelta_ne {uid : Int} {username : String} {p : Option Presence} (sig : CallSignal) :
    presenceDelta uid username p ≠ .callSignal sig := by
  unfold presenceDelta
  split
  · split <;> exact nofun
  · exact nofun

theorem ownPresence_ne {unixNow : Int} {p : Presence} (sig : CallSignal) :
    ownPresence unixNow p ≠ .callSignal sig := by
  unfold ownPresence
  exact nofun

theorem mem_presenceChanged {uid : Int} {a : Account} {before : Presence} {except : Option Nat}
    {out : Fanout} {sig : CallSignal}
    (h : (s, Packet.callSignal sig) ∈ (d.presenceChanged now uid a before except out).run) :
    (s, Packet.callSignal sig) ∈ out.run := by
  unfold SessionManager.presenceChanged at h
  dsimp only at h
  have hown : (s, Packet.callSignal sig) ∈ (if presenceViewDiffers a.presence before then
      out.add (d.watcherSessions uid) (presenceDelta uid a.presence.username (some a.presence))
        else out).run := by
    split at h
    · exact mem_run_add ownPresence_ne h
    · exact h
  split at hown
  · exact mem_run_add presenceDelta_ne hown
  · exact hown

theorem signOut_calls (d : SessionManager) (now : Clock) (s : Nat) (conn : Connection) :
    (d.signOut now s conn).1.toCallRegistry =
        ((d.unwatchAll s conn).callLeave now s conn.deviceId).1.toCallRegistry ∧
      ∀ s' sig, (s', Packet.callSignal sig) ∈ (d.signOut now s conn).2.run →
        (s', Packet.callSignal sig) ∈
          ((d.unwatchAll s conn).callLeave now s conn.deviceId).2.run := by
  unfold SessionManager.signOut
  dsimp only
  split
  · exact ⟨rfl, fun _ _ h => h⟩
  split
  · exact ⟨rfl, fun _ _ h => h⟩
  split
  · exact ⟨rfl, fun _ _ h => h⟩
  split
  · refine ⟨rfl, fun s' sig h => ?_⟩
    dsimp only at h
    split at h
    · exact mem_run_add presenceDelta_ne h
    · exact h
  · exact ⟨rfl, fun _ _ h => mem_presenceChanged h⟩

theorem Kept.mono {live live' : Nat → Prop} {who' : Who} {r : CallRegistry}
    (h : Kept who live none r) (hlive : ∀ s, live s → live' s)
    (hwho : ∀ s x, who s = some x → who' s = some x) : Kept who' live' none r where
  sides id c hc := by
    obtain ⟨hapart, hcaller, hcallee, hringing, hnodup, hanswered, hquiet⟩ := h.sides id c hc
    exact ⟨hapart, fun s hs => hwho s _ (hcaller s hs), fun s hs => hwho s _ (hcallee s hs),
      fun s hs => (hringing s hs).imp fun _ => hwho s _, hnodup, hanswered, hquiet⟩
  live id c s hc hs := hlive s (h.live id c s hc hs)
  indexed := h.indexed
  gone := h.gone

theorem calls_leave (now : Clock) {conn : Connection} (h : d.Consistent) (hbound : BoundTo who d)
    (hkept : Kept who d.Live none d.toCallRegistry) (hs : d.sessions s = some conn) :
    let left := (d.signOut now s conn).1.forget s
    BoundTo who left ∧ Kept who left.Live none left.toCallRegistry ∧
      Evolves d.toCallRegistry left.toCallRegistry ∧
        OnlyRinging d.toCallRegistry (d.signOut now s conn).2 := by
  have hsessions : ((d.signOut now s conn).1.forget s).sessions = update d.sessions s none := by
    change update (d.signOut now s conn).1.sessions s none = _
    rw [signOut_connections.1, signedOut_sessions hs, update_idem]
  have hunwatched : (d.unwatchAll s conn).sessions =
      update d.sessions s (some { conn with watching := [] }) := SessionManager.unwatchAll_sessions hs
  have hbound' : BoundTo who (d.unwatchAll s conn) := by
    intro s' c' hc' hpos
    rw [hunwatched, update_apply] at hc'
    split at hc'
    · rename_i heq
      cases hc'
      exact heq ▸ hbound s conn hs hpos
    · exact hbound s' c' hc' hpos
  have hlive : ∀ s', d.Live s' → (d.unwatchAll s conn).Live s' := by
    intro s' hs'
    unfold SessionManager.Live
    rw [hunwatched, update_apply]
    split
    · rfl
    · exact hs'
  obtain ⟨hcalls, hsent⟩ := signOut_calls d now s conn
  have hfinds := finds_of_bound ((h.but 0).unwatchAll hs).consistent hbound'
  have hkept' : Kept who (d.unwatchAll s conn).Live none (d.unwatchAll s conn).toCallRegistry :=
    hkept.mono hlive fun _ _ hx => hx
  obtain ⟨hleft, hevolves, hout⟩ := kept_callLeave now s conn.deviceId hkept' hfinds
  refine ⟨?_, ?_, ?_, ?_⟩
  · intro s' c' hc' hpos
    rw [hsessions, update_apply] at hc'
    split at hc'
    · cases hc'
    · exact hbound s' c' hc' hpos
  · change Kept who _ none (d.signOut now s conn).1.toCallRegistry
    rw [hcalls]
    refine hleft.mono ?_ fun _ _ hx => hx
    rintro s' ⟨hne, hs'⟩
    unfold SessionManager.Live at hs' ⊢
    rw [hunwatched, update_of_ne hne] at hs'
    rw [hsessions, update_of_ne hne]
    exact hs'
  · change Evolves _ (d.signOut now s conn).1.toCallRegistry
    rw [hcalls]
    exact hevolves
  · exact fun s' sig hmem => hout s' sig (hsent s' sig hmem)

/-! ## Signing in -/

section Bind

variable {uid : Int} {device : String} {presence : Presence} {reply : Packet}
  {rebuild : Presence → Packet} {conn : Connection}

/-- A sign-in gives its connection a place; others may lose theirs. -/
structure Bindable (s : Nat) (uid : Int) (device : String) (d : SessionManager)
    (bound : SessionManager.Bound) : Prop where
  registry : bound.manager.toCallRegistry = d.toCallRegistry
  live : ∀ s', bound.manager.Live s' ↔ d.Live s'
  places : ∀ s' c', bound.manager.sessions s' = some c' → 0 < c'.uid →
    (s' = s ∧ bound.ok = true ∧ c'.uid = uid ∧ c'.deviceId = device) ∨
      ∃ c, d.sessions s' = some c ∧ c.uid = c'.uid ∧ c.deviceId = c'.deviceId
  silent : NoSignals bound.out

theorem places_setConnection {f : Connection → Connection} {c' : Connection}
    (hc' : (d.setConnection s f).sessions s' = some c') :
    (s' = s ∧ ∃ c, d.sessions s = some c ∧ c' = f c) ∨ d.sessions s' = some c' := by
  change update d.sessions s ((d.sessions s).map f) s' = some c' at hc'
  rw [update_apply] at hc'
  split at hc'
  · rename_i heq
    obtain ⟨c, hc, hf⟩ := Option.map_eq_some_iff.1 hc'
    exact .inl ⟨heq, c, hc, hf.symm⟩
  · exact .inr hc'

theorem live_setConnection {f : Connection → Connection} :
    (d.setConnection s f).Live s' ↔ d.Live s' := by
  unfold SessionManager.Live SessionManager.setConnection
  dsimp only
  rw [update_apply]
  split
  · rename_i heq
    rw [heq, Option.isSome_map]
  · rfl

theorem bindable_fresh {out : Fanout} (hout : NoSignals out) :
    Bindable s uid device d (d.bindFresh s uid device presence reply out) where
  registry := rfl
  live s' := live_setConnection
  places s' c' hc' hpos := by
    rcases places_setConnection (d := d) (f := fun c => { c with uid, deviceId := device, idle := false })
      hc' with ⟨heq, c, _, rfl⟩ | hc
    · exact .inl ⟨heq, rfl, rfl, rfl⟩
    · exact .inr ⟨c', hc, rfl, rfl⟩
  silent s' sig hmem := by
    unfold SessionManager.bindFresh at hmem
    dsimp only at hmem
    split at hmem
    · exact hout s' sig (mem_run_add presenceDelta_ne hmem)
    · exact hout s' sig hmem

theorem bindable_beside {a : Account} {replaced : Option Nat} {out : Fanout} (hout : NoSignals out) :
    Bindable s uid device d
      (d.bindBeside now s uid device presence a reply rebuild replaced out) where
  registry := rfl
  live s' := live_setConnection
  places s' c' hc' hpos := by
    rcases places_setConnection (d := d) (f := fun c => { c with uid, deviceId := device, idle := false })
      hc' with ⟨heq, c, _, rfl⟩ | hc
    · exact .inl ⟨heq, rfl, rfl, rfl⟩
    · exact .inr ⟨c', hc, rfl, rfl⟩
  silent s' sig hmem := hout s' sig (mem_presenceChanged hmem)

theorem places_strip {old : Nat} {c' : Connection} (hc' : (d.strip old).sessions s' = some c')
    (hpos : 0 < c'.uid) : d.sessions s' = some c' := by
  cases hold : d.sessions old with
  | none =>
    unfold SessionManager.strip at hc'
    rwa [hold] at hc'
  | some oldc =>
    rw [strip_sessions hold, update_apply] at hc'
    split at hc'
    · cases hc'
      exact absurd hpos (Int.lt_irrefl 0)
    · exact hc'

theorem live_strip {old : Nat} : (d.strip old).Live s' ↔ d.Live s' := by
  unfold SessionManager.Live
  cases hold : d.sessions old with
  | none =>
    unfold SessionManager.strip
    rw [hold]
  | some oldc =>
    rw [strip_sessions hold, update_apply]
    split
    · rename_i heq
      rw [heq, hold]
      simp
    · rfl

theorem registry_strip {old : Nat} : (d.strip old).toCallRegistry = d.toCallRegistry := by
  unfold SessionManager.strip
  split <;> rfl

theorem Bindable.of_strip {old : Nat} {bound : SessionManager.Bound}
    (h : Bindable s uid device (d.strip old) bound) : Bindable s uid device d bound where
  registry := h.registry.trans registry_strip
  live s' := (h.live s').trans live_strip
  places s' c' hc' hpos := by
    rcases h.places s' c' hc' hpos with hself | ⟨c, hc, huid, hdevice⟩
    · exact .inl hself
    · exact .inr ⟨c, places_strip hc (huid ▸ hpos), huid, hdevice⟩
  silent := h.silent

theorem bindable_bind (hout : ∀ c, d.sessions s = some c → ¬ 0 < c.uid) :
    Bindable s uid device d (d.bind now s uid device presence reply rebuild) := by
  have hrefused : ∀ full, Bindable s uid device d { manager := d, full } := fun _ =>
    ⟨rfl, fun _ => Iff.rfl, fun _ c' hc' _ => .inr ⟨c', hc', rfl, rfl⟩, noSignals_nil⟩
  unfold SessionManager.bind
  split
  · exact hrefused false
  rename_i conn hs
  rw [if_neg (hout conn hs)]
  dsimp only
  split
  · exact bindable_fresh noSignals_nil
  split
  · exact (bindable_beside noSignals_nil).of_strip
  split
  · exact hrefused true
  · exact bindable_beside noSignals_nil

end Bind

/-! ## The invariant -/

/-- A connection in an account signed in as it, from its device; the registry is in order. -/
structure CallInv (st : CallState) : Prop where
  consistent : st.directory.Consistent
  known : ∀ s, st.directory.Live s → s < st.nextSession
  who_pos : ∀ s uid device, st.who s = some (uid, device) → 0 < uid
  bound : BoundTo st.who st.directory
  kept : Kept st.who st.directory.Live none st.directory.toCallRegistry

theorem who_login (bound : SessionManager.Bound) (login : LoginResult)
    (hnew : (st.session s).authenticated = false) :
    let session := if bound.ok then
      update st.session s { authenticated := true, uid := login.uid, deviceId := login.deviceId }
      else st.session
    let st' := { st with directory := bound.manager, session }
    (∀ s' x, st.who s' = some x → st'.who s' = some x) ∧
      (bound.ok = true → st'.who s = some (login.uid, login.deviceId)) ∧
        ∀ s' x, st'.who s' = some x → st.who s' = some x ∨ x = (login.uid, login.deviceId) := by
  dsimp only
  refine ⟨?_, ?_, ?_⟩
  · intro s' x hx
    unfold CallState.who at hx ⊢
    dsimp only
    split
    · by_cases heq : s' = s
      · subst heq
        rw [hnew] at hx
        cases hx
      · rw [update_of_ne heq]
        exact hx
    · exact hx
  · intro hok
    unfold CallState.who
    dsimp only
    simp [hok]
  · intro s' x hx
    unfold CallState.who at hx ⊢
    dsimp only at hx
    split at hx
    · by_cases heq : s' = s
      · subst heq
        rw [update_self] at hx
        exact .inr (Option.some.inj hx).symm
      · rw [update_of_ne heq] at hx
        exact .inl hx
    · exact .inl hx

theorem CallInv.login (h : CallInv st) (now : Clock) (s : Nat) (login : LoginResult)
    (presence : Presence) :
    CallInv (st.login now s login presence).1 ∧
      Evolves st.directory.toCallRegistry
        (st.login now s login presence).1.directory.toCallRegistry ∧
      NoSignals (st.login now s login presence).2 := by
  unfold CallState.login
  split
  · exact ⟨h, .refl _, noSignals_nil⟩
  rename_i hnew
  rw [Bool.not_eq_true] at hnew
  have hout : ∀ c, st.directory.sessions s = some c → ¬ 0 < c.uid := by
    intro c hc hpos
    have hwho := h.bound s c hc hpos
    unfold CallState.who at hwho
    rw [hnew] at hwho
    cases hwho
  have hbind : Bindable s login.uid login.deviceId st.directory
      (st.directory.bindLogin now s login presence) := bindable_bind hout
  obtain ⟨hkeep, hself, hback⟩ := who_login (st.directory.bindLogin now s login presence) login
    hnew
  dsimp only at hkeep hself hback ⊢
  refine ⟨⟨?_, ?_, ?_, ?_, ?_⟩, ?_, hbind.silent⟩
  · exact h.consistent.bind login.uid_pos login.device_named
  · exact fun s' hs' => h.known s' ((hbind.live s').1 hs')
  · intro s' uid device hs'
    rcases hback s' _ hs' with hs' | heq
    · exact h.who_pos s' uid device hs'
    · cases heq
      exact login.uid_pos
  · intro s' c' hc' hpos
    rcases hbind.places s' c' hc' hpos with ⟨rfl, hok, huid, hdevice⟩ | ⟨c, hc, huid, hdevice⟩
    · rw [hself hok, huid, hdevice]
    · refine hkeep s' _ ?_
      rw [← huid, ← hdevice]
      exact h.bound s' c hc (huid ▸ hpos)
  · dsimp only
    rw [hbind.registry]
    exact h.kept.mono (fun s' hs' => (hbind.live s').2 hs') hkeep
  · rw [hbind.registry]
    exact .refl _

theorem CallInv.finds (h : CallInv st) : Finds st.who st.directory.Live st.directory :=
  finds_of_bound h.consistent h.bound

theorem CallInv.forget (now : Clock) {conn : Connection} (h : CallInv st)
    (hs : st.directory.sessions s = some conn) :
    CallInv { st with directory := (st.directory.signOut now s conn).1.forget s } ∧
      Evolves st.directory.toCallRegistry
        ((st.directory.signOut now s conn).1.forget s).toCallRegistry ∧
      OnlyRinging st.directory.toCallRegistry (st.directory.signOut now s conn).2 := by
  obtain ⟨hbound, hkept, hevolves, hout⟩ := calls_leave now h.consistent h.bound h.kept hs
  refine ⟨⟨?_, ?_, h.who_pos, hbound, hkept⟩, hevolves, hout⟩
  · exact (h.consistent.signOut hs).forget (SessionManager.signOut_self hs) rfl rfl
  · intro s' hs'
    refine h.known s' ?_
    unfold SessionManager.Live at hs' ⊢
    change (update (st.directory.signOut now s conn).1.sessions s none s').isSome at hs'
    rw [signOut_connections.1, signedOut_sessions hs, update_idem,
      update_apply] at hs'
    split at hs'
    · cases hs'
    · exact hs'

theorem onlyRinging_nil {r : CallRegistry} : OnlyRinging r [] := fun _ _ hmem => nomatch hmem

theorem CallInv.leave (h : CallInv st) (now : Clock) (s : Nat) :
    CallInv { st with directory := (st.directory.leave now s).1 } ∧
      Evolves st.directory.toCallRegistry (st.directory.leave now s).1.toCallRegistry ∧
      OnlyRinging st.directory.toCallRegistry (st.directory.leave now s).2 := by
  unfold SessionManager.leave
  split
  · exact ⟨h, .refl _, onlyRinging_nil⟩
  · rename_i conn hs
    exact h.forget now hs

theorem CallInv.retire (h : CallInv st) (now : Clock) (s : Nat) (reason : CloseReason) :
    CallInv { st with directory := (st.directory.retire now s reason).1 } ∧
      Evolves st.directory.toCallRegistry (st.directory.retire now s reason).1.toCallRegistry ∧
      OnlyRinging st.directory.toCallRegistry (st.directory.retire now s reason).2 := by
  unfold SessionManager.retire
  split
  · exact ⟨h, .refl _, onlyRinging_nil⟩
  · rename_i conn hs
    obtain ⟨hinv, hevolves, hout⟩ := h.forget now hs
    refine ⟨hinv, hevolves, fun s' sig hmem => hout s' sig ?_⟩
    -- Only the notice to the connection itself is new.
    have hmem' : (s', Packet.callSignal sig) ∈ [(s, Packet.sessionClosed reason)] ++
      Fanout.run (st.directory.signOut now s conn).2 := hmem
    rcases mem_append.1 hmem' with hmem' | hmem'
    · cases mem_singleton.1 hmem'
    · exact hmem'

theorem CallInv.join (h : CallInv st) : CallInv st.join ∧
    st.join.directory.toCallRegistry = st.directory.toCallRegistry := by
  have hregistry : (st.directory.join st.nextSession).toCallRegistry = st.directory.toCallRegistry := by
    unfold SessionManager.join
    split <;> rfl
  have hlive : ∀ s, st.directory.Live s → (st.directory.join st.nextSession).Live s := by
    intro s hs
    unfold SessionManager.Live SessionManager.join at *
    split
    · dsimp only
      rw [update_apply]
      split
      · rfl
      · exact hs
    · exact hs
  refine ⟨⟨h.consistent.join, ?_, h.who_pos, ?_, ?_⟩, hregistry⟩
  · intro s hs
    change s < st.nextSession + 1
    by_cases heq : s = st.nextSession
    · omega
    · refine Nat.lt_succ_of_lt (h.known s ?_)
      unfold SessionManager.Live CallState.join SessionManager.join at *
      dsimp only at hs
      split at hs
      · dsimp only at hs
        rwa [update_of_ne heq] at hs
      · exact hs
  · intro s c hc hpos
    refine h.bound s c ?_ hpos
    unfold CallState.join SessionManager.join at hc
    dsimp only at hc
    split at hc
    · dsimp only at hc
      rw [update_apply] at hc
      split at hc
      · cases hc
        exact absurd hpos (Int.lt_irrefl 0)
      · exact hc
    · exact hc
  · change Kept st.who (st.directory.join st.nextSession).Live none
      (st.directory.join st.nextSession).toCallRegistry
    rw [hregistry]
    exact h.kept.mono hlive fun _ _ hx => hx

theorem CallInv.setRegistry {r : CallRegistry} (h : CallInv st)
    (hkept : Kept st.who st.directory.Live none r) :
    CallInv { st with directory := { st.directory with toCallRegistry := r } } :=
  ⟨h.consistent.congr rfl rfl rfl, h.known, h.who_pos, h.bound, hkept⟩

/-! ## What one step does -/

/-- Whom a step tells about a call: once answered only its two devices, and one whose answer came
    too late; when it is answered, or ends while it rings, each of the others that ring, once. -/
structure Tells (st : CallState) (a : CallAct) (st' : CallState) (out : Fanout) (id : String)
    (c : Call) : Prop where
  addressed : c.answered = true → ∀ s sig, (s, Packet.callSignal sig) ∈ out.run → sig.callId = id →
    st.who s = some (c.callerUid, c.callerDevice) ∨ st.who s = some (c.calleeUid, c.calleeDevice) ∨
      sig.kind = .answeredElsewhere ∧
        ∃ toUid fromName toName, a = .callSignal s toUid .accept id fromName toName true
  told : c.answered = false → (∀ c', st'.directory.calls id = some c' → c'.answered = true) →
    ∀ s toUid kind fromName toName allowed,
      a = .callSignal s toUid kind id fromName toName allowed →
        ∀ s' ∈ c.ringing, s' ≠ s → ∃ p, sentTo s' out.run = [p]

/-- A step keeps the invariant, and each call that stays is the same and told as it should be. -/
structure CallStep (st : CallState) (a : CallAct) (st' : CallState) (out : Fanout) : Prop where
  inv : CallInv st'
  same : ∀ id c c', st.directory.calls id = some c → st'.directory.calls id = some c' → c.Same c'
  tells : ∀ id c, st.directory.calls id = some c → Tells st a st' out id c

theorem same_of_evolves {r r' : CallRegistry} (h : Evolves r r') :
    ∀ id c c', r.calls id = some c → r'.calls id = some c' → c.Same c' := by
  intro id c c' hc hc'
  obtain ⟨c₁, hc₁, hsame⟩ := h id c' hc'
  cases hc.symm.trans hc₁
  exact hsame

/-- Whether the step is a call signal. -/
def CallAct.isSignal : CallAct → Bool
  | .callSignal .. => true
  | _ => false

theorem CallStep.of_ringing {a : CallAct} {out : Fanout} (hinv : CallInv st')
    (hevolves : Evolves st.directory.toCallRegistry st'.directory.toCallRegistry)
    (hout : OnlyRinging st.directory.toCallRegistry out)
    (hact : a.isSignal = false) : CallStep st a st' out where
  inv := hinv
  same := same_of_evolves hevolves
  tells id c hc :=
    { addressed := fun hanswered s sig hmem hid => by
        have hunanswered := hout s sig hmem c (by rw [hid]; exact hc)
        rw [hanswered] at hunanswered
        cases hunanswered
      told := fun _ _ s toUid kind fromName toName allowed heq => by
        rw [heq] at hact
        cases hact }

theorem OnlyRinging.of_noSignals {r : CallRegistry} {out : Fanout} (h : NoSignals out) :
    OnlyRinging r out := fun s sig hmem => absurd hmem (h s sig)

theorem CallStep.refl {a : CallAct} (h : CallInv st) : CallStep st a st [] where
  inv := h
  same := same_of_evolves (.refl _)
  tells id c hc :=
    { addressed := fun _ _ _ hmem => nomatch hmem
      told := fun hunanswered hend => by
        rw [hend c hc] at hunanswered
        cases hunanswered }

theorem mem_invite {device : String} {fromUid toUid : Int} {sig : CallSignal} {p : Packet}
    (h : (s', p) ∈ (d.invite now s fromUid toUid device sig).2.2.run) : p = .callSignal sig := by
  unfold SessionManager.invite at h
  dsimp only at h
  split at h
  · cases h
  split at h
  · cases h
  split at h
  · cases h
  split at h
  · cases h
  · rw [Fanout.run_add, Fanout.run_nil, nil_append] at h
    obtain ⟨_, _, heq⟩ := mem_map.1 h
    exact (Prod.mk.inj heq).2.symm

theorem CallInv.ringable (h : CallInv st) {uid : Int} {a : Account}
    (ha : st.directory.accounts uid = some a) : a.sessions.Nodup ∧
      ∀ s ∈ a.sessions, st.directory.Live s ∧ ∃ device, st.who s = some (uid, device) := by
  refine ⟨(h.consistent.accountOk ha).seated.nodup, fun s hs => ?_⟩
  obtain ⟨hpos, conn, hconn, huid⟩ := h.consistent.uid_of_listed ha hs
  refine ⟨?_, conn.deviceId, ?_⟩
  · unfold SessionManager.Live
    rw [hconn]
    rfl
  · rw [h.bound s conn hconn (huid ▸ hpos), huid]

theorem CallInv.routed (h : CallInv st) (now : Clock) (sig : CallSignal) {conn : Connection}
    {toUid : Int} {fromName toName : String} (hs : st.directory.sessions s = some conn) (hpos : 0 < conn.uid)
    (hto : toUid ≠ conn.uid) :
    CallStep st (.callSignal s toUid sig.kind sig.callId fromName toName true)
      { st with directory := { st.directory with toCallRegistry :=
        (st.directory.routed now s conn.uid toUid conn.deviceId sig).2.1 } }
      (st.directory.routed now s conn.uid toUid conn.deviceId sig).2.2 := by
  have hwho := h.bound s conn hs hpos
  have hlive : st.directory.Live s := by
    unfold SessionManager.Live
    rw [hs]
    rfl
  cases hc : st.directory.calls sig.callId with
  | some c =>
    -- A signal about a call that is there tells of that call only.
    have hrouted : Routed st.who st.directory.Live st.directory.toCallRegistry c s sig
        (st.directory.routed now s conn.uid toUid conn.deviceId sig).2.1
        (st.directory.routed now s conn.uid toUid conn.deviceId sig).2.2 :=
      routed_routed h.kept h.finds hc hlive hwho
    refine ⟨h.setRegistry hrouted.kept, same_of_evolves hrouted.evolves, fun id' c' hc' => ?_⟩
    have habout : ∀ s' sig', (s', Packet.callSignal sig') ∈
        (st.directory.routed now s conn.uid toUid conn.deviceId sig).2.2.run →
          sig'.callId = sig.callId := by
      intro s' sig' hmem
      obtain ⟨sent, heq, hid⟩ := hrouted.about s' _ hmem
      cases heq
      exact hid
    refine ⟨?_, ?_⟩
    · intro hanswered s' sig' hmem hid
      have heq : id' = sig.callId := hid.symm.trans (habout s' sig' hmem)
      subst heq
      cases hc.symm.trans hc'
      rcases hrouted.addressed hanswered s' _ hmem with hw | hw | ⟨rfl, hkind, sent, heq, hsent⟩
      · exact .inl hw
      · exact .inr (.inl hw)
      · cases heq
        exact .inr (.inr ⟨hsent, toUid, fromName, toName, by rw [hkind]⟩)
    · intro hunanswered hend s' _ _ _ _ _ heq
      cases heq
      cases hc.symm.trans hc'
      exact hrouted.told hunanswered hend
  | none =>
    unfold SessionManager.routed
    split
    · -- An invitation makes a call that was not there.
      have hkept : Kept st.who st.directory.Live none
          (st.directory.invite now s conn.uid toUid conn.deviceId sig).2.1 :=
        kept_invite h.kept hlive hwho hto.symm fun a ha => h.ringable ha
      have hother : ∀ id' c', st.directory.calls id' = some c' → id' ≠ sig.callId := by
        rintro id' c' hc' rfl
        cases hc.symm.trans hc'
      refine ⟨h.setRegistry hkept, ?_, fun id' c' hc' => ⟨?_, ?_⟩⟩
      · intro id' c' c'' hc' hc''
        rw [show st.directory.calls id' = _ from (calls_invite (hother id' c' hc')).symm] at hc'
        cases hc'.symm.trans hc''
        exact .refl c'
      · intro _ s' sig' hmem hid
        cases mem_invite hmem
        exact absurd hid.symm (hother id' c' hc')
      · intro _ _ s' _ _ _ _ _ heq
        cases heq
        exact absurd rfl (hother _ c' hc')
    · rw [hc]
      exact .refl h

theorem CallInv.callSignal {toUid : Int} {kind : CallKind} {callId fromName toName : String}
    {allowed : Bool} (h : CallInv st) :
    CallStep st (.callSignal s toUid kind callId fromName toName allowed)
      (st.callSignal now s toUid kind callId fromName toName allowed).1
      (st.callSignal now s toUid kind callId fromName toName allowed).2 := by
  unfold CallState.callSignal
  dsimp only
  split
  · rename_i hsend
    obtain ⟨hauth, _, hto, rfl⟩ := hsend
    have hwho : st.who s = some ((st.session s).uid, (st.session s).deviceId) := if_pos hauth
    have hpos := h.who_pos s _ _ hwho
    unfold SessionManager.routeCall
    split
    · exact .refl h
    · rename_i conn hs
      split
      · exact .refl h
      · rename_i huid
        rw [Decidable.not_not] at huid
        rw [← huid] at hpos hto ⊢
        exact h.routed now { kind, callId, fromName, toName, fromUid := conn.uid, toUid,
                             timestamp := now.unix } hs hpos hto
  · exact .refl h

theorem CallInv.perform (h : CallInv st) (a : CallAct) :
    CallStep st a (st.perform now a).1 (st.perform now a).2 := by
  cases a with
  | join =>
    obtain ⟨hinv, hregistry⟩ := h.join
    refine .of_ringing hinv ?_ onlyRinging_nil rfl
    change Evolves _ st.join.directory.toCallRegistry
    rw [hregistry]
    exact .refl _
  | login s login presence =>
    obtain ⟨hinv, hevolves, hout⟩ := h.login now s login presence
    exact .of_ringing hinv hevolves (.of_noSignals hout) rfl
  | leave s =>
    obtain ⟨hinv, hevolves, hout⟩ := h.leave now s
    exact .of_ringing hinv hevolves hout rfl
  | retire s reason =>
    obtain ⟨hinv, hevolves, hout⟩ := h.retire now s reason
    exact .of_ringing hinv hevolves hout rfl
  | callSignal s toUid kind callId fromName toName allowed => exact h.callSignal
  | sweepCalls id =>
    obtain ⟨hkept, hevolves⟩ := kept_sweepCall now id h.kept h.finds
    exact .of_ringing (h.setRegistry hkept) hevolves onlyRinging_nil rfl

theorem callInv_empty : CallInv {} where
  consistent := consistent_empty
  known s hs := by cases hs
  who_pos s uid device hs := by cases hs
  bound s c hc := by cases hc
  kept :=
    { sides := fun _ _ hc => by cases hc
      live := fun _ _ _ hc => by cases hc
      indexed := fun _ _ _ => by simp
      gone := fun _ hs => by cases hs }

theorem callInv_of_reachable (h : callSystem.Reachable st) : CallInv st := by
  refine System.reachable_invariant (I := CallInv) ?_ ?_ h
  · rintro st rfl
    exact callInv_empty
  · rintro st a st' hst rfl
    exact (hst.perform a.2).inv

/-! ## Whole runs -/

/-- The runs in which a call stays there, up to the last step. -/
def callStays (id : String) : System CallState (Clock × CallAct) :=
  callSystem.given fun st _ => (st.directory.calls id).isSome

theorem callee_kept {as : List (Clock × CallAct)} (hst : CallInv st)
    (hc : st.directory.calls id = some c) (hanswered : c.answered = true)
    (hrun : (callStays id).Runs st as st') (hc' : st'.directory.calls id = some c') :
    c'.answered = true ∧ c'.calleeUid = c.calleeUid ∧ c'.calleeDevice = c.calleeDevice ∧
      ∀ s, c'.callee = some s → st'.who s = some (c.calleeUid, c.calleeDevice) := by
  induction hrun generalizing c with
  | nil =>
    cases hc.symm.trans hc'
    exact ⟨hanswered, rfl, rfl, (hst.kept.sides id _ hc').callee⟩
  | @cons st st₁ st' a as hstep hrun ih =>
    have heq : st₁ = (st.perform a.1 a.2).1 := hstep.1
    have hperform : CallStep st a.2 (st.perform a.1 a.2).1 (st.perform a.1 a.2).2 :=
      hst.perform a.2
    rw [← heq] at hperform
    -- The call is there after the step: it is where the run ends, or where it goes on.
    have hthere : ∃ c₁, st₁.directory.calls id = some c₁ := by
      cases hrun with
      | nil => exact ⟨c', hc'⟩
      | cons hnext _ => exact Option.isSome_iff_exists.1 hnext.2
    obtain ⟨c₁, hc₁⟩ := hthere
    have hsame := hperform.same id c c₁ hc hc₁
    obtain ⟨hans₁, hdevice⟩ := hsame.answered hanswered
    obtain ⟨hans', huid', hdevice', hcallee'⟩ := ih hperform.inv hc₁ hans₁ hc'
    refine ⟨hans', huid'.trans hsame.calleeUid, hdevice'.trans hdevice, ?_⟩
    rw [← hsame.calleeUid, ← hdevice]
    exact hcallee'

namespace CallState

/-- Some steps, and everything that is sent in them. -/
def run (st : CallState) : List (Clock × CallAct) → CallState × List (Nat × Packet)
  | [] => (st, [])
  | a :: as =>
    let (st, out) := st.perform a.1 a.2
    let (st, more) := st.run as
    (st, out.run ++ more)

theorem reachable_run {as : List (Clock × CallAct)} (h : callSystem.Reachable st) :
    callSystem.Reachable (st.run as).1 := by
  induction as generalizing st with
  | nil => exact h
  | cons a as ih => exact ih (.step a h rfl)

end CallState

/-- A notice that a call was answered or declined elsewhere. -/
def isNotice (id : String) : Packet → Bool
  | .callSignal sig =>
    sig.callId = id ∧ (sig.kind = .answeredElsewhere ∨ sig.kind = .declinedElsewhere)
  | _ => false

/-- When one answers, another that rings gets one notice while the call is there. -/
def ToldOnce : Prop :=
  ∀ (before : List (Clock × CallAct)) answer after id s,
    let st := (({} : CallState).run before).1
    let st' := (st.run [answer]).1
    (st.directory.calls id).any (fun c => c.answered = false ∧ s ∈ c.ringing) →
    (st'.directory.calls id).any (fun c => c.answered = true ∧ c.callee ≠ some s) →
    (∀ as ∈ after.inits, ((st'.run as).1.directory.calls id).isSome) →
    (sentTo s (st.run (answer :: after)).2).countP (isNotice id) = 1

/-- Account 1 calls account 2, which is signed in on two devices. -/
def twoDevicesRing : List (Clock × CallAct) :=
  let login (uid : Int) (huid : 0 < uid) (device : String) (hdevice : device ≠ "") : LoginResult :=
    { uid, uid_pos := huid, username := "", deviceId := device, device_named := hdevice }
  [({}, .join), ({}, .join), ({}, .join),
    ({}, .login 0 (login 1 (by decide) "a" (by decide)) {}),
    ({}, .login 1 (login 2 (by decide) "b" (by decide)) {}),
    ({}, .login 2 (login 2 (by decide) "c" (by decide)) {}),
    ({}, .callSignal 0 2 .invite "x" "ann" "bob" true)]

end Decibell.Central
