import Decibell.Central.Profiles
import Mathlib.Data.List.Induction
import Mathlib.Data.List.InsertIdx

/-!
# Directory and database agree

Once nothing is under way, the directory has of each signed-in account what is saved of it.

* `Timely` are the steps that are taken in time: what is under way overtakes nothing of its
  kind, and an account is signed in only with what is saved, or will be.
-/

namespace Decibell.Central

open Function Lib List SessionManager

/-! ## Settings -/

namespace Settings

def withMessage (s : Settings) (m : String × String × Int) : Settings :=
  { s with statusText := m.1, statusEmoji := m.2.1, statusExpiresAt := m.2.2 }

variable {s : Settings} {m m' : String × String × Int}

theorem withMessage_withMessage : (s.withMessage m).withMessage m' = s.withMessage m' := rfl

theorem clearMessage_eq : s.clearMessage = s.withMessage ("", "", 0) := rfl

theorem expiresAt_eq : s.statusExpiresAt = s.message.2.2 := rfl

end Settings

namespace PresenceChange

def message? : PresenceChange → Option (String × String × Int)
  | .statusMessage text emoji expiresAt => some (text, emoji, expiresAt)
  | _ => none

/-- Two changes of the same setting. -/
def sameKind : PresenceChange → PresenceChange → Bool
  | .dmFriendsOnly _, .dmFriendsOnly _ => true
  | .status _, .status _ => true
  | .statusMessage .., .statusMessage .. => true
  | _, _ => false

variable {c c' : PresenceChange} {s : Settings} {m : String × String × Int}

theorem settings_apply (p : Presence) : (c.apply p).settings = c.store p.settings := by
  cases c <;> rfl

theorem store_comm (h : c.sameKind c' = false) : c'.store (c.store s) = c.store (c'.store s) := by
  cases c <;> cases c' <;> first | rfl | cases h

theorem store_of_message (h : c.message? = some m) : c.store s = s.withMessage m := by
  cases c <;> cases h
  rfl

theorem store_withMessage (h : c.message? = none) :
    c.store (s.withMessage m) = (c.store s).withMessage m := by
  cases c <;> first | rfl | cases h

theorem message_store (h : c.message? = none) : (c.store s).message = s.message := by
  cases c <;> first | rfl | cases h

end PresenceChange

/-! ## What is under way -/

namespace ProfileRequest

/-- A sign-in that has the name. -/
def signIn? : ProfileRequest → Option LoginResult
  | .signIn login => some login
  | _ => none

/-- A sign-in that has read everything. -/
def bind? : ProfileRequest → Option (LoginResult × Presence)
  | .bind login presence => some (login, presence)
  | _ => none

def message? : ProfileRequest → Option (String × String × Int)
  | .change c _ => c.message?
  | _ => none

end ProfileRequest

namespace ProfileRun

variable (st : ProfileRun) {uid : Int}

/-- The settings once all changes of an account are saved. -/
def stored (saves : List Save) (uid : Int) (s : Settings) : Settings :=
  saves.foldl (fun s save => if save.uid = uid then save.change.store s else s) s

/-- These settings once everything under way is done. -/
def settle (saves : List Save) (clears : List (Int × Int)) (uid : Int) (s : Settings) : Settings :=
  if clears.contains (uid, (stored saves uid s).statusExpiresAt) then
    (stored saves uid s).clearMessage
  else stored saves uid s

/-- The settings of an account once everything under way is done. -/
def settled (uid : Int) : Settings := settle st.saves st.clears uid (st.users uid).settings

/-- A change of a setting that is made before another change of it. -/
def Blocks (save save' : Save) : Prop :=
  save.uid = save'.uid ∧ save.change.sameKind save'.change

instance : DecidableRel Blocks := fun _ _ => inferInstanceAs (Decidable (_ ∧ _))

def notices (ts : List ProfileNotice) : List (Int × String) := ts.map fun t => (t.uid, t.text)

/-- A step taken in time.

    * Changes are saved in the order made; names and pictures are told in the order saved.
    * An account nobody is signed in to is signed in to with what is, or will be, saved.
    * A sign-in finds a message run out only if the directory does not show it.
    * A message that ran out is cleared once saved, before another that runs out in that second
      is set. -/
def Timely (now : Clock) : ProfileAct → Prop
  | .readProfile s => ∀ login ∈ (st.requests s).bind ProfileRequest.signIn?,
      (st.users login.uid).settings.RunOut now.unix →
        ∀ p ∈ st.directory.presenceOf login.uid,
          p.settings.message ≠ (st.users login.uid).settings.message
  | .bind s => ∀ r ∈ (st.requests s).bind ProfileRequest.bind?,
      st.directory.accounts r.1.uid = none →
        r.2.settings = st.settled r.1.uid ∧
        (r.2.username = (st.users r.1.uid).username ∨
          lastAbout (notices st.renames) r.1.uid ≠ none) ∧
        (r.2.avatarVersion = (st.users r.1.uid).avatarVersion ∨
          lastAbout (notices st.avatars) r.1.uid ≠ none)
  | .change s => ∀ m ∈ (st.requests s).bind ProfileRequest.message?,
      (st.uids s, m.2.2) ∉ st.clears
  | .save i => InTurn Blocks st.saves i
  | .tellRenamed i => InTurn (fun a b => a.uid = b.uid) st.renames i
  | .tellAvatar i => InTurn (fun a b => a.uid = b.uid) st.avatars i
  | .clear i => ∀ key ∈ st.clears[i]?, ∀ save ∈ st.saves, save.uid = key.1 →
      ∀ m ∈ save.change.message?, m.2.2 ≠ key.2
  | _ => True

instance (now : Clock) : (a : ProfileAct) → Decidable (st.Timely now a)
  | .readProfile _ => inferInstanceAs (Decidable (∀ login ∈ _, _ → ∀ p ∈ _, _))
  | .bind _ => inferInstanceAs (Decidable (∀ r ∈ _, _ → _ ∧ _ ∧ _))
  | .change _ => inferInstanceAs (Decidable (∀ m ∈ _, _))
  | .save i => inferInstanceAs (Decidable (InTurn Blocks st.saves i))
  | .tellRenamed i => inferInstanceAs (Decidable (InTurn _ st.renames i))
  | .tellAvatar i => inferInstanceAs (Decidable (InTurn _ st.avatars i))
  | .clear _ => inferInstanceAs (Decidable (∀ key ∈ _, ∀ save ∈ _, _ → ∀ m ∈ _, _))
  | .join | .readName .. | .leave _ | .retire .. | .setIdle .. | .request .. | .rename .. |
    .setAvatar .. | .expire _ => inferInstanceAs (Decidable True)

variable {st} {saves : List Save} {s : Settings} {m : String × String × Int}

theorem stored_append (save : Save) : stored (saves ++ [save]) uid s =
    if save.uid = uid then save.change.store (stored saves uid s) else stored saves uid s := by
  rw [stored, foldl_append]
  rfl

/-- A change of the message of an account is still to be saved. -/
def SavesMessage (saves : List Save) (uid : Int) : Prop :=
  ∃ save ∈ saves, save.uid = uid ∧ save.change.message? ≠ none

theorem stored_withMessage_of_savesMessage (h : SavesMessage saves uid) :
    stored saves uid (s.withMessage m) = stored saves uid s := by
  induction saves generalizing s with
  | nil =>
    obtain ⟨save, hsave, -⟩ := h
    cases hsave
  | cons save saves ih =>
    rw [stored, stored, foldl_cons, foldl_cons]
    by_cases hone : save.uid = uid ∧ save.change.message? ≠ none
    · obtain ⟨m', hm'⟩ := Option.ne_none_iff_exists'.1 hone.2
      rw [if_pos hone.1, if_pos hone.1, PresenceChange.store_of_message hm',
        PresenceChange.store_of_message hm', Settings.withMessage_withMessage]
    · have hrest : SavesMessage saves uid := by
        obtain ⟨save', hsave', hmessage⟩ := h
        rcases mem_cons.1 hsave' with rfl | hsave'
        · exact absurd hmessage hone
        · exact ⟨save', hsave', hmessage⟩
      split
      · next huid =>
        have hnone : save.change.message? = none := by
          by_contra hsome
          exact hone ⟨huid, hsome⟩
        rw [PresenceChange.store_withMessage hnone]
        exact ih hrest
      · exact ih hrest

theorem stored_withMessage (h : ¬ SavesMessage saves uid) :
    stored saves uid (s.withMessage m) = (stored saves uid s).withMessage m ∧
      (stored saves uid s).message = s.message := by
  induction saves generalizing s with
  | nil => exact ⟨rfl, rfl⟩
  | cons save saves ih =>
    have hrest : ¬ SavesMessage saves uid := fun ⟨save', hsave', hmessage⟩ =>
      h ⟨save', .tail save hsave', hmessage⟩
    rw [stored, stored, foldl_cons, foldl_cons]
    split
    · next huid =>
      have hnone : save.change.message? = none := by
        by_contra hsome
        exact h ⟨save, .head _, huid, hsome⟩
      obtain ⟨hwith, hmessage⟩ := ih hrest (s := save.change.store s)
      rw [PresenceChange.store_withMessage hnone]
      exact ⟨hwith, hmessage.trans (PresenceChange.message_store hnone)⟩
    · exact ih hrest

theorem message_stored (saves : List Save) (uid : Int) (s : Settings) :
    (stored saves uid s).message = s.message ∨
      ∃ save ∈ saves, save.uid = uid ∧
        save.change.message? = some (stored saves uid s).message := by
  induction saves using List.reverseRecOn with
  | nil => exact .inl rfl
  | append_singleton saves save ih =>
    rw [stored_append]
    split
    · next huid =>
      cases hm : save.change.message? with
      | some m =>
        rw [PresenceChange.store_of_message hm]
        exact .inr ⟨save, by simp, huid, hm⟩
      | none =>
        rw [PresenceChange.message_store hm]
        exact ih.imp_right fun ⟨save', hsave', h⟩ => ⟨save', mem_append_left _ hsave', h⟩
    · exact ih.imp_right fun ⟨save', hsave', h⟩ => ⟨save', mem_append_left _ hsave', h⟩

/-! ### What keeps the settled settings -/

variable {clears : List (Int × Int)} {i : Nat}

theorem settle_save {save : Save} (hget : saves[i]? = some save) (hturn : InTurn Blocks saves i)
    (uid : Int) (s : Settings) : settle (saves.eraseIdx i) clears uid
      (if save.uid = uid then save.change.store s else s) = settle saves clears uid s := by
  have hstored : stored (saves.eraseIdx i) uid
      (if save.uid = uid then save.change.store s else s) = stored saves uid s := by
    refine foldl_eraseIdx (f := fun s (save : Save) =>
      if save.uid = uid then save.change.store s else s) hget ?_ _
    intro before hbefore s
    split
    · next huid =>
      split
      · next huid' =>
        refine PresenceChange.store_comm ?_
        by_contra hkind
        exact hturn save hget before hbefore ⟨huid'.trans huid.symm, by simpa using hkind⟩
      · rfl
    · rfl
  rw [settle, settle, hstored]

theorem mem_eraseIdx_of_ne {key key' : Int × Int} (hget : clears[i]? = some key)
    (hne : key' ≠ key) : key' ∈ clears.eraseIdx i ↔ key' ∈ clears := by
  obtain ⟨hsplit, herase⟩ := split_of_getElem? hget
  rw [herase]
  conv_rhs => rw [hsplit]
  simp [hne]

theorem settle_of_mem (h : (uid, (stored saves uid s).statusExpiresAt) ∈ clears) :
    settle saves clears uid s = (stored saves uid s).clearMessage := by
  rw [settle, if_pos (contains_iff_mem.2 h)]

theorem settle_of_not_mem (h : (uid, (stored saves uid s).statusExpiresAt) ∉ clears) :
    settle saves clears uid s = stored saves uid s := by
  rw [settle, if_neg (mt contains_iff_mem.1 h)]

theorem settle_congr {clears' : List (Int × Int)}
    (h : ∀ e, (uid, e) ∈ clears' ↔ (uid, e) ∈ clears) :
    settle saves clears' uid s = settle saves clears uid s := by
  simp only [settle, contains_eq_mem, decide_eq_true_eq, h]

theorem expiresAt_stored_ne {expiresAt : Int}
    (hsaves : ∀ save ∈ saves, save.uid = uid → ∀ m, save.change.message? = some m →
      m.2.2 ≠ expiresAt) (h : s.statusExpiresAt ≠ expiresAt ∨ SavesMessage saves uid) :
    (stored saves uid s).statusExpiresAt ≠ expiresAt := by
  have hne (s : Settings) (h : s.statusExpiresAt ≠ expiresAt) :
      (stored saves uid s).statusExpiresAt ≠ expiresAt := by
    rw [Settings.expiresAt_eq]
    rcases message_stored saves uid s with hmessage | ⟨save, hsave, huid, hmessage⟩
    · rw [hmessage]
      exact h
    · exact hsaves save hsave huid _ hmessage
  rcases h with h | h
  · exact hne s h
  · rw [← stored_withMessage_of_savesMessage h (m := ("", "", expiresAt + 1))]
    refine hne _ fun heq => ?_
    change expiresAt + 1 = expiresAt at heq
    omega

theorem settle_clear {expiresAt : Int} (hget : clears[i]? = some (uid, expiresAt))
    (hsaves : ∀ save ∈ saves, save.uid = uid → ∀ m, save.change.message? = some m →
      m.2.2 ≠ expiresAt) :
    settle saves (clears.eraseIdx i) uid (s.clearExpired expiresAt) =
      settle saves clears uid s := by
  have hother (h : s.statusExpiresAt ≠ expiresAt ∨ SavesMessage saves uid) :
      settle saves (clears.eraseIdx i) uid s = settle saves clears uid s := by
    have hne : (uid, (stored saves uid s).statusExpiresAt) ≠ (uid, expiresAt) := fun heq =>
      expiresAt_stored_ne hsaves h (congrArg Prod.snd heq)
    simp only [settle, contains_eq_mem, decide_eq_true_eq, mem_eraseIdx_of_ne hget hne]
  rw [Settings.clearExpired]
  split
  · next hexpires =>
    rw [Settings.clearMessage_eq]
    by_cases hsaving : SavesMessage saves uid
    · rw [← hother (.inr hsaving), settle, settle, stored_withMessage_of_savesMessage hsaving]
    · obtain ⟨hwith, hmessage⟩ := stored_withMessage (m := ("", "", 0)) (s := s) hsaving
      have hmem : (uid, (stored saves uid s).statusExpiresAt) ∈ clears := by
        rw [Settings.expiresAt_eq, hmessage, ← Settings.expiresAt_eq, hexpires]
        exact mem_of_getElem? hget
      rw [settle, settle_of_mem hmem, hwith]
      split <;> rfl
  · next hexpires => exact hother (.inl hexpires)

theorem settle_clearMessage (h : (settle saves clears uid s).message ≠ s.message) :
    settle saves clears uid s.clearMessage = settle saves clears uid s := by
  rw [Settings.clearMessage_eq]
  by_cases hsaving : SavesMessage saves uid
  · rw [settle, settle, stored_withMessage_of_savesMessage hsaving]
  · obtain ⟨hwith, hmessage⟩ := stored_withMessage (m := ("", "", 0)) (s := s) hsaving
    have hmem : (uid, (stored saves uid s).statusExpiresAt) ∈ clears := by
      by_contra hnot
      rw [settle_of_not_mem hnot] at h
      exact h hmessage
    rw [settle, settle_of_mem hmem, hwith]
    split <;> rfl

theorem settle_expire {expiresAt : Int}
    (h : (settle saves clears uid s).statusExpiresAt = expiresAt) (hpos : 0 < expiresAt) :
    settle saves (clears ++ [(uid, expiresAt)]) uid s =
      (settle saves clears uid s).clearMessage := by
  have hmem : (uid, (stored saves uid s).statusExpiresAt) ∉ clears := by
    intro hmem
    rw [settle_of_mem hmem] at h
    change 0 = expiresAt at h
    omega
  rw [settle_of_not_mem hmem] at h
  rw [settle_of_not_mem hmem, settle_of_mem (by rw [h]; exact mem_append_right _ (.head _))]

theorem settle_change {save : Save} (huid : save.uid = uid)
    (hclears : ∀ m, save.change.message? = some m → (uid, m.2.2) ∉ clears) :
    settle (saves ++ [save]) clears uid s = save.change.store (settle saves clears uid s) := by
  rw [settle, settle, stored_append, if_pos huid]
  cases hm : save.change.message? with
  | some m =>
    have hnot : (uid, ((stored saves uid s).withMessage m).statusExpiresAt) ∉ clears :=
      hclears m hm
    rw [PresenceChange.store_of_message hm, PresenceChange.store_of_message hm,
      if_neg (mt contains_iff_mem.1 hnot)]
    split <;> rfl
  | none =>
    have hexpires : (save.change.store (stored saves uid s)).statusExpiresAt =
        (stored saves uid s).statusExpiresAt :=
      congrArg (·.2.2) (PresenceChange.message_store hm)
    rw [hexpires]
    split
    · rw [Settings.clearMessage_eq, Settings.clearMessage_eq, PresenceChange.store_withMessage hm]
    · rfl

theorem settle_append_of_ne {save : Save} (huid : save.uid ≠ uid) :
    settle (saves ++ [save]) clears uid s = settle saves clears uid s := by
  rw [settle, settle, stored_append, if_neg huid]

end ProfileRun

/-! ## What the directory keeps -/

namespace SessionManager

variable {d d' : SessionManager} {now : Clock} {s : Nat} {uid : Int}

/-- Whoever is signed in was so before, with the same profile. -/
def KeepsProfiles (d d' : SessionManager) : Prop :=
  ∀ uid p', d'.presenceOf uid = some p' → ∃ p, d.presenceOf uid = some p ∧ p'.profile = p.profile

theorem KeepsProfiles.of_accounts (h : d'.accounts = d.accounts) : KeepsProfiles d d' := by
  intro uid p' hp'
  rw [presenceOf, h] at hp'
  exact ⟨p', hp', rfl⟩

theorem presenceOf_update {o : Option Account} (x : Int) :
    (d.setAccount uid o).presenceOf x = if x = uid then o.map (·.presence) else d.presenceOf x := by
  rw [presenceOf, setAccount]
  dsimp only
  rw [update_apply]
  split <;> rfl

theorem KeepsProfiles.setAccount {a : Account} {o : Option Account} (ha : d.accounts uid = some a)
    (ho : ∀ a', o = some a' → a'.presence.profile = a.presence.profile) :
    KeepsProfiles d (d.setAccount uid o) := by
  intro x p' hp'
  rw [presenceOf_update] at hp'
  split at hp'
  · next hx =>
    subst hx
    obtain ⟨a', rfl, rfl⟩ := Option.map_eq_some_iff.1 hp'
    exact ⟨a.presence, by rw [presenceOf, ha]; rfl, ho a' rfl⟩
  · exact ⟨p', hp', rfl⟩

theorem keepsProfiles_signOut {conn : Connection} : KeepsProfiles d (d.signOut now s conn).1 := by
  unfold signOut
  dsimp only
  split
  · exact .of_accounts rfl
  split
  · exact .of_accounts rfl
  next a ha =>
  split
  · exact .of_accounts rfl
  split
  · exact .setAccount (d := ((d.unwatchAll s conn).callLeave now s conn.deviceId).1.setConnection s
      fun c => { c with uid := 0 }) ha nofun
  · refine .setAccount (d := ((d.unwatchAll s conn).callLeave now s conn.deviceId).1.setConnection s
      fun c => { c with uid := 0 }) ha ?_
    rintro _ ⟨⟩
    rfl

theorem keepsProfiles_leave : KeepsProfiles d (d.leave now s).1 := by
  unfold leave
  split
  · exact .of_accounts rfl
  · exact keepsProfiles_signOut

theorem keepsProfiles_retire {reason : CloseReason} :
    KeepsProfiles d (d.retire now s reason).1 := by
  unfold retire
  split
  · exact .of_accounts rfl
  · exact keepsProfiles_signOut

theorem keepsProfiles_join : KeepsProfiles d (d.join s) := by
  unfold join
  split <;> exact .of_accounts rfl

theorem keepsProfiles_setIdle {idle : Bool} : KeepsProfiles d (d.setIdle now s idle).1 := by
  unfold setIdle
  split
  · exact .of_accounts rfl
  split
  · exact .of_accounts rfl
  next conn _ _ =>
  dsimp only
  split
  · exact .of_accounts rfl
  · next a ha =>
    refine .setAccount (d := d.setConnection s fun c => { c with idle }) ha ?_
    rintro _ ⟨⟩
    rfl

/-- On a connection signed in to nobody: the account stays as it is, or gets the given presence. -/
theorem presenceOf_bind {device : String} {presence : Presence} {reply : Packet}
    {rebuild : Presence → Packet} (hs : ∀ c, d.sessions s = some c → ¬ 0 < c.uid) {x : Int}
    {p' : Presence}
    (hp' : (d.bind now s uid device presence reply rebuild).manager.presenceOf x = some p') :
    (∃ p, d.presenceOf x = some p ∧ p'.profile = p.profile) ∨
      (x = uid ∧ d.accounts uid = none ∧ p'.profile = presence.profile) := by
  unfold bind at hp'
  split at hp'
  · exact .inl ⟨p', hp', rfl⟩
  next conn hconn =>
  rw [if_neg (hs conn hconn)] at hp'
  dsimp only at hp'
  have hbeside {d₁ : SessionManager} {a : Account} (a₀ : Account) {replaced : Option Nat}
      (ha : d.accounts uid = some a₀) (hpresence : a.presence = a₀.presence)
      (haccounts : d₁.accounts = d.accounts)
      (hp' : (d₁.bindBeside now s uid device presence a reply rebuild replaced
        []).manager.presenceOf x = some p') :
      ∃ p, d.presenceOf x = some p ∧ p'.profile = p.profile := by
    refine KeepsProfiles.setAccount (d := d₁.setConnection s fun c =>
      { c with uid, deviceId := device, idle := false }) (a := a₀) ?_ ?_ x p' hp' |>.imp
        fun p hp => ⟨?_, hp.2⟩
    · exact (congrFun haccounts uid).trans ha
    · rintro _ ⟨⟩
      rw [← hpresence]
      rfl
    · rw [← hp.1, presenceOf, presenceOf, ← haccounts]
      rfl
  split at hp'
  · next hnone =>
    rw [bindFresh] at hp'
    change presenceOf (setAccount _ _ _) _ = _ at hp'
    rw [presenceOf_update] at hp'
    split at hp'
    · next hx =>
      cases hp'
      exact .inr ⟨hx, hnone, rfl⟩
    · exact .inl ⟨p', hp', rfl⟩
  next a ha =>
  split at hp'
  · refine .inl (hbeside a ?_ ?_ accounts_strip hp')
    · exact ha
    · rfl
  split at hp'
  · exact .inl ⟨p', hp', rfl⟩
  · exact .inl (hbeside a ha rfl rfl hp')

theorem presenceOf_updatePresence (d : SessionManager) (now : Clock) (uid : Int)
    (change : Presence → Presence) (x : Int) :
    (d.updatePresence now uid change).1.presenceOf x =
      if x = uid then (d.presenceOf uid).map change else d.presenceOf x := by
  unfold updatePresence
  split
  · next ha =>
    split
    · next hx => rw [hx, presenceOf, ha]; rfl
    · rfl
  · next a ha =>
    rw [presenceOf_update]
    split
    · rw [presenceOf, ha]; rfl
    · rfl

theorem presenceOf_pushUserRenamed (d : SessionManager) (uid : Int) (username : String)
    (sender : Nat) (x : Int) :
    (d.pushUserRenamed uid username sender).1.presenceOf x =
      if x = uid then (d.presenceOf uid).map fun p => { p with username } else d.presenceOf x := by
  unfold pushUserRenamed
  dsimp only
  split
  · next ha =>
    split
    · next hx => rw [hx, presenceOf, presenceOf, ha]; rfl
    · rfl
  · next a ha =>
    change presenceOf (setAccount _ _ _) _ = _
    rw [presenceOf_update]
    split
    · rw [presenceOf, ha]; rfl
    · rfl

theorem presenceOf_pushAvatarChanged (d : SessionManager) (uid : Int) (version : String)
    (sender : Nat) (x : Int) :
    (d.pushAvatarChanged uid version sender).1.presenceOf x =
      if x = uid then (d.presenceOf uid).map fun p => { p with avatarVersion := version }
      else d.presenceOf x := by
  unfold pushAvatarChanged
  dsimp only
  split
  · next ha =>
    split
    · next hx => rw [hx, presenceOf, ha]; rfl
    · rfl
  · next a ha =>
    rw [presenceOf_update]
    split
    · rw [presenceOf, ha]; rfl
    · rfl

theorem presenceOf_expireStatusMessage {p : Presence} (hp : d.presenceOf uid = some p)
    (hout : p.settings.RunOut now.unix) (x : Int) :
    (d.expireStatusMessage now uid).1.presenceOf x = if x = uid then
      some { p with statusText := "", statusEmoji := "", statusExpiresAt := 0 }
      else d.presenceOf x := by
  obtain ⟨a, ha, rfl⟩ := Option.map_eq_some_iff.1 hp
  have hnot : ¬ (a.presence.statusExpiresAt ≤ 0 ∨ now.unix < a.presence.statusExpiresAt) := by
    obtain ⟨hpos, hle⟩ := hout
    change 0 < a.presence.statusExpiresAt at hpos
    change a.presence.statusExpiresAt ≤ now.unix at hle
    omega
  unfold expireStatusMessage
  rw [ha]
  dsimp only
  rw [if_neg hnot, presenceOf_updatePresence, hp]
  rfl

end SessionManager

/-! ## The invariant -/

/-- The directory has the settings that will be saved of each signed-in account; its name and
    picture are the saved ones, or will be told. -/
structure Agreeing (st : ProfileRun) : Prop where
  /-- A connection is signed in only if its handler did that. -/
  places : ∀ s c, st.directory.sessions s = some c →
    (c.uid = 0 ∧ c.watching = []) ∨ c.uid = st.uids s
  signIn : ∀ s login, st.requests s = some (.signIn login) → st.uids s = 0
  bind : ∀ s login presence, st.requests s = some (.bind login presence) → st.uids s = 0
  settings : ∀ uid p, st.directory.presenceOf uid = some p → p.settings = st.settled uid
  names : CatchesUp (ProfileRun.notices st.renames) (fun uid => (st.users uid).username)
    fun uid => (st.directory.presenceOf uid).map (·.username)
  pictures : CatchesUp (ProfileRun.notices st.avatars) (fun uid => (st.users uid).avatarVersion)
    fun uid => (st.directory.presenceOf uid).map (·.avatarVersion)

namespace Agreeing

variable {st : ProfileRun} {now : Clock} {s : Nat} {uid : Int} {d' : SessionManager}

theorem section_step (h : Agreeing st) (hremains : Remains st.directory d')
    (hkeeps : SessionManager.KeepsProfiles st.directory d') :
    Agreeing { st with directory := d' } := by
  refine ⟨?_, h.signIn, h.bind, ?_, ?_, ?_⟩
  · intro s c' hc'
    rcases hremains s c' hc' with hnone | ⟨c, hc, huid, hwatching⟩
    · exact .inl hnone
    · rw [huid, hwatching]
      exact h.places s c hc
  · intro uid p' hp'
    obtain ⟨p, hp, hprofile⟩ := hkeeps uid p' hp'
    exact (congrArg SavedProfile.settings hprofile).trans (h.settings uid p hp)
  · refine h.names.copied fun uid v hv => .inl ?_
    obtain ⟨p', hp', rfl⟩ := Option.map_eq_some_iff.1 hv
    obtain ⟨p, hp, hprofile⟩ := hkeeps uid p' hp'
    rw [hp]
    exact congrArg some (congrArg SavedProfile.username hprofile).symm
  · refine h.pictures.copied fun uid v hv => .inl ?_
    obtain ⟨p', hp', rfl⟩ := Option.map_eq_some_iff.1 hv
    obtain ⟨p, hp, hprofile⟩ := hkeeps uid p' hp'
    rw [hp]
    exact congrArg some (congrArg SavedProfile.avatarVersion hprofile).symm

/-- A request is taken up, goes on or ends; a sign-in on a connection signed in to nobody. -/
theorem setRequest (h : Agreeing st) {r : Option ProfileRequest}
    (hr : ∀ login, (r = some (.signIn login) ∨ ∃ p, r = some (.bind login p)) → st.uids s = 0) :
    Agreeing (st.setRequest s r) := by
  have hrequests (s' : Nat) {r' : ProfileRequest} (hr' : update st.requests s r s' = some r') :
      (s' = s ∧ r = some r') ∨ st.requests s' = some r' := by
    rw [update_apply] at hr'
    split at hr'
    · next heq => exact .inl ⟨heq, hr'⟩
    · exact .inr hr'
  refine ⟨h.places, ?_, ?_, h.settings, h.names, h.pictures⟩
  · intro s' login hlogin
    rcases hrequests s' hlogin with ⟨rfl, hsignIn⟩ | hold
    · exact hr login (.inl hsignIn)
    · exact h.signIn s' login hold
  · intro s' login presence hlogin
    rcases hrequests s' hlogin with ⟨rfl, hbind⟩ | hold
    · exact hr login (.inr ⟨presence, hbind⟩)
    · exact h.bind s' login presence hold

theorem setRequest_of_other (h : Agreeing st) {r : Option ProfileRequest}
    (hr : ∀ login p, r ≠ some (.signIn login) ∧ r ≠ some (.bind login p)) :
    Agreeing (st.setRequest s r) :=
  h.setRequest fun login hlogin => by
    rcases hlogin with hlogin | ⟨p, hlogin⟩
    · exact absurd hlogin (hr login {}).1
    · exact absurd hlogin (hr login p).2

theorem readName {login : LoginResult} (h : Agreeing st) : Agreeing (st.readName s login) := by
  rw [ProfileRun.readName]
  split
  · next hfree => exact h.setRequest fun _ _ => hfree.1
  · exact h

theorem written (h : Agreeing st) {settings : Settings} {saves : List Save}
    {clears : List (Int × Int)}
    (hsettled : ∀ x p, st.directory.presenceOf x = some p → ProfileRun.settle saves clears x
      (if x = uid then settings else (st.users x).settings) = st.settled x) :
    Agreeing { st.setUser uid { st.users uid with settings } with saves, clears } := by
  have husers (x : Int) : update st.users uid { st.users uid with settings } x =
      { st.users x with settings := if x = uid then settings else (st.users x).settings } := by
    rw [update_apply]
    split
    · next hx => rw [hx]
    · rfl
  refine ⟨h.places, h.signIn, h.bind, ?_, ?_, ?_⟩
  · intro x p hp
    rw [h.settings x p hp]
    change _ = ProfileRun.settle saves clears x (update st.users _ _ x).settings
    rw [husers]
    exact (hsettled x p hp).symm
  · change CatchesUp _ (fun x => (update st.users _ _ x).username) _
    simp only [husers]
    exact h.names
  · change CatchesUp _ (fun x => (update st.users _ _ x).avatarVersion) _
    simp only [husers]
    exact h.pictures

theorem readProfile (h : Agreeing st) (htimely : st.Timely now (.readProfile s)) :
    Agreeing (st.readProfile now s) := by
  unfold ProfileRun.readProfile
  split
  · next login hlogin =>
    refine setRequest (h.written fun x p hp => ?_) fun _ _ => h.signIn s login hlogin
    split
    · next hx =>
      subst hx
      rw [Settings.read]
      split
      · next hout =>
        have hmessage := htimely login (by rw [hlogin]; rfl) hout p hp
        rw [h.settings _ p hp] at hmessage
        exact ProfileRun.settle_clearMessage hmessage
      · rfl
    · rfl
  · exact h

theorem bind_step (h : Agreeing st) (htimely : st.Timely now (.bind s)) :
    Agreeing (st.bind now s) := by
  unfold ProfileRun.bind
  split
  swap
  · exact h
  next login presence hr =>
  have huid := h.bind s login presence hr
  have hread := htimely (login, presence) (by rw [hr]; rfl)
  have hout : ∀ c, st.directory.sessions s = some c → ¬ 0 < c.uid := by
    intro c hc hpos
    rcases h.places s c hc with ⟨hzero, -⟩ | hzero <;> omega
  have hpresence {x : Int} {p' : Presence}
      (hp' : (st.directory.bindLogin now s login presence).manager.presenceOf x = some p') :=
    SessionManager.presenceOf_bind hout hp'
  -- The only request that ends is this one, and nobody else is signed in.
  have hothers {s' : Nat} {r : ProfileRequest} (hr' : update st.requests s none s' = some r) :
      s' ≠ s ∧ st.requests s' = some r := by
    rw [update_apply] at hr'
    split at hr'
    · cases hr'
    · next hne => exact ⟨hne, hr'⟩
  have huids {s' : Nat} (hne : s' ≠ s) (hzero : st.uids s' = 0) :
      (if (st.directory.bindLogin now s login presence).ok then update st.uids s login.uid
        else st.uids) s' = 0 := by
    split
    · rw [update_of_ne hne, hzero]
    · exact hzero
  refine ⟨?_, ?_, ?_, ?_, ?_, ?_⟩
  · exact fun s' c' hc' => placed_bindLogin huid h.places hc'
  · intro s' login' hr'
    obtain ⟨hne, hr'⟩ := hothers hr'
    exact huids hne (h.signIn s' login' hr')
  · intro s' login' presence' hr'
    obtain ⟨hne, hr'⟩ := hothers hr'
    exact huids hne (h.bind s' login' presence' hr')
  · intro x p' hp'
    rcases hpresence hp' with ⟨p, hp, hprofile⟩ | ⟨rfl, hgone, hprofile⟩
    · exact (congrArg SavedProfile.settings hprofile).trans (h.settings x p hp)
    · exact (congrArg SavedProfile.settings hprofile).trans (hread hgone).1
  · refine h.names.copied fun x v hv => ?_
    obtain ⟨p', hp', rfl⟩ := Option.map_eq_some_iff.1 hv
    rcases hpresence hp' with ⟨p, hp, hprofile⟩ | ⟨rfl, hgone, hprofile⟩
    · rw [hp]
      exact .inl (congrArg some (congrArg SavedProfile.username hprofile).symm)
    · have hname : p'.username = presence.username := congrArg SavedProfile.username hprofile
      rw [hname]
      exact .inr (hread hgone).2.1
  · refine h.pictures.copied fun x v hv => ?_
    obtain ⟨p', hp', rfl⟩ := Option.map_eq_some_iff.1 hv
    rcases hpresence hp' with ⟨p, hp, hprofile⟩ | ⟨rfl, hgone, hprofile⟩
    · rw [hp]
      exact .inl (congrArg some (congrArg SavedProfile.avatarVersion hprofile).symm)
    · have hversion : p'.avatarVersion = presence.avatarVersion :=
        congrArg SavedProfile.avatarVersion hprofile
      rw [hversion]
      exact .inr (hread hgone).2.2

theorem request {change : PresenceChange} (h : Agreeing st) :
    Agreeing (st.request s change) := by
  rw [ProfileRun.request]
  split
  · exact h.setRequest_of_other fun _ _ => ⟨nofun, nofun⟩
  · exact h

theorem copied_of_update {α : Type} {queue : List (Int × α)} {source : Int → α} {f : Presence → α}
    {g : Presence → Presence}
    (h : CatchesUp queue source fun uid => (st.directory.presenceOf uid).map f)
    (hpresence : ∀ x, d'.presenceOf x =
      if x = uid then (st.directory.presenceOf uid).map g else st.directory.presenceOf x)
    (hg : ∀ p, f (g p) = f p) : CatchesUp queue source fun uid => (d'.presenceOf uid).map f := by
  refine h.copied fun x v hv => .inl ?_
  rw [hpresence] at hv
  split at hv
  · next hx =>
    rw [hx]
    rw [Option.map_map] at hv
    rw [← hv]
    exact congrArg (fun k => (st.directory.presenceOf uid).map k) (funext fun p => (hg p).symm)
  · exact hv

theorem change (h : Agreeing st) (htimely : st.Timely now (.change s)) :
    Agreeing (st.change now s) := by
  unfold ProfileRun.change
  split
  swap
  · exact h
  next change record hr =>
  dsimp only
  split
  · exact h
  cases hp : st.directory.presenceOf (st.uids s) with
  | none => exact h.setRequest_of_other fun _ _ => ⟨nofun, nofun⟩
  | some p =>
    dsimp only
    split
    · exact h.setRequest_of_other fun _ _ => ⟨nofun, nofun⟩
    -- The directory changes now, and what will be saved changes with it.
    refine setRequest_of_other ?_ fun _ _ => ⟨nofun, nofun⟩
    have hpresence := SessionManager.presenceOf_updatePresence st.directory now (st.uids s)
      change.apply
    refine ⟨?_, h.signIn, h.bind, ?_, ?_, ?_⟩
    · rw [sessions_updatePresence]
      exact h.places
    · intro x p' hp'
      rw [hpresence] at hp'
      by_cases hx : x = st.uids s
      · subst hx
        rw [if_pos rfl, hp] at hp'
        cases hp'
        have hsettled : ProfileRun.settle (st.saves ++ [⟨s, st.uids s, change, record⟩]) st.clears
            (st.uids s) (st.users (st.uids s)).settings = change.store (st.settled (st.uids s)) :=
          ProfileRun.settle_change rfl fun m hm => htimely m (by rw [hr]; exact hm)
        rw [PresenceChange.settings_apply, h.settings _ p hp]
        exact hsettled.symm
      · rw [if_neg hx] at hp'
        rw [h.settings x p' hp']
        exact (ProfileRun.settle_append_of_ne (Ne.symm hx)).symm
    · exact copied_of_update h.names hpresence change.username_apply
    · exact copied_of_update h.pictures hpresence change.avatarVersion_apply

theorem save {i : Nat} (h : Agreeing st) (htimely : st.Timely now (.save i)) :
    Agreeing (st.save i) := by
  unfold ProfileRun.save
  split
  · exact h
  next save hget =>
  refine setRequest_of_other (h.written fun x p _ => ?_) fun _ _ => ⟨nofun, nofun⟩
  rw [ProfileRun.settled, ← ProfileRun.settle_save hget htimely]
  by_cases hx : x = save.uid
  · subst hx
    rw [if_pos rfl]
    rfl
  · rw [if_neg hx, if_neg (Ne.symm hx)]
    rfl

theorem clear {i : Nat} (h : Agreeing st) (htimely : st.Timely now (.clear i)) :
    Agreeing (st.clear i) := by
  unfold ProfileRun.clear
  split
  · exact h
  next uid expiresAt hget =>
  refine h.written fun x p _ => ?_
  split
  · next hx =>
    subst hx
    exact ProfileRun.settle_clear hget (htimely (x, expiresAt) hget)
  · next hx =>
    exact ProfileRun.settle_congr fun e =>
      ProfileRun.mem_eraseIdx_of_ne hget fun heq => hx (congrArg Prod.fst heq)

theorem expire (h : Agreeing st) : Agreeing (st.expire now uid) := by
  unfold ProfileRun.expire
  split
  · exact h
  next p hp =>
  split
  swap
  · exact h
  next hout =>
  have hpresence := SessionManager.presenceOf_expireStatusMessage hp hout
  have hmap (x : Int) : (st.directory.expireStatusMessage now uid).1.presenceOf x = if x = uid then
      (st.directory.presenceOf uid).map fun p =>
        { p with statusText := "", statusEmoji := "", statusExpiresAt := 0 }
      else st.directory.presenceOf x := by
    rw [hpresence, hp]
    rfl
  refine ⟨?_, h.signIn, h.bind, ?_, ?_, ?_⟩
  · rw [sessions_expireStatusMessage]
    exact h.places
  · intro x p' hp'
    rw [hpresence] at hp'
    by_cases hx : x = uid
    · subst hx
      rw [if_pos rfl] at hp'
      cases hp'
      have hsettled := h.settings x p hp
      have hexpires : (st.settled x).statusExpiresAt = p.statusExpiresAt :=
        congrArg Settings.statusExpiresAt hsettled.symm
      refine Eq.trans ?_ (ProfileRun.settle_expire hexpires hout.1).symm
      exact congrArg Settings.clearMessage hsettled
    · rw [if_neg hx] at hp'
      rw [h.settings x p' hp']
      refine (ProfileRun.settle_congr fun e => ?_).symm
      simp [hx]
  · exact copied_of_update h.names hmap fun _ => rfl
  · exact copied_of_update h.pictures hmap fun _ => rfl

theorem saved (h : Agreeing st) {row : SavedProfile} {renames avatars : List ProfileNotice}
    (hsettings : row.settings = (st.users uid).settings)
    (hnames : CatchesUp (ProfileRun.notices renames)
      (update (fun x => (st.users x).username) uid row.username)
      fun x => (st.directory.presenceOf x).map (·.username))
    (hpictures : CatchesUp (ProfileRun.notices avatars)
      (update (fun x => (st.users x).avatarVersion) uid row.avatarVersion)
      fun x => (st.directory.presenceOf x).map (·.avatarVersion)) :
    Agreeing { st.setUser uid row with renames, avatars } := by
  have hupdate {α : Type} (f : SavedProfile → α) : (fun x => f (update st.users uid row x)) =
      update (fun x => f (st.users x)) uid (f row) := by
    funext x
    rw [update_apply, update_apply]
    split <;> rfl
  refine ⟨h.places, h.signIn, h.bind, ?_, ?_, ?_⟩
  · intro x p hp
    rw [h.settings x p hp]
    change _ = ProfileRun.settle st.saves st.clears x (update st.users uid row x).settings
    rw [update_apply]
    split
    · next hx => rw [hx, hsettings]; rfl
    · rfl
  · change CatchesUp _ (fun x => (update st.users uid row x).username) _
    rw [hupdate (·.username)]
    exact hnames
  · change CatchesUp _ (fun x => (update st.users uid row x).avatarVersion) _
    rw [hupdate (·.avatarVersion)]
    exact hpictures

theorem notices_append {ts : List ProfileNotice} {t : ProfileNotice} :
    ProfileRun.notices (ts ++ [t]) = ProfileRun.notices ts ++ [(t.uid, t.text)] :=
  map_append

theorem rename {username : String} (h : Agreeing st) : Agreeing (st.rename s username) := by
  rw [ProfileRun.rename]
  split
  swap
  · exact h
  refine setRequest_of_other (h.saved ?_ ?_ ?_) fun _ _ => ⟨nofun, nofun⟩
  · rfl
  · rw [notices_append]
    exact h.names.write _ _
  · change CatchesUp _ (update _ _ (st.users (st.uids s)).avatarVersion) _
    rw [update_eq_self]
    exact h.pictures

theorem setAvatar {version : String} (h : Agreeing st) : Agreeing (st.setAvatar s version) := by
  rw [ProfileRun.setAvatar]
  split
  swap
  · exact h
  refine setRequest_of_other (h.saved ?_ ?_ ?_) fun _ _ => ⟨nofun, nofun⟩
  · rfl
  · change CatchesUp _ (update _ _ (st.users (st.uids s)).username) _
    rw [update_eq_self]
    exact h.names
  · rw [notices_append]
    exact h.pictures.write _ _

theorem taken {ts : List ProfileNotice} {t : ProfileNotice} {i : Nat} {source : Int → String}
    {f : Presence → String} (h : CatchesUp (ProfileRun.notices ts) source
      fun x => (st.directory.presenceOf x).map f) (hget : ts[i]? = some t)
    (hturn : InTurn (fun a b => a.uid = b.uid) ts i) {g : Presence → Presence}
    (hg : ∀ p, f (g p) = t.text) (hpresence : ∀ x, d'.presenceOf x =
      if x = t.uid then (st.directory.presenceOf t.uid).map g else st.directory.presenceOf x) :
    CatchesUp (ProfileRun.notices (ts.eraseIdx i)) source fun x => (d'.presenceOf x).map f := by
  have hget : (ProfileRun.notices ts)[i]? = some (t.uid, t.text) := by
    rw [ProfileRun.notices, getElem?_map, hget]
    rfl
  have herase : ProfileRun.notices (ts.eraseIdx i) = (ProfileRun.notices ts).eraseIdx i :=
    (eraseIdx_map _ _ _).symm
  have hturn : InTurn (fun a b => a.1 = b.1) (ProfileRun.notices ts) i :=
    @InTurn.map _ _ (fun a b => a.1 = b.1) (fun t : ProfileNotice => (t.uid, t.text)) _ _ hturn
  rw [herase]
  refine h.take hget hturn fun x v hv => ?_
  rw [hpresence] at hv
  split
  · next hx =>
    rw [if_pos hx, Option.map_map] at hv
    obtain ⟨p, -, rfl⟩ := Option.map_eq_some_iff.1 hv
    exact hg p
  · next hx =>
    rw [if_neg hx] at hv
    exact hv

theorem settings_of_update (h : Agreeing st) {g : Presence → Presence}
    (hpresence : ∀ x, d'.presenceOf x =
      if x = uid then (st.directory.presenceOf uid).map g else st.directory.presenceOf x)
    (hg : ∀ p, (g p).settings = p.settings) {x : Int} {p' : Presence}
    (hp' : d'.presenceOf x = some p') : p'.settings = st.settled x := by
  rw [hpresence] at hp'
  split at hp'
  · next hx =>
    obtain ⟨p, hp, rfl⟩ := Option.map_eq_some_iff.1 hp'
    rw [hg, hx]
    exact h.settings uid p hp
  · exact h.settings x p' hp'

theorem tellRenamed {i : Nat} (h : Agreeing st) (htimely : st.Timely now (.tellRenamed i)) :
    Agreeing (st.tellRenamed i) := by
  unfold ProfileRun.tellRenamed
  split
  · exact h
  next t hget =>
  refine setRequest_of_other ?_ fun _ _ => ⟨nofun, nofun⟩
  have hpresence := SessionManager.presenceOf_pushUserRenamed st.directory t.uid t.text t.sender
  refine ⟨?_, h.signIn, h.bind, ?_, ?_, ?_⟩
  · rw [sessions_pushUserRenamed]
    exact h.places
  · exact fun x p' hp' => h.settings_of_update hpresence (fun _ => rfl) hp'
  · exact taken h.names hget htimely (fun _ => rfl) hpresence
  · exact copied_of_update h.pictures hpresence fun _ => rfl

theorem tellAvatar {i : Nat} (h : Agreeing st) (htimely : st.Timely now (.tellAvatar i)) :
    Agreeing (st.tellAvatar i) := by
  unfold ProfileRun.tellAvatar
  split
  · exact h
  next t hget =>
  refine setRequest_of_other ?_ fun _ _ => ⟨nofun, nofun⟩
  have hpresence := SessionManager.presenceOf_pushAvatarChanged st.directory t.uid t.text t.sender
  refine ⟨?_, h.signIn, h.bind, ?_, ?_, ?_⟩
  · rw [sessions_pushAvatarChanged]
    exact h.places
  · exact fun x p' hp' => h.settings_of_update hpresence (fun _ => rfl) hp'
  · exact copied_of_update h.names hpresence fun _ => rfl
  · exact taken h.pictures hget htimely (fun _ => rfl) hpresence

theorem join (h : Agreeing st) : Agreeing (st.perform now .join) := by
  have hjoin : Agreeing { st with directory := st.directory.join st.nextSession } :=
    h.section_step (remains_join _ _) SessionManager.keepsProfiles_join
  exact ⟨hjoin.places, hjoin.signIn, hjoin.bind, hjoin.settings, hjoin.names, hjoin.pictures⟩

theorem perform (h : Agreeing st) {a : ProfileAct} (htimely : st.Timely now a) :
    Agreeing (st.perform now a) := by
  cases a with
  | join => exact h.join
  | readName s login => exact h.readName
  | readProfile s => exact h.readProfile htimely
  | bind s => exact h.bind_step htimely
  | leave s =>
    exact h.section_step (remains_of_forgotten leave_sessions)
      SessionManager.keepsProfiles_leave
  | retire s reason =>
    exact h.section_step (remains_of_forgotten retire_sessions)
      SessionManager.keepsProfiles_retire
  | setIdle s idle => exact h.section_step remains_setIdle SessionManager.keepsProfiles_setIdle
  | request s change => exact h.request
  | change s => exact h.change htimely
  | save i => exact h.save htimely
  | rename s username => exact h.rename
  | tellRenamed i => exact h.tellRenamed htimely
  | setAvatar s version => exact h.setAvatar
  | tellAvatar i => exact h.tellAvatar htimely
  | expire uid => exact h.expire
  | clear i => exact h.clear htimely

theorem init (users : Int → SavedProfile) : Agreeing { users } where
  places _ _ hc := by cases hc
  signIn _ _ hr := by cases hr
  bind _ _ _ hr := by cases hr
  settings _ _ hp := by cases hp
  names _ := nofun
  pictures _ := nofun

theorem asSaved (h : Agreeing st) (hquiet : st.Quiet) : st.AsSaved := by
  obtain ⟨-, hsaves, hrenames, havatars, hclears⟩ := hquiet
  intro uid p hp
  have hsettings : p.settings = (st.users uid).settings := by
    rw [h.settings uid p hp, ProfileRun.settled, hsaves, hclears,
      ProfileRun.settle_of_not_mem not_mem_nil]
    rfl
  have hnames := h.names
  have hpictures := h.pictures
  rw [hrenames] at hnames
  rw [havatars] at hpictures
  have hname : p.username = (st.users uid).username := hnames.eq (by rw [hp]; rfl)
  have hversion : p.avatarVersion = (st.users uid).avatarVersion := hpictures.eq (by rw [hp]; rfl)
  rw [Presence.profile, hsettings, hname, hversion]

end Agreeing

/-- In a run of steps taken in time, the directory has what is saved of each signed-in account once
    no step is pending. -/
theorem profiles_agree {st : ProfileRun}
    (h : (profileSystem.given fun st a => st.Timely a.1 a.2).Reachable st) (hquiet : st.Quiet) :
    st.AsSaved := by
  have hagreeing : Agreeing st := by
    refine System.reachable_invariant ?_ ?_ h
    · rintro _ ⟨users, rfl⟩
      exact .init users
    · rintro st a _ hst ⟨rfl, htimely⟩
      exact hst.perform htimely
  exact hagreeing.asSaved hquiet

/-! ## Two runs -/

/-- The state after some steps. -/
def ProfileRun.run (st : ProfileRun) (as : List (Clock × ProfileAct)) : ProfileRun :=
  as.foldl (fun st a => st.perform a.1 a.2) st

theorem seven_pos : (0 : Int) < 7 := by decide
theorem laptop_named : "laptop" ≠ "" := by decide
theorem phone_named : "phone" ≠ "" := by decide

/-- A device of an account. -/
def deviceLogin (deviceId : String) (h : deviceId ≠ "") : LoginResult where
  uid := 7
  uid_pos := seven_pos
  username := ""
  deviceId
  device_named := h

/-- A device of the account signs in, up to where it binds. -/
def signInOn (s : Nat) (deviceId : String) (h : deviceId ≠ "") : List ProfileAct :=
  [.join, .readName s (deviceLogin deviceId h), .readProfile s]

/-- Steps of one moment. -/
def stepsAt (unix : Int) (as : List ProfileAct) : List (Clock × ProfileAct) :=
  as.map fun a => ({ unix }, a)

/-- One device sets a message, which runs out, and another a picture. -/
def twoDevices : List (Clock × ProfileAct) :=
  stepsAt 0 (signInOn 0 "laptop" laptop_named ++ .bind 0 :: signInOn 1 "phone" phone_named) ++
  stepsAt 0 [.bind 1, .request 0 (.statusMessage "lunch" "" 60), .setAvatar 1 "v2", .change 0,
    .tellAvatar 0, .save 0] ++ stepsAt 61 [.expire 7, .clear 0]

theorem profiles_agree_twoDevices :
    (ProfileRun.run { users := fun _ => {} } twoDevices).AsSaved := by
  have h : (profileSystem.given fun st a => st.Timely a.1 a.2).Reachable
      (ProfileRun.run { users := fun _ => {} } twoDevices) :=
    .foldl_given (fun _ _ => rfl) (.init ⟨_, rfl⟩) (by decide +kernel)
  refine profiles_agree h ⟨fun s => ?_, by decide +kernel, by decide +kernel, by decide +kernel,
    by decide +kernel⟩
  match s with
  | 0 => rfl
  | 1 => rfl
  | _ + 2 => rfl

/-- A second device has read the profile when the first changes its status and leaves. -/
def staleSignIn : List (Clock × ProfileAct) :=
  stepsAt 0 (signInOn 0 "laptop" laptop_named ++ .bind 0 :: signInOn 1 "phone" phone_named) ++
  stepsAt 0 [.request 0 (.status .dnd), .change 0, .save 0, .leave 0, .bind 1]

/-- The account is shown as online, and saved as not to be disturbed. -/
theorem not_profiles_agree : ¬ ∀ st, profileSystem.Reachable st → st.Quiet → st.AsSaved := by
  intro h
  have hreachable : profileSystem.Reachable (ProfileRun.run { users := fun _ => {} } staleSignIn) :=
    .foldl (fun _ _ => rfl) _ (.init ⟨_, rfl⟩)
  have hquiet : (ProfileRun.run { users := fun _ => {} } staleSignIn).Quiet := by
    refine ⟨fun s => ?_, by decide +kernel, by decide +kernel, by decide +kernel,
      by decide +kernel⟩
    match s with
    | 0 => rfl
    | 1 => rfl
    | _ + 2 => rfl
  have hsaved := h _ hreachable hquiet 7 { username := "" } (by decide +kernel)
  exact absurd hsaved (by decide +kernel)

end Decibell.Central
