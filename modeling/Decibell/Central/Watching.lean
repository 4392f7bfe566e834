import Decibell.Central.CallSafety
import Decibell.Lib.Deliveries

/-!
# What a watcher is told

A connection that watches an account is told its status, its message, its name and its picture by
the packets about it. `Told` is what the last of them said, `Shows` whether that is how the account
is.
-/

namespace Decibell.Central

open Function Lib List SessionManager

/-! ## What packets say -/

/-- What a connection was last told of an account. -/
structure Told where
  /-- The status and the message; `none` for offline. -/
  status : Option (PresenceStatus × String × String) := none
  username : String := ""
  avatarVersion : String := ""
deriving DecidableEq

/-- The accounts that a packet is about. -/
def Packet.about : Packet → List Int
  | .presenceDelta _ user => [user.uid]
  | .presenceUpdate update => update.coveredUids
  | .userRenamed uid _ => [uid]
  | .avatarChanged uid _ _ => [uid]
  | _ => []

namespace Told

variable (uid : Int) (t : Told)

def shown (user : UserPresence) : Told where
  status := some (user.status, user.statusText, user.statusEmoji)
  username := user.username
  avatarVersion := user.avatarVersion

/-- An answer says how its accounts are; an offline one has the picture given, or none. -/
def update (u : PresenceUpdate) : Told :=
  if uid ∈ u.coveredUids then
    match u.users.find? (·.uid = uid) with
    | some user => shown user
    | none =>
      { t with
        status := none
        avatarVersion := match u.avatars.find? (·.uid = uid) with
          | some a => a.version
          | none => "" }
  else t

/-- An offline account's delta has no picture; a picture may come without a name. -/
def tell : Packet → Told
  | .presenceDelta true user => if user.uid = uid then shown user else t
  | .presenceDelta false user =>
    if user.uid = uid then { t with status := none, username := user.username } else t
  | .presenceUpdate u => update uid t u
  | .userRenamed uid' username => if uid' = uid then { t with username } else t
  | .avatarChanged uid' username avatarVersion =>
    if uid' = uid then
      { t with username := if username = "" then t.username else username, avatarVersion }
    else t
  | _ => t

end Told

/-- The packets of the central server, as they tell of accounts. -/
def telling : Telling Packet Int Told where
  about p uid := uid ∈ p.about
  tell uid t p := t.tell uid p
  skip p uid t h := by
    cases p with
    | presenceDelta online user =>
      have hne : user.uid ≠ uid := fun heq => h (List.mem_singleton.2 heq.symm)
      cases online <;> exact if_neg hne
    | presenceUpdate u => exact if_neg h
    | userRenamed uid' username => exact if_neg fun heq => h (List.mem_singleton.2 heq.symm)
    | avatarChanged uid' username version =>
      exact if_neg fun heq => h (List.mem_singleton.2 heq.symm)
    | _ => rfl

variable {uid : Int} {t : Told} {p p' : Presence} {V V' : Option Presence}

/-- Packets leave a part of what is told as it is, or set it. -/
def KeepsOrSets {γ : Type} (part : Told → γ) (f : Told → Told) : Prop :=
  (∀ t, part (f t) = part t) ∨ ∃ c, ∀ t, part (f t) = c

theorem KeepsOrSets.comp {γ : Type} {part : Told → γ} {f g : Told → Told}
    (hg : KeepsOrSets part g) (hf : KeepsOrSets part f) : KeepsOrSets part (g ∘ f) := by
  rcases hg with hg | ⟨c, hg⟩
  · rcases hf with hf | ⟨c, hf⟩
    · exact .inl fun t => (hg _).trans (hf t)
    · exact .inr ⟨c, fun t => (hg _).trans (hf t)⟩
  · exact .inr ⟨c, fun t => hg _⟩

theorem KeepsOrSets.of_same_part {γ : Type} {part : Told → γ} {f : Told → Told} {t t' : Told}
    (hf : KeepsOrSets part f) (h : part t = part t') : part (f t) = part (f t') := by
  rcases hf with hf | ⟨c, hf⟩
  · rw [hf, hf, h]
  · rw [hf, hf]

theorem KeepsOrSets.of_comp {γ : Type} {part : Told → γ} {f g : Told → Told} {t : Told} {c : γ}
    (hg : KeepsOrSets part g) (hright : part (g (f t)) = c) (ht : part t = c) : part (g t) = c := by
  rcases hg with hg | ⟨c', hg⟩
  · rw [hg, ht]
  · rw [hg, ← hright, hg]

theorem keepsOrSets_tell (uid : Int) (q : Packet) : KeepsOrSets Told.status (Told.tell uid · q) ∧
    KeepsOrSets Told.username (Told.tell uid · q) ∧
      KeepsOrSets Told.avatarVersion (Told.tell uid · q) := by
  cases q with
  | presenceDelta online user =>
    cases online
    · simp only [Told.tell]
      split
      · exact ⟨.inr ⟨_, fun _ => rfl⟩, .inr ⟨_, fun _ => rfl⟩, .inl fun _ => rfl⟩
      · exact ⟨.inl fun _ => rfl, .inl fun _ => rfl, .inl fun _ => rfl⟩
    · simp only [Told.tell]
      split
      · exact ⟨.inr ⟨_, fun _ => rfl⟩, .inr ⟨_, fun _ => rfl⟩, .inr ⟨_, fun _ => rfl⟩⟩
      · exact ⟨.inl fun _ => rfl, .inl fun _ => rfl, .inl fun _ => rfl⟩
  | presenceUpdate u =>
    simp only [Told.tell, Told.update]
    split
    · split
      · exact ⟨.inr ⟨_, fun _ => rfl⟩, .inr ⟨_, fun _ => rfl⟩, .inr ⟨_, fun _ => rfl⟩⟩
      · exact ⟨.inr ⟨_, fun _ => rfl⟩, .inl fun _ => rfl, .inr ⟨_, fun _ => rfl⟩⟩
    · exact ⟨.inl fun _ => rfl, .inl fun _ => rfl, .inl fun _ => rfl⟩
  | userRenamed uid' username =>
    simp only [Told.tell]
    split
    · exact ⟨.inl fun _ => rfl, .inr ⟨_, fun _ => rfl⟩, .inl fun _ => rfl⟩
    · exact ⟨.inl fun _ => rfl, .inl fun _ => rfl, .inl fun _ => rfl⟩
  | avatarChanged uid' username version =>
    simp only [Told.tell]
    split
    · refine ⟨.inl fun _ => rfl, ?_, .inr ⟨_, fun _ => rfl⟩⟩
      by_cases hname : username = ""
      · exact .inl fun t => if_pos hname
      · exact .inr ⟨username, fun t => if_neg hname⟩
    · exact ⟨.inl fun _ => rfl, .inl fun _ => rfl, .inl fun _ => rfl⟩
  | _ => exact ⟨.inl fun _ => rfl, .inl fun _ => rfl, .inl fun _ => rfl⟩

theorem keepsOrSets_tells (uid : Int) (qs : List Packet) :
    KeepsOrSets Told.status (fun t => telling.tells uid t qs) ∧
      KeepsOrSets Told.username (fun t => telling.tells uid t qs) ∧
        KeepsOrSets Told.avatarVersion (fun t => telling.tells uid t qs) := by
  induction qs with
  | nil => exact ⟨.inl fun _ => rfl, .inl fun _ => rfl, .inl fun _ => rfl⟩
  | cons q qs ih =>
    obtain ⟨hstatus, hname, hpicture⟩ := keepsOrSets_tell uid q
    exact ⟨ih.1.comp hstatus, ih.2.1.comp hname, ih.2.2.comp hpicture⟩

theorem tell_tell (q : Packet) : (t.tell uid q).tell uid q = t.tell uid q := by
  cases q with
  | presenceDelta online user =>
    cases online <;> by_cases heq : user.uid = uid <;> simp [Told.tell, heq]
  | presenceUpdate u =>
    simp only [Told.tell, Told.update]
    split
    · split <;> rfl
    · rfl
  | userRenamed uid' username => by_cases heq : uid' = uid <;> simp [Told.tell, heq]
  | avatarChanged uid' username version =>
    by_cases heq : uid' = uid <;> by_cases hname : username = "" <;> simp [Told.tell, heq, hname]
  | _ => rfl

/-- What was told is how the account is; offline, it has no name. -/
def Shows (V : Option Presence) (t : Told) : Prop :=
  match V.filter (·.visible) with
  | some p => t.status = some (p.effective, p.statusText, p.statusEmoji) ∧ t.username = p.username
  | none => t.status = none

/-- A packet, or none, takes what was told before a change to what is so after it, also where the
    packets before do so already. Its picture is the account's, or a new one. -/
structure Says (uid : Int) (V V' : Option Presence) (fresh : String → Prop) (m : Option Packet) :
    Prop where
  shows : ∀ t, Shows V t → Shows V' (m.elim t (t.tell uid))
  again : ∀ f, KeepsOrSets Told.status f → (∀ t, Shows V t → Shows V (f t)) →
    ∀ t, Shows V' t → Shows V' (m.elim (f t) ((f t).tell uid))
  picture : ∀ t : Told, (m.elim t (t.tell uid)).avatarVersion = t.avatarVersion ∨
    (∃ p ∈ V', (m.elim t (t.tell uid)).avatarVersion = p.avatarVersion) ∨
      fresh (m.elim t (t.tell uid)).avatarVersion

section Says

variable {fresh : String → Prop} {m : Option Packet}

theorem Says.of_back (hshows : ∀ t, Shows V t → Shows V' (m.elim t (t.tell uid)))
    (hback : ∀ t, Shows V' t → Shows V t)
    (hpicture : ∀ t : Told, (m.elim t (t.tell uid)).avatarVersion = t.avatarVersion ∨
      (∃ p ∈ V', (m.elim t (t.tell uid)).avatarVersion = p.avatarVersion) ∨
        fresh (m.elim t (t.tell uid)).avatarVersion) : Says uid V V' fresh m :=
  ⟨hshows, fun f _ hf t ht => hshows (f t) (hf t (hback t ht)), hpicture⟩

theorem Says.of_set (hset : ∀ t, Shows V' (m.elim t (t.tell uid)))
    (hpicture : ∀ t : Told, (m.elim t (t.tell uid)).avatarVersion = t.avatarVersion ∨
      (∃ p ∈ V', (m.elim t (t.tell uid)).avatarVersion = p.avatarVersion) ∨
        fresh (m.elim t (t.tell uid)).avatarVersion) : Says uid V V' fresh m :=
  ⟨fun t _ => hset t, fun f _ _ t _ => hset (f t), hpicture⟩

theorem says_nothing : Says uid V V fresh none :=
  .of_back (fun _ h => h) (fun _ h => h) fun _ => .inl rfl

theorem shows_visible (hp : p.visible) : Shows (some p) t ↔
    t.status = some (p.effective, p.statusText, p.statusEmoji) ∧ t.username = p.username := by
  simp [Shows, Option.filter, hp]

theorem shows_invisible (hp : p.visible = false) : Shows (some p) t ↔ t.status = none := by
  simp [Shows, Option.filter, hp]

theorem tell_delta {username : String} (hp : p.visible) :
    t.tell uid (presenceDelta uid username (some p)) = Told.shown (fillPresence uid p) := by
  simp [presenceDelta, hp, Told.tell, fillPresence]

theorem tell_offline {username : String} {o : Option Presence} (ho : ∀ p ∈ o, p.visible = false) :
    t.tell uid (presenceDelta uid username o) = { t with status := none, username } := by
  cases o with
  | none => simp [presenceDelta, Told.tell]
  | some p => simp [presenceDelta, ho p rfl, Told.tell]

theorem shows_of_same (hname : p'.username = p.username) (hsame : ¬ presenceViewDiffers p' p) :
    Shows (some p') t ↔ Shows (some p) t := by
  have hsame : p'.visible = p.visible ∧ (p'.visible = true → p'.effective = p.effective ∧
      p'.statusText = p.statusText ∧ p'.statusEmoji = p.statusEmoji) := by
    simpa [presenceViewDiffers] using hsame
  by_cases hp' : p'.visible
  · obtain ⟨heffective, htext, hemoji⟩ := hsame.2 hp'
    rw [shows_visible hp', shows_visible (hsame.1 ▸ hp'), heffective, htext, hemoji, hname]
  · have hp' : p'.visible = false := by simpa using hp'
    rw [shows_invisible hp', shows_invisible (hsame.1 ▸ hp')]

theorem says_changed (hname : p'.username = p.username) :
    Says uid (some p) (some p') fresh
      (if presenceViewDiffers p' p then some (presenceDelta uid p'.username (some p')) else none) := by
  split
  · by_cases hp' : p'.visible
    · refine .of_set (fun t => ?_) fun t => .inr (.inl ⟨p', rfl, ?_⟩)
      · rw [Option.elim_some, tell_delta hp', shows_visible hp']
        exact ⟨rfl, rfl⟩
      · rw [Option.elim_some, tell_delta hp']
        rfl
    · have hp' : p'.visible = false := by simpa using hp'
      have hnone : ∀ q ∈ some p', q.visible = false := by simpa using hp'
      refine .of_set (fun t => ?_) fun t => .inl ?_
      · rw [Option.elim_some, tell_offline hnone, shows_invisible hp']
      · rw [Option.elim_some, tell_offline hnone]
  · next hsame =>
    exact .of_back (fun t ht => (shows_of_same hname hsame).2 ht)
      (fun t ht => (shows_of_same hname hsame).1 ht) fun _ => .inl rfl

theorem says_gone : Says uid (some p) none fresh
    (if p.visible then some (presenceDelta uid p.username none) else none) := by
  split
  · have hnone : ∀ q ∈ (none : Option Presence), q.visible = false := fun _ hq => by cases hq
    refine .of_set (fun t => ?_) fun t => .inl ?_
    · rw [Option.elim_some, tell_offline hnone]
      rfl
    · rw [Option.elim_some, tell_offline hnone]
  · next hp =>
    have hp : p.visible = false := by simpa using hp
    exact .of_back (fun t ht => (shows_invisible hp).1 ht) (fun t ht => (shows_invisible hp).2 ht)
      fun _ => .inl rfl

theorem says_fresh : Says uid none (some p) fresh
    (if p.visible then some (presenceDelta uid p.username (some p)) else none) := by
  split
  · next hp =>
    refine .of_set (fun t => ?_) fun t => .inr (.inl ⟨p, rfl, ?_⟩)
    · rw [Option.elim_some, tell_delta hp, shows_visible hp]
      exact ⟨rfl, rfl⟩
    · rw [Option.elim_some, tell_delta hp]
      rfl
  · next hp =>
    have hp : p.visible = false := by simpa using hp
    exact .of_back (fun t ht => (shows_invisible hp).2 ht) (fun t ht => (shows_invisible hp).1 ht)
      fun _ => .inl rfl

theorem says_renamed {username : String} :
    Says uid V (V.map fun p => { p with username }) fresh (some (.userRenamed uid username)) := by
  have htell (t : Told) : t.tell uid (.userRenamed uid username) = { t with username } := if_pos rfl
  refine ⟨fun t ht => ?_, fun f hstatus hf t ht => ?_, fun t => .inl ?_⟩
  · rw [Option.elim_some, htell]
    cases V with
    | none => exact ht
    | some p =>
      by_cases hp : p.visible
      · exact (shows_visible (p := { p with username }) hp).2 ⟨((shows_visible hp).1 ht).1, rfl⟩
      · have hp : p.visible = false := by simpa using hp
        have hgone : t.status = none := (shows_invisible hp).1 ht
        exact (shows_invisible (p := { p with username }) hp).2 hgone
  · rw [Option.elim_some, htell]
    cases V with
    | none => exact hf t ht
    | some p =>
      by_cases hp : p.visible
      · -- Under its old name the account is shown; the status does not depend on the name.
        obtain ⟨hbefore, -⟩ := (shows_visible (p := { p with username }) hp).1 ht
        have hshown := (shows_visible hp).1 (hf { t with username := p.username }
          ((shows_visible hp).2 ⟨hbefore, rfl⟩))
        refine (shows_visible (p := { p with username }) hp).2 ⟨?_, rfl⟩
        have hsame : (f t).status = (f { t with username := p.username }).status :=
          hstatus.of_same_part rfl
        exact hsame.trans hshown.1
      · have hp : p.visible = false := by simpa using hp
        have hgone : t.status = none := (shows_invisible (p := { p with username }) hp).1 ht
        have hgone : (f t).status = none := (shows_invisible hp).1 (hf t ((shows_invisible hp).2 hgone))
        exact (shows_invisible (p := { p with username }) hp).2 hgone
  · rw [Option.elim_some, htell]

theorem says_newPicture (uid : Int) (V : Option Presence) (avatarVersion : String) :
    Says uid V (V.map fun p => { p with avatarVersion }) (· = avatarVersion)
      (some (.avatarChanged uid ((V.map (·.username)).getD "") avatarVersion)) := by
  refine .of_back (fun t ht => ?_) (fun t ht => ?_) fun t => .inr (.inr ?_)
  · rw [Option.elim_some]
    cases V with
    | none => simpa [Shows, Told.tell] using ht
    | some p =>
      by_cases hp : p.visible
      · have ht := (shows_visible hp).1 ht
        refine (shows_visible (p := { p with avatarVersion }) hp).2 ?_
        by_cases hname : p.username = "" <;> simp [Told.tell, ht.1, ht.2, hname] <;> rfl
      · have hp : p.visible = false := by simpa using hp
        have ht := (shows_invisible hp).1 ht
        exact (shows_invisible (p := { p with avatarVersion }) hp).2 (by simp [Told.tell, ht])
  · cases V with
    | none => exact ht
    | some p =>
      by_cases hp : p.visible
      · exact (shows_visible hp).2 ((shows_visible (p := { p with avatarVersion }) hp).1 ht)
      · have hp : p.visible = false := by simpa using hp
        exact (shows_invisible hp).2 ((shows_invisible (p := { p with avatarVersion }) hp).1 ht)
  · rw [Option.elim_some]
    simp [Told.tell]

end Says

/-! ## Critical sections -/

/-- The presence of an account that is signed in. -/
def SessionManager.presenceOf (d : SessionManager) (uid : Int) : Option Presence :=
  (d.accounts uid).map (·.presence)

/-- A packet, or none, is for these connections; nothing else is said of an account. -/
structure Carries (ss : List Nat) (m : Option Packet) (out : Fanout) : Prop where
  heard : ∀ q ∈ m, ∀ s ∈ ss, (s, q) ∈ out.run
  only : ∀ s q, (s, q) ∈ out.run → q.about = [] ∨ m = some q

/-- Every watcher is sent what takes how an account was to how it is, and nothing else about it;
    nobody begins to watch. -/
structure Announces (d d' : SessionManager) (out : Fanout) (fresh : Int → String → Prop) :
    Prop where
  watchers : ∀ uid s, s ∈ d'.watchers uid → s ∈ d.watchers uid
  told : ∀ uid, ∃ m, Says uid (d.presenceOf uid) (d'.presenceOf uid) (fresh uid) m ∧
    (∀ q ∈ m, ∀ s ∈ d'.watchers uid, (s, q) ∈ out.run) ∧
      ∀ s q, (s, q) ∈ out.run → uid ∈ q.about → m = some q
  pictures : ∀ uid, ∀ p' ∈ d'.presenceOf uid, (∃ p ∈ d.presenceOf uid,
    p'.avatarVersion = p.avatarVersion) ∨ fresh uid p'.avatarVersion

section Sections

variable {d d' : SessionManager} {now : Clock} {out : Fanout} {fresh : Int → String → Prop}
  {m : Option Packet} {ss : List Nat} {s : Nat}

theorem presenceOf_setAccount {uid : Int} {o : Option Account} :
    (d.setAccount uid o).presenceOf uid = o.map (·.presence) := by
  rw [presenceOf, setAccount]
  dsimp only
  rw [update_self]

theorem mem_fanout_add {recipients : List Nat} {q q' : Packet} :
    (s, q) ∈ (out.add recipients q').run ↔ (s, q) ∈ out.run ∨ s ∈ recipients ∧ q = q' := by
  rw [Fanout.run_add, mem_append, mem_map]
  constructor
  · rintro (h | ⟨s', hs', heq⟩)
    · exact .inl h
    · cases heq
      exact .inr ⟨hs', rfl⟩
  · rintro (h | ⟨hs, rfl⟩)
    · exact .inl h
    · exact .inr ⟨s, hs, rfl⟩

theorem carries_none (h : ∀ s q, (s, q) ∈ out.run → q.about = []) : Carries ss none out :=
  ⟨fun _ hq => (by cases hq), fun s q hmem => .inl (h s q hmem)⟩

theorem carries_nil : Carries ss none [] := carries_none fun _ _ hmem => (by cases hmem)

theorem Carries.tell {q : Packet} (h : Carries ss none out) : Carries ss (some q) (out.add ss q) where
  heard q' hq' s hs := by
    cases hq'
    exact mem_fanout_add.2 (.inr ⟨hs, rfl⟩)
  only s q' hmem := by
    rcases mem_fanout_add.1 hmem with hmem | ⟨_, rfl⟩
    · exact .inl ((h.only s q' hmem).resolve_right nofun)
    · exact .inr rfl

theorem Carries.tellIf {q : Packet} {b : Bool} (h : Carries ss none out) :
    Carries ss (if b then some q else none) (if b then out.add ss q else out) := by
  cases b
  · exact h
  · exact h.tell

theorem Carries.add {recipients : List Nat} {q : Packet} (h : Carries ss m out) (hq : q.about = []) :
    Carries ss m (out.add recipients q) where
  heard q' hq' s hs := mem_fanout_add.2 (.inl (h.heard q' hq' s hs))
  only s q' hmem := by
    rcases mem_fanout_add.1 hmem with hmem | ⟨_, rfl⟩
    · exact h.only s q' hmem
    · exact .inl hq

theorem carries_presenceChanged {uid : Int} {a : Account} {before : Presence} {except : Option Nat}
    (h : Carries (d.watchers uid) none out) :
    Carries (d.watchers uid) (if presenceViewDiffers a.presence before then
        some (presenceDelta uid a.presence.username (some a.presence)) else none)
      (d.presenceChanged now uid a before except out) := by
  have hdelta := h.tellIf (q := presenceDelta uid a.presence.username (some a.presence))
    (b := presenceViewDiffers a.presence before)
  unfold SessionManager.presenceChanged
  by_cases hown : ownViewDiffers a.presence before
  · rw [if_pos hown]
    exact hdelta.add rfl
  · rw [if_neg hown]
    exact hdelta

theorem about_presenceDelta {uid : Int} {username : String} {o : Option Presence} :
    (presenceDelta uid username o).about = [uid] := by
  unfold presenceDelta
  split
  · split <;> rfl
  · rfl

theorem announces_nothing (haccounts : d'.accounts = d.accounts)
    (hwatchers : ∀ uid s, s ∈ d'.watchers uid → s ∈ d.watchers uid)
    (hout : Carries [] none out) : Announces d d' out fresh where
  watchers := hwatchers
  told uid := by
    unfold presenceOf
    rw [haccounts]
    refine ⟨none, says_nothing, fun _ hq => (by cases hq), fun s q hmem habout => ?_⟩
    rw [(hout.only s q hmem).resolve_right nofun] at habout
    cases habout
  pictures uid p' hp' := by
    unfold presenceOf at hp' ⊢
    rw [haccounts] at hp'
    exact .inl ⟨p', hp', rfl⟩

theorem announces_one (uid : Int) (haccounts : ∀ x, x ≠ uid → d'.accounts x = d.accounts x)
    (hwatchers : ∀ x s, s ∈ d'.watchers x → s ∈ d.watchers x)
    (habout : ∀ q ∈ m, q.about = [uid]) (hout : Carries (d'.watchers uid) m out)
    (hsaid : Says uid (d.presenceOf uid) (d'.presenceOf uid) (fresh uid) m)
    (hpicture : ∀ p' ∈ d'.presenceOf uid, (∃ p ∈ d.presenceOf uid,
      p'.avatarVersion = p.avatarVersion) ∨ fresh uid p'.avatarVersion) :
    Announces d d' out fresh where
  watchers := hwatchers
  told x := by
    by_cases hx : x = uid
    · subst hx
      refine ⟨m, hsaid, hout.heard, fun s q hmem hq => ?_⟩
      refine (hout.only s q hmem).resolve_left fun hnil => ?_
      rw [hnil] at hq
      cases hq
    · unfold presenceOf
      rw [haccounts x hx]
      refine ⟨none, says_nothing, fun _ hq => (by cases hq), fun s q hmem hq => ?_⟩
      rcases hout.only s q hmem with hnil | hm
      · rw [hnil] at hq
        cases hq
      · rw [habout q hm] at hq
        exact absurd (mem_singleton.1 hq) hx
  pictures x p' hp' := by
    by_cases hx : x = uid
    · subst hx
      exact hpicture p' hp'
    · unfold presenceOf at hp' ⊢
      rw [haccounts x hx] at hp'
      exact .inl ⟨p', hp', rfl⟩

theorem announces_changed {uid : Int} {a a' : Account} (ha : d.accounts uid = some a)
    (haccounts : d'.accounts = update d.accounts uid (some a'))
    (hwatchers : ∀ x s, s ∈ d'.watchers x → s ∈ d.watchers x)
    (hname : a'.presence.username = a.presence.username)
    (hpicture : a'.presence.avatarVersion = a.presence.avatarVersion)
    (hout : Carries (d'.watchers uid) (if presenceViewDiffers a'.presence a.presence then
        some (presenceDelta uid a'.presence.username (some a'.presence)) else none) out) :
    Announces d d' out fresh := by
  have hbefore : d.presenceOf uid = some a.presence := by
    rw [presenceOf, ha, Option.map_some]
  have hafter : d'.presenceOf uid = some a'.presence := by
    rw [presenceOf, haccounts, update_self, Option.map_some]
  refine announces_one uid ?_ hwatchers ?_ hout ?_ ?_
  · exact fun x hx => by rw [haccounts, update_of_ne hx]
  · intro q hq
    split at hq
    · cases hq
      exact about_presenceDelta
    · cases hq
  · rw [hbefore, hafter]
    exact says_changed hname
  · rw [hbefore, hafter]
    rintro p' ⟨⟩
    exact .inl ⟨_, rfl, hpicture⟩

/-! ## What each operation announces -/

theorem announces_join : Announces d (d.join s) [] fresh := by
  unfold SessionManager.join
  split <;> exact announces_nothing rfl (fun _ _ h => h) carries_nil

theorem carries_leaveCall {device : String} (ids : List String) (r : CallRegistry × Fanout)
    (h : Carries ss none r.2) :
    Carries ss none (ids.foldl (d.leaveCall now s device) r).2 := by
  induction ids generalizing r with
  | nil => exact h
  | cons id ids ih =>
    refine ih _ ?_
    unfold leaveCall
    split
    · exact h
    dsimp only
    split
    · split
      · exact h.add rfl
      · exact h
    · split <;> exact h

theorem carries_callLeave {device : String} : Carries ss none (d.callLeave now s device).2 :=
  carries_leaveCall _ _ carries_nil

theorem announces_signOut {conn : Connection} :
    Announces d (d.signOut now s conn).1 (d.signOut now s conn).2 fresh := by
  have hwatchers : ∀ x s', s' ∈ (d.unwatchAll s conn).watchers x → s' ∈ d.watchers x := by
    intro x s' hs'
    change s' ∈ (if x ∈ conn.watching then removeFrom (d.watchers x) s else d.watchers x) at hs'
    split at hs'
    · exact (mem_removeFrom.1 hs').1
    · exact hs'
  have hleft : ∀ ss, Carries ss none ((d.unwatchAll s conn).callLeave now s conn.deviceId).2 :=
    fun _ => carries_callLeave
  unfold SessionManager.signOut
  dsimp only
  split
  · exact announces_nothing rfl hwatchers (hleft _)
  split
  · exact announces_nothing rfl hwatchers (hleft _)
  next a ha =>
  have ha : d.accounts conn.uid = some a := ha
  split
  · exact announces_nothing rfl hwatchers (hleft _)
  split
  · -- The account goes.
    have hbefore : d.presenceOf conn.uid = some a.presence := by
      rw [presenceOf, ha, Option.map_some]
    refine announces_one conn.uid (m := if a.presence.visible then
      some (presenceDelta conn.uid a.presence.username none) else none) ?_
        hwatchers ?_ (hleft _).tellIf ?_ ?_
    · exact fun x hx => update_of_ne hx _ _
    · intro q hq
      split at hq
      · cases hq
        rfl
      · cases hq
    · change Says _ _ (presenceOf (setAccount _ _ _) _) _ _
      rw [hbefore, presenceOf_setAccount]
      exact says_gone
    · intro p' hp'
      change p' ∈ presenceOf (setAccount _ _ _) _ at hp'
      rw [presenceOf_setAccount] at hp'
      cases hp'
  · exact announces_changed ha rfl hwatchers rfl rfl (carries_presenceChanged (hleft _))

theorem Announces.forget (h : Announces d d' out fresh) : Announces d (d'.forget s) out fresh :=
  ⟨h.watchers, h.told, h.pictures⟩

theorem announces_leave : Announces d (d.leave now s).1 (d.leave now s).2 fresh := by
  unfold SessionManager.leave
  split
  · exact announces_nothing rfl (fun _ _ h => h) carries_nil
  · exact announces_signOut.forget

theorem Announces.cons {recipients : List Nat} {q : Packet} (h : Announces d d' out fresh)
    (hq : q.about = []) : Announces d d' ((recipients, q) :: out) fresh where
  watchers := h.watchers
  pictures := h.pictures
  told uid := by
    obtain ⟨m, hsaid, hheard, honly⟩ := h.told uid
    refine ⟨m, hsaid, fun q' hq' s hs => mem_append_right _ (hheard q' hq' s hs), ?_⟩
    intro s q' hmem habout
    rcases mem_append.1 hmem with hmem | hmem
    · obtain ⟨_, _, heq⟩ := mem_map.1 hmem
      cases heq
      rw [hq] at habout
      cases habout
    · exact honly s q' hmem habout

theorem announces_retire {reason : CloseReason} :
    Announces d (d.retire now s reason).1 (d.retire now s reason).2 fresh := by
  unfold SessionManager.retire
  split
  · exact announces_nothing rfl (fun _ _ h => h) carries_nil
  · exact announces_signOut.forget.cons rfl

theorem announces_updatePresence {uid : Int} {change : Presence → Presence}
    (hname : ∀ p, (change p).username = p.username)
    (hpicture : ∀ p, (change p).avatarVersion = p.avatarVersion) :
    Announces d (d.updatePresence now uid change).1 (d.updatePresence now uid change).2 fresh := by
  unfold updatePresence
  split
  · exact announces_nothing rfl (fun _ _ h => h) carries_nil
  · next a ha =>
    exact announces_changed ha rfl (fun _ _ h => h) (hname _) (hpicture _)
      (carries_presenceChanged carries_nil)

theorem announces_expireStatusMessage {uid : Int} :
    Announces d (d.expireStatusMessage now uid).1 (d.expireStatusMessage now uid).2 fresh := by
  unfold expireStatusMessage
  split
  · exact announces_nothing rfl (fun _ _ h => h) carries_nil
  split
  · exact announces_nothing rfl (fun _ _ h => h) carries_nil
  · exact announces_updatePresence (fun _ => rfl) fun _ => rfl

theorem announces_setIdle {idle : Bool} :
    Announces d (d.setIdle now s idle).1 (d.setIdle now s idle).2 fresh := by
  unfold SessionManager.setIdle
  split
  · exact announces_nothing rfl (fun _ _ h => h) carries_nil
  split
  · exact announces_nothing rfl (fun _ _ h => h) carries_nil
  dsimp only
  split
  · exact announces_nothing rfl (fun _ _ h => h) carries_nil
  · next a ha =>
    exact announces_changed (d := d) ha rfl (fun _ _ h => h) rfl rfl
      (carries_presenceChanged carries_nil)

/-- Watchers, and the account's own connections, hear of a new name or picture. -/
theorem carries_withOwn {own : List Nat} {sender : Nat} {q : Packet} :
    Carries ss (some q) (Fanout.add [] (SessionManager.withOwn ss own sender) q) where
  heard q' hq' s hs := by
    cases hq'
    exact mem_fanout_add.2 (.inr ⟨mem_append_left _ hs, rfl⟩)
  only s q' hmem := by
    rcases mem_fanout_add.1 hmem with hmem | ⟨_, rfl⟩
    · cases hmem
    · exact .inr rfl

theorem announces_push {uid : Int} {o : Option Account} {q : Packet}
    (haccounts : d'.accounts = update d.accounts uid o) (hwatchers : d'.watchers = d.watchers)
    (habout : q.about = [uid]) (hout : Carries (d.watchers uid) (some q) out)
    (hsaid : Says uid (d.presenceOf uid) (o.map (·.presence)) (fresh uid) (some q))
    (hpicture : ∀ a' ∈ o, (∃ p ∈ d.presenceOf uid,
      a'.presence.avatarVersion = p.avatarVersion) ∨ fresh uid a'.presence.avatarVersion) :
    Announces d d' out fresh := by
  have hafter : d'.presenceOf uid = o.map (·.presence) := by
    rw [presenceOf, haccounts, update_self]
  refine announces_one uid (m := some q) (fun x hx => by rw [haccounts, update_of_ne hx]) ?_ ?_ ?_ ?_ ?_
  · rw [hwatchers]
    exact fun _ _ h => h
  · rintro _ ⟨⟩
    exact habout
  · rw [hwatchers]
    exact hout
  · rw [hafter]
    exact hsaid
  · rw [hafter]
    intro p' hp'
    obtain ⟨a', ha', rfl⟩ := Option.map_eq_some_iff.1 hp'
    exact hpicture a' ha'

theorem announces_pushUserRenamed {uid : Int} {username : String} {sender : Nat} :
    Announces d (d.pushUserRenamed uid username sender).1
      (d.pushUserRenamed uid username sender).2 fresh := by
  unfold pushUserRenamed
  dsimp only
  split
  · next ha =>
    have hbefore : d.presenceOf uid = none := by rw [presenceOf, ha, Option.map_none]
    refine announces_push (o := none) (by rw [← ha, update_eq_self]) rfl rfl
      (Carries.tell carries_nil) ?_ (fun _ ha' => (by cases ha'))
    rw [hbefore]
    exact says_renamed (V := none)
  · next a ha =>
    have hbefore : d.presenceOf uid = some a.presence := by
      rw [presenceOf, ha, Option.map_some]
    refine announces_push rfl rfl rfl carries_withOwn ?_ ?_
    · rw [hbefore]
      exact says_renamed (V := some a.presence)
    · rintro _ ⟨⟩
      exact .inl ⟨_, hbefore, rfl⟩

theorem announces_pushAvatarChanged {uid : Int} {version : String} {sender : Nat} :
    Announces d (d.pushAvatarChanged uid version sender).1
      (d.pushAvatarChanged uid version sender).2 fun x v => x = uid ∧ v = version := by
  unfold pushAvatarChanged
  dsimp only
  split
  · next ha =>
    have hbefore : d.presenceOf uid = none := by rw [presenceOf, ha, Option.map_none]
    refine announces_push (o := none) (by rw [← ha, update_eq_self]) rfl rfl
      (Carries.tell carries_nil) ?_ (fun _ ha' => (by cases ha'))
    rw [hbefore]
    have hsaid := says_newPicture uid none version
    simpa using hsaid
  · next a ha =>
    have hbefore : d.presenceOf uid = some a.presence := by
      rw [presenceOf, ha, Option.map_some]
    refine announces_push rfl rfl rfl carries_withOwn ?_ ?_
    · rw [hbefore]
      have hsaid := says_newPicture uid (some a.presence) version
      simpa using hsaid
    · rintro _ ⟨⟩
      exact .inr ⟨rfl, rfl⟩

/-! ### Signing in -/

section Bind

variable {uid : Int} {device : String} {presence : Presence} {reply : Packet}
  {rebuild : Presence → Packet}

theorem announces_bindFresh (ha : d.accounts uid = none) :
    Announces d (d.bindFresh s uid device presence reply []).manager
      (d.bindFresh s uid device presence reply []).out
        fun x v => x = uid ∧ v = presence.avatarVersion := by
  have hbefore : d.presenceOf uid = none := by rw [presenceOf, ha, Option.map_none]
  refine announces_one uid (m := if presence.visible then
    some (presenceDelta uid presence.username (some { presence with idle := false })) else none)
      ?_ (fun _ _ h => h) ?_ ?_ ?_ ?_
  · exact fun x hx => update_of_ne hx _ _
  · intro q hq
    split at hq
    · cases hq
      exact about_presenceDelta
    · cases hq
  · exact Carries.tellIf (b := presence.visible) carries_nil
  · rw [hbefore]
    change Says _ _ (presenceOf (setAccount _ _ _) _) _ _
    rw [presenceOf_setAccount]
    exact says_fresh
  · intro p' hp'
    change p' ∈ presenceOf (setAccount _ _ _) _ at hp'
    rw [presenceOf_setAccount] at hp'
    cases hp'
    exact .inr ⟨rfl, rfl⟩

theorem announces_bindBeside {a a₀ : Account} {replaced : Option Nat}
    (ha : d.accounts uid = some a₀) (hpresence : a.presence = a₀.presence) :
    Announces d (d.bindBeside now s uid device presence a reply rebuild replaced []).manager
      (d.bindBeside now s uid device presence a reply rebuild replaced []).out fresh := by
  refine announces_changed ha rfl (fun _ _ h => h) (by rw [← hpresence]; rfl)
    (by rw [← hpresence]; rfl) ?_
  rw [← hpresence]
  exact carries_presenceChanged carries_nil

theorem accounts_strip {old : Nat} : (d.strip old).accounts = d.accounts := by
  unfold SessionManager.strip
  split <;> rfl

theorem watchers_strip {old : Nat} (x : Int) (s' : Nat) (h : s' ∈ (d.strip old).watchers x) :
    s' ∈ d.watchers x := by
  unfold SessionManager.strip at h
  split at h
  · exact h
  next conn _ =>
  change s' ∈ (if x ∈ conn.watching then removeFrom (d.watchers x) old else d.watchers x) at h
  split at h
  · exact (mem_removeFrom.1 h).1
  · exact h

theorem Announces.of_strip {old : Nat} (h : Announces (d.strip old) d' out fresh) :
    Announces d d' out fresh where
  watchers x s hs := watchers_strip x s (h.watchers x s hs)
  told uid := by
    have htold := h.told uid
    unfold presenceOf at htold ⊢
    rwa [accounts_strip] at htold
  pictures uid := by
    have hpictures := h.pictures uid
    unfold presenceOf at hpictures ⊢
    rwa [accounts_strip] at hpictures

/-- A connection signs in; the first of an account brings the picture. -/
theorem announces_bind (hout : ∀ c, d.sessions s = some c → ¬ 0 < c.uid) :
    Announces d (d.bind now s uid device presence reply rebuild).manager
      (d.bind now s uid device presence reply rebuild).out
        fun x v => x = uid ∧ d.accounts uid = none ∧ v = presence.avatarVersion := by
  unfold SessionManager.bind
  split
  · exact announces_nothing rfl (fun _ _ h => h) carries_nil
  rename_i conn hs
  rw [if_neg (hout conn hs)]
  dsimp only
  split
  · next ha =>
    have hfresh : Announces d (d.bindFresh s uid device presence reply []).manager
        (d.bindFresh s uid device presence reply []).out fun x v =>
          x = uid ∧ v = presence.avatarVersion := announces_bindFresh ha
    simpa [ha] using hfresh
  next a ha =>
  split
  · next old hold =>
    have ha' : (d.strip old).accounts uid = some a := by rwa [accounts_strip]
    exact (announces_bindBeside (a := { a with sessions := removeFrom a.sessions old }) ha'
      rfl).of_strip
  split
  · exact announces_nothing rfl (fun _ _ h => h) carries_nil
  · exact announces_bindBeside ha rfl

end Bind

/-! ## What a watcher will have been told -/

theorem Announces.tells (h : Announces d d' out fresh) {uid : Int} (hs : s ∈ d'.watchers uid) :
    ∃ m, Says uid (d.presenceOf uid) (d'.presenceOf uid) (fresh uid) m ∧
      ∀ t, telling.tells uid t (packetsTo s out.run) = m.elim t (t.tell uid) := by
  obtain ⟨m, hsaid, hheard, honly⟩ := h.told uid
  refine ⟨m, hsaid, fun t => ?_⟩
  cases m with
  | none =>
    refine Telling.tells_of_skip fun q hq habout => ?_
    exact nomatch honly s q (mem_packetsTo.1 hq) habout
  | some q =>
    have hsame : ∀ q' ∈ packetsTo s out.run, telling.about q' uid → q' = q := by
      intro q' hq' habout
      exact (Option.some.inj (honly s q' (mem_packetsTo.1 hq') habout)).symm
    exact Telling.tells_of_same (fun t => tell_tell q) hsame
      (mem_packetsTo.2 (hheard q rfl s hs))

end Sections

end Decibell.Central
