import Decibell.Central.Calls

/-!
# The sides of the calls

The registry holds connections on both sides of a call, and finds a call from the connections in it.
What keeps that in order is that a connection signs in once: whatever becomes of its place in the
account, it stays a connection of that account and device.
-/

namespace Decibell.Central

open Function Lib List

/-- The account and the device each connection has signed in with. -/
abbrev Who := Nat → Option (Int × String)

/-- The connection is in the call. -/
def Call.Has (c : Call) (s : Nat) : Prop := c.caller = some s ∨ c.callee = some s ∨ s ∈ c.ringing

/-- The connections in a call are of its accounts and devices. -/
structure Call.Sides (who : Who) (c : Call) : Prop where
  apart : c.callerUid ≠ c.calleeUid
  caller : ∀ s, c.caller = some s → who s = some (c.callerUid, c.callerDevice)
  callee : ∀ s, c.callee = some s → who s = some (c.calleeUid, c.calleeDevice)
  ringing : ∀ s ∈ c.ringing, ∃ device, who s = some (c.calleeUid, device)
  nodup : c.ringing.Nodup
  callee_of_answered : c.callee ≠ none → c.answered = true
  quiet : c.answered = true → c.ringing = []

variable {who : Who} {live : Nat → Prop} {except : Option Nat} {ix ix' ix₀ : CallIndex}
  {id id' : String} {c c' : Call} {s s' : Nat} {ss : List Nat} {o : Option Nat}

/-! ## The index -/

namespace CallIndex

@[simp] theorem indexCall_none : ix.indexCall id none = ix := rfl

theorem indexCall_some : ix.indexCall id (some s) =
    if id ∈ ix s then ix else update ix s (ix s ++ [id]) := rfl

theorem indexCall_of_ne (h : o ≠ some s) : ix.indexCall id o s = ix s := by
  cases o with
  | none => rfl
  | some s' =>
    have hne : s ≠ s' := fun heq => h (heq ▸ rfl)
    rw [indexCall_some]
    split
    · rfl
    · rw [update_of_ne hne]

@[simp] theorem unindexCall_none : ix.unindexCall id none = ix := rfl

theorem unindexCall_some :
    ix.unindexCall id (some s) = update ix s ((ix s).filter (· ≠ id)) := rfl

theorem mem_indexCall : id' ∈ ix.indexCall id o s' ↔ id' ∈ ix s' ∨ (id' = id ∧ o = some s') := by
  cases o with
  | none => simp
  | some s =>
    rw [indexCall_some]
    split
    · rename_i hmem
      constructor
      · exact .inl
      · rintro (h | ⟨rfl, h⟩)
        · exact h
        · cases h
          exact hmem
    · rw [update_apply]
      split
      · rename_i heq
        simp [heq]
      · rename_i hne
        simp [Ne.symm hne]

theorem mem_unindexCall :
    id' ∈ ix.unindexCall id o s' ↔ id' ∈ ix s' ∧ ¬ (id' = id ∧ o = some s') := by
  cases o with
  | none => simp
  | some s =>
    rw [unindexCall_some, update_apply]
    split
    · rename_i heq
      simp [heq]
    · rename_i hne
      simp [Ne.symm hne]

theorem mem_indexCalls : id' ∈ ix.indexCalls id ss s' ↔ id' ∈ ix s' ∨ (id' = id ∧ s' ∈ ss) := by
  unfold indexCalls
  induction ss generalizing ix with
  | nil => simp
  | cons s ss ih =>
    rw [foldl_cons, ih, mem_indexCall, mem_cons, Option.some.injEq]
    tauto

theorem mem_unindexCalls :
    id' ∈ ix.unindexCalls id ss s' ↔ id' ∈ ix s' ∧ ¬ (id' = id ∧ s' ∈ ss) := by
  unfold unindexCalls
  induction ss generalizing ix with
  | nil => simp
  | cons s ss ih =>
    rw [foldl_cons, ih, mem_unindexCall, mem_cons, Option.some.injEq]
    tauto

end CallIndex

open CallIndex

/-! ## One call -/

/-- A call being changed, with the index that began as `ix₀`: its sides are right and there, the
    index has it for exactly those, and the rest as before. -/
structure Good (who : Who) (live : Nat → Prop) (except : Option Nat) (ix₀ : CallIndex) (id : String)
    (c : Call) (ix : CallIndex) : Prop where
  sides : c.Sides who
  live : ∀ s, c.Has s → live s
  tracked : ∀ s, some s ≠ except → (id ∈ ix s ↔ c.Has s)
  others : ∀ id' s, id' ≠ id → (id' ∈ ix s ↔ id' ∈ ix₀ s)
  gone : ∀ s, except = some s → ix s = []

/-- What may be found for a device: a connection signed in from it. -/
def Finds (who : Who) (live : Nat → Prop) (d : SessionManager) : Prop :=
  ∀ uid device except s, d.deviceSession uid device except = some s →
    who s = some (uid, device) ∧ live s ∧ some s ≠ except

namespace Good

theorem setCaller (h : Good who live except ix₀ id c ix) (hfree : c.caller = none ∨ c.caller = o)
    (ho : ∀ s, o = some s → who s = some (c.callerUid, c.callerDevice) ∧ live s ∧ some s ≠ except) :
    Good who live except ix₀ id { c with caller := o } (ix.indexCall id o) where
  sides := { h.sides with caller := fun s hs => (ho s hs).1 }
  live s hs := by
    rcases hs with hs | hs | hs
    · exact (ho s hs).2.1
    · exact h.live s (.inr (.inl hs))
    · exact h.live s (.inr (.inr hs))
  tracked s hs := by
    rw [mem_indexCall, h.tracked s hs]
    have hcaller : c.caller = some s → o = some s := by
      rcases hfree with hfree | hfree <;> rw [hfree]
      · exact nofun
      · exact fun ho => ho
    constructor
    · rintro ((h | h) | ⟨_, h⟩)
      · exact .inl (hcaller h)
      · exact .inr h
      · exact .inl h
    · rintro (h | h)
      · exact .inr ⟨rfl, h⟩
      · exact .inl (.inr h)
  others id' s hne := by
    rw [mem_indexCall, h.others id' s hne]
    simp [hne]
  gone s hs := by
    rw [indexCall_of_ne, h.gone s hs]
    rintro rfl
    exact (ho s rfl).2.2 hs.symm

theorem setCallee (h : Good who live except ix₀ id c ix) (hfree : c.callee = none ∨ c.callee = o)
    (hanswered : c.answered = true)
    (ho : ∀ s, o = some s → who s = some (c.calleeUid, c.calleeDevice) ∧ live s ∧ some s ≠ except) :
    Good who live except ix₀ id { c with callee := o } (ix.indexCall id o) where
  sides := { h.sides with
    callee := fun s hs => (ho s hs).1
    callee_of_answered := fun _ => hanswered }
  live s hs := by
    rcases hs with hs | hs | hs
    · exact h.live s (.inl hs)
    · exact (ho s hs).2.1
    · exact h.live s (.inr (.inr hs))
  tracked s hs := by
    rw [mem_indexCall, h.tracked s hs]
    have hcallee : c.callee = some s → o = some s := by
      rcases hfree with hfree | hfree <;> rw [hfree]
      · exact nofun
      · exact fun ho => ho
    constructor
    · rintro ((h | h | h) | ⟨_, h⟩)
      · exact .inl h
      · exact .inr (.inl (hcallee h))
      · exact .inr (.inr h)
      · exact .inr (.inl h)
    · rintro (h | h | h)
      · exact .inl (.inl h)
      · exact .inr ⟨rfl, h⟩
      · exact .inl (.inr (.inr h))
  others id' s hne := by
    rw [mem_indexCall, h.others id' s hne]
    simp [hne]
  gone s hs := by
    rw [indexCall_of_ne, h.gone s hs]
    rintro rfl
    exact (ho s rfl).2.2 hs.symm

theorem congr (h : Good who live except ix₀ id c ix) (hcaller : c'.caller = c.caller)
    (hcallee : c'.callee = c.callee) (hringing : c'.ringing = c.ringing)
    (hanswered : c'.answered = c.answered) (huids : c'.callerUid = c.callerUid ∧
      c'.calleeUid = c.calleeUid)
    (hdevices : c'.callerDevice = c.callerDevice ∧ c'.calleeDevice = c.calleeDevice) :
    Good who live except ix₀ id c' ix := by
  obtain ⟨⟨hapart, hcr, hce, hri, hnd, hans, hquiet⟩, hlive, htracked, hothers, hgone⟩ := h
  have hhas : ∀ s, c'.Has s ↔ c.Has s := by
    intro s
    unfold Call.Has
    rw [hcaller, hcallee, hringing]
  refine ⟨⟨?_, ?_, ?_, ?_, ?_, ?_, ?_⟩, ?_, ?_, hothers, hgone⟩
  · rw [huids.1, huids.2]
    exact hapart
  · rw [hcaller, huids.1, hdevices.1]
    exact hcr
  · rw [hcallee, huids.2, hdevices.2]
    exact hce
  · rw [hringing, huids.2]
    exact hri
  · rw [hringing]
    exact hnd
  · rw [hcallee, hanswered]
    exact hans
  · rw [hringing, hanswered]
    exact hquiet
  · exact fun s hs => hlive s ((hhas s).1 hs)
  · exact fun s hs => (htracked s hs).trans (hhas s).symm

section Reattach

variable {d : SessionManager} {now : Clock}

theorem reattachCaller (h : Good who live except ix₀ id c ix) (hfinds : Finds who live d) :
    Good who live except ix₀ id (d.reattachCaller except id c ix).1
      (d.reattachCaller except id c ix).2 := by
  unfold SessionManager.reattachCaller
  split
  · rename_i hnone
    exact h.setCaller (.inl hnone) (hfinds _ _ _)
  · exact h

theorem reattachCallee (h : Good who live except ix₀ id c ix) (hfinds : Finds who live d) :
    Good who live except ix₀ id (d.reattachCallee except id c ix).1
      (d.reattachCallee except id c ix).2 := by
  unfold SessionManager.reattachCallee
  split
  · rename_i hnone
    exact h.setCallee (.inl hnone.2) hnone.1 (hfinds _ _ _)
  · exact h

theorem waiting (h : Good who live except ix₀ id c ix) :
    Good who live except ix₀ id (SessionManager.waiting now c) ix := by
  unfold SessionManager.waiting
  split
  · exact h.congr rfl rfl rfl rfl ⟨rfl, rfl⟩ ⟨rfl, rfl⟩
  split
  · exact h.congr rfl rfl rfl rfl ⟨rfl, rfl⟩ ⟨rfl, rfl⟩
  · exact h

theorem reattach (h : Good who live except ix₀ id c ix) (hfinds : Finds who live d) :
    Good who live except ix₀ id (d.reattach now except id c ix).1
      (d.reattach now except id c ix).2 :=
  ((h.reattachCaller hfinds).reattachCallee hfinds).waiting

theorem target {side : Call → Option Nat} (h : Good who live none ix₀ id c ix)
    (hfinds : Finds who live d) : Good who live none ix₀ id (d.target now side id c ix).2.1
      (d.target now side id c ix).2.2 := by
  unfold SessionManager.target
  dsimp only
  split
  · exact h.reattach hfinds
  · exact h

end Reattach

end Good

/-- What stays of a call: its accounts, and the devices that placed and answered it. -/
structure Call.Same (c c' : Call) : Prop where
  callerUid : c'.callerUid = c.callerUid
  calleeUid : c'.calleeUid = c.calleeUid
  callerDevice : c'.callerDevice = c.callerDevice
  answered : c.answered = true → c'.answered = true ∧ c'.calleeDevice = c.calleeDevice

/-- The rest of the call is as it was, too. -/
structure Call.Aside (c c' : Call) : Prop extends Call.Same c c' where
  ringing : c'.ringing = c.ringing
  answered_eq : c'.answered = c.answered

theorem Call.Aside.refl (c : Call) : c.Aside c := ⟨⟨rfl, rfl, rfl, fun h => ⟨h, rfl⟩⟩, rfl, rfl⟩

theorem Call.Same.refl (c : Call) : c.Same c := ⟨rfl, rfl, rfl, fun h => ⟨h, rfl⟩⟩

theorem Call.Same.trans {c'' : Call} (h : c.Same c') (h' : c'.Same c'') : c.Same c'' where
  callerUid := h'.callerUid.trans h.callerUid
  calleeUid := h'.calleeUid.trans h.calleeUid
  callerDevice := h'.callerDevice.trans h.callerDevice
  answered ha := by
    obtain ⟨ha', hdevice⟩ := h.answered ha
    obtain ⟨ha'', hdevice'⟩ := h'.answered ha'
    exact ⟨ha'', hdevice'.trans hdevice⟩

theorem Call.Aside.trans {c'' : Call} (h : c.Aside c') (h' : c'.Aside c'') : c.Aside c'' where
  toSame := h.toSame.trans h'.toSame
  ringing := h'.ringing.trans h.ringing
  answered_eq := h'.answered_eq.trans h.answered_eq

namespace SessionManager

variable {d : SessionManager} {now : Clock}

theorem aside_reattachCaller : c.Aside (d.reattachCaller except id c ix).1 := by
  unfold reattachCaller
  split
  · exact ⟨⟨rfl, rfl, rfl, fun h => ⟨h, rfl⟩⟩, rfl, rfl⟩
  · exact .refl c

theorem aside_reattachCallee : c.Aside (d.reattachCallee except id c ix).1 := by
  unfold reattachCallee
  split
  · exact ⟨⟨rfl, rfl, rfl, fun h => ⟨h, rfl⟩⟩, rfl, rfl⟩
  · exact .refl c

theorem aside_waiting (now : Clock) (c : Call) : c.Aside (waiting now c) := by
  unfold waiting
  split
  · exact ⟨⟨rfl, rfl, rfl, fun h => ⟨h, rfl⟩⟩, rfl, rfl⟩
  split
  · exact ⟨⟨rfl, rfl, rfl, fun h => ⟨h, rfl⟩⟩, rfl, rfl⟩
  · exact .refl c

theorem aside_reattach : c.Aside (d.reattach now except id c ix).1 :=
  (aside_reattachCaller.trans aside_reattachCallee).trans (aside_waiting ..)

theorem aside_target (d : SessionManager) (now : Clock) (side : Call → Option Nat) (id : String)
    (c : Call) (ix : CallIndex) : c.Aside (d.target now side id c ix).2.1 := by
  unfold target
  dsimp only
  split
  · exact aside_reattach
  · exact .refl c

theorem aside_callWithout : c.Aside (callWithout s c) := by
  unfold callWithout
  dsimp only
  split
  · split
    · exact ⟨⟨rfl, rfl, rfl, fun h => ⟨h, rfl⟩⟩, rfl, rfl⟩
    · exact ⟨⟨rfl, rfl, rfl, fun h => ⟨h, rfl⟩⟩, rfl, rfl⟩
  · split
    · exact ⟨⟨rfl, rfl, rfl, fun h => ⟨h, rfl⟩⟩, rfl, rfl⟩
    · exact .refl c

theorem waiting_caller : (waiting now c).caller = c.caller := by
  unfold waiting
  split
  · rfl
  split <;> rfl

theorem waiting_callee : (waiting now c).callee = c.callee := by
  unfold waiting
  split
  · rfl
  split <;> rfl

end SessionManager

/-! ## The registry -/

/-- The connections of each call are right and there; the index is the inverse. -/
structure Kept (who : Who) (live : Nat → Prop) (except : Option Nat) (r : CallRegistry) : Prop where
  sides : ∀ id c, r.calls id = some c → c.Sides who
  live : ∀ id c s, r.calls id = some c → c.Has s → live s
  indexed : ∀ id s, some s ≠ except → (id ∈ r.callIndex s ↔ ∃ c, r.calls id = some c ∧ c.Has s)
  gone : ∀ s, except = some s → r.callIndex s = []

namespace Kept

variable {r : CallRegistry}

theorem good (h : Kept who live except r) (hc : r.calls id = some c) :
    Good who live except r.callIndex id c r.callIndex where
  sides := h.sides id c hc
  live s hs := h.live id c s hc hs
  tracked s hs := by
    rw [h.indexed id s hs, hc]
    simp
  others _ _ _ := Iff.rfl
  gone := h.gone

theorem put (h : Kept who live except r) (hgood : Good who live except r.callIndex id c ix) :
    Kept who live except ({ r with callIndex := ix }.setCall id c) where
  sides id' c' hc' := by
    change update r.calls id (some c) id' = some c' at hc'
    rw [update_apply] at hc'
    split at hc'
    · cases hc'
      exact hgood.sides
    · exact h.sides id' c' hc'
  live id' c' s hc' hs := by
    change update r.calls id (some c) id' = some c' at hc'
    rw [update_apply] at hc'
    split at hc'
    · cases hc'
      exact hgood.live s hs
    · exact h.live id' c' s hc' hs
  indexed id' s hs := by
    change id' ∈ ix s ↔ ∃ c', update r.calls id (some c) id' = some c' ∧ c'.Has s
    by_cases heq : id' = id
    · rw [heq, update_self, hgood.tracked s hs]
      simp
    · rw [update_of_ne heq, hgood.others id' s heq]
      exact h.indexed id' s hs
  gone := hgood.gone

theorem erase (h : Kept who live except r) : Kept who live except (r.eraseCall id) := by
  unfold CallRegistry.eraseCall
  split
  · exact h
  rename_i c hc
  refine ⟨?_, ?_, ?_, ?_⟩
  · intro id' c' hc'
    dsimp only at hc'
    rw [update_apply] at hc'
    split at hc'
    · cases hc'
    · exact h.sides id' c' hc'
  · intro id' c' s hc' hs
    dsimp only at hc'
    rw [update_apply] at hc'
    split at hc'
    · cases hc'
    · exact h.live id' c' s hc' hs
  · intro id' s hs
    dsimp only
    rw [mem_unindexCalls, mem_unindexCall, mem_unindexCall, h.indexed id' s hs]
    by_cases heq : id' = id
    · subst heq
      rw [update_self, hc]
      simp only [Call.Has, Option.some.injEq, true_and]
      simp
      tauto
    · rw [update_of_ne heq]
      simp [heq]
  · intro s hs
    have hempty := h.gone s hs
    refine eq_nil_iff_forall_not_mem.2 fun id' hid' => ?_
    dsimp only at hid'
    rw [mem_unindexCalls, mem_unindexCall, mem_unindexCall, hempty] at hid'
    exact absurd hid'.1.1.1 not_mem_nil

end Kept

/-- The calls that are there were there before; they go on, or end. -/
def Evolves (r r' : CallRegistry) : Prop :=
  ∀ id c', r'.calls id = some c' → ∃ c, r.calls id = some c ∧ c.Same c'

namespace Evolves

variable {r r' r'' : CallRegistry}

theorem refl (r : CallRegistry) : Evolves r r := fun _ c hc => ⟨c, hc, .refl c⟩

theorem trans (h : Evolves r r') (h' : Evolves r' r'') : Evolves r r'' := by
  intro id c'' hc''
  obtain ⟨c', hc', hsame'⟩ := h' id c'' hc''
  obtain ⟨c, hc, hsame⟩ := h id c' hc'
  exact ⟨c, hc, hsame.trans hsame'⟩

theorem put (hc : r.calls id = some c) (hsame : c.Same c') :
    Evolves r ({ r with callIndex := ix }.setCall id c') := by
  intro id' c₁ hc₁
  change update r.calls id (some c') id' = some c₁ at hc₁
  rw [update_apply] at hc₁
  split at hc₁
  · rename_i heq
    cases hc₁
    exact ⟨c, heq ▸ hc, hsame⟩
  · exact ⟨c₁, hc₁, .refl c₁⟩

theorem erase : Evolves r (r.eraseCall id) := by
  intro id' c hc
  unfold CallRegistry.eraseCall at hc
  split at hc
  · exact ⟨c, hc, .refl c⟩
  · dsimp only at hc
    rw [update_apply] at hc
    split at hc
    · cases hc
    · exact ⟨c, hc, .refl c⟩

end Evolves

/-! ## A connection leaves -/

/-- The connection is on neither side of the call. -/
def Call.Apart (s : Nat) (c : Call) : Prop := c.caller ≠ some s ∧ c.callee ≠ some s

section Leave

variable {d : SessionManager} {now : Clock} {device : String}

theorem apart_callWithout : (SessionManager.callWithout s c).Apart s := by
  unfold SessionManager.callWithout Call.Apart
  dsimp only
  split
  · split
    · exact ⟨nofun, nofun⟩
    · rename_i hcallee
      exact ⟨nofun, hcallee⟩
  · rename_i hcaller
    split
    · exact ⟨hcaller, nofun⟩
    · rename_i hcallee
      exact ⟨hcaller, hcallee⟩

theorem Good.callWithout (h : Good who live (some s) ix₀ id c ix) :
    Good who live (some s) ix₀ id (SessionManager.callWithout s c) ix := by
  have hcaller : ∀ s', (SessionManager.callWithout s c).caller = some s' → c.caller = some s' := by
    unfold SessionManager.callWithout
    intro s'
    dsimp only
    split <;> split <;> simp_all
  have hcallee : ∀ s', (SessionManager.callWithout s c).callee = some s' → c.callee = some s' := by
    unfold SessionManager.callWithout
    intro s'
    dsimp only
    split <;> split <;> simp_all
  have hback : ∀ s', s' ≠ s → c.Has s' → (SessionManager.callWithout s c).Has s' := by
    unfold SessionManager.callWithout Call.Has
    intro s' hne
    dsimp only
    split <;> split <;> simp_all [eq_comm]
  have haside := SessionManager.aside_callWithout (s := s) (c := c)
  have hdevice : (SessionManager.callWithout s c).calleeDevice = c.calleeDevice := by
    unfold SessionManager.callWithout
    dsimp only
    split <;> split <;> rfl
  have hhas : ∀ s', (SessionManager.callWithout s c).Has s' → c.Has s' := by
    rintro s' (hs' | hs' | hs')
    · exact .inl (hcaller s' hs')
    · exact .inr (.inl (hcallee s' hs'))
    · exact .inr (.inr (haside.ringing ▸ hs'))
  refine ⟨⟨?_, ?_, ?_, ?_, ?_, ?_, ?_⟩, fun s' hs' => h.live s' (hhas s' hs'), ?_, h.others, h.gone⟩
  · rw [haside.callerUid, haside.calleeUid]
    exact h.sides.apart
  · intro s' hs'
    rw [haside.callerUid, haside.callerDevice]
    exact h.sides.caller s' (hcaller s' hs')
  · intro s' hs'
    rw [haside.calleeUid, hdevice]
    exact h.sides.callee s' (hcallee s' hs')
  · rw [haside.ringing, haside.calleeUid]
    exact h.sides.ringing
  · rw [haside.ringing]
    exact h.sides.nodup
  · intro hne
    rw [haside.answered_eq]
    obtain ⟨s', hs'⟩ := Option.ne_none_iff_exists'.1 hne
    exact h.sides.callee_of_answered (by rw [hcallee s' hs']; exact nofun)
  · rw [haside.ringing, haside.answered_eq]
    exact h.sides.quiet
  · intro s' hs'
    rw [h.tracked s' hs']
    exact ⟨hback s' fun heq => hs' (heq ▸ rfl), hhas s'⟩

theorem apart_reattach (hfinds : Finds who live d) (h : c.Apart s) :
    (d.reattach now (some s) id c ix).1.Apart s := by
  have hcaller : (d.reattachCaller (some s) id c ix).1.Apart s := by
    unfold SessionManager.reattachCaller
    split
    · exact ⟨fun heq => (hfinds _ _ _ s heq).2.2 rfl, h.2⟩
    · exact h
  have hcallee : ∀ {c ix}, Call.Apart s c → (d.reattachCallee (some s) id c ix).1.Apart s := by
    intro c ix h
    unfold SessionManager.reattachCallee
    split
    · exact ⟨h.1, fun heq => (hfinds _ _ _ s heq).2.2 rfl⟩
    · exact h
  unfold Call.Apart SessionManager.reattach
  dsimp only
  rw [SessionManager.waiting_caller, SessionManager.waiting_callee]
  exact hcallee hcaller

theorem Good.ringAgain (h : Good who live (some s) ix₀ id c ix) (hfinds : Finds who live d)
    (hringing : s ∈ c.ringing) :
    Good who live (some s) ix₀ id (d.ringAgain s device id c ix).1
      (d.ringAgain s device id c ix).2 := by
  have hunanswered : c.answered ≠ true := by
    intro hanswered
    rw [h.sides.quiet hanswered] at hringing
    exact not_mem_nil hringing
  have hgood : Good who live (some s) ix₀ id { c with ringing := removeFrom c.ringing s } ix := by
    refine ⟨{ h.sides with
        ringing := fun s' hs' => h.sides.ringing s' (mem_removeFrom.1 hs').1
        nodup := h.sides.nodup.filter _
        quiet := fun hanswered => absurd hanswered hunanswered }, ?_, ?_, h.others, h.gone⟩
    · rintro s' (hs' | hs' | hs')
      · exact h.live s' (.inl hs')
      · exact h.live s' (.inr (.inl hs'))
      · exact h.live s' (.inr (.inr (mem_removeFrom.1 hs').1))
    · intro s' hs'
      have hne : s' ≠ s := fun heq => hs' (heq ▸ rfl)
      rw [h.tracked s' hs']
      simp [Call.Has, hne]
  unfold SessionManager.ringAgain
  dsimp only
  split
  · rename_i back hback
    obtain ⟨hwho, hlive, hne⟩ := hfinds _ _ _ _ hback
    split
    · exact hgood
    · rename_i hnew
      refine ⟨{ hgood.sides with
          ringing := fun s' hs' => ?_
          nodup := nodup_append.2 ⟨hgood.sides.nodup, nodup_singleton back, ?_⟩
          quiet := fun hanswered => absurd hanswered hunanswered }, ?_, ?_, ?_, ?_⟩
      · rcases mem_append.1 hs' with hs' | hs'
        · exact hgood.sides.ringing s' hs'
        · rw [mem_singleton.1 hs']
          exact ⟨device, hwho⟩
      · rintro s' hs' _ hmem rfl
        rw [mem_singleton.1 hmem] at hs'
        exact hnew hs'
      · rintro s' (hs' | hs' | hs')
        · exact hgood.live s' (.inl hs')
        · exact hgood.live s' (.inr (.inl hs'))
        · rcases mem_append.1 hs' with hs' | hs'
          · exact hgood.live s' (.inr (.inr hs'))
          · rw [mem_singleton.1 hs']
            exact hlive
      · intro s' hs'
        rw [mem_indexCall, hgood.tracked s' hs']
        simp only [Call.Has, mem_append, mem_singleton, Option.some.injEq, true_and]
        tauto
      · intro id' s' hne'
        rw [mem_indexCall, hgood.others id' s' hne']
        simp [hne']
      · intro s' hs'
        cases hs'
        change ix.indexCall id (some back) s = []
        rw [indexCall_of_ne hne, hgood.gone s rfl]
  · exact hgood

theorem Good.leftCall (h : Good who live (some s) ix₀ id c ix) (hfinds : Finds who live d) :
    Good who live (some s) ix₀ id (d.leftCall now s device id c ix).1
      (d.leftCall now s device id c ix).2 := by
  have hgood : Good who live (some s) ix₀ id
      (d.reattach now (some s) id (SessionManager.callWithout s c) ix).1
      (d.reattach now (some s) id (SessionManager.callWithout s c) ix).2 :=
    h.callWithout.reattach hfinds
  unfold SessionManager.leftCall
  dsimp only
  split
  · rename_i hringing
    exact hgood.ringAgain hfinds hringing
  · exact hgood

theorem ringAgain_sides (d : SessionManager) (s : Nat) (device id : String) (c : Call) (ix : CallIndex) :
    (d.ringAgain s device id c ix).1.caller = c.caller ∧
      (d.ringAgain s device id c ix).1.callee = c.callee ∧
        c.Same (d.ringAgain s device id c ix).1 ∧
          (d.ringAgain s device id c ix).1.answered = c.answered := by
  unfold SessionManager.ringAgain
  dsimp only
  split
  · split
    · exact ⟨rfl, rfl, ⟨rfl, rfl, rfl, fun h => ⟨h, rfl⟩⟩, rfl⟩
    · exact ⟨rfl, rfl, ⟨rfl, rfl, rfl, fun h => ⟨h, rfl⟩⟩, rfl⟩
  · exact ⟨rfl, rfl, ⟨rfl, rfl, rfl, fun h => ⟨h, rfl⟩⟩, rfl⟩

theorem same_leftCall : c.Same (d.leftCall now s device id c ix).1 ∧
    (d.leftCall now s device id c ix).1.answered = c.answered := by
  have haside : c.Aside (d.reattach now (some s) id (SessionManager.callWithout s c) ix).1 :=
    SessionManager.aside_callWithout.trans SessionManager.aside_reattach
  unfold SessionManager.leftCall
  dsimp only
  split
  · obtain ⟨_, _, hsame, hanswered⟩ := ringAgain_sides d s device id
      (d.reattach now (some s) id (SessionManager.callWithout s c) ix).1
      (d.reattach now (some s) id (SessionManager.callWithout s c) ix).2
    exact ⟨haside.toSame.trans hsame, hanswered.trans haside.answered_eq⟩
  · exact ⟨haside.toSame, haside.answered_eq⟩

theorem not_has_leftCall (hfinds : Finds who live d) :
    ¬ (d.leftCall now s device id c ix).1.Has s := by
  have hapart : (d.reattach now (some s) id (SessionManager.callWithout s c) ix).1.Apart s :=
    apart_reattach hfinds apart_callWithout
  unfold SessionManager.leftCall
  dsimp only
  split
  · obtain ⟨hcaller, hcallee, _⟩ := ringAgain_sides d s device id
      (d.reattach now (some s) id (SessionManager.callWithout s c) ix).1
      (d.reattach now (some s) id (SessionManager.callWithout s c) ix).2
    rintro (h | h | h)
    · exact hapart.1 (hcaller.symm.trans h)
    · exact hapart.2 (hcallee.symm.trans h)
    · unfold SessionManager.ringAgain at h
      dsimp only at h
      split at h
      · rename_i back hback
        split at h
        · exact (mem_removeFrom.1 h).2 rfl
        · rcases mem_append.1 h with h | h
          · exact (mem_removeFrom.1 h).2 rfl
          · exact (hfinds _ _ _ _ hback).2.2 (by rw [mem_singleton.1 h])
      · exact (mem_removeFrom.1 h).2 rfl
  · rename_i hringing
    rintro (h | h | h)
    · exact hapart.1 h
    · exact hapart.2 h
    · exact hringing h

variable {r : CallRegistry} {out : Fanout}

/-- A call of a leaving connection is put back without it, or erased; at most a busy signal is sent,
    if it still rang. -/
theorem leaveCall_cases (d : SessionManager) (now : Clock) (s : Nat) (device : String) (out : Fanout)
    (hc : r.calls id = some c) :
    ∃ reg, reg = { r with callIndex := (d.leftCall now s device id c r.callIndex).2 }.setCall id
        (d.leftCall now s device id c r.callIndex).1 ∧
      ((d.leaveCall now s device (r, out) id).1 = reg ∨
        (d.leaveCall now s device (r, out) id).1 = reg.eraseCall id) ∧
      ((d.leaveCall now s device (r, out) id).2 = out ∨
        c.answered = false ∧ ∃ recipients sig, sig.callId = id ∧
          (d.leaveCall now s device (r, out) id).2 = out.add recipients (.callSignal sig)) := by
  refine ⟨_, rfl, ?_⟩
  unfold SessionManager.leaveCall
  dsimp only
  rw [hc]
  dsimp only
  split
  · rename_i hend
    have hanswered := hend.2.1
    rw [same_leftCall.2, Bool.not_eq_true] at hanswered
    refine ⟨.inr rfl, ?_⟩
    dsimp only
    split
    · exact .inr ⟨hanswered, _, _, rfl, rfl⟩
    · exact .inl rfl
  · split
    · exact ⟨.inr rfl, .inl rfl⟩
    · exact ⟨.inl rfl, .inl rfl⟩

theorem leaveCall_of_none (hc : r.calls id = none) :
    d.leaveCall now s device (r, out) id = (r, out) := by
  unfold SessionManager.leaveCall
  dsimp only
  rw [hc]

theorem CallRegistry.setCall_calls : (r.setCall id c).calls = update r.calls id (some c) := rfl

theorem CallRegistry.eraseCall_calls : (r.eraseCall id).calls = update r.calls id none := by
  unfold CallRegistry.eraseCall
  split
  · rename_i hnone
    rw [← hnone, update_eq_self]
  · rfl

/-- A leaving connection is only in calls still to be looked at. -/
structure Leaving (who : Who) (live : Nat → Prop) (s : Nat) (todo : List String)
    (r : CallRegistry) : Prop where
  kept : Kept who live (some s) r
  left : ∀ id c, r.calls id = some c → c.Has s → id ∈ todo

theorem Leaving.leaveCall {todo : List String} (h : Leaving who live s (id :: todo) r)
    (hfinds : Finds who live d) :
    Leaving who live s todo (d.leaveCall now s device (r, out) id).1 := by
  cases hc : r.calls id with
  | none =>
    rw [leaveCall_of_none hc]
    refine ⟨h.kept, fun id' c hc' hs => ?_⟩
    rcases mem_cons.1 (h.left id' c hc' hs) with rfl | hmem
    · cases hc.symm.trans hc'
    · exact hmem
  | some c =>
    obtain ⟨reg, hreg, hcases, _⟩ := leaveCall_cases d now s device out hc
    have hkept : Kept who live (some s) reg :=
      hreg ▸ h.kept.put ((h.kept.good hc).leftCall hfinds)
    have hothers : ∀ id' c', id' ≠ id → reg.calls id' = some c' → c'.Has s → id' ∈ todo := by
      intro id' c' hne hc' hs
      rw [hreg, CallRegistry.setCall_calls, update_of_ne hne] at hc'
      exact (mem_cons.1 (h.left id' c' hc' hs)).resolve_left hne
    rcases hcases with heq | heq
    · rw [heq]
      refine ⟨hkept, fun id' c' hc' hs => ?_⟩
      by_cases hid : id' = id
      · rw [hid, hreg, CallRegistry.setCall_calls, update_self] at hc'
        cases hc'
        exact absurd hs (not_has_leftCall hfinds)
      · exact hothers id' c' hid hc' hs
    · rw [heq]
      refine ⟨hkept.erase, fun id' c' hc' hs => ?_⟩
      rw [CallRegistry.eraseCall_calls] at hc'
      by_cases hid : id' = id
      · rw [hid, update_self] at hc'
        cases hc'
      · rw [update_of_ne hid] at hc'
        exact hothers id' c' hid hc' hs

theorem evolves_leaveCall : Evolves r (d.leaveCall now s device (r, out) id).1 := by
  cases hc : r.calls id with
  | none =>
    rw [leaveCall_of_none hc]
    exact .refl r
  | some c =>
    obtain ⟨reg, hreg, hcases, _⟩ := leaveCall_cases d now s device out hc
    have hput : Evolves r reg := hreg ▸ .put hc same_leftCall.1
    rcases hcases with heq | heq <;> rw [heq]
    · exact hput
    · exact hput.trans .erase

/-- A connection that leaves sends only about calls that still rang. -/
def OnlyRinging (r : CallRegistry) (out : Fanout) : Prop :=
  ∀ s sig, (s, Packet.callSignal sig) ∈ out.run → ∀ c, r.calls sig.callId = some c →
    c.answered = false

theorem OnlyRinging.leaveCall {r₀ : CallRegistry} (hout : OnlyRinging r₀ out)
    (hevolves : Evolves r₀ r) : OnlyRinging r₀ (d.leaveCall now s device (r, out) id).2 := by
  cases hc : r.calls id with
  | none =>
    rw [leaveCall_of_none hc]
    exact hout
  | some c =>
    obtain ⟨_, _, _, hsent⟩ := leaveCall_cases d now s device out hc
    rcases hsent with heq | ⟨hunanswered, recipients, busy, hid, heq⟩
    · rw [heq]
      exact hout
    · rw [heq]
      intro s' sig hmem c₀ hc₀
      rw [Fanout.run_add, mem_append] at hmem
      rcases hmem with hmem | hmem
      · exact hout s' sig hmem c₀ hc₀
      · obtain ⟨_, _, hsig⟩ := mem_map.1 hmem
        cases hsig
        obtain ⟨c₁, hc₁, hsame⟩ := hevolves id c hc
        rw [hid, hc₁] at hc₀
        cases hc₀
        -- Had it been answered before, it would be now.
        by_contra hanswered
        rw [(hsame.answered (Bool.not_eq_false _ ▸ hanswered)).1] at hunanswered
        cases hunanswered

theorem leaveCalls (now : Clock) (device : String) (hfinds : Finds who live d) (ids : List String)
    (r : CallRegistry) (out : Fanout) (h : Leaving who live s ids r) :
    Leaving who live s [] (ids.foldl (d.leaveCall now s device) (r, out)).1 ∧
      Evolves r (ids.foldl (d.leaveCall now s device) (r, out)).1 ∧
        ∀ r₀, Evolves r₀ r → OnlyRinging r₀ out →
          OnlyRinging r₀ (ids.foldl (d.leaveCall now s device) (r, out)).2 := by
  induction ids generalizing r out with
  | nil => exact ⟨h, .refl r, fun _ _ hout => hout⟩
  | cons id ids ih =>
    have hstep : d.leaveCall now s device (r, out) id =
      ((d.leaveCall now s device (r, out) id).1, (d.leaveCall now s device (r, out) id).2) := rfl
    rw [foldl_cons, hstep]
    have hevolves : Evolves r (d.leaveCall now s device (r, out) id).1 := evolves_leaveCall
    obtain ⟨hleft, hlater, hsent⟩ := ih (d.leaveCall now s device (r, out) id).1
      (d.leaveCall now s device (r, out) id).2 (h.leaveCall hfinds)
    exact ⟨hleft, hevolves.trans hlater,
      fun r₀ hr₀ hout => hsent r₀ (hr₀.trans hevolves) (hout.leaveCall hr₀)⟩

theorem kept_callLeave (now : Clock) (s : Nat) (device : String)
    (h : Kept who live none d.toCallRegistry) (hfinds : Finds who live d) :
    Kept who (fun s' => s' ≠ s ∧ live s') none (d.callLeave now s device).1.toCallRegistry ∧
      Evolves d.toCallRegistry (d.callLeave now s device).1.toCallRegistry ∧
        OnlyRinging d.toCallRegistry (d.callLeave now s device).2 := by
  have hstart : Leaving who live s (d.callIndex s)
      { calls := d.calls, callIndex := update d.callIndex s [] } := by
    refine ⟨⟨h.sides, h.live, ?_, ?_⟩, fun id c hc hs => (h.indexed id s nofun).2 ⟨c, hc, hs⟩⟩
    · intro id s' hs'
      have hne : s' ≠ s := fun heq => hs' (heq ▸ rfl)
      change id ∈ update d.callIndex s [] s' ↔ _
      rw [update_of_ne hne]
      exact h.indexed id s' nofun
    · intro s' hs'
      cases hs'
      exact update_self ..
  obtain ⟨⟨hkept, hleft⟩, hevolves, hsent⟩ := leaveCalls now device hfinds (d.callIndex s) _ []
    hstart
  refine ⟨⟨hkept.sides, ?_, ?_, nofun⟩, hevolves, ?_⟩
  · intro id c s' hc hs'
    refine ⟨?_, hkept.live id c s' hc hs'⟩
    rintro rfl
    exact not_mem_nil (hleft id c hc hs')
  · intro id s' _
    by_cases heq : s' = s
    · subst heq
      have hgone := hkept.gone s' rfl
      constructor
      · intro hid
        have hid' : id ∈ ((d.callIndex s').foldl (d.leaveCall now s' device)
          ({ calls := d.calls, callIndex := update d.callIndex s' [] }, [])).1.callIndex s' := hid
        rw [hgone] at hid'
        exact absurd hid' not_mem_nil
      · rintro ⟨c, hc, hs'⟩
        exact absurd (hleft id c hc hs') not_mem_nil
    · exact hkept.indexed id s' fun heq' => heq (Option.some.inj heq')
  · exact hsent d.toCallRegistry (fun id c hc => ⟨c, hc, .refl c⟩) (fun _ _ hmem => nomatch hmem)

end Leave

end Decibell.Central
