import Decibell.Central.CallSides

/-!
# What a call signal does

For each kind of signal, what `routeCall` makes of the registry and whom it tells. `Routed`: the
registry stays in order; once the call is answered only its two devices are told; and a signal that
ends the ringing tells every other ringing connection, once.
-/

namespace Decibell.Central

open Function Lib CallIndex List SessionManager

variable {who : Who} {live : Nat → Prop} {r : CallRegistry} {c c' : Call} {ix ix₀ : CallIndex}
  {id : String} {s s' : Nat} {ss : List Nat} {d : SessionManager} {now : Clock} {device : String}
  {sig : CallSignal}

/-- What a connection is sent. -/
def sentTo (s : Nat) (out : List (Nat × Packet)) : List Packet :=
  out.filterMap fun send => if send.1 = s then some send.2 else none

theorem sentTo_map (p : Packet) : sentTo s (ss.map fun s => (s, p)) = List.replicate (ss.count s) p := by
  induction ss with
  | nil => rfl
  | cons s' ss ih =>
    unfold sentTo at ih ⊢
    rw [map_cons, filterMap_cons, ih, count_cons]
    by_cases heq : s' = s
    · simp [heq, replicate_succ]
    · simp [heq]

theorem sentTo_append (out out' : List (Nat × Packet)) :
    sentTo s (out ++ out') = sentTo s out ++ sentTo s out' := filterMap_append

theorem sentTo_map_of_not_mem {p : Packet} (h : s ∉ ss) : sentTo s (ss.map fun s => (s, p)) = [] := by
  rw [sentTo_map, count_eq_zero_of_not_mem h, replicate_zero]

theorem sentTo_map_of_mem {p : Packet} (hnodup : ss.Nodup) (h : s ∈ ss) :
    sentTo s (ss.map fun s => (s, p)) = [p] := by
  rw [sentTo_map, count_eq_one_of_mem hnodup h]
  rfl

/-- What a signal of `s` makes of a call, and whom it tells. -/
structure Routed (who : Who) (live : Nat → Prop) (r : CallRegistry) (c : Call) (s : Nat)
    (sig : CallSignal) (r' : CallRegistry) (out : Fanout) : Prop where
  kept : Kept who live none r'
  evolves : Evolves r r'
  about : ∀ s' p, (s', p) ∈ out.run → ∃ sent, p = .callSignal sent ∧ sent.callId = sig.callId
  addressed : c.answered = true → ∀ s' p, (s', p) ∈ out.run →
    who s' = some (c.callerUid, c.callerDevice) ∨ who s' = some (c.calleeUid, c.calleeDevice) ∨
      s' = s ∧ sig.kind = .accept ∧ ∃ sent, p = .callSignal sent ∧ sent.kind = .answeredElsewhere
  told : c.answered = false → (∀ c', r'.calls sig.callId = some c' → c'.answered = true) →
    ∀ s' ∈ c.ringing, s' ≠ s → ∃ p, sentTo s' out.run = [p]

theorem Routed.silent {r' : CallRegistry} (hc : r'.calls sig.callId = some c')
    (hkept : Kept who live none r') (hevolves : Evolves r r') (hanswered : c'.answered = c.answered) :
    Routed who live r c s sig r' [] where
  kept := hkept
  evolves := hevolves
  about _ _ hmem := nomatch hmem
  addressed _ _ _ hmem := nomatch hmem
  told hunanswered hend := by
    rw [hend c' hc] at hanswered
    rw [← hanswered] at hunanswered
    cases hunanswered

theorem Routed.unchanged (hkept : Kept who live none r) (hc : r.calls sig.callId = some c) :
    Routed who live r c s sig r [] :=
  .silent hc hkept (.refl r) rfl

theorem Routed.pass {r' : CallRegistry} {recipients : List Nat} (hkept : Kept who live none r')
    (hevolves : Evolves r r')
    (haddressed : c.answered = true → ∀ s' ∈ recipients,
      who s' = some (c.callerUid, c.callerDevice) ∨ who s' = some (c.calleeUid, c.calleeDevice))
    (htold : c.answered = false → (∀ c', r'.calls sig.callId = some c' → c'.answered = true) →
      ∀ s' ∈ c.ringing, s' ≠ s → ∃ p, sentTo s' (recipients.map fun s => (s, Packet.callSignal sig)) = [p]) :
    Routed who live r c s sig r' (Fanout.add [] recipients (.callSignal sig)) where
  kept := hkept
  evolves := hevolves
  about s' p hmem := by
    rw [Fanout.run_add, Fanout.run_nil, nil_append] at hmem
    obtain ⟨_, _, heq⟩ := mem_map.1 hmem
    cases heq
    exact ⟨sig, rfl, rfl⟩
  addressed hanswered s' p hmem := by
    rw [Fanout.run_add, Fanout.run_nil, nil_append] at hmem
    obtain ⟨_, hs', heq⟩ := mem_map.1 hmem
    cases heq
    rcases haddressed hanswered s' hs' with hwho | hwho
    · exact .inl hwho
    · exact .inr (.inl hwho)
  told := by
    rw [Fanout.run_add, Fanout.run_nil, nil_append]
    exact htold

theorem not_answered_putCall {P : Prop} (hunanswered : c'.answered = false)
    (hend : ∀ c₁, (d.putCall id c' ix).calls id = some c₁ → c₁.answered = true) : P := by
  have hanswered := hend c' (update_self ..)
  rw [hunanswered] at hanswered
  cases hanswered

/-! ## The other side -/

section Target

variable {side : Call → Option Nat}

theorem target_recipients : (d.target now side id c ix).1 =
    (side (d.target now side id c ix).2.1).toList := by
  rfl

theorem who_of_mem_targetCaller (hgood : Good who live none ix₀ id c ix) (hfinds : Finds who live d)
    (hs : s ∈ (d.target now (·.caller) id c ix).1) : who s = some (c.callerUid, c.callerDevice) := by
  rw [target_recipients, Option.mem_toList] at hs
  have haside := aside_target d now (·.caller) id c ix
  have htarget : Good who live none ix₀ id (d.target now (·.caller) id c ix).2.1
      (d.target now (·.caller) id c ix).2.2 := hgood.target hfinds
  have hwho := htarget.sides.caller s hs
  rwa [haside.callerUid, haside.callerDevice] at hwho

theorem who_of_mem_targetCallee (hgood : Good who live none ix₀ id c ix) (hfinds : Finds who live d)
    (hanswered : c.answered = true) (hs : s ∈ (d.target now (·.callee) id c ix).1) :
    who s = some (c.calleeUid, c.calleeDevice) := by
  rw [target_recipients, Option.mem_toList] at hs
  have haside := aside_target d now (·.callee) id c ix
  have htarget : Good who live none ix₀ id (d.target now (·.callee) id c ix).2.1
      (d.target now (·.callee) id c ix).2.2 := hgood.target hfinds
  have hwho := htarget.sides.callee s hs
  rwa [haside.calleeUid, (haside.answered hanswered).2] at hwho

theorem targetCaller_cases (now : Clock) (hgood : Good who live none ix₀ id c ix)
    (hfinds : Finds who live d) :
    ∃ recipients c' ix', d.target now (·.caller) id c ix = (recipients, c', ix') ∧
      Good who live none ix₀ id c' ix' ∧ c.Aside c' ∧
        ∀ s ∈ recipients, who s = some (c.callerUid, c.callerDevice) :=
  ⟨_, _, _, rfl, hgood.target hfinds, aside_target .., fun _ hs =>
    who_of_mem_targetCaller hgood hfinds hs⟩

theorem not_mem_of_ringing (hgood : Good who live none ix₀ id c ix) (hs : s ∈ c.ringing)
    (hss : ∀ s ∈ ss, who s = some (c.callerUid, c.callerDevice)) : s ∉ ss := by
  intro hmem
  obtain ⟨device, hwho⟩ := hgood.sides.ringing s hs
  rw [hss s hmem, Option.some.injEq, Prod.mk.injEq] at hwho
  exact hgood.sides.apart hwho.1

end Target

/-! ## Signals of the caller's account -/

theorem good_fromCaller (hkept : Kept who live none d.toCallRegistry) (hc : d.calls id = some c)
    (hlive : live s) (hwho : who s = some (c.callerUid, device))
    (hside : ¬ (c.caller ≠ some s ∧ (c.caller ≠ none ∨ device = "" ∨ device ≠ c.callerDevice))) :
    Good who live none d.callIndex id { c with caller := some s }
      (if c.caller = some s then d.callIndex else d.callIndex.indexCall id (some s)) := by
  have hgood := hkept.good hc
  by_cases hcaller : c.caller = some s
  · rw [if_pos hcaller, ← hcaller]
    exact hgood
  · have hnone : c.caller = none := by
      by_contra hne
      exact hside ⟨hcaller, .inl hne⟩
    have hdevice : device = c.callerDevice := by
      by_contra hne
      exact hside ⟨hcaller, .inr (.inr hne)⟩
    rw [if_neg hcaller]
    refine hgood.setCaller (.inl hnone) ?_
    rintro s' hs'
    cases hs'
    exact ⟨hdevice ▸ hwho, hlive, nofun⟩

theorem routed_fromCaller (hkept : Kept who live none d.toCallRegistry)
    (hfinds : Finds who live d) (hc : d.calls sig.callId = some c) (hlive : live s)
    (hwho : who s = some (c.callerUid, device)) :
    Routed who live d.toCallRegistry c s sig (d.fromCaller now s device sig c).2.1
      (d.fromCaller now s device sig c).2.2 := by
  unfold SessionManager.fromCaller
  dsimp only
  split
  · exact .unchanged hkept hc
  rename_i hside
  have hgood := good_fromCaller hkept hc hlive hwho hside
  generalize (if c.caller = some s then d.callIndex else d.callIndex.indexCall sig.callId (some s)) = ix
    at hgood ⊢
  have hsame : c.Same { c with caller := some s } := ⟨rfl, rfl, rfl, fun h => ⟨h, rfl⟩⟩
  have hput : Routed who live d.toCallRegistry c s sig
      (d.putCall sig.callId { c with caller := some s } ix) [] :=
    .silent (update_self ..) (hkept.put hgood) (.put hc hsame) rfl
  -- The call ends: its other side hears so, or everybody it rings.
  have hendAnswered : c.answered = true → Routed who live d.toCallRegistry c s sig
      ((d.putCall sig.callId (d.target now (·.callee) sig.callId { c with caller := some s } ix).2.1
        (d.target now (·.callee) sig.callId { c with caller := some s } ix).2.2).eraseCall sig.callId)
      (Fanout.add [] (d.target now (·.callee) sig.callId { c with caller := some s } ix).1
        (.callSignal sig)) := by
    intro hanswered
    refine .pass (hkept.put (hgood.target hfinds)).erase
      ((Evolves.put hc (hsame.trans (aside_target ..).toSame)).trans .erase)
      (fun _ s' hs' => ?_) ?_
    · have hwho' := who_of_mem_targetCallee hgood hfinds hanswered hs'
      exact .inr hwho'
    · intro hunanswered
      rw [hanswered] at hunanswered
      cases hunanswered
  have hendRinging : c.answered ≠ true → Routed who live d.toCallRegistry c s sig
      ((d.putCall sig.callId { c with caller := some s } ix).eraseCall sig.callId)
      (Fanout.add [] c.ringing (.callSignal sig)) := by
    intro hunanswered
    refine .pass (hkept.put hgood).erase ((Evolves.put hc hsame).trans .erase)
      (fun hanswered => absurd hanswered hunanswered) ?_
    intro _ _ s' hs' _
    exact ⟨_, sentTo_map_of_mem hgood.sides.nodup hs'⟩
  have hstream : c.answered = true → Routed who live d.toCallRegistry c s sig
      (d.putCall sig.callId (d.target now (·.callee) sig.callId { c with caller := some s } ix).2.1
        (d.target now (·.callee) sig.callId { c with caller := some s } ix).2.2)
      (Fanout.add [] (d.target now (·.callee) sig.callId { c with caller := some s } ix).1
        (.callSignal sig)) := by
    intro hanswered
    refine .pass (hkept.put (hgood.target hfinds))
      (Evolves.put hc (hsame.trans (aside_target ..).toSame))
      (fun _ s' hs' => ?_) ?_
    · have hwho' := who_of_mem_targetCallee hgood hfinds hanswered hs'
      exact .inr hwho'
    · intro hunanswered
      rw [hanswered] at hunanswered
      cases hunanswered
  by_cases hanswered : c.answered = true
  · simp only [if_pos hanswered]
    split
    · exact hendAnswered hanswered
    · exact hendAnswered hanswered
    · exact hstream hanswered
    · exact hstream hanswered
    · exact hput
  · simp only [if_neg hanswered]
    split
    · exact hendRinging hanswered
    · exact hendRinging hanswered
    · exact hput
    · exact hput
    · exact hput

/-! ## Signals of the callee's account -/

theorem good_fromCallee (hkept : Kept who live none d.toCallRegistry) (hc : d.calls id = some c)
    (hanswered : c.answered = true) (hlive : live s) (hwho : who s = some (c.calleeUid, device))
    (hside : ¬ (c.callee ≠ some s ∧ (c.callee ≠ none ∨ device = "" ∨ device ≠ c.calleeDevice))) :
    Good who live none d.callIndex id { c with callee := some s }
      (if c.callee = some s then d.callIndex else d.callIndex.indexCall id (some s)) := by
  have hgood := hkept.good hc
  by_cases hcallee : c.callee = some s
  · rw [if_pos hcallee, ← hcallee]
    exact hgood
  · have hnone : c.callee = none := by
      by_contra hne
      exact hside ⟨hcallee, .inl hne⟩
    have hdevice : device = c.calleeDevice := by
      by_contra hne
      exact hside ⟨hcallee, .inr (.inr hne)⟩
    rw [if_neg hcallee]
    refine hgood.setCallee (.inl hnone) hanswered ?_
    rintro s' hs'
    cases hs'
    exact ⟨hdevice ▸ hwho, hlive, nofun⟩

theorem routed_fromCallee (hkept : Kept who live none d.toCallRegistry)
    (hfinds : Finds who live d) (hc : d.calls sig.callId = some c) (hanswered : c.answered = true)
    (hlive : live s) (hwho : who s = some (c.calleeUid, device)) :
    Routed who live d.toCallRegistry c s sig (d.fromCallee now s device sig c).2.1
      (d.fromCallee now s device sig c).2.2 := by
  have hvacuous : ∀ {P : Prop}, c.answered = false → P := by
    intro P hunanswered
    rw [hanswered] at hunanswered
    cases hunanswered
  unfold SessionManager.fromCallee
  dsimp only
  split
  · split
    · -- Its answer came too late.
      rename_i hkind
      refine ⟨hkept, .refl _, ?_, ?_, fun hunanswered => hvacuous hunanswered⟩
      · intro s' p hmem
        rw [Fanout.run_add, Fanout.run_nil, nil_append, map_singleton,
          mem_singleton] at hmem
        cases hmem
        exact ⟨_, rfl, rfl⟩
      · intro _ s' p hmem
        rw [Fanout.run_add, Fanout.run_nil, nil_append, map_singleton,
          mem_singleton] at hmem
        cases hmem
        exact .inr (.inr ⟨rfl, hkind, _, rfl, rfl⟩)
    · exact .unchanged hkept hc
  rename_i hside
  have hgood := good_fromCallee hkept hc hanswered hlive hwho hside
  generalize (if c.callee = some s then d.callIndex else d.callIndex.indexCall sig.callId (some s)) = ix
    at hgood ⊢
  have hsame : c.Same { c with callee := some s } := ⟨rfl, rfl, rfl, fun h => ⟨h, rfl⟩⟩
  have hput : Routed who live d.toCallRegistry c s sig
      (d.putCall sig.callId { c with callee := some s } ix) [] :=
    .silent (update_self ..) (hkept.put hgood) (.put hc hsame) rfl
  have htarget : ∀ s' ∈ (d.target now (·.caller) sig.callId { c with callee := some s } ix).1,
      who s' = some (c.callerUid, c.callerDevice) := by
    intro s' hs'
    have hwho' := who_of_mem_targetCaller hgood hfinds hs'
    exact hwho'
  have hevolves : Evolves d.toCallRegistry
      (d.putCall sig.callId (d.target now (·.caller) sig.callId { c with callee := some s } ix).2.1
        (d.target now (·.caller) sig.callId { c with callee := some s } ix).2.2) :=
    .put hc (hsame.trans (aside_target ..).toSame)
  have hend : Routed who live d.toCallRegistry c s sig
      ((d.putCall sig.callId (d.target now (·.caller) sig.callId { c with callee := some s } ix).2.1
        (d.target now (·.caller) sig.callId { c with callee := some s } ix).2.2).eraseCall sig.callId)
      (Fanout.add [] (d.target now (·.caller) sig.callId { c with callee := some s } ix).1
        (.callSignal sig)) :=
    .pass (hkept.put (hgood.target hfinds)).erase (hevolves.trans .erase)
      (fun _ s' hs' => .inl (htarget s' hs')) fun hunanswered => hvacuous hunanswered
  have hstream : Routed who live d.toCallRegistry c s sig
      (d.putCall sig.callId (d.target now (·.caller) sig.callId { c with callee := some s } ix).2.1
        (d.target now (·.caller) sig.callId { c with callee := some s } ix).2.2)
      (Fanout.add [] (d.target now (·.caller) sig.callId { c with callee := some s } ix).1
        (.callSignal sig)) :=
    .pass (hkept.put (hgood.target hfinds)) hevolves
      (fun _ s' hs' => .inl (htarget s' hs')) fun hunanswered => hvacuous hunanswered
  split
  · exact hend
  · exact hend
  · exact hstream
  · exact hstream
  · exact hput

/-! ## Signals while it rings -/

theorem Good.apart_of_ringing (h : Good who live none ix₀ id c ix) (hs : s ∈ c.ringing) :
    c.caller ≠ some s ∧ c.callee = none := by
  constructor
  · intro hcaller
    obtain ⟨device, hwho⟩ := h.sides.ringing s hs
    rw [h.sides.caller s hcaller, Option.some.injEq, Prod.mk.injEq] at hwho
    exact h.sides.apart hwho.1
  · by_contra hcallee
    rw [h.sides.quiet (h.sides.callee_of_answered hcallee)] at hs
    exact not_mem_nil hs

theorem Good.stopRinging (h : Good who live none ix₀ id c ix) (hs : s ∈ c.ringing) :
    Good who live none ix₀ id { c with busy := true, ringing := removeFrom c.ringing s }
      (ix.unindexCall id (some s)) := by
  obtain ⟨hcaller, hcallee⟩ := h.apart_of_ringing hs
  refine ⟨{ h.sides with
      ringing := fun s' hs' => h.sides.ringing s' (mem_removeFrom.1 hs').1
      nodup := h.sides.nodup.filter _
      quiet := fun hanswered => by rw [h.sides.quiet hanswered]; rfl }, ?_, ?_, ?_, nofun⟩
  · rintro s' (hs' | hs' | hs')
    · exact h.live s' (.inl hs')
    · exact h.live s' (.inr (.inl hs'))
    · exact h.live s' (.inr (.inr (mem_removeFrom.1 hs').1))
  · intro s' hs'
    rw [mem_unindexCall, h.tracked s' hs']
    unfold Call.Has
    rw [mem_removeFrom]
    by_cases heq : s' = s
    · subst heq
      simp [hcaller, hcallee]
    · simp [heq, Ne.symm heq]
  · intro id' s' hne
    rw [mem_unindexCall, h.others id' s' hne]
    simp [hne]

theorem Good.answer (h : Good who live none ix₀ id c ix) (hs : s ∈ c.ringing)
    (hwho : who s = some (c.calleeUid, device)) :
    Good who live none ix₀ id
      { c with answered := true, callee := some s, calleeDevice := device, ringing := [] }
      (ix.unindexCalls id (c.ringing.filter (· ≠ s))) := by
  obtain ⟨hcaller, hcallee⟩ := h.apart_of_ringing hs
  refine ⟨⟨h.sides.apart, h.sides.caller, ?_, nofun, nodup_nil, fun _ => rfl, fun _ => rfl⟩,
    ?_, ?_, ?_, nofun⟩
  · rintro s' hs'
    cases hs'
    exact hwho
  · rintro s' (hs' | hs' | hs')
    · exact h.live s' (.inl hs')
    · cases hs'
      exact h.live s (.inr (.inr hs))
    · cases hs'
  · intro s' hs'
    rw [mem_unindexCalls, h.tracked s' hs']
    unfold Call.Has
    rw [hcallee]
    by_cases heq : s' = s
    · subst heq
      simp [hs]
    · have hring : c.caller = some s' → s' ∉ c.ringing := fun hcaller' hmem =>
        (h.apart_of_ringing hmem).1 hcaller'
      simp [heq, Ne.symm heq]
      tauto
  · intro id' s' hne
    rw [mem_unindexCalls, h.others id' s' hne]
    simp [hne]

/-- The call as it is answered: the caller's side comes back if it can. -/
theorem reattach_answer :
    d.reattach now none id { c with answered := true, callee := some s, calleeDevice := device } ix =
      (SessionManager.waiting now { (d.reattachCaller none id c ix).1 with
        answered := true, callee := some s, calleeDevice := device },
        (d.reattachCaller none id c ix).2) := by
  unfold SessionManager.reattach reattachCallee reattachCaller
  dsimp only
  split
  · simp
  · simp

theorem waiting_ringing : { SessionManager.waiting now c with ringing := ss } =
    SessionManager.waiting now { c with ringing := ss } := by
  unfold SessionManager.waiting
  dsimp only
  split
  · rfl
  split <;> rfl

theorem elsewhere_about (now : Clock) (kind : CallKind) (id : String) (c : Call) :
    ∃ sent, SessionManager.elsewhere now kind id c = .callSignal sent ∧ sent.callId = id :=
  ⟨_, rfl, rfl⟩

theorem run_add_add (recipients others : List Nat) (p notice : Packet) :
    ((Fanout.add [] recipients p).add others notice).run =
      recipients.map (fun s => (s, p)) ++ others.map (fun s => (s, notice)) := by
  rw [Fanout.run_add, Fanout.run_add, Fanout.run_nil, nil_append]

theorem Routed.notify {r' : CallRegistry} {out : Fanout} {recipients : List Nat} {notice : Packet}
    (hgood : Good who live none ix₀ id c ix) (hunanswered : c.answered = false)
    (hkept : Kept who live none r') (hevolves : Evolves r r') 
    (hnotice : ∃ sent, notice = .callSignal sent ∧ sent.callId = sig.callId)
    (hrecipients : ∀ s ∈ recipients, who s = some (c.callerUid, c.callerDevice))
    (hrun : out.run = recipients.map (fun s => (s, Packet.callSignal sig)) ++
        (c.ringing.filter (· ≠ s)).map (fun s => (s, notice)) ∨
      out.run = (c.ringing.filter (· ≠ s)).map (fun s => (s, notice)) ++
        recipients.map (fun s => (s, Packet.callSignal sig))) :
    Routed who live r c s sig r' out where
  kept := hkept
  evolves := hevolves
  about s' p hmem := by
    have hmem' : (s', p) ∈ recipients.map (fun s => (s, Packet.callSignal sig)) ∨
        (s', p) ∈ (c.ringing.filter (· ≠ s)).map (fun s => (s, notice)) := by
      rcases hrun with hrun | hrun <;> rw [hrun, mem_append] at hmem
      · exact hmem
      · exact hmem.symm
    rcases hmem' with hmem | hmem
    · obtain ⟨_, _, heq⟩ := mem_map.1 hmem
      cases heq
      exact ⟨sig, rfl, rfl⟩
    · obtain ⟨_, _, heq⟩ := mem_map.1 hmem
      cases heq
      exact hnotice
  addressed hanswered := by
    rw [hunanswered] at hanswered
    cases hanswered
  told _ _ s' hs' hne := by
    have hnone : sentTo s' (recipients.map fun s => (s, Packet.callSignal sig)) = [] :=
      sentTo_map_of_not_mem (not_mem_of_ringing hgood hs' hrecipients)
    have hone : sentTo s' ((c.ringing.filter (· ≠ s)).map fun s => (s, notice)) =
        [notice] :=
      sentTo_map_of_mem (hgood.sides.nodup.filter _)
        (mem_filter.2 ⟨hs', decide_eq_true hne⟩)
    refine ⟨notice, ?_⟩
    rcases hrun with hrun | hrun <;> rw [hrun, sentTo_append, hnone, hone]
    · rfl
    · rfl

theorem routed_fromRinging (hkept : Kept who live none d.toCallRegistry)
    (hfinds : Finds who live d) (hc : d.calls sig.callId = some c) (hunanswered : c.answered = false)
    (hwho : who s = some (c.calleeUid, device)) :
    Routed who live d.toCallRegistry c s sig (d.fromRinging now s device sig c).2.1
      (d.fromRinging now s device sig c).2.2 := by
  have hvacuous : ∀ {P : Prop}, c.answered = true → P := by
    intro P hanswered
    rw [hunanswered] at hanswered
    cases hanswered
  have hgood := hkept.good hc
  unfold SessionManager.fromRinging
  dsimp only
  split
  · exact .unchanged hkept hc
  rename_i hs
  rw [Decidable.not_not] at hs
  obtain ⟨hcaller, hcallee⟩ := hgood.apart_of_ringing hs
  -- The call ends here: the caller hears so, and the other connections.
  have hend : ∀ recipients c₁ ix₁,
      d.target now (·.caller) sig.callId c d.callIndex = (recipients, c₁, ix₁) →
      Routed who live d.toCallRegistry c s sig ((d.putCall sig.callId c₁ ix₁).eraseCall sig.callId)
        ((Fanout.add [] recipients (.callSignal sig)).add (c.ringing.filter (· ≠ s))
          (SessionManager.elsewhere now .declinedElsewhere sig.callId c₁)) := by
    intro recipients c₁ ix₁ hto
    obtain ⟨_, _, _, hto', hgood₁, haside, hrecipients⟩ := targetCaller_cases now hgood hfinds
    cases hto.symm.trans hto'
    exact .notify hgood hunanswered (hkept.put hgood₁).erase
      ((Evolves.put hc haside.toSame).trans .erase) (elsewhere_about now .declinedElsewhere _ c₁)
      hrecipients (.inl (run_add_add ..))
  split
  · -- It rings: the caller hears so, once.
    split
    · exact .unchanged hkept hc
    · have hrang : Good who live none d.callIndex sig.callId { c with rang := true } d.callIndex :=
        hgood.congr rfl rfl rfl rfl ⟨rfl, rfl⟩ ⟨rfl, rfl⟩
      have hsame : c.Same { c with rang := true } := ⟨rfl, rfl, rfl, fun h => ⟨h, rfl⟩⟩
      obtain ⟨recipients, c₁, ix₁, hto, hgood₁, haside, _⟩ := targetCaller_cases now hrang hfinds
      rw [hto]
      refine .pass (hkept.put hgood₁) (.put hc (hsame.trans haside.toSame))
        (fun hanswered => hvacuous hanswered) ?_
      exact fun _ hstill => not_answered_putCall (haside.answered_eq.trans hunanswered) hstill
  · -- It is busy: the caller hears so when it was the last.
    have hstop := hgood.stopRinging hs
    have hsame : c.Same { c with busy := true, ringing := removeFrom c.ringing s } :=
      ⟨rfl, rfl, rfl, fun h => ⟨h, rfl⟩⟩
    split
    · rename_i hlast
      obtain ⟨recipients, c₁, ix₁, hto, hgood₁, haside, _⟩ := targetCaller_cases now hstop hfinds
      rw [hto]
      refine .pass (hkept.put hgood₁).erase ((Evolves.put hc (hsame.trans haside.toSame)).trans .erase)
        (fun hanswered => hvacuous hanswered) ?_
      intro _ _ s' hs' hne
      have hmem : s' ∈ removeFrom c.ringing s := mem_removeFrom.2 ⟨hs', hne⟩
      rw [hlast] at hmem
      cases hmem
    · exact .silent (update_self ..) (hkept.put hstop) (.put hc hsame) rfl
  · -- It answers: the others hear so, and the caller.
    have hback : c.Aside (d.reattachCaller none sig.callId c d.callIndex).1 :=
      SessionManager.aside_reattachCaller
    have hwaiting := (((hgood.reattachCaller hfinds).answer (hback.ringing ▸ hs)
      (hback.calleeUid ▸ hwho)).waiting : Good who live none d.callIndex sig.callId
        (SessionManager.waiting now _) _)
    rw [hback.ringing] at hwaiting
    have hanswer : c.Same { (d.reattachCaller none sig.callId c d.callIndex).1 with
        answered := true, callee := some s, calleeDevice := device, ringing := [] } :=
      ⟨hback.callerUid, hback.calleeUid, hback.callerDevice, fun hanswered => hvacuous hanswered⟩
    have hsame := hanswer.trans (SessionManager.aside_waiting now _).toSame
    rw [reattach_answer, waiting_ringing]
    obtain ⟨recipients, c₁, ix₁, hto, hgood₁, haside, hrecipients⟩ := targetCaller_cases now hwaiting hfinds
    rw [hto]
    refine .notify hgood hunanswered (hkept.put hgood₁) (.put hc (hsame.trans haside.toSame))
      ?_ ?_ (.inr (run_add_add ..))
    · exact elsewhere_about ..
    · intro s' hs'
      have hwho' := hrecipients s' hs'
      rwa [hsame.callerUid, hsame.callerDevice] at hwho'
  · exact hend _ _ _ rfl
  · exact hend _ _ _ rfl
  · exact .unchanged hkept hc

/-! ## Any signal -/

theorem settled_cases (r : CallRegistry) (id : String) : SessionManager.settled r id = r ∨
    ∃ c, r.calls id = some c ∧
      SessionManager.settled r id = r.setCall id { c with detached := none } := by
  unfold SessionManager.settled
  split
  · exact .inl rfl
  · rename_i c hc
    split
    · exact .inr ⟨c, hc, rfl⟩
    · exact .inl rfl

theorem Routed.settled {r' : CallRegistry} {out : Fanout} (h : Routed who live r c s sig r' out) :
    Routed who live r c s sig (SessionManager.settled r' sig.callId) out := by
  rcases settled_cases r' sig.callId with heq | ⟨c', hc', heq⟩
  · rw [heq]
    exact h
  · have hgood : Good who live none r'.callIndex sig.callId { c' with detached := none } r'.callIndex :=
      (h.kept.good hc').congr rfl rfl rfl rfl ⟨rfl, rfl⟩ ⟨rfl, rfl⟩
    rw [heq]
    refine ⟨h.kept.put hgood, h.evolves.trans (.put hc' ⟨rfl, rfl, rfl, fun h => ⟨h, rfl⟩⟩), h.about,
      h.addressed, fun hunanswered hend => h.told hunanswered ?_⟩
    intro c₁ hc₁
    cases hc'.symm.trans hc₁
    exact hend { c' with detached := none } (update_self ..)

theorem kept_invite {fromUid toUid : Int} (hkept : Kept who live none d.toCallRegistry)
    (hlive : live s) (hwho : who s = some (fromUid, device)) (hapart : fromUid ≠ toUid)
    (haccount : ∀ a, d.accounts toUid = some a → a.sessions.Nodup ∧
      ∀ s ∈ a.sessions, live s ∧ ∃ device, who s = some (toUid, device)) :
    Kept who live none (d.invite now s fromUid toUid device sig).2.1 := by
  unfold SessionManager.invite
  dsimp only
  split
  · exact hkept
  rename_i hnew
  have hnone : d.calls sig.callId = none := by
    by_contra hsome
    exact hnew (.inr (Option.isSome_iff_ne_none.2 hsome))
  split
  · exact hkept
  split
  · exact hkept
  rename_i a ha
  obtain ⟨hnodup, hringing⟩ := haccount a ha
  split
  · exact hkept
  refine hkept.put ⟨⟨hapart, ?_, nofun, fun s' hs' => (hringing s' hs').2, hnodup,
    fun h => absurd rfl h, nofun⟩, ?_, ?_, ?_, nofun⟩
  · rintro s' hs'
    cases hs'
    exact hwho
  · rintro s' (hs' | hs' | hs')
    · cases hs'
      exact hlive
    · cases hs'
    · exact (hringing s' hs').1
  · intro s' hs'
    -- Nobody had the call before.
    have hbefore : sig.callId ∉ d.callIndex s' := by
      rw [hkept.indexed sig.callId s' hs', hnone]
      simp
    rw [mem_indexCalls, mem_indexCall]
    simp [Call.Has, hbefore]
  · intro id' s' hne
    rw [mem_indexCalls, mem_indexCall]
    simp [hne]

theorem invite_of_some {fromUid toUid : Int} (hc : d.calls sig.callId = some c) :
    d.invite now s fromUid toUid device sig = (.dropped, d.toCallRegistry, []) := by
  unfold SessionManager.invite
  dsimp only
  rw [if_pos (.inr (by rw [hc]; rfl))]

theorem calls_invite {fromUid toUid : Int} (hne : id ≠ sig.callId) :
    (d.invite now s fromUid toUid device sig).2.1.calls id = d.calls id := by
  unfold SessionManager.invite
  dsimp only
  split
  · rfl
  split
  · rfl
  split
  · rfl
  split
  · rfl
  · exact update_of_ne hne ..

theorem routed_routed {fromUid toUid : Int} (hkept : Kept who live none d.toCallRegistry)
    (hfinds : Finds who live d) (hc : d.calls sig.callId = some c) (hlive : live s)
    (hwho : who s = some (fromUid, device)) :
    Routed who live d.toCallRegistry c s sig (d.routed now s fromUid toUid device sig).2.1
      (d.routed now s fromUid toUid device sig).2.2 := by
  unfold SessionManager.routed
  split
  · rw [invite_of_some hc]
    exact .unchanged hkept hc
  rw [hc]
  dsimp only
  have hcases : ∀ p : CallRoute × CallRegistry × Fanout,
      Routed who live d.toCallRegistry c s sig p.2.1 p.2.2 →
      Routed who live d.toCallRegistry c s sig
        (if p.1 = .sent then (p.1, SessionManager.settled p.2.1 sig.callId, p.2.2) else p).2.1
        (if p.1 = .sent then (p.1, SessionManager.settled p.2.1 sig.callId, p.2.2) else p).2.2 := by
    intro p hp
    split
    · exact hp.settled
    · exact hp
  refine hcases _ ?_
  split
  · rename_i hcaller
    exact routed_fromCaller hkept hfinds hc hlive (hcaller.1 ▸ hwho)
  split
  · exact .unchanged hkept hc
  rename_i hcallee
  rw [Decidable.not_not] at hcallee
  split
  · rename_i hanswered
    exact routed_fromCallee hkept hfinds hc hanswered hlive (hcallee.1 ▸ hwho)
  · rename_i hunanswered
    exact routed_fromRinging hkept hfinds hc (Bool.not_eq_true _ ▸ hunanswered) (hcallee.1 ▸ hwho)

theorem kept_sweepCall (now : Clock) (id : String) (hkept : Kept who live none d.toCallRegistry)
    (hfinds : Finds who live d) :
    Kept who live none (d.sweepCall now id) ∧ Evolves d.toCallRegistry (d.sweepCall now id) := by
  unfold SessionManager.sweepCall
  split
  · exact ⟨hkept, .refl _⟩
  rename_i c hc
  have hcases : ∀ p : Call × CallIndex, Good who live none d.callIndex id p.1 p.2 → c.Same p.1 →
      ∀ stale : Prop, ∀ [Decidable stale],
        Kept who live none (if stale then (d.putCall id p.1 p.2).eraseCall id else d.putCall id p.1 p.2) ∧
        Evolves d.toCallRegistry
          (if stale then (d.putCall id p.1 p.2).eraseCall id else d.putCall id p.1 p.2) := by
    intro p hgood hsame stale _
    split
    · exact ⟨(hkept.put hgood).erase, (Evolves.put hc hsame).trans .erase⟩
    · exact ⟨hkept.put hgood, .put hc hsame⟩
  dsimp only
  refine hcases _ ?_ ?_ _
  · split
    · exact (hkept.good hc).reattach hfinds
    · exact hkept.good hc
  · split
    · exact SessionManager.aside_reattach.toSame
    · exact .refl c

end Decibell.Central
