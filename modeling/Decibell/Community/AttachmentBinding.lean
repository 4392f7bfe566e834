import Decibell.Community.Messages
import Decibell.Lib.Faults

/-!
# Attachments are bound to their message

`bindAttachments` looks for those of the requested attachments that may be bound - the sender's own,
ready, not bound yet, of the channel, and encrypted as it is - and binds what it finds in one
transaction, numbered in the order found.
-/

namespace Decibell

open Lib Lib.Conn Tables List

/-! ## Binding -/

structure BindRequest where
  attachmentIds : List Int
  messageId : Int
  channelId : String
  uploaderUid : Uid
  requireEncrypted : Bool

namespace BindRequest

/-- The attachment may be bound. -/
def eligible (b : BindRequest) (a : DbAttachment) : Bool :=
  a.uploadStatus = "ready" && a.messageId = 0 && a.uploaderUid = b.uploaderUid &&
    a.channelId = b.channelId && a.encrypted = b.requireEncrypted

/-- The attachment is requested, and may be bound. -/
def wants (b : BindRequest) (a : DbAttachment) : Bool :=
  b.attachmentIds.contains a.id && b.eligible a

end BindRequest

namespace Tables

def bindTo (messageId : Int) (ids : List Int) : Stmt := fun t => some { t with
  attachments := t.attachments.updateWhere (ids.contains ·.id) ({ · with messageId }) }

def setAttachmentPosition (id position : Int) : Stmt := fun t => some { t with
  attachments := t.attachments.updateWhere (·.id = id) ({ · with position }) }

end Tables

/-- Numbers attachments from 0. -/
def setPositions (ids : List Int) : List Stmt :=
  ids.zipIdx.map fun x => setAttachmentPosition x.1 x.2

/-- `bind_attachments` with its query answered so; the ids bound. -/
def bindAttachments (reading : Reading) (b : BindRequest) : StateM (Conn Tables) (List Int) := do
  if b.attachmentIds = [] then return []
  else if ← begin then
    match ← select reading fun t => t.attachments.rows.filter b.wants with
    | none =>
      rollback
      return []
    | some rows =>
      let bound := rows.map DbAttachment.id
      if bound = [] then
        rollback
        return bound
      else if ← exec (bindTo b.messageId bound) then
        execEach (setPositions bound)
        -- whether it is committed is not looked at
        let _ ← commit
        return bound
      else
        rollback
        return []
  else return []

/-- A message's request: an encrypted channel takes ciphertext, others none. -/
def bindRequest (t : Tables) (ids : List Int) (messageId : Int) (channelId : String) (uid : Uid) :
    BindRequest where
  attachmentIds := ids.filter (0 < ·)
  messageId
  channelId
  uploaderUid := uid
  requireEncrypted := ((t.channels.find? channelId).map (·.encrypted)).getD false

/-- The attachments of a message, some having been bound. -/
def boundAttachments (messageId : Int) (bound : List Int) :
    StateM (Conn Tables) (List Attachment) := do
  if bound = [] then return []
  else return ((← get).tables.fetchAttachments messageId).map fillAttachment

/-- A message's attachments: those it asked for that were bound. -/
def attachRequested (reading : Reading) (ids : List Int) (messageId : Int) (channelId : String)
    (uid : Uid) : StateM (Conn Tables) (List Attachment) := do
  let bound ← bindAttachments reading (bindRequest (← get).tables ids messageId channelId uid)
  boundAttachments messageId bound

/-! ## Marks on attachments -/

/-- Only message and position change, of the attachments `found`. -/
structure Marks (found : List Int) (f : DbAttachment → DbAttachment) : Prop where
  only : ∀ a, f a = { a with messageId := (f a).messageId, position := (f a).position }
  other : ∀ a, a.id ∉ found → f a = a

/-- The attachments are marked by `f`, and the rest is as it was. -/
structure MarkedBy (f : DbAttachment → DbAttachment) (t t' : Tables) : Prop where
  rows : t'.attachments.rows = t.attachments.rows.map f
  rest : t' = { t with attachments := t'.attachments }

section Marking

variable {found : List Int} {f g : DbAttachment → DbAttachment} {t t' t'' : Tables}

theorem Marks.id (h : Marks found f) (a : DbAttachment) : (f a).id = a.id := by rw [h.only]

theorem Marks.refl : Marks found fun a => a := ⟨fun _ => rfl, fun _ _ => rfl⟩

theorem Marks.comp (hf : Marks found f) (hg : Marks found g) : Marks found (g ∘ f) := by
  refine ⟨fun a => ?_, fun a ha => ?_⟩
  · rw [Function.comp_apply, hg.only (f a), hf.only a]
  · rw [Function.comp_apply, hf.other a ha, hg.other a ha]

theorem MarkedBy.refl : MarkedBy (fun a => a) t t := ⟨(map_id _).symm, rfl⟩

theorem MarkedBy.comp (hf : MarkedBy f t t') (hg : MarkedBy g t' t'') : MarkedBy (g ∘ f) t t'' := by
  refine ⟨?_, ?_⟩
  · rw [hg.rows, hf.rows, map_map]
  · rw [hg.rest, hf.rest]

/-- Attachments that are numbered, and others that are not. -/
def placed (id position : Int) (a : DbAttachment) : DbAttachment :=
  if a.id = id then { a with position } else a

theorem marks_placed {id : Int} (h : id ∈ found) (position : Int) :
    Marks found (placed id position) := by
  refine ⟨fun a => ?_, fun a ha => if_neg fun (hid : a.id = id) => ha (hid ▸ h)⟩
  rw [placed]
  split <;> rfl

theorem messageId_placed (id position : Int) (a : DbAttachment) :
    (placed id position a).messageId = a.messageId := by
  rw [placed]
  split <;> rfl

theorem markedBy_setAttachmentPosition {id position : Int}
    (h : setAttachmentPosition id position t = some t') : MarkedBy (placed id position) t t' := by
  cases h
  refine ⟨?_, rfl⟩
  simp only [Table.rows_updateWhere, decide_eq_true_eq]
  rfl

theorem marked_of_positions {stmts : List Stmt}
    (hs : ∀ stmt ∈ stmts, ∃ id ∈ found, ∃ position, stmt = setAttachmentPosition id position)
    (h : applyAll stmts t = some t') :
    ∃ f, Marks found f ∧ (∀ a, (f a).messageId = a.messageId) ∧ MarkedBy f t t' := by
  induction stmts generalizing t with
  | nil =>
    cases h
    exact ⟨_, .refl, fun _ => rfl, .refl⟩
  | cons stmt stmts ih =>
    obtain ⟨id, hid, position, rfl⟩ := hs stmt (.head _)
    rw [applyAll, foldlM_cons] at h
    obtain ⟨u, hu, h⟩ := Option.bind_eq_some_iff.1 h
    obtain ⟨f, hf, hm, hby⟩ := ih (fun stmt hm => hs stmt (.tail _ hm)) h
    refine ⟨f ∘ placed id position, (marks_placed hid position).comp hf, fun a => ?_,
      (markedBy_setAttachmentPosition hu).comp hby⟩
    exact (hm _).trans (messageId_placed id position a)

/-- Attachments with their place in a list, counted from `k`. -/
def numbered (ids : List Int) (k : Nat) (a : DbAttachment) : DbAttachment :=
  if a.id ∈ ids then { a with position := (k + ids.idxOf a.id : Nat) } else a

theorem markedBy_positions {ids : List Int} (hnodup : ids.Nodup) {k : Nat}
    (h : applyAll ((ids.zipIdx k).map fun x => setAttachmentPosition x.1 x.2) t = some t') :
    MarkedBy (numbered ids k) t t' := by
  induction ids generalizing t k with
  | nil =>
    cases h
    exact .refl
  | cons id ids ih =>
    rw [nodup_cons] at hnodup
    rw [zipIdx_cons, map_cons, applyAll, foldlM_cons] at h
    obtain ⟨u, hu, h⟩ := Option.bind_eq_some_iff.1 h
    have hcomp : numbered (id :: ids) k = numbered ids (k + 1) ∘ placed id k := by
      funext a
      by_cases hid : a.id = id
      · subst hid
        simp [numbered, placed, hnodup.1]
      · have hne : id ≠ a.id := fun h => hid h.symm
        have hp : placed id k a = a := if_neg hid
        have hmem : a.id ∈ id :: ids ↔ a.id ∈ ids := mem_cons.trans (or_iff_right hid)
        have hadd : k + (ids.idxOf a.id).succ = k + 1 + ids.idxOf a.id := by omega
        simp only [numbered, Function.comp_apply, hp, hmem, idxOf_cons_ne _ hne, hadd]
    rw [hcomp]
    exact (markedBy_setAttachmentPosition hu).comp (ih hnodup.2 h)

/-- An attachment that is bound, if it was found. -/
def boundTo (messageId : Int) (found : List Int) (a : DbAttachment) : DbAttachment :=
  if found.contains a.id then { a with messageId } else a

theorem marks_boundTo (messageId : Int) : Marks found (boundTo messageId found) := by
  refine ⟨fun a => ?_, fun a ha => if_neg fun h => ha (contains_iff_mem.1 h)⟩
  rw [boundTo]
  split <;> rfl

theorem messageId_boundTo (messageId : Int) {a : DbAttachment} (h : a.id ∈ found) :
    (boundTo messageId found a).messageId = messageId := by
  rw [boundTo, if_pos (contains_iff_mem.2 h)]

theorem markedBy_bindTo {messageId : Int} (h : bindTo messageId found t = some t') :
    MarkedBy (boundTo messageId found) t t' := by
  cases h
  exact ⟨rfl, rfl⟩

end Marking

/-! ## What it leaves -/

namespace BindRequest

/-- The attachments that may be bound. -/
def wanted (b : BindRequest) (t : Tables) : List Int :=
  (t.attachments.rows.filter b.wants).map (·.id)

/-- Those that the query finds. -/
def found (reading : Reading) (b : BindRequest) (t : Tables) : List Int :=
  ((reading.fetch (t.attachments.rows.filter b.wants)).getD []).map (·.id)

/-- All that were found are bound, or none is. -/
structure Binds (b : BindRequest) (found : List Int) (f : DbAttachment → DbAttachment) : Prop extends
    Marks found f where
  whole : (∀ a, a.id ∈ found → (f a).messageId = b.messageId) ∨ ∀ a, (f a).messageId = a.messageId

theorem mem_wanted {b : BindRequest} {reading : Reading} {t : Tables} {id : Int}
    (h : id ∈ b.found reading t) : id ∈ b.wanted t := by
  obtain ⟨a, ha, rfl⟩ := mem_map.1 h
  exact mem_map_of_mem (mem_of_fetch ha)

theorem nodup_found (reading : Reading) (b : BindRequest) (t : Tables) :
    (b.found reading t).Nodup :=
  t.attachments.nodup.sublist (((fetch_sublist reading _).trans filter_sublist).map _)

end BindRequest

section Running

variable {found : List Int} {t t₀ t₁ : Tables} {os : List Outcome}

theorem setPositions_mem {ids : List Int} {stmt : Stmt} (h : stmt ∈ setPositions ids) :
    ∃ id ∈ ids, ∃ position, stmt = setAttachmentPosition id position := by
  obtain ⟨⟨id, k⟩, hx, rfl⟩ := mem_map.1 h
  exact ⟨id, fst_mem_of_mem_zipIdx hx, k, rfl⟩

/-- Numbers attachments, and ends the transaction. -/
def number (found : List Int) : StateM (Conn Tables) (List Int) := do
  execEach (setPositions found)
  let _ ← commit
  return found

/-- Attachments are numbered where bound, or where a failure undid that. -/
theorem number_spec (t₁ : Tables) (os : List Outcome) (hnodup : found.Nodup) (sv : Option Tables)
    (hsv : sv = none ∨ sv = some t₀) :
    ∃ u os', (number found).run ⟨t₁, sv, os⟩ = (found, ⟨u, none, os'⟩) ∧
      (∃ f, Marks found f ∧ (∀ a, (f a).messageId = a.messageId) ∧
        (MarkedBy f t₁ u ∨ MarkedBy f t₀ u)) ∧
      ((∀ o ∈ os, o = .ok) → MarkedBy (numbered found 0) t₁ u) := by
  have hs : ∀ stmt ∈ setPositions found, ∀ t, stmt t ≠ none := by
    intro stmt hstmt t
    obtain ⟨id, -, position, rfl⟩ := setPositions_mem hstmt
    exact Option.some_ne_none _
  have hmarks {stmts : List Stmt} {v u : Tables} (hsub : stmts.Sublist (setPositions found))
      (h : applyAll stmts v = some u) :=
    marked_of_positions (fun stmt hstmt => setPositions_mem (hsub.subset hstmt)) h
  have hrun (c : Conn Tables) : (number found).run c =
      (found, (commit.run ((execEach (setPositions found)).run c).2).2) := rfl
  rw [hrun]
  rcases hsv with rfl | rfl
  · obtain ⟨u, hu, hexec⟩ := run_execEach_idle hs t₁ os
    obtain ⟨f, hf, hm, hby⟩ := hmarks (runsOf_sublist _ _) hu
    rw [hexec, run_commit_idle]
    refine ⟨u, _, rfl, ⟨f, hf, hm, .inl hby⟩, fun ho => ?_⟩
    rw [runsOf_of_ok ho] at hu
    exact markedBy_positions hnodup hu
  · rcases run_execEach hs t₁ t₀ os with ⟨-, u, hu, hexec⟩ | ⟨left, hleft, u, hu, hexec⟩
    · obtain ⟨f, hf, hm, hby⟩ := hmarks (runsOf_sublist _ _) hu
      rw [hexec, run_commit]
      refine ⟨_, _, rfl, ?_, fun ho => ?_⟩
      · split
        · exact ⟨f, hf, hm, .inl hby⟩
        · exact ⟨_, .refl, fun _ => rfl, .inr .refl⟩
      · rw [if_pos (nextOf_of_ok fun o hmem => ho o (mem_of_mem_drop hmem))]
        rw [runsOf_of_ok ho] at hu
        exact markedBy_positions hnodup hu
    · obtain ⟨f, hf, hm, hby⟩ := hmarks (undoneBy_sublist hleft) hu
      rw [hexec, run_commit_idle]
      refine ⟨u, _, rfl, ⟨f, hf, hm, .inr hby⟩, fun ho => ?_⟩
      rw [undoneBy_of_ok ho] at hleft
      cases hleft

end Running

variable {reading : Reading} {b : BindRequest} {t : Tables} {os : List Outcome} {bound : List Int}
  {c : Conn Tables}

/-- However query and statements fare, all attachments found are bound, or none, and nothing else
    changes; where nothing fails they are numbered. -/
structure BindRequest.Leaves (reading : Reading) (b : BindRequest) (t : Tables) (os : List Outcome)
    (bound : List Int) (c : Conn Tables) : Prop where
  idle : c.Idle
  reported : bound = [] ∨ bound = b.found reading t
  binds : ∃ f, b.Binds (b.found reading t) f ∧ MarkedBy f t c.tables
  ordered : (∀ o ∈ os, o = .ok) → bound = b.found reading t ∧
    MarkedBy (numbered (b.found reading t) 0 ∘ boundTo b.messageId (b.found reading t)) t c.tables

theorem leaves_nothing (ho : (∀ o ∈ os, o = .ok) → b.found reading t = []) {os' : List Outcome} :
    b.Leaves reading t os [] ⟨t, none, os'⟩ := by
  refine ⟨rfl, .inl rfl, ⟨_, ⟨.refl, .inr fun _ => rfl⟩, .refl⟩, fun hok => ?_⟩
  have hid : numbered [] 0 ∘ boundTo b.messageId [] = fun a => a := by
    funext a
    simp [numbered, boundTo]
  rw [ho hok, hid]
  exact ⟨rfl, .refl⟩

theorem leaves_numbered {t₁ : Tables} {sv : Option Tables} {os' : List Outcome}
    (ht₁ : bindTo b.messageId (b.found reading t) t = some t₁) (hsv : sv = none ∨ sv = some t)
    (hos : ∀ o ∈ os', o ∈ os)
    (h : (number (b.found reading t)).run ⟨t₁, sv, os'⟩ = (bound, c)) :
    b.Leaves reading t os bound c := by
  have hnodup := BindRequest.nodup_found reading b t
  obtain ⟨u, os'', hrun, ⟨f, hf, hm, hby⟩, hok⟩ := number_spec t₁ os' hnodup sv hsv
  rw [hrun] at h
  cases h
  refine ⟨rfl, .inr rfl, ?_, fun ho => ⟨rfl, ?_⟩⟩
  · rcases hby with hby | hby
    · refine ⟨_, ⟨(marks_boundTo b.messageId).comp hf, .inl fun a ha => ?_⟩,
        (markedBy_bindTo ht₁).comp hby⟩
      rw [Function.comp_apply, hm, messageId_boundTo _ ha]
    · exact ⟨f, ⟨hf, .inr hm⟩, hby⟩
  · exact (markedBy_bindTo ht₁).comp (hok fun o hmem => ho o (hos o hmem))

theorem bindAttachments_leaves (h : (bindAttachments reading b).run ⟨t, none, os⟩ = (bound, c)) :
    b.Leaves reading t os bound c := by
  rw [bindAttachments] at h
  split at h
  · rename_i hids
    cases h
    refine leaves_nothing fun _ => eq_nil_iff_forall_not_mem.2 fun id hid => ?_
    obtain ⟨a, ha, -⟩ := mem_map.1 (BindRequest.mem_wanted hid)
    simp [BindRequest.wants, hids] at ha
  · rw [run_bind, run_begin] at h
    by_cases ho : nextOf os = .ok
    · simp only [if_pos ho, if_true, run_bind] at h
      obtain ⟨sv, hsv, hselect⟩ := run_select_within t os.tail reading
        fun t => t.attachments.rows.filter b.wants
      rw [hselect] at h
      cases hfetch : reading.fetch (t.attachments.rows.filter b.wants) with
      | none =>
        have hfound : b.found reading t = [] := by rw [BindRequest.found, hfetch]; rfl
        simp only [hfetch, run_bind, run_rollback_within hsv] at h
        cases h
        exact leaves_nothing fun _ => hfound
      | some rows =>
        have hfound : b.found reading t = rows.map (·.id) := by rw [BindRequest.found, hfetch]; rfl
        simp only [hfetch] at h
        split at h
        · rename_i hrows
          simp only [run_bind, run_rollback_within hsv] at h
          cases h
          rw [hrows]
          exact leaves_nothing fun _ => hfound.trans hrows
        · rw [← hfound, run_bind] at h
          by_cases hbind : nextOf os.tail = .ok
          · obtain ⟨t₁, ht₁⟩ : ∃ t₁, bindTo b.messageId (b.found reading t) t = some t₁ := ⟨_, rfl⟩
            simp only [exec_of_head_ok ht₁ hbind, if_true] at h
            exact leaves_numbered ht₁ hsv
              (fun o ho => mem_of_mem_tail (mem_of_mem_tail ho)) h
          · simp only [exec_of_head_not_ok hbind, Bool.false_eq_true, if_false, run_bind,
              run_rollback_failed _ hsv] at h
            cases h
            exact leaves_nothing fun hok =>
              absurd (nextOf_of_ok fun o ho => hok o (mem_of_mem_tail ho)) hbind
    · rw [if_neg ho] at h
      cases h
      exact leaves_nothing fun hok => absurd (nextOf_of_ok hok) ho

/-! ## What is bound -/

/-- The `i`-th requested attachment is bound, at position `i`. -/
def BindRequest.AllBound (b : BindRequest) (t : Tables) : Prop :=
  ∀ x ∈ b.attachmentIds.zipIdx, ∃ a ∈ t.attachments.rows,
    a.id = x.1 ∧ a.messageId = b.messageId ∧ a.position = x.2

def BindRequest.NoneBound (b : BindRequest) (t : Tables) : Prop :=
  ∀ a ∈ t.attachments.rows, a.messageId ≠ b.messageId

/-- However query and statements fare, what is found of what may be bound is bound as a whole or not
    at all, and nothing else changes. Where nothing fails all of it is, numbered from 0 in the order
    reported. -/
theorem bindAttachments_spec (reading : Reading) (b : BindRequest) (t : Tables) (os : List Outcome)
    (bound : List Int) (c : Conn Tables)
    (h : (bindAttachments reading b).run ⟨t, none, os⟩ = (bound, c)) :
    (∀ id ∈ b.found reading t, id ∈ b.attachmentIds ∧
        ∃ a ∈ t.attachments.rows, a.id = id ∧ b.eligible a) ∧
      (∃ f, b.Binds (b.found reading t) f ∧ MarkedBy f t c.tables) ∧
      ((∀ o ∈ os, o = .ok) → reading.fetch (t.attachments.rows.filter b.wants) =
          some (t.attachments.rows.filter b.wants) →
        bound = b.wanted t ∧ ∀ a ∈ t.attachments.rows, a.id ∈ bound →
          { a with messageId := b.messageId, position := (bound.idxOf a.id : Nat) } ∈
            c.tables.attachments.rows) := by
  have hleaves := bindAttachments_leaves h
  refine ⟨fun id hid => ?_, hleaves.binds, fun ho hfetch => ?_⟩
  · obtain ⟨a, ha, rfl⟩ := List.mem_map.1 (BindRequest.mem_wanted hid)
    obtain ⟨ha, hw⟩ := List.mem_filter.1 ha
    rw [BindRequest.wants, Bool.and_eq_true] at hw
    exact ⟨List.contains_iff_mem.1 hw.1, a, ha, rfl, hw.2⟩
  · have hfound : b.found reading t = b.wanted t := by
      rw [BindRequest.found, hfetch, Option.getD_some, BindRequest.wanted]
    obtain ⟨hbound, hby⟩ := hleaves.ordered ho
    rw [hfound] at hbound hby
    refine ⟨hbound, fun a ha hmem => ?_⟩
    rw [hbound] at hmem ⊢
    rw [hby.rows]
    refine List.mem_map.2 ⟨a, ha, ?_⟩
    simp [numbered, boundTo, hmem]

/-- Attachments 1 and 3 are 7's, and 2 is 8's. -/
def threeUploads : Tables where
  attachments := .ofRows [
    { id := 1, channelId := "general", uploaderUid := 7 },
    { id := 2, channelId := "general", uploaderUid := 8 },
    { id := 3, channelId := "general", uploaderUid := 7 }]

/-- A message goes out with attachments its sender asked for, and may bind. -/
theorem attachRequested_eligible {ids : List Int} {messageId : Int} {channelId : String} {uid : Uid}
    {atts : List Attachment} (hnew : ∀ a ∈ t.attachments.rows, a.messageId ≠ messageId)
    (h : (attachRequested reading ids messageId channelId uid).run ⟨t, none, os⟩ = (atts, c)) :
    ∀ x ∈ atts, x.id ∈ ids ∧ ∃ a ∈ t.attachments.rows, a.id = x.id ∧
      a.uploadStatus = "ready" ∧ a.messageId = 0 ∧ a.uploaderUid = uid ∧ a.channelId = channelId := by
  obtain ⟨bound, c', hbind⟩ : ∃ bound c', (bindAttachments reading
      (bindRequest t ids messageId channelId uid)).run ⟨t, none, os⟩ = (bound, c') := ⟨_, _, rfl⟩
  obtain ⟨-, -, ⟨f, hf, hby⟩, -⟩ := bindAttachments_leaves hbind
  have hrun : (attachRequested reading ids messageId channelId uid).run ⟨t, none, os⟩ =
      (boundAttachments messageId bound).run c' := by
    have hb := congrArg (fun x => (boundAttachments messageId x.1).run x.2) hbind
    exact hb
  rw [hrun, boundAttachments] at h
  intro x hx
  split at h
  · cases h
    cases hx
  · cases h
    obtain ⟨a', ha', rfl⟩ := mem_map.1 hx
    obtain ⟨a'', ha'', rfl⟩ := mem_map.1 ha'
    rw [mem_filter, Tables.attachmentsOf, mem_insertionSort, mem_filter] at ha''
    obtain ⟨⟨hrow, hm⟩, -⟩ := ha''
    rw [hby.rows] at hrow
    obtain ⟨a, ha, rfl⟩ := mem_map.1 hrow
    have hfound : a.id ∈ (bindRequest t ids messageId channelId uid).found reading t := by
      by_contra hno
      rw [hf.other a hno] at hm
      exact hnew a ha (of_decide_eq_true hm)
    obtain ⟨y, hy, hya⟩ := mem_map.1 (BindRequest.mem_wanted hfound)
    obtain ⟨hy, hw⟩ := mem_filter.1 hy
    obtain rfl : y = a := t.attachments.eq_of_key hy ha hya
    simp only [BindRequest.wants, BindRequest.eligible, Bool.and_eq_true, decide_eq_true_eq] at hw
    obtain ⟨hid, ⟨⟨⟨hready, hfree⟩, huid⟩, hchannel⟩, -⟩ := hw
    have hid' : (fillAttachment { f y with
        filename := clampUtf8 (f y).filename maxFilenameBytes
        mime := safeMime (f y).mime }).id = y.id := hf.id y
    rw [hid']
    exact ⟨(mem_filter.1 (contains_iff_mem.1 hid)).1, y, ha, rfl, hready, hfree, huid,
      hchannel⟩

theorem attachRequested_eligible_threeUploads :
    ((attachRequested (.rows 9) [1, 2] 5 "general" 7).run ⟨threeUploads, none, []⟩).1.map (·.id) =
        [1] ∧
      ∀ x ∈ ((attachRequested (.rows 9) [1, 2] 5 "general" 7).run ⟨threeUploads, none, []⟩).1,
        x.id ∈ [1, 2] ∧ ∃ a ∈ threeUploads.attachments.rows, a.id = x.id ∧
          a.uploadStatus = "ready" ∧ a.messageId = 0 ∧ a.uploaderUid = 7 ∧
            a.channelId = "general" :=
  have hnew : ∀ a ∈ threeUploads.attachments.rows, a.messageId ≠ 5 := by decide
  ⟨by decide +kernel, attachRequested_eligible hnew Prod.mk.eta.symm⟩

def requestBy7 (attachmentIds : List Int) : BindRequest where
  attachmentIds
  messageId := 5
  channelId := "general"
  uploaderUid := 7
  requireEncrypted := false

/-- Of a request that names another's attachment the rest is bound. -/
theorem bound_in_part :
    let b := requestBy7 [1, 2]
    let t := ((bindAttachments (.rows 9) b).run ⟨threeUploads, none, []⟩).2.tables
    ¬(b.AllBound t ∨ b.NoneBound t) := by
  intro b t h
  rcases h with h | h
  · obtain ⟨a, ha, hid, hm, -⟩ := h (2, 1) (by decide)
    revert a
    decide
  · exact h { id := 1, channelId := "general", uploaderUid := 7, messageId := 5 } (by decide) rfl

/-- An attachment of 7's that is bound to message 5. -/
def boundBy7 (id position : Int) : DbAttachment where
  id
  channelId := "general"
  uploaderUid := 7
  messageId := 5
  position

/-- All of a request for two attachments of 7's own are bound. -/
theorem bound_all :
    let t := ((bindAttachments (.rows 9) (requestBy7 [3, 1])).run ⟨threeUploads, none, []⟩).2.tables
    boundBy7 1 0 ∈ t.attachments.rows ∧ boundBy7 3 1 ∈ t.attachments.rows := by
  obtain ⟨-, hall⟩ := (bindAttachments_spec (.rows 9) (requestBy7 [3, 1]) threeUploads [] [1, 3] _
    rfl).2.2 (List.forall_mem_nil _) (by decide)
  refine ⟨hall { id := 1, channelId := "general", uploaderUid := 7 } ?_ ?_,
    hall { id := 3, channelId := "general", uploaderUid := 7 } ?_ ?_⟩
  · decide
  · decide
  · decide
  · decide

end Decibell
