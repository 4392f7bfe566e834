import Decibell.E2ee.FillWalk

/-!
# A fill covers everyone

The walk of a fill against the server it asks. Its publishes change what the server lists, but
only for viewers the walk has passed; so page by page it meets everybody who lacked something when
it began (`Covered`), and seals them what is held of it, once.

* `fill_covers`: what one walk publishes, when no request fails.
-/

namespace Decibell

open Lib List

namespace FillWalk

/-- Who fills, where, and what the server knows. -/
structure Filler where
  env : Tables.KeyEnv
  channelId : String
  uid : Uid
  username : String
  /-- A content sealed to an account, if they have an identity. -/
  lookup : Uid → String → Bytes → Option Bytes

namespace Filler

variable (f : Filler)

/-- A page of needs, of the server's tables. -/
def needsAfter (after : Int) (t : Tables) : Except String (List KeyNeed × Bool) × Tables :=
  match t.channelKeysReq f.env f.channelId f.uid after with
  | some page => (.ok page, t)
  | none => (.error "Channel key lookup timed out", t)

/-- What the server reads of a blob. -/
def blobIn (b : ChannelKeyBlob) : Tables.KeyBlobIn where
  recipientUid := b.recipientUid
  recipient := b.recipient
  blob := b.blob

/-- A publish, which never creates an epoch. -/
def publish (epoch : Nat) (blobs : List ChannelKeyBlob) (t : Tables) :
    Except String ChannelKeysPublishRes × Tables :=
  let r := t.keysPublish f.env f.uid f.username
    { channelId := f.channelId, epoch, blobs := blobs.map blobIn }
  (.ok r.1, r.2)

def serverFill : FillIo Tables :=
  netFill (fun uid name content t => (.ok (f.lookup uid name content), t)) f.channelId
    f.needsAfter f.publish

/-- The walk of a fill, from the first page of the server's needs. -/
def fill (keys : Nat → Option ChannelKey) (t : Tables) :
    Except String FillReport × FillWalk Tables :=
  let first := t.channelKeysNeeds f.env f.channelId f.uid 0
  walkFill f.serverFill keys first.1 first.2 t

end Filler

def pairs (trace : List FillEvent) : List (Uid × Nat) :=
  (published trace).map fun b => (b.recipientUid, b.epoch)

/-- A request was answered, and a publish accepted. -/
def answered : FillEvent → Bool
  | .needs _ reply => reply.isOk
  | .sealTo _ _ reply => reply.isOk
  | .publish _ _ reply => landed reply

/-- No request failed. -/
def NoFailure (trace : List FillEvent) : Prop := ∀ event ∈ trace, answered event = true

instance (trace : List FillEvent) : Decidable (NoFailure trace) :=
  inferInstanceAs (Decidable (∀ event ∈ trace, answered event = true))

/-! ## What publishes leave alone -/

variable {f : Filler} {t t' t'' : Tables} {keys : Nat → Option ChannelKey}

/-- The tables have only more blobs, of epochs there are, of nobody past `bound`. -/
structure Ahead (f : Filler) (bound : Int) (t t' : Tables) : Prop where
  members : t'.members = t.members
  epochs : t'.keyEpochs = t.keyEpochs
  refusals : t'.keyRefusals = t.keyRefusals
  more : ∀ b ∈ t.keyBlobs.rows, b ∈ t'.keyBlobs.rows
  only : ∀ b ∈ t'.keyBlobs.rows, b ∈ t.keyBlobs.rows ∨
    b.recipientUid ≤ bound ∧ b.epoch ∈ t.epochsOf b.channelId

namespace Ahead

variable {bound bound' : Int}

theorem refl (f : Filler) (bound : Int) (t : Tables) : Ahead f bound t t :=
  ⟨rfl, rfl, rfl, fun _ => id, fun _ => .inl⟩

theorem epochsOf (h : Ahead f bound t t') (channelId : String) :
    t'.epochsOf channelId = t.epochsOf channelId := by
  rw [Tables.epochsOf, Tables.epochsOf, h.epochs]

theorem trans (h : Ahead f bound t t') (h' : Ahead f bound t' t'') : Ahead f bound t t'' where
  members := h'.members.trans h.members
  epochs := h'.epochs.trans h.epochs
  refusals := h'.refusals.trans h.refusals
  more b hb := h'.more b (h.more b hb)
  only b hb := (h'.only b hb).elim (h.only b) fun hnew => .inr ⟨hnew.1, h.epochsOf _ ▸ hnew.2⟩

theorem mono (h : Ahead f bound t t') (hle : bound ≤ bound') : Ahead f bound' t t' :=
  ⟨h.members, h.epochs, h.refusals, h.more, fun b hb =>
    (h.only b hb).imp id fun hnew => ⟨hnew.1.trans hle, hnew.2⟩⟩

theorem current (h : Ahead f bound t t') (channelId : String) :
    t'.channelKeyCurrentEpoch channelId = t.channelKeyCurrentEpoch channelId := by
  rw [Tables.channelKeyCurrentEpoch, Tables.channelKeyCurrentEpoch, h.epochsOf]

theorem gapless (h : Ahead f bound t t') (ht : EscrowState.Gapless t) : EscrowState.Gapless t' := by
  refine ⟨fun channelId e => ?_, fun b hb => ?_⟩
  · rw [h.epochsOf, h.current]
    exact ht.1 channelId e
  · rw [h.epochsOf]
    exact (h.only b hb).elim (ht.2 b) And.right

theorem lackedEpochs (h : Ahead f bound t t') (channelId : String) {v : Uid} (hv : bound < v) :
    t'.lackedEpochs channelId v = t.lackedEpochs channelId v := by
  rw [Tables.lackedEpochs, Tables.lackedEpochs, h.current]
  refine filter_congr fun e _ => congrArg _ (Bool.eq_iff_iff.2 ?_)
  rw [Tables.channelKeyHolds, Tables.channelKeyHolds, any_eq_true, any_eq_true]
  constructor
  · rintro ⟨b, hb, hrow⟩
    refine ⟨b, (h.only b hb).resolve_right fun hnew => ?_, hrow⟩
    have huid := (of_decide_eq_true hrow).2.2
    exact absurd (huid ▸ hnew.1) (Int.not_le.2 hv)
  · rintro ⟨b, hb, hrow⟩
    exact ⟨b, h.more b hb, hrow⟩

theorem refusing (h : Ahead f bound t t') {channelId : String} {uid v : Uid}
    (hv : v ∈ t.needsRefusing channelId uid) : v ∈ t'.needsRefusing channelId uid := by
  rw [Tables.needsRefusing, mem_filter] at hv ⊢
  refine ⟨?_, ?_⟩
  · rw [Tables.channelKeyRefusingRecipients, h.refusals]
    exact hv.1
  · rw [h.current]
    rw [Tables.channelKeyUnrefusedHolderExists, any_eq_true] at hv ⊢
    obtain ⟨b, hb, hrow⟩ := hv.2
    exact ⟨b, h.more b hb, by rw [h.refusals]; exact hrow⟩

theorem channelViewers (h : Ahead f bound t t') (env : Tables.KeyEnv) (channelId : String) :
    t'.channelViewers env channelId = t.channelViewers env channelId := by
  rw [Tables.channelViewers, Tables.channelViewers, h.members]

end Ahead

/-- What a walk may publish: of epochs there are, of nobody past the bound. -/
def Behind (f : Filler) (t : Tables) (bound : Int) (b : ChannelKeyBlob) : Prop :=
  b.recipientUid ≤ bound ∧ 1 ≤ b.epoch ∧ b.epoch ≤ t.channelKeyCurrentEpoch f.channelId

theorem recipient_of_acceptBlob {env : Tables.KeyEnv} {uid : Uid}
    {req : Tables.ChannelKeysPublishReq} {b x : Tables.KeyBlobIn}
    (h : t.acceptBlob env uid req b = some x) : x.recipientUid = b.recipientUid := by
  rw [Tables.acceptBlob] at h
  split at h
  · cases h
  split at h
  · cases h
  split at h
  · cases h
  · next m hm =>
    split at h
    · cases h
      exact (Table.find?_eq_some.1 hm).2
    · cases h

theorem Ahead.publish {bound : Int} (h : Ahead f bound t t') (ht : EscrowState.Gapless t)
    {epoch : Nat} {blobs : List ChannelKeyBlob} (hne : blobs ≠ [])
    (hblobs : ∀ b ∈ blobs, b.epoch = epoch ∧ Behind f t bound b) :
    Ahead f bound t (f.publish epoch blobs t').2 := by
  obtain ⟨b₀, hb₀⟩ := exists_mem_of_ne_nil _ hne
  obtain ⟨rfl, -, hpos, hle⟩ := hblobs b₀ hb₀
  rw [Filler.publish]
  dsimp only
  generalize hr : t'.keysPublish f.env f.uid f.username
    { channelId := f.channelId, epoch := b₀.epoch, blobs := blobs.map Filler.blobIn } = r
  have hpub := Tables.published hr
  rcases r with ⟨res, t''⟩
  cases hpub with
  | refused => exact h
  | created hepoch =>
    rw [h.current] at hepoch
    dsimp only at hepoch
    omega
  | filled hviews hrange hholds hself hepochs hstores =>
    refine h.trans ⟨hstores.members, hepochs, hstores.keyRefusals, fun b hb => ?_, fun b hb => ?_⟩
    · rw [hstores.keyBlobs]
      exact Table.mem_foldl_insertOrIgnore_of_mem hb
    · rw [hstores.keyBlobs] at hb
      rcases Table.mem_of_mem_foldl_insertOrIgnore hb with hb | ⟨x, hx, rfl⟩
      · exact .inl hb
      · obtain ⟨y, hy, hyx⟩ := mem_filterMap.1 hx
        obtain ⟨z, hz, rfl⟩ := mem_map.1 hy
        refine .inr ⟨?_, ?_⟩
        · change x.recipientUid ≤ bound
          rw [recipient_of_acceptBlob hyx]
          exact (hblobs z hz).2.1
        · change ((b₀.epoch : Nat) : Int) ∈ t'.epochsOf f.channelId
          rw [h.epochsOf, ht.1]
          exact ⟨by omega, by omega⟩

theorem serves {bound : Int} {s : Tables} (ht : EscrowState.Gapless t) (hs : Ahead f bound t s) :
    Serves f.serverFill (fun t' => Ahead f bound t t' ∧ Ahead f bound s t')
      (Behind f t bound) where
  seals _ _ _ _ _ h := sealBlobsFor_eq h
  needsAfter after t' h := by
    change (fun t'' => Ahead f bound t t'' ∧ Ahead f bound s t'') (f.needsAfter after t').2
    rw [Filler.needsAfter]
    split
    · exact h
    · exact h
  sealTo user uid held t' h := by
    have hworld : ∀ (out : List ChannelKeyBlob),
        (sealBlobs (fun uid name content t => (.ok (f.lookup uid name content), t)) f.channelId user
          uid out held t').2 = t' := by
      induction held with
      | nil => exact fun _ => rfl
      | cons p held ih =>
        intro out
        rw [sealBlobs]
        split
        · next heq => cases heq
        · next heq => exact (Prod.mk.inj heq).2.symm
        · next heq => exact (Prod.mk.inj heq).2 ▸ ih _
    have hsame : (f.serverFill.sealTo user uid held t').2 = t' := by
      change (sealBlobsFor _ _ user uid held t').2 = t'
      rw [sealBlobsFor]
      split
      · rfl
      · exact hworld []
    rw [hsame]
    exact h
  publish epoch blobs t' h hne hblobs := by
    refine ⟨h.1.publish ht hne hblobs, h.2.publish (hs.gapless ht) hne fun b hb => ?_⟩
    obtain ⟨he, hle, hpos, hcur⟩ := hblobs b hb
    exact ⟨he, hle, hpos, hs.current f.channelId ▸ hcur⟩

/-! ## Page by page -/

/-- A viewer to meet, if not past `bound`: an account that lacks something and gets the filler's
    blobs. -/
def Lacking (f : Filler) (t : Tables) (world : Tables) (v : Uid × String) : Prop :=
  v ∈ t.channelViewers f.env f.channelId ∧ 0 < v.1 ∧ v.1 ≠ f.uid ∧
    t.lackedEpochs f.channelId v.1 ≠ [] ∧ v.1 ∉ world.needsRefusing f.channelId f.uid

/-- What the viewer lacked when the walk began, the first epochs of it. -/
def IsNeed (f : Filler) (t : Tables) (n : KeyNeed) : Prop :=
  0 < n.uid ∧ n.uid ≠ f.uid ∧ (n.uid, n.username) ∈ t.channelViewers f.env f.channelId ∧
    n.epochs = (t.lackedEpochs f.channelId n.uid).take Tables.maxNeededEpochs ∧ n.epochs ≠ []

/-- Up to a uid the walk has met everybody who lacked something, once. -/
structure Covered (f : Filler) (t : Tables) (keys : Nat → Option ChannelKey) (upTo : Int)
    (w : FillWalk Tables) : Prop where
  inv : WalkInv f.serverFill (fun t' => Ahead f upTo t t') (Behind f t upTo) keys [] w
  pending : w.pending = []
  sorted : w.walked.Pairwise fun n n' => n.uid < n'.uid
  sound : ∀ n ∈ w.walked, n.uid ≤ upTo ∧ IsNeed f t n
  complete : ∀ v, Lacking f t w.world v → v.1 ≤ upTo → ∃ n ∈ w.walked, n.uid = v.1

def upTo (needs : List KeyNeed) (after : Int) : Int :=
  (needs.getLast?.map (·.uid)).getD after

theorem le_upTo {needs : List KeyNeed} (hsorted : needs.Pairwise fun n n' => n.uid < n'.uid)
    (after : Int) :
    ∀ n ∈ needs, n.uid ≤ upTo needs after := by
  intro n hn
  obtain ⟨init, last, rfl⟩ :=
    (eq_nil_or_concat needs).resolve_left (ne_nil_of_mem hn)
  rw [concat_eq_append] at hn hsorted ⊢
  rw [upTo, getLast?_append, getLast?_singleton]
  change n.uid ≤ last.uid
  rcases mem_append.1 hn with hn | hn
  · exact le_of_lt ((pairwise_append.1 hsorted).2.2 n hn last (mem_singleton_self _))
  · rw [mem_singleton.1 hn]

/-- One page: who is on it is met, nobody left out so far; on the last, nobody at all. -/
theorem ends_coveredPage (ht : EscrowState.Gapless t) (m : Nat) {needs : List KeyNeed} {more : Bool}
    {after : Int} :
    Ends (fun w => Covered f t keys after w ∧ m ≤ w.walked.length ∧
        (needs, more) = w.world.channelKeysNeeds f.env f.channelId f.uid after)
      (walkPage f.serverFill m needs)
      (fun _ w => Covered f t keys (upTo needs after) w ∧ w.report.pages = m + 1 ∧
        m ≤ w.walked.length ∧ (needs ≠ [] → m + 1 ≤ w.walked.length) ∧
        (more = true → needs ≠ []) ∧ (∀ last, needs.getLast? = some last → after < last.uid) ∧
        (more = false → ∀ v, Lacking f t w.world v → ∃ n ∈ w.walked, n.uid = v.1))
      (fun _ _ => True) := by
  rintro w ⟨hw, hm, hneeds⟩
  have hahead : Ahead f after t w.world := hw.inv.world
  have hpage := Tables.needs_of_gapless (hahead.gapless ht) f.env f.channelId f.uid after
  rw [← hneeds] at hpage
  have hlast : ∀ last, needs.getLast? = some last → after < last.uid :=
    fun last hlast => (hpage.sound last (mem_of_getLast? hlast)).1
  have hle : after ≤ upTo needs after := by
    rw [upTo]
    cases hl : needs.getLast? with
    | none => exact le_refl _
    | some last => exact le_of_lt (hlast last hl)
  have hbound := le_upTo hpage.sorted after
  -- What the needs say of the server holds of its tables when the walk began.
  have hneed : ∀ n ∈ needs, after < n.uid ∧ IsNeed f t n := by
    intro n hn
    obtain ⟨hafter, hpos, hself, hviewer, hepochs⟩ := hpage.sound n hn
    rw [hahead.channelViewers] at hviewer
    rw [hahead.lackedEpochs f.channelId hafter] at hepochs
    exact ⟨hafter, hpos, hself, hviewer, hepochs⟩
  have hgood : ∀ need ∈ needs, ∀ b : ChannelKeyBlob, b.recipientUid = need.uid →
      b.epoch ∈ need.epochs → Behind f t (upTo needs after) b := by
    intro need hn b huid hepoch
    obtain ⟨-, -, -, -, hepochs, -⟩ := hneed need hn
    rw [hepochs] at hepoch
    obtain ⟨hpos, hcur, -⟩ := Tables.mem_lackedEpochs.1 (mem_of_mem_take hepoch)
    exact ⟨huid ▸ hbound need hn, hpos, hcur⟩
  have hstart : WalkInv f.serverFill
      (fun t' => Ahead f (upTo needs after) t t' ∧ Ahead f (upTo needs after) w.world t')
      (Behind f t (upTo needs after)) keys [] w :=
    hw.inv.change ⟨hahead.mono hle, .refl f _ _⟩ fun b hb => ⟨hb.1.trans hle, hb.2⟩
  refine (ends_walkPage keys (serves ht (hahead.mono hle)) m hgood).conseq
    (fun _ => id) (fun _ w' hw' => ?_) (fun _ _ _ => trivial) w
    ⟨hstart, (⟨rfl, rfl, rfl⟩ : Stays w.walked (pagesAsked w.trace) w.report.pages w)⟩
  obtain ⟨hinv, hpending, hwalked, -, hpages⟩ := hw'
  have hmet : ∀ v, Lacking f t w'.world v → (∃ n ∈ w'.walked, n.uid = v.1) ∨
      more = true ∧ upTo needs after < v.1 := by
    rintro v ⟨hviewer, hpos, hself, hlacked, href⟩
    have hrefw : v.1 ∉ w.world.needsRefusing f.channelId f.uid :=
      fun h => href (hinv.world.2.refusing h)
    rw [hwalked]
    rcases lt_or_ge after v.1 with hafter | hafter
    · rcases hpage.complete v (by rw [hahead.channelViewers]; exact hviewer) hafter hpos hself
        (by rw [hahead.lackedEpochs f.channelId hafter]; exact hlacked) hrefw with
        ⟨n, hn, huid⟩ | ⟨hmore, hall⟩
      · exact .inl ⟨n, mem_append_right _ hn, huid⟩
      · refine .inr ⟨hmore, ?_⟩
        rw [upTo]
        cases hl : needs.getLast? with
        | none => exact hafter
        | some last => exact hall last (mem_of_getLast? hl)
    · obtain ⟨n, hn, huid⟩ := hw.complete v ⟨hviewer, hpos, hself, hlacked, hrefw⟩ hafter
      exact .inl ⟨n, mem_append_left _ hn, huid⟩
  refine ⟨⟨hinv.change hinv.world.1 fun _ => id, hpending, ?_, ?_, fun v hv hv' => ?_⟩, hpages, ?_,
    fun hne => ?_, hpage.progress, hlast, fun hmore v hv => ?_⟩
  · rw [hwalked]
    refine pairwise_append.2 ⟨hw.sorted, hpage.sorted, fun n hn n' hn' => ?_⟩
    exact lt_of_le_of_lt (hw.sound n hn).1 (hneed n' hn').1
  · rw [hwalked]
    intro n hn
    rcases mem_append.1 hn with hn | hn
    · exact ⟨(hw.sound n hn).1.trans hle, (hw.sound n hn).2⟩
    · exact ⟨hbound n hn, (hneed n hn).2⟩
  · exact (hmet v hv).resolve_right fun h => absurd hv' (Int.not_le.2 h.2)
  · rw [hwalked, length_append]
    omega
  · have hpos := length_pos_of_ne_nil hne
    rw [hwalked, length_append]
    omega
  · exact (hmet v hv).resolve_right fun h => by rw [hmore] at h; exact nomatch h.1

theorem needs_of_req {env : Tables.KeyEnv} {channelId : String} {uid : Uid} {after : Int}
    {page : List KeyNeed × Bool} (h : t.channelKeysReq env channelId uid after = some page)
    (hafter : 0 ≤ after) : page = t.channelKeysNeeds env channelId uid after := by
  rw [Tables.channelKeysReq] at h
  split at h
  · cases h
  split at h
  · cases h
  split at h
  · cases h
  split at h
  · next hneg => exact absurd hneg (not_lt.2 hafter)
  · cases h
    rfl

/-- Whoever lacked something was met, unless the walk had its fill of pages before. -/
def Met (f : Filler) (t : Tables) (keys : Nat → Option ChannelKey) (w : FillWalk Tables) : Prop :=
  (∃ bound, Covered f t keys bound w) ∧
    (∀ v, Lacking f t w.world v → (∃ n ∈ w.walked, n.uid = v.1) ∨
      w.report.pages = maxNeedsPages ∧ ∀ n ∈ w.walked, n.uid < v.1) ∧
    w.report.pages ≤ w.walked.length + 1

theorem ends_covers (keys : Nat → Option ChannelKey) (ht : EscrowState.Gapless t) :
    Ends (· = ({ world := t, keys } : FillWalk Tables))
      (walkPages f.serverFill 0 (t.channelKeysNeeds f.env f.channelId f.uid 0).1
        (t.channelKeysNeeds f.env f.channelId f.uid 0).2 0)
      (fun _ => Met f t keys) (fun _ _ => True) := by
  let I : Nat → List KeyNeed → Bool → Int → FillWalk Tables → Prop := fun m needs more after w =>
    (Covered f t keys after w ∧ m ≤ w.walked.length ∧
      (needs, more) = w.world.channelKeysNeeds f.env f.channelId f.uid after) ∧
      m < maxNeedsPages ∧ 0 ≤ after
  let J : Nat → List KeyNeed → Bool → Int → FillWalk Tables → Prop := fun m needs more after w =>
    (Covered f t keys (upTo needs after) w ∧ w.report.pages = m + 1 ∧
      m ≤ w.walked.length ∧ (needs ≠ [] → m + 1 ≤ w.walked.length) ∧
      (more = true → needs ≠ []) ∧ (∀ last, needs.getLast? = some last → after < last.uid) ∧
      (more = false → ∀ v, Lacking f t w.world v → ∃ n ∈ w.walked, n.uid = v.1)) ∧
      m < maxNeedsPages ∧ 0 ≤ after
  refine Ends.conseq (ends_walkPages (I := I) (J := J) (R := Met f t keys) (E := fun _ _ => True)
    ?_ ?_ ?_ 0 _ _ 0) ?_ (fun _ _ => id) fun _ _ => id
  · rintro m needs more after w ⟨hw, hm⟩
    exact (ends_coveredPage ht m).conseq (fun _ => id) (fun _ _ h => ⟨h, hm⟩) (fun _ _ => id) w hw
  · rintro m needs more after w ⟨⟨hw, hpages, hlen, -, hprogress, hlast, hall⟩, hm, -⟩ hend
    refine ⟨⟨_, hw⟩, fun v hv => ?_, by omega⟩
    cases more with
    | false => exact .inl (hall rfl v hv)
    | true =>
      -- There is more, and the page got somewhere: the walk had its fill of pages.
      have hne := hprogress rfl
      have hmax : ¬ (m + 1 < maxNeedsPages) := by
        rcases hend with hnil | hstop | ⟨last, hl, hle⟩
        · exact absurd hnil hne
        · exact fun hlt => hstop ⟨rfl, hlt⟩
        · exact absurd (hlast last hl) (Int.not_lt.2 hle)
      rcases lt_or_ge (upTo needs after) v.1 with hlt | hge
      · refine .inr ⟨by omega, fun n hn => ?_⟩
        exact lt_of_le_of_lt (hw.sound n hn).1 hlt
      · exact .inl (hw.complete v hv hge)
  · rintro m needs after last hlast hm hgt w ⟨⟨hw, -, -, hlen, -, -, -⟩, -, hafter⟩
    have hto : upTo needs after = last.uid := by
      rw [upTo, hlast]
      rfl
    rw [hto] at hw
    have hne : needs ≠ [] := fun hnil => by rw [hnil] at hlast; exact nomatch hlast
    -- Asking for the next page changes nothing on the server.
    have hserves := serves (f := f) ht hw.inv.world
    refine (ends_needsPage keys hserves last.uid).conseq (fun _ => id)
      (fun page w' hw' => ?_) (fun _ _ _ => trivial) w
      ⟨hw.inv.change ⟨hw.inv.world, .refl f _ _⟩ fun _ => id, hw.pending,
        (⟨rfl, rfl, rfl⟩ : Stays w.walked (pagesAsked w.trace) w.report.pages w)⟩
    obtain ⟨⟨hinv, hpending, failed, -, -, hwalked, -, -⟩, s, hs⟩ := hw'
    refine ⟨⟨⟨hinv.change hinv.world.1 fun _ => id, hpending, hwalked ▸ hw.sorted,
      hwalked ▸ hw.sound, fun v hv hle => ?_⟩, hwalked ▸ hlen hne, ?_⟩, hm,
      hafter.trans hgt.le⟩
    · rw [hwalked]
      exact hw.complete v ⟨hv.1, hv.2.1, hv.2.2.1, hv.2.2.2.1,
        fun href => hv.2.2.2.2 (hinv.world.2.refusing href)⟩ hle
    · change f.needsAfter last.uid s = (.ok page, w'.world) at hs
      rw [Filler.needsAfter] at hs
      split at hs
      · next page' hreq =>
        cases hs
        exact needs_of_req hreq (hafter.trans hgt.le)
      · cases hs
  · rintro _ rfl
    refine ⟨⟨⟨?_, rfl, .nil, fun _ hn => absurd hn not_mem_nil, fun v hv hle => ?_⟩,
      Nat.zero_le _, rfl⟩, by decide, le_refl _⟩
    · exact {
        world := .refl f _ _
        good := fun _ hb => absurd hb not_mem_nil
        accounted := ⟨[], .refl _, fun _ hb => absurd hb not_mem_nil⟩
        still := fun _ => .inl rfl
        epochs := fun _ hp => absurd hp not_mem_nil
        sent := fun _ _ _ h => absurd h not_mem_nil
        replies := fun _ _ _ h => absurd h not_mem_nil
        failing := rfl
        looked := fun _ h => absurd h not_mem_nil
        exact := fun _ => rfl }
    · exact absurd hv.2.1 (Int.not_lt.2 hle)

/-! ## What one walk publishes -/

theorem sealed_sublist {w : FillWalk Tables} (hio : Serves f.serverFill (fun _ => True) fun _ => True)
    (hreplies : ∀ n held r, .sealTo n held r ∈ w.trace →
      ∃ s, r = (f.serverFill.sealTo n.username n.uid held s).1) :
    ((sealedBlobs w.trace).map fun b => (b.recipientUid, b.epoch)).Sublist
      ((asked w.trace).flatMap fun p => p.2.map fun q => (p.1.uid, q.1)) := by
  generalize w.trace = trace at hreplies
  induction trace with
  | nil => exact .refl _
  | cons event trace ih =>
    have ih := ih fun n held r hmem => hreplies n held r (.tail _ hmem)
    rw [sealedBlobs, asked, flatMap_cons, flatMap_cons, ← sealedBlobs, ← asked,
      map_append, flatMap_append]
    refine List.Sublist.append ?_ ih
    rcases event with ⟨_, _⟩ | ⟨n, held, r⟩ | ⟨_, _, _⟩
    · exact .refl _
    · rcases r with e | _ | blobs
      · exact nil_sublist _
      · exact nil_sublist _
      · obtain ⟨s, hs⟩ := hreplies n held _ (.head _)
        have heq := hio.seals _ _ _ s blobs hs.symm
        rw [flatMap_singleton]
        exact heq ▸ .refl _
    · exact .refl _

theorem sealTo_resolved {v : Uid} (hv : 0 < v) (hres : ∀ name content, (f.lookup v name content).isSome)
    (name : String) (held : List (Nat × ChannelKey)) (s : Tables) :
    ∃ blobs, (f.serverFill.sealTo name v held s).1 = .ok (some blobs) := by
  change ∃ blobs, (sealBlobsFor _ _ name v held s).1 = .ok (some blobs)
  rw [sealBlobsFor, if_neg (not_le.2 hv)]
  generalize ([] : List ChannelKeyBlob) = out
  induction held generalizing out with
  | nil => exact ⟨out, rfl⟩
  | cons p held ih =>
    obtain ⟨wire, hwire⟩ := Option.isSome_iff_exists.1
      (hres name (keyBlobContent f.channelId p.1 p.2))
    rw [sealBlobs, hwire]
    exact ih _

/-- What a fill published, in a walk in which no request failed. -/
structure FillsAll (f : Filler) (t : Tables) (keys : Nat → Option ChannelKey)
    (r : Except String FillReport × FillWalk Tables) : Prop where
  succeeds : ∃ report, r.1 = .ok report
  once : (pairs r.2.trace).Nodup
  /-- Only what is held of the first epochs a viewer lacks is published. -/
  only : ∀ p ∈ pairs r.2.trace, 0 < p.1 ∧ p.1 ≠ f.uid ∧
    (∃ name, (p.1, name) ∈ t.channelViewers f.env f.channelId) ∧
    p.2 ∈ (t.lackedEpochs f.channelId p.1).take Tables.maxNeededEpochs ∧ (keys p.2).isSome
  /-- And all of that, for every other account with an identity that gets the filler's blobs, up to
      the fill of pages. -/
  all : ∀ v ∈ t.channelViewers f.env f.channelId, 0 < v.1 → v.1 ≠ f.uid →
    (∀ name content, (f.lookup v.1 name content).isSome) →
    v.1 ∉ r.2.world.needsRefusing f.channelId f.uid →
    (r.2.report.pages < maxNeedsPages ∨ ∃ n ∈ r.2.walked, v.1 ≤ n.uid) →
    ∀ e ∈ (t.lackedEpochs f.channelId v.1).take Tables.maxNeededEpochs, (keys e).isSome →
      (v.1, e) ∈ pairs r.2.trace
  /-- The fill of pages takes as many viewers who lack something. -/
  few : ((t.channelViewers f.env f.channelId).filter fun v =>
    ! (t.lackedEpochs f.channelId v.1).isEmpty).length + 1 < maxNeedsPages →
      r.2.report.pages < maxNeedsPages
  sent : ∀ epoch blobs reply, .publish epoch blobs reply ∈ r.2.trace →
    blobs.length ≤ maxPublishBlobs

theorem failingRow_eq_zero {trace : List FillEvent} (h : NoFailure trace) :
    failingRow trace = 0 := by
  have hrow : ∀ n, n = 0 → trace.foldl rowAfter n = 0 := by
    induction trace with
    | nil => exact fun n hn => hn
    | cons event trace ih =>
      intro n hn
      refine ih (fun event hmem => h event (.tail _ hmem)) (rowAfter n event) ?_
      rcases event with ⟨_, _⟩ | ⟨_, _, _⟩ | ⟨epoch, blobs, r⟩
      · exact hn
      · exact hn
      · cases r with
        | ok res => rfl
        | error e => exact nomatch h _ (.head _)
  exact hrow 0 rfl

theorem flatMap_filter_held (keys : Nat → Option ChannelKey) (walked : List KeyNeed) :
    (((walked.map fun n => (n, heldOf keys n)).filter fun p => ! p.2.isEmpty).flatMap fun p =>
      p.2.map fun q => (p.1.uid, q.1)) =
      walked.flatMap fun n => (heldOf keys n).map fun q => (n.uid, q.1) := by
  induction walked with
  | nil => rfl
  | cons n walked ih =>
    rw [map_cons, filter_cons, flatMap_cons, ← ih]
    split
    · rw [flatMap_cons]
    · next hempty =>
      have hnil : heldOf keys n = [] := by simpa using hempty
      rw [hnil]
      rfl

theorem nodup_asked {walked : List KeyNeed} (hsorted : walked.Pairwise fun n n' => n.uid < n'.uid)
    (hepochs : ∀ n ∈ walked, n.epochs.Nodup) :
    (walked.flatMap fun n => (heldOf keys n).map fun q => (n.uid, q.1)).Nodup := by
  refine nodup_flatMap.2 ⟨fun n hn => ?_, hsorted.imp fun {n n'} hlt => ?_⟩
  · have hheld : ((heldOf keys n).map fun q => (n.uid, q.1)) =
        (n.epochs.filter fun e => (keys e).isSome).map fun e => (n.uid, e) := by
      rw [heldOf]
      induction n.epochs with
      | nil => rfl
      | cons e epochs ih =>
        rw [filterMap_cons, filter_cons]
        cases keys e with
        | none => exact ih
        | some k => exact congrArg _ ih
    rw [hheld]
    exact ((hepochs n hn).filter _).map fun _ _ heq => (Prod.mk.inj heq).2
  · intro p hp hp'
    obtain ⟨_, -, rfl⟩ := mem_map.1 hp
    obtain ⟨_, -, heq⟩ := mem_map.1 hp'
    exact absurd (Prod.mk.inj heq).1.symm (ne_of_lt hlt)

theorem fill_fillsAll (f : Filler) (ht : EscrowState.Gapless t) (keys : Nat → Option ChannelKey)
    (hok : NoFailure (f.fill keys t).2.trace) : FillsAll f t keys (f.fill keys t) := by
  have hserves : Serves f.serverFill (fun _ => True) fun _ => True :=
    ⟨fun _ _ _ _ _ h => sealBlobsFor_eq h, fun _ _ _ => trivial, fun _ _ _ _ _ => trivial,
      fun _ _ _ _ _ _ => trivial⟩
  have haccounts := walk_accounts hserves keys (t.channelKeysNeeds f.env f.channelId f.uid 0).1
    (t.channelKeysNeeds f.env f.channelId f.uid 0).2 t
  change Accounts keys _ (f.fill keys t) at haccounts
  have hsucceeds : ∃ report, (f.fill keys t).1 = .ok report := by
    cases hr : (f.fill keys t).1 with
    | ok report => exact ⟨report, rfl⟩
    | error e =>
      rcases haccounts.gave e hr with hrow | ⟨before, after, e, e', htrace⟩
      · rw [failingRow_eq_zero hok] at hrow
        exact absurd hrow (by decide)
      · have hanswered : answered (.needs after (.error e)) = true :=
          hok _ (htrace ▸ mem_append_right before (.head _))
        cases hanswered
  have hmet : Met f t keys (f.fill keys t).2 := by
    have hend := ends_covers (f := f) keys ht { world := t, keys } rfl
    obtain ⟨report, hreport⟩ := hsucceeds
    rw [Filler.fill, walkFill] at hreport ⊢
    dsimp only at hreport ⊢
    rcases hexec : Fallible.exec (walkPages f.serverFill 0
        (t.channelKeysNeeds f.env f.channelId f.uid 0).1
        (t.channelKeysNeeds f.env f.channelId f.uid 0).2 0) { world := t, keys } with ⟨e | u, w⟩
    · rw [hexec] at hreport
      cases hreport
    · rw [hexec] at hend
      exact hend
  obtain ⟨⟨bound, hcov⟩, hall, hpages⟩ := hmet
  generalize f.fill keys t = r at hok haccounts hcov hall hpages hsucceeds
  obtain ⟨res, w⟩ := r
  dsimp only at hok hcov hall hpages
  have hnone : ∀ e, ¬ Refused w.trace e := by
    rintro e ⟨blobs, res, hmem, hfail, -⟩
    have hlanded : res.success = true := hok _ hmem
    rw [hfail] at hlanded
    cases hlanded
  -- What was published is what was sealed, and that is some of what was asked for.
  have hpub : (pairs w.trace).Perm ((sealedBlobs w.trace).map fun b => (b.recipientUid, b.epoch)) := by
    obtain ⟨dropped, hperm, hdropped⟩ := hcov.inv.accounted
    have hnil : dropped = [] := eq_nil_iff_forall_not_mem.2 fun b hb =>
      hnone _ (hdropped b hb)
    rw [hcov.pending, hnil] at hperm
    have hsame : (published w.trace).Perm (sealedBlobs w.trace) := by simpa using hperm.symm
    exact hsame.map _
  have hsub := sealed_sublist hserves hcov.inv.replies
  rw [hcov.inv.exact hnone, flatMap_filter_held] at hsub
  have hneed : ∀ n ∈ w.walked, IsNeed f t n := fun n hn => (hcov.sound n hn).2
  have hepochs : ∀ n ∈ w.walked, n.epochs.Nodup := by
    intro n hn
    rw [(hneed n hn).2.2.2.1]
    exact (Tables.nodup_lackedEpochs t f.channelId n.uid).sublist (take_sublist _ _)
  refine ⟨hsucceeds, ?_, fun p hp => ?_, fun v hv hpos hself hres href hpages' e he hk => ?_,
    fun hfew => ?_, fun epoch blobs reply h => (haccounts.sent epoch blobs reply h).2⟩
  · exact hpub.nodup_iff.2 ((nodup_asked hcov.sorted hepochs).sublist hsub)
  · obtain ⟨n, hn, hp⟩ := mem_flatMap.1 (hsub.subset (hpub.mem_iff.1 hp))
    obtain ⟨⟨e, k⟩, hheld, rfl⟩ := mem_map.1 hp
    obtain ⟨he, hk⟩ := mem_heldOf.1 hheld
    obtain ⟨hpos, hself, hviewer, hlacked, -⟩ := hneed n hn
    exact ⟨hpos, hself, ⟨_, hviewer⟩, hlacked ▸ he, Option.isSome_iff_exists.2 ⟨k, hk⟩⟩
  · have hlacked : t.lackedEpochs f.channelId v.1 ≠ [] := by
      intro hnil
      rw [hnil] at he
      exact absurd he not_mem_nil
    obtain ⟨n, hn, huid⟩ : ∃ n ∈ w.walked, n.uid = v.1 := by
      refine (hall v ⟨hv, hpos, hself, hlacked, href⟩).resolve_right ?_
      rintro ⟨hfull, hbeyond⟩
      rcases hpages' with hlt | ⟨n, hn, hle⟩
      · exact absurd hfull (Nat.ne_of_lt hlt)
      · exact absurd hle (not_le.2 (hbeyond n hn))
    obtain ⟨k, hk⟩ := Option.isSome_iff_exists.1 hk
    have hmem : e ∈ n.epochs := by
      rw [(hneed n hn).2.2.2.1, huid]
      exact he
    obtain ⟨held, r, hseal, hheld⟩ := (hcov.inv.looked n hn e hmem k hk).resolve_left (hnone e)
    obtain ⟨s, hs⟩ := hcov.inv.replies n held r hseal
    obtain ⟨blobs, hblobs⟩ := sealTo_resolved (f := f) (hneed n hn).1 (huid ▸ hres) n.username held s
    rw [hblobs] at hs
    subst hs
    have hpair : (n.uid, e) ∈ blobs.map fun b => (b.recipientUid, b.epoch) := by
      rw [hserves.seals _ _ _ s blobs hblobs]
      exact mem_map.2 ⟨(e, k), hheld, rfl⟩
    obtain ⟨b, hb, heq⟩ := mem_map.1 hpair
    rw [← huid]
    exact hpub.mem_iff.2 (heq ▸ mem_map_of_mem (mem_flatMap.2 ⟨_, hseal, hb⟩))
  · -- Everybody walked is one of those who lack something.
    have huids : (w.walked.map (·.uid)).Nodup :=
      (pairwise_map.2 hcov.sorted).imp fun h => ne_of_lt h
    have hsubset : w.walked.map (·.uid) ⊆ ((t.channelViewers f.env f.channelId).filter fun v =>
        ! (t.lackedEpochs f.channelId v.1).isEmpty).map (·.1) := by
      intro u hu
      obtain ⟨n, hn, rfl⟩ := mem_map.1 hu
      obtain ⟨-, -, hviewer, hlacked, hne⟩ := hneed n hn
      refine mem_map.2 ⟨_, mem_filter.2 ⟨hviewer, ?_⟩, rfl⟩
      rw [Bool.not_eq_true', isEmpty_eq_false_iff]
      intro hnil
      rw [hnil, take_nil] at hlacked
      exact hne hlacked
    have hlength := (subperm_of_subset huids hsubset).length_le
    rw [length_map, length_map] at hlength
    change w.report.pages < maxNeedsPages
    omega

/-- A fill covers everyone. When no request fails one walk publishes for every viewer each of the
    first epochs they lack that the filler holds, once; it leaves out only who refused the filler's
    blobs while another holds the epoch, and who comes after a thousand pages. Whatever the network
    answers a walk ends, and a failure costs what it touched, unless publishes keep failing or a
    page is lost. -/
theorem key_fill_covers :
    (∀ (f : Filler) (t : Tables) (keys : Nat → Option ChannelKey), EscrowState.Gapless t →
      NoFailure (f.fill keys t).2.trace → FillsAll f t keys (f.fill keys t)) ∧
    ∀ (σ : Type) (sealOutboundRaw : Uid → String → Bytes → σ → Except String (Option Bytes) × σ)
      (channelId : String) (needsAfter : Int → σ → Except String (List KeyNeed × Bool) × σ)
      (publish : Nat → List ChannelKeyBlob → σ → Except String ChannelKeysPublishRes × σ)
      (keys : Nat → Option ChannelKey) (first : List KeyNeed) (more : Bool) (world : σ),
      Accounts keys first (walkFill (netFill sealOutboundRaw channelId needsAfter publish) keys first
        more world) := by
  refine ⟨fun f t keys ht hok => fill_fillsAll f ht keys hok, fun σ sealOutboundRaw channelId
    needsAfter publish keys first more world => walk_accounts ?_ keys first more world⟩
  exact ⟨fun _ _ _ _ _ h => sealBlobsFor_eq h, fun _ _ _ => trivial, fun _ _ _ _ _ => trivial,
    fun _ _ _ _ _ _ => trivial⟩

/-! ## Runs -/

/-- Everybody sees every channel, all encrypted, and has an identity. -/
def openFiller : Filler where
  env := {
    getChannel := fun id => some { id, name := [], type := .text, position := 0, encrypted := true }
    views := fun _ _ => true
    now := 0 }
  channelId := "vault"
  uid := 1
  username := "ann"
  lookup _ _ _ := some [7]

/-- Three members, one epoch; the third holds it too or nobody, and the second refused the first's
    blobs or did not. -/
def oneEpoch (shared refused : Bool) : Tables where
  members := ((Table.empty.upsert { uid := 1, username := "ann", joinedAt := 0 }).upsert
    { uid := 2, username := "bob", joinedAt := 0 }).upsert
    { uid := 3, username := "cat", joinedAt := 0 }
  keyEpochs := Table.empty.insertOrIgnore { channelId := "vault", epoch := 1, createdByUid := 1 }
  keyBlobs :=
    let own : Table (fun r : DbKeyBlob => (r.channelId, r.epoch, r.recipientUid)) :=
      Table.empty.insertOrIgnore
        { channelId := "vault", epoch := 1, recipientUid := 1, senderUid := 1 }
    if shared then own.insertOrIgnore
      { channelId := "vault", epoch := 1, recipientUid := 3, senderUid := 1 } else own
  keyRefusals := if refused then Table.empty.insertOrIgnore
    { channelId := "vault", recipientUid := 2, senderUid := 1, createdAt := 0 } else .empty

def oneKey (e : Nat) : Option ChannelKey := if e = 1 then some (.replicate 32 5) else none

theorem gapless_oneEpoch (shared refused : Bool) : EscrowState.Gapless (oneEpoch shared refused) := by
  have hepochs : ∀ channelId, (oneEpoch shared refused).epochsOf channelId =
      if "vault" = channelId then [1] else [] := by
    intro channelId
    change List.map _ (List.filter _ [({ channelId := "vault", epoch := 1, createdByUid := 1 } :
      DbKeyEpoch)]) = _
    rw [filter_cons]
    by_cases h : "vault" = channelId
    · rw [if_pos (decide_eq_true h), if_pos h]
      rfl
    · rw [if_neg (by simpa using h), if_neg h]
      rfl
  have hblobs : ∀ b ∈ (oneEpoch shared refused).keyBlobs.rows,
      b.channelId = "vault" ∧ b.epoch = 1 := by
    cases shared <;> cases refused <;> decide +kernel
  refine ⟨fun channelId e => ?_, fun b hb => ?_⟩
  · rw [Tables.channelKeyCurrentEpoch, hepochs]
    by_cases h : "vault" = channelId
    · rw [if_pos h, mem_singleton]
      change e = 1 ↔ 1 ≤ e ∧ e ≤ 1
      omega
    · rw [if_neg h]
      change e ∈ [] ↔ 1 ≤ e ∧ e ≤ 0
      exact ⟨fun he => absurd he not_mem_nil, fun he => by omega⟩
  · obtain ⟨hch, he⟩ := hblobs b hb
    rw [hepochs, hch, he]
    exact mem_singleton_self _

/-- Both others lack the epoch, and get it. -/
theorem key_fill_covers_two : (2, 1) ∈ pairs (openFiller.fill oneKey (oneEpoch false false)).2.trace :=
  (key_fill_covers.1 openFiller (oneEpoch false false) oneKey (gapless_oneEpoch false false)
    (by decide +kernel)).all (2, "bob") (by decide +kernel) (by decide) (by decide)
    (fun _ _ => rfl) (by decide +kernel) (.inl (by decide +kernel)) 1 (by decide +kernel) rfl

/-- Nothing gets through but identities. -/
def deadNetwork : FillIo Unit :=
  netFill (fun _ _ _ s => (.ok (some [7]), s)) "vault" (fun _ s => (.error "timed out", s))
    fun _ _ s => (.error "timed out", s)

/-- Who refused the filler's blobs is left out while another holds the epoch; after three failed
    publishes the walk gives up, and leaves a pair out that was in none. -/
theorem fill_leaves_out :
    (EscrowState.Gapless (oneEpoch true true) ∧
      NoFailure (openFiller.fill oneKey (oneEpoch true true)).2.trace ∧
      (2, "bob") ∈ (oneEpoch true true).channelViewers openFiller.env "vault" ∧
      1 ∈ (oneEpoch true true).lackedEpochs "vault" 2 ∧ (oneKey 1).isSome ∧
      (2, 1) ∉ pairs (openFiller.fill oneKey (oneEpoch true true)).2.trace) ∧
    pairs (walkFill deadNetwork (fun _ => oneKey 1) [⟨"bob", 2, [1, 2, 3, 4]⟩] false ()).2.trace =
      [(2, 1), (2, 2), (2, 3)] := by
  refine ⟨⟨gapless_oneEpoch true true, ?_, ?_, ?_, rfl, ?_⟩, ?_⟩
  · decide +kernel
  · decide +kernel
  · decide +kernel
  · decide +kernel
  · decide +kernel

end FillWalk
end Decibell
