import Decibell.Community.Search
import Decibell.Lib.Ordering

/-!
# Search results, page by page

Whichever index a search walks, following its pages gives the messages that it is for.

* `MessageSearchRequest.Wants`: what a request asks of a message, whatever the index;
* `mem_selectIds`: the rows of a statement are those of the messages wanted.
-/

namespace Decibell

open Lib List

/-! ## Dates as ids -/

/-- Messages have positive ids, and newer ones have greater ids. -/
structure Chronological (t : Tables) : Prop where
  positive : ∀ m ∈ t.messages.rows, 0 < m.id
  grows : ∀ m ∈ t.messages.rows, ∀ m' ∈ t.messages.rows, m.id ≤ m'.id → m.timestamp ≤ m'.timestamp

namespace Tables

variable {t : Tables}

/-- A probe finds a message from the id on with none before, or there is none. -/
theorem probe_cases (t : Tables) (id : Int) :
    (t.probe id = none ∧ ∀ m ∈ t.messages.rows, m.id < id) ∨
    ∃ m, t.probe id = some m ∧ m ∈ t.messages.rows ∧ id ≤ m.id ∧
      ∀ m' ∈ t.messages.rows, id ≤ m'.id → m.id ≤ m'.id := by
  have hmem : ∀ m, m ∈ t.messages.rows.insertionSort (·.id ≤ ·.id) ↔ m ∈ t.messages.rows :=
    fun m => mem_insertionSort _
  cases h : t.probe id with
  | none =>
    refine .inl ⟨rfl, fun m hm => ?_⟩
    have hnot := find?_eq_none.1 h m ((hmem m).2 hm)
    simpa using hnot
  | some m =>
    obtain ⟨hle, before, after, hsplit, hbefore⟩ := find?_eq_some_iff_append.1 h
    refine .inr ⟨m, rfl, ?_, of_decide_eq_true hle, fun m' hm' hid => ?_⟩
    · rw [← hmem, hsplit]
      exact mem_append_right before (.head after)
    · have htotal : Std.Total fun a b : DbMessage => a.id ≤ b.id := ⟨fun a b => le_total a.id b.id⟩
      have htrans : IsTrans DbMessage fun a b => a.id ≤ b.id := ⟨fun _ _ _ => le_trans⟩
      have hsorted := pairwise_insertionSort (fun a b : DbMessage => a.id ≤ b.id) t.messages.rows
      rw [hsplit, pairwise_append, pairwise_cons] at hsorted
      have hin := (hmem m').2 hm'
      rw [hsplit, mem_append, mem_cons] at hin
      rcases hin with hb | rfl | ha
      · have hlt := hbefore m' hb
        simp at hlt
        omega
      · exact le_refl _
      · exact hsorted.2.1.1 m' ha

theorem bisect_spec (h : Chronological t) (ts lo hi : Int)
    (hlo : ∀ m ∈ t.messages.rows, m.id < lo → m.timestamp < ts)
    (hhi : ∀ m ∈ t.messages.rows, hi ≤ m.id → ts ≤ m.timestamp) :
    ∀ m ∈ t.messages.rows, t.bisect ts lo hi ≤ m.id ↔ ts ≤ m.timestamp := by
  fun_induction t.bisect ts lo hi with
  | case1 lo hi hlt mid hp ih =>
    refine ih hlo fun m hm hmid => ?_
    rcases t.probe_cases mid with ⟨-, hnone⟩ | ⟨m', hm', -⟩
    · have hbelow := hnone m hm
      omega
    · rw [hp] at hm'
      exact absurd hm' nofun
  | case2 lo hi hlt mid m hp hts ih =>
    refine ih hlo fun m' hm' hmid => ?_
    rcases t.probe_cases mid with ⟨hnone, -⟩ | ⟨m₁, hsome, hmem, -, hfirst⟩
    · rw [hp] at hnone
      exact absurd hnone nofun
    · rw [hp] at hsome
      cases hsome
      exact hts.trans (h.grows m hmem m' hm' (hfirst m' hm' hmid))
  | case3 lo hi hlt mid m hp hts ih =>
    refine ih (fun m' hm' hid => ?_) hhi
    rcases t.probe_cases mid with ⟨hnone, -⟩ | ⟨m₁, hsome, hmem, -⟩
    · rw [hp] at hnone
      exact absurd hnone nofun
    · rw [hp] at hsome
      cases hsome
      exact (h.grows m' hm' m hmem (by omega)).trans_lt (not_le.1 hts)
  | case4 lo hi hge =>
    intro m hm
    constructor
    · exact fun hle => hhi m hm (by omega)
    · intro hts
      by_contra hlt
      exact absurd (hlo m hm (not_le.1 hlt)) (not_lt.2 hts)

theorem firstIdAtOrAfter_spec (h : Chronological t) (ts : Int) :
    match t.firstIdAtOrAfter ts with
    | none => ∀ m ∈ t.messages.rows, m.timestamp < ts
    | some f => 0 < f ∧ ∀ m ∈ t.messages.rows, f ≤ m.id ↔ ts ≤ m.timestamp := by
  unfold firstIdAtOrAfter
  cases hmin : t.messages.keys.min? with
  | none => 
    have hnil : t.messages.keys = [] := min?_eq_none_iff.1 hmin
    intro m hm
    have hkey : m.id ∈ t.messages.keys := mem_map_of_mem hm
    rw [hnil] at hkey
    exact absurd hkey not_mem_nil
  | some minId =>
    cases hmax : t.messages.keys.max? with
    | none =>
      have hnil : t.messages.keys = [] := max?_eq_none_iff.1 hmax
      rw [hnil] at hmin
      exact absurd hmin nofun
    | some maxId =>
      have hle : ∀ m ∈ t.messages.rows, minId ≤ m.id ∧ m.id ≤ maxId := fun m hm =>
        ⟨(min?_eq_some_iff.1 hmin).2 m.id (mem_map_of_mem hm),
          (max?_eq_some_iff.1 hmax).2 m.id (mem_map_of_mem hm)⟩
      have hspec := bisect_spec h ts minId (maxId + 1)
        (fun m hm hlt => absurd (hle m hm).1 (not_le.2 hlt))
        (fun m hm hge => absurd (hle m hm).2 (by omega))
      dsimp only
      generalize t.bisect ts minId (maxId + 1) = lo at *
      split
      · rename_i heq
        split at heq
        · rename_i hgt
          intro m hm
          refine not_le.1 fun hts => ?_
          have hlo := (hspec m hm).2 hts
          have hmaxle := (hle m hm).2
          omega
        · rename_i hgt
          obtain ⟨m, hm, hid⟩ := mem_map.1 (max?_eq_some_iff.1 hmax).1
          rcases t.probe_cases lo with ⟨-, hnone⟩ | ⟨m₁, hsome, -⟩
          · have hbelow := hnone m hm
            omega
          · rw [hsome] at heq
            exact absurd heq nofun
      · rename_i f heq
        split at heq
        · exact absurd heq nofun
        · rcases t.probe_cases lo with ⟨hnone, -⟩ | ⟨m₁, hsome, hmem, hlo, hfirst⟩
          · rw [hnone] at heq
            exact absurd heq nofun
          · rw [hsome, Option.map_some, Option.some_inj] at heq
            subst heq
            refine ⟨h.positive m₁ hmem, fun m hm => ?_⟩
            rw [← hspec m hm]
            exact ⟨hlo.trans, hfirst m hm⟩

end Tables

namespace SearchSpec

variable {t : Tables} {m : DbMessage}

theorem minBound_spec (h : Chronological t) (s : SearchSpec) (hm : m ∈ t.messages.rows)
    (hdates : s.InDates m) : ∃ minId, s.minBound t = some minId ∧ (minId > 0 → m.id ≥ minId) := by
  unfold minBound
  split
  · rename_i hafter
    have hspec := Tables.firstIdAtOrAfter_spec h s.after
    cases hf : t.firstIdAtOrAfter s.after with
    | none =>
      rw [hf] at hspec
      exact absurd (hdates.1 hafter) (not_le.2 (hspec m hm))
    | some f =>
      rw [hf] at hspec
      refine ⟨f, by rw [Option.map_some, if_pos hspec.1], fun _ => ?_⟩
      exact (hspec.2 m hm).2 (hdates.1 hafter)
  · exact ⟨0, rfl, fun hpos => absurd hpos (lt_irrefl 0)⟩

theorem maxBound_spec (h : Chronological t) (s : SearchSpec) (hm : m ∈ t.messages.rows)
    (hdates : s.InDates m) : ∃ maxId, s.maxBound t = some maxId ∧ (maxId > 0 → m.id ≤ maxId) := by
  unfold maxBound
  split
  · rename_i hbefore
    have hspec := Tables.firstIdAtOrAfter_spec h s.before
    cases hf : t.firstIdAtOrAfter s.before with
    | none => exact ⟨0, rfl, fun hpos => absurd hpos (lt_irrefl 0)⟩
    | some f =>
      rw [hf] at hspec
      have hlt : m.id < f := by
        refine not_le.1 fun hle => ?_
        exact absurd ((hspec.2 m hm).1 hle) (not_le.2 (hdates.2 hbefore))
      have hpos := h.positive m hm
      dsimp only
      rw [if_pos hspec.1, if_neg (by omega)]
      exact ⟨f - 1, rfl, fun _ => by omega⟩
  · exact ⟨0, rfl, fun hpos => absurd hpos (lt_irrefl 0)⟩

theorem bounds_spec (h : Chronological t) (s : SearchSpec) (hm : m ∈ t.messages.rows)
    (hdates : s.InDates m) : ∃ minId maxId, s.bounds t = some (minId, maxId) ∧
      (minId > 0 → m.id ≥ minId) ∧ (maxId > 0 → m.id ≤ maxId) := by
  obtain ⟨minId, hminId, hge⟩ := minBound_spec h s hm hdates
  obtain ⟨maxId, hmaxId, hle⟩ := maxBound_spec h s hm hdates
  refine ⟨minId, maxId, ?_, hge, hle⟩
  rw [bounds, hminId, hmaxId]
  dsimp only
  rw [if_neg]
  rintro ⟨hmin, hmax, hgt⟩
  have hlower := hge hmin
  have hupper := hle hmax
  omega

end SearchSpec

/-! ## What a search is for -/

variable {Score : Type} (fts : Fts5 Score) (db : SearchDb)

def SearchDb.Indexed (expr : Bytes) (m : DbMessage) : Prop :=
  ∃ d ∈ db.messagesFts.rows, d.rowid = m.id ∧ fts.isMatch expr d

/-- A text channel the requester can read, and all the filters set. -/
structure MessageSearchRequest.Wants (env : SearchEnv) (req : MessageSearchRequest)
    (m : DbMessage) : Prop where
  channel : ∃ c ∈ db.tables.channels.rows, c.id = m.channelId ∧ c.type = .text ∧
    (req.channelIds = [] ∨ c.id ∈ req.channelIds) ∧ env.MayRead c.id ∧
    ¬ (req.isTextual ∧ c.encrypted)
  words : req.expr ≠ [] → db.Indexed fts req.expr m
  sender : (∀ uid ∈ req.authorUids, uid = 0) ∨ m.senderUid ∈ req.people
  after : req.after > 0 → req.after ≤ m.timestamp
  before : req.before > 0 → m.timestamp < req.before
  file : req.knownHas &&& SearchHas.kFile ≠ 0 → ∃ a ∈ db.tables.attachments.rows, a.messageId = m.id
  kinds : ∀ kb ∈ SearchHas.kindBits, req.knownHas &&& kb.1 ≠ 0 →
    ∃ a ∈ db.tables.attachments.rows, a.messageId = m.id ∧ a.kind = kb.2
  link : req.knownHas &&& SearchHas.kLink ≠ 0 →
    instr m.content (utf8 "http://") ∨ instr m.content (utf8 "https://")
  plain : req.searchWords.contains ≠ [] ∨ req.searchWords.excludes ≠ [] → m.envelope = none
  contains : ∀ f ∈ req.searchWords.contains, db.tables.hasFragment m f
  excludes : ∀ f ∈ req.searchWords.excludes, ¬ db.tables.hasFragment m f

namespace SearchSpec

variable (s : SearchSpec)

/-- What a search asks of a message, whatever index it walks. -/
def Satisfies (m : DbMessage) : Prop :=
  m.channelId ∈ s.channels ∧
  (s.expr ≠ [] → db.Indexed fts s.expr m) ∧
  (s.authorUids ≠ [] → m.senderUid ∈ s.authorUids) ∧
  s.InDates m ∧
  s.Has db.tables m false none

instance (m : DbMessage) : Decidable (s.Satisfies fts db m) :=
  have : Decidable (db.Indexed fts s.expr m) :=
    inferInstanceAs (Decidable (∃ d ∈ db.messagesFts.rows, d.rowid = m.id ∧ fts.isMatch s.expr d))
  inferInstanceAs (Decidable (_ ∧ _))

end SearchSpec

variable {fts db}

theorem Tables.hasAttachment_iff {t : Tables} {m : DbMessage} {p : DbAttachment → Bool} :
    t.hasAttachment m p ↔ ∃ a ∈ t.attachments.rows, a.messageId = m.id ∧ p a := by
  simp [Tables.hasAttachment]

theorem satisfies_spec (env : SearchEnv) (req : MessageSearchRequest) (m : DbMessage) :
    (req.spec db.tables env).Satisfies fts db m ↔ req.Wants fts db env m := by
  have hchannel : m.channelId ∈ (req.spec db.tables env).channels ↔
      ∃ c ∈ db.tables.channels.rows, c.id = m.channelId ∧ c.type = .text ∧
        (req.channelIds = [] ∨ c.id ∈ req.channelIds) ∧ env.MayRead c.id ∧
        ¬ (req.isTextual ∧ c.encrypted) := by
    simp only [MessageSearchRequest.spec, MessageSearchRequest.readable, mem_map,
      mem_filter, Bool.not_eq_true', Bool.and_eq_false_iff, decide_eq_true_eq, not_and_or,
      Bool.not_eq_true]
    constructor
    · rintro ⟨c, ⟨⟨hc, htype, hasked, hread⟩, hplain⟩, hid⟩
      exact ⟨c, hc, hid, htype, hasked, hread, hplain⟩
    · rintro ⟨c, hc, hid, htype, hasked, hread, hplain⟩
      exact ⟨c, ⟨⟨hc, htype, hasked, hread⟩, hplain⟩, hid⟩
  have hauthors : ∀ uid, uid ∈ (req.spec db.tables env).authorUids ↔ uid ∈ req.people := by
    intro uid
    simp [MessageSearchRequest.spec]
  have hnone : (req.spec db.tables env).authorUids = [] ↔ ∀ uid ∈ req.authorUids, uid = 0 := by
    simp only [eq_nil_iff_forall_not_mem, hauthors, MessageSearchRequest.people,
      mem_filter, decide_eq_true_eq, not_and, not_not, ne_eq]
  constructor
  · rintro ⟨hch, hwords, hsender, ⟨hafter, hbefore⟩, hfile, hkinds, hplain, hcontains, hexcludes, hlink⟩
    exact {
      channel := hchannel.1 hch
      words := hwords
      sender := by
        by_cases hempty : (req.spec db.tables env).authorUids = []
        · exact .inl (hnone.1 hempty)
        · exact .inr ((hauthors _).1 (hsender hempty))
      after := hafter
      before := hbefore
      file := fun hbit => by
        obtain ⟨a, ha, hid, -⟩ := Tables.hasAttachment_iff.1 (hfile ⟨hbit, rfl⟩)
        exact ⟨a, ha, hid⟩
      kinds := fun kb hkb hbit => by
        obtain ⟨a, ha, hid, hkind⟩ := Tables.hasAttachment_iff.1 (hkinds kb hkb ⟨hbit, nofun⟩)
        exact ⟨a, ha, hid, of_decide_eq_true hkind⟩
      link := hlink
      plain := hplain
      contains := hcontains
      excludes := hexcludes }
  · intro h
    refine ⟨hchannel.2 h.channel, h.words, fun hne => ?_, ⟨h.after, h.before⟩, fun hbit => ?_,
      fun kb hkb hbit => ?_, h.plain, h.contains, h.excludes, h.link⟩
    · exact (hauthors _).2 (h.sender.resolve_left fun hzero => hne (hnone.2 hzero))
    · obtain ⟨a, ha, hid⟩ := h.file hbit.1
      exact Tables.hasAttachment_iff.2 ⟨a, ha, hid, rfl⟩
    · obtain ⟨a, ha, hid, hkind⟩ := h.kinds kb hkb hbit.1
      exact Tables.hasAttachment_iff.2 ⟨a, ha, hid, decide_eq_true hkind⟩

/-! ## The drivers -/

namespace SearchSpec

variable {s : SearchSpec}

def Picks (fts : Fts5 Score) (db : SearchDb) (s : SearchSpec) (m : DbMessage) : Prop :=
  match s.driver with
  | .fts => db.Indexed fts s.expr m
  | .author => m.senderUid ∈ s.authorUids
  | .files => db.tables.hasAttachment m fun a => s.driverKind.all (a.kind = ·)
  | .channel => s.channels.head? = some m.channelId
  | .scan => True

theorem mem_driverRows (h : Chronological db.tables) {m : DbMessage} :
    m ∈ driverRows fts db s ↔ m ∈ db.tables.messages.rows ∧ s.Picks fts db m := by
  unfold driverRows Picks
  cases s.driver with
  | fts =>
    simp only [mem_filterMap, mem_filter, Table.find?_eq_some, SearchDb.Indexed]
    constructor
    · rintro ⟨d, ⟨hd, hmatch⟩, hm, hid⟩
      exact ⟨hm, d, hd, hid.symm, hmatch⟩
    · rintro ⟨hm, d, hd, hid, hmatch⟩
      exact ⟨d, ⟨hd, hmatch⟩, hm, hid.symm⟩
  | author => simp
  | files =>
    simp only [mem_filterMap, mem_filter, Table.find?_eq_some, Tables.hasAttachment_iff,
      Bool.and_eq_true, decide_eq_true_eq]
    constructor
    · rintro ⟨a, ⟨ha, -, hkind⟩, hm, hid⟩
      exact ⟨hm, a, ha, hid.symm, hkind⟩
    · rintro ⟨hm, a, ha, hid, hkind⟩
      exact ⟨a, ⟨ha, hid ▸ h.positive m hm, hkind⟩, hm, hid.symm⟩
  | channel => simp
  | scan => simp

theorem driver_eq_fts : s.driver = .fts ↔ s.expr ≠ [] := by
  unfold driver
  split_ifs <;> simp [*]

theorem authorUids_of_driver (h : s.driver = .author) : s.authorUids ≠ [] := by
  unfold driver at h
  split_ifs at h
  assumption

theorem files_of_driver (h : s.driver = .files) : s.has &&& SearchHas.files ≠ 0 := by
  unfold driver at h
  split_ifs at h
  assumption

theorem channels_of_driver (h : s.driver = .channel) : ∃ c, s.channels = [c] := by
  unfold driver at h
  split_ifs at h
  exact length_eq_one_iff.1 ‹_›

theorem files_ne_zero : s.has &&& SearchHas.files ≠ 0 ↔
    s.has &&& SearchHas.kFile ≠ 0 ∨ ∃ kb ∈ SearchHas.kindBits, s.has &&& kb.1 ≠ 0 := by
  rw [SearchHas.files]
  simp only [BitVec.and_or_distrib_left, BitVec.ofNat_eq_ofNat, BitVec.or_eq_zero_iff, ne_eq,
    not_and_or, SearchHas.kindBits, exists_mem_cons_iff, not_mem_nil, false_and,
    exists_false, or_false]
  tauto

theorem driverKind_cases (h : s.driver = .files) :
    (s.driverKind = none ∧ s.has &&& SearchHas.kFile ≠ 0) ∨
    ∃ kb ∈ SearchHas.kindBits, s.has &&& kb.1 ≠ 0 ∧ s.driverKind = some kb.2 := by
  unfold driverKind
  rw [if_pos h]
  cases hkb : SearchHas.kindBits.find? fun kb => s.has &&& kb.1 ≠ 0 with
  | none =>
    refine .inl ⟨rfl, (files_ne_zero.1 (files_of_driver h)).resolve_right ?_⟩
    rintro ⟨kb, hmem, hbit⟩
    exact find?_eq_none.1 hkb kb hmem (decide_eq_true hbit)
  | some kb =>
    have hbit := find?_some hkb
    exact .inr ⟨kb, mem_of_find?_eq_some hkb, of_decide_eq_true hbit, rfl⟩

theorem has_iff_of_files (h : s.driver = .files) (t : Tables) (m : DbMessage) :
    (t.hasAttachment m (fun a => s.driverKind.all (a.kind = ·)) ∧ s.Has t m true s.driverKind) ↔
      s.Has t m false none := by
  constructor
  · rintro ⟨hpicked, -, hkinds, hrest⟩
    obtain ⟨a, ha, hid, hkind⟩ := Tables.hasAttachment_iff.1 hpicked
    refine ⟨fun _ => Tables.hasAttachment_iff.2 ⟨a, ha, hid, rfl⟩, fun kb hkb hbit => ?_, hrest⟩
    by_cases hpick : some kb.2 = s.driverKind
    · rw [← hpick] at hkind
      exact Tables.hasAttachment_iff.2 ⟨a, ha, hid, hkind⟩
    · exact hkinds kb hkb ⟨hbit.1, hpick⟩
  · rintro ⟨hfile, hkinds, hrest⟩
    refine ⟨?_, nofun, fun kb hkb hbit => hkinds kb hkb ⟨hbit.1, nofun⟩, hrest⟩
    rcases driverKind_cases h with ⟨hnone, hbit⟩ | ⟨kb, hkb, hbit, hsome⟩
    · rw [hnone]
      exact hfile ⟨hbit, rfl⟩
    · rw [hsome]
      exact hkinds kb hkb ⟨hbit, nofun⟩

theorem has_iff (t : Tables) (m : DbMessage) :
    ((s.driver = .files → t.hasAttachment m fun a => s.driverKind.all (a.kind = ·)) ∧
      s.Has t m (s.driver = .files) s.driverKind) ↔ s.Has t m false none := by
  by_cases hd : s.driver = .files
  · rw [decide_eq_true hd, ← has_iff_of_files hd]
    exact ⟨fun ⟨hpicked, hhas⟩ => ⟨hpicked hd, hhas⟩, fun ⟨hpicked, hhas⟩ => ⟨fun _ => hpicked, hhas⟩⟩
  · have hnone : s.driverKind = none := if_neg hd
    rw [decide_eq_false hd, hnone]
    exact ⟨And.right, fun hhas => ⟨fun hfiles => absurd hfiles hd, hhas⟩⟩

/-- Where a message goes in the results of a search. -/
def Precedes (s : SearchSpec) (a b : Int) : Prop := if s.oldest then a < b else a > b

instance : DecidableRel s.Precedes := fun _ _ => inferInstanceAs (Decidable (ite ..))

/-- Whichever the driver, the statement has the messages wanted, after the cursor. -/
theorem picks_checks_iff (h : Chronological db.tables) {m : DbMessage} {minId maxId : Int}
    (hm : m ∈ db.tables.messages.rows) (hbounds : s.bounds db.tables = some (minId, maxId)) :
    (s.Picks fts db m ∧ s.Checks db.tables minId maxId m) ↔
      s.Satisfies fts db m ∧ (¬ s.relevance ∧ s.cursor > 0 → s.Precedes s.cursor m.id) := by
  constructor
  · rintro ⟨hpicks, hch, hauthor, hdates, -, -, hcursor, hhas⟩
    refine ⟨⟨?_, fun hne => ?_, fun hne => ?_, hdates, (has_iff _ _).1 ⟨fun hd => ?_, hhas⟩⟩, hcursor⟩
    · by_cases hd : s.driver = .channel
      · rw [Picks, hd] at hpicks
        exact mem_of_mem_head? hpicks
      · exact hch hd
    · rw [Picks, driver_eq_fts.2 hne] at hpicks
      exact hpicks
    · by_cases hd : s.driver = .author
      · rw [Picks, hd] at hpicks
        exact hpicks
      · exact hauthor ⟨hd, hne⟩
    · rw [Picks, hd] at hpicks
      exact hpicks
  · rintro ⟨⟨hch, hwords, hauthor, hdates, hhas⟩, hcursor⟩
    obtain ⟨hpicked, hhas⟩ := (has_iff _ _).2 hhas
    obtain ⟨_, _, hsome, hmin, hmax⟩ := bounds_spec h s hm hdates
    rw [hbounds] at hsome
    cases hsome
    refine ⟨?_, fun _ => hch, fun hne => hauthor hne.2, hdates, hmin, hmax, hcursor, hhas⟩
    unfold Picks
    cases hd : s.driver with
    | fts => exact hwords (driver_eq_fts.1 hd)
    | author => exact hauthor (authorUids_of_driver hd)
    | files => exact hpicked hd
    | channel =>
      obtain ⟨c, hc⟩ := channels_of_driver hd
      rw [hc, mem_singleton] at hch
      rw [hc, hch]
      rfl
    | scan => trivial

variable (fts db s)

/-- The ids of the messages wanted, in the walk's order. -/
def sequence : List Int :=
  let ids := (db.tables.messages.rows.filter fun m => s.Satisfies fts db m).map (·.id)
  if s.oldest then ids.insertionSort (· ≤ ·) else ids.insertionSort (· ≥ ·)

def remaining : List Int :=
  if ¬ s.relevance ∧ s.cursor > 0 then (s.sequence fts db).filter (s.Precedes s.cursor ·)
  else s.sequence fts db

variable {fts db s}

theorem mem_sequence {id : Int} : id ∈ s.sequence fts db ↔
    ∃ m ∈ db.tables.messages.rows, s.Satisfies fts db m ∧ m.id = id := by
  unfold sequence
  dsimp only
  split <;> simp [and_assoc]

theorem pairwise_sequence : (s.sequence fts db).Pairwise s.Precedes := by
  have hnodup : ((db.tables.messages.rows.filter fun m => s.Satisfies fts db m).map (·.id)).Nodup :=
    db.tables.messages.nodup.sublist (filter_sublist.map _)
  unfold sequence
  dsimp only
  generalize (db.tables.messages.rows.filter fun m => s.Satisfies fts db m).map (·.id) = ids at *
  by_cases ho : s.oldest
  · rw [if_pos ho]
    refine (pairwise_insertionSort (· ≤ ·) _).imp₂ (fun a b hle hne => ?_)
      ((perm_insertionSort _ _).nodup_iff.2 hnodup)
    rw [Precedes, if_pos ho]
    exact lt_of_le_of_ne hle hne
  · rw [if_neg ho]
    refine (pairwise_insertionSort (· ≥ ·) _).imp₂ (fun a b hge hne => ?_)
      ((perm_insertionSort _ _).nodup_iff.2 hnodup)
    rw [Precedes, if_neg ho]
    exact lt_of_le_of_ne hge hne.symm

instance : Std.Asymm s.Precedes where
  asymm a b hab hba := by
    unfold Precedes at hab hba
    split at hab <;> rename_i ho
    · rw [if_pos ho] at hba
      omega
    · rw [if_neg ho] at hba
      omega

theorem mem_remaining {id : Int} : id ∈ s.remaining fts db ↔
    id ∈ s.sequence fts db ∧ (¬ s.relevance ∧ s.cursor > 0 → s.Precedes s.cursor id) := by
  unfold remaining
  split <;> rename_i hc <;> simp [hc]

theorem pairwise_remaining : (s.remaining fts db).Pairwise s.Precedes := by
  unfold remaining
  split
  · exact pairwise_sequence.filter _
  · exact pairwise_sequence

theorem precedes_trans {a b c : Int} (hab : s.Precedes a b) (hbc : s.Precedes b c) :
    s.Precedes a c := by
  unfold Precedes at hab hbc ⊢
  split at hab <;> rename_i ho
  · rw [if_pos ho] at hbc ⊢
    exact hab.trans hbc
  · rw [if_neg ho] at hbc ⊢
    exact hbc.trans hab

theorem firstOfRuns_selectIds (h : Chronological db.tables) {minId maxId : Int}
    (hbounds : s.bounds db.tables = some (minId, maxId)) :
    firstOfRuns 0 (selectIds fts db s minId maxId) = s.remaining fts db := by
  have hmem : ∀ id, id ∈ ((driverRows fts db s).filter fun m =>
      s.Checks db.tables minId maxId m).map (·.id) ↔ id ∈ s.remaining fts db := by
    intro id
    simp only [mem_map, mem_filter, decide_eq_true_eq, mem_remaining, mem_sequence,
      mem_driverRows h]
    constructor
    · rintro ⟨m, ⟨⟨hm, hpicks⟩, hchecks⟩, rfl⟩
      obtain ⟨hsat, hcursor⟩ := (picks_checks_iff h hm hbounds).1 ⟨hpicks, hchecks⟩
      exact ⟨⟨m, hm, hsat, rfl⟩, hcursor⟩
    · rintro ⟨⟨m, hm, hsat, rfl⟩, hcursor⟩
      obtain ⟨hpicks, hchecks⟩ := (picks_checks_iff h hm hbounds).2 ⟨hsat, hcursor⟩
      exact ⟨m, ⟨⟨hm, hpicks⟩, hchecks⟩, rfl⟩
  have hpositive : (0 : Int) ∉ ((driverRows fts db s).filter fun m =>
      s.Checks db.tables minId maxId m).map (·.id) := by
    rw [hmem, mem_remaining, mem_sequence]
    rintro ⟨⟨m, hm, -, hzero⟩, -⟩
    exact absurd (h.positive m hm) (by omega)
  unfold selectIds
  dsimp only
  by_cases ho : s.oldest
  · rw [if_pos ho]
    refine firstOfRuns_insertionSort hpositive hmem (pairwise_remaining.imp fun {a b} hab => ?_)
    rw [Precedes, if_pos ho] at hab
    exact ⟨hab.le, hab.ne⟩
  · rw [if_neg ho]
    refine firstOfRuns_insertionSort hpositive hmem (pairwise_remaining.imp fun {a b} hab => ?_)
    rw [Precedes, if_neg ho] at hab
    exact ⟨le_of_lt hab, ne_of_gt hab⟩

theorem sequence_eq_nil_of_bounds (h : Chronological db.tables) (hbounds : s.bounds db.tables = none) :
    s.sequence fts db = [] := by
  refine eq_nil_iff_forall_not_mem.2 fun id hid => ?_
  obtain ⟨m, hm, ⟨-, -, -, hdates, -⟩, -⟩ := mem_sequence.1 hid
  obtain ⟨_, _, hsome, -⟩ := bounds_spec h s hm hdates
  rw [hbounds] at hsome
  exact absurd hsome nofun

theorem sequence_eq_nil_of_channels (hchannels : s.channels = []) : s.sequence fts db = [] := by
  refine eq_nil_iff_forall_not_mem.2 fun id hid => ?_
  obtain ⟨m, -, ⟨hmem, -⟩, -⟩ := mem_sequence.1 hid
  rw [hchannels] at hmem
  exact absurd hmem not_mem_nil

theorem remaining_eq_nil (hseq : s.sequence fts db = []) : s.remaining fts db = [] := by
  unfold remaining
  split <;> rw [hseq]
  rfl

end SearchSpec

/-! ## A page of ids -/

theorem kept_run {keep : Nat} (count : Bool) {w : SearchWalk} (hle : w.kept.length ≤ keep)
    (ids : List Int) :
    (w.run keep count ids).kept = (w.kept ++ firstOfRuns w.last ids).take keep := by
  induction ids generalizing w with
  | nil => rw [SearchWalk.run, firstOfRuns, append_nil, take_of_length_le hle]
  | cons id ids ih =>
    rw [SearchWalk.run, firstOfRuns]
    split
    · exact ih hle
    · dsimp only
      split
      · rename_i hroom
        have hone : (w.kept ++ [id]).length ≤ keep := by
          rw [length_append]
          exact hroom
        rw [ih hone, append_assoc]
        rfl
      · rename_i hfull
        have hkeep : w.kept.length = keep := by omega
        have hkept : w.kept = (w.kept ++ id :: firstOfRuns id ids).take keep := by
          rw [← hkeep, take_left]
        split
        · exact hkept
        · split
          · exact hkept
          · refine (ih (w := { w with last := id, seen := w.seen + 1, hasMore := true }) hle).trans ?_
            rw [take_append_of_le_length hkeep.ge, take_append_of_le_length hkeep.ge]

theorem hasMore_run {keep : Nat} (count : Bool) {w : SearchWalk} (hle : w.kept.length ≤ keep)
    (ids : List Int) : (w.run keep count ids).hasMore =
      (w.hasMore || decide (keep < w.kept.length + (firstOfRuns w.last ids).length)) := by
  induction ids generalizing w with
  | nil =>
    rw [SearchWalk.run, firstOfRuns, length_nil, decide_eq_false (by omega), Bool.or_false]
  | cons id ids ih =>
    rw [SearchWalk.run, firstOfRuns]
    split
    · exact ih hle
    · dsimp only
      split
      · rename_i hroom
        have hone : (w.kept ++ [id]).length ≤ keep := by
          rw [length_append]
          exact hroom
        rw [ih hone]
        dsimp only
        rw [length_append, length_cons, length_nil, length_cons]
        congr 2
        rw [eq_iff_iff]
        omega
      · rename_i hfull
        have hmore : decide (keep < w.kept.length + (id :: firstOfRuns id ids).length) = true := by
          rw [length_cons]
          exact decide_eq_true (by omega)
        rw [hmore, Bool.or_true]
        split
        · rfl
        · split
          · rfl
          · exact (ih (w := { w with last := id, seen := w.seen + 1, hasMore := true }) hle).trans
              (Bool.true_or _)

namespace SearchSpec

variable {s : SearchSpec}

/-- How many messages a page may have. -/
def pageLimit (s : SearchSpec) : Nat := if s.limit > 0 then s.limit.toNat else 25

theorem kept_selectIds (h : Chronological db.tables) {minId maxId : Int}
    (hbounds : s.bounds db.tables = some (minId, maxId)) (keep : Nat) :
    (SearchWalk.run keep s.count {} (selectIds fts db s minId maxId)).kept =
      (s.remaining fts db).take keep := by
  rw [kept_run s.count (Nat.zero_le keep), ← firstOfRuns_selectIds h hbounds]
  rfl

variable [LinearOrder Score]

theorem execute_byDate (h : Chronological db.tables) (hrel : ¬ s.relevance) :
    (execute fts db s).ids = (s.remaining fts db).take s.pageLimit ∧
      (execute fts db s).hasMore = decide (s.pageLimit < (s.remaining fts db).length) := by
  have hnone : s.sequence fts db = [] → s.remaining fts db = [] := remaining_eq_nil
  unfold execute
  dsimp only
  split
  · rename_i hchannels
    rw [hnone (sequence_eq_nil_of_channels hchannels), take_nil]
    exact ⟨rfl, rfl⟩
  · rw [if_neg fun hpool => hrel hpool.1]
    split
    · rename_i hbounds
      rw [hnone (sequence_eq_nil_of_bounds h hbounds), take_nil]
      exact ⟨rfl, rfl⟩
    · rename_i minId maxId hbounds
      refine ⟨kept_selectIds h hbounds _, ?_⟩
      rw [hasMore_run s.count (Nat.zero_le _), ← firstOfRuns_selectIds h hbounds]
      simp [pageLimit]

variable (fts db s) in
/-- The newest messages that a ranked search is for, best first. -/
def ranked : List Int := rank fts db s ((s.sequence fts db).take kRelevancePool)

theorem length_ranked_le : (s.ranked fts db).length ≤ kRelevancePool := by
  rw [ranked, rank, length_map, length_insertionSort, length_map]
  exact length_take_le _ _

theorem execute_relevance (h : Chronological db.tables) (hrel : s.relevance) :
    (execute fts db s).ids = ((s.ranked fts db).drop s.offset).take s.pageLimit ∧
      (execute fts db s).hasMore =
        decide (s.pageLimit < ((s.ranked fts db).drop s.offset).length) := by
  have hremaining : s.remaining fts db = s.sequence fts db := if_neg fun hc => hc.1 hrel
  have hnone : s.sequence fts db = [] → s.ranked fts db = [] := by
    intro hseq
    rw [ranked, hseq]
    rfl
  unfold execute
  dsimp only
  split
  · rename_i hchannels
    rw [hnone (sequence_eq_nil_of_channels hchannels), drop_nil, take_nil]
    exact ⟨rfl, rfl⟩
  · split
    · rename_i hpool
      have hle : (s.ranked fts db).length ≤ s.offset := length_ranked_le.trans hpool.2
      rw [drop_of_length_le hle, take_nil]
      exact ⟨rfl, rfl⟩
    · split
      · rename_i hbounds
        rw [hnone (sequence_eq_nil_of_bounds h hbounds), drop_nil, take_nil]
        exact ⟨rfl, rfl⟩
      · rename_i minId maxId hbounds
        dsimp only
        rw [kept_selectIds h hbounds, hremaining, ← ranked]
        generalize s.ranked fts db = pool
        have hlimit : (if s.limit > 0 then s.limit.toNat else 25) = s.pageLimit := rfl
        rw [hlimit]
        refine ⟨drop_take_min pool s.offset s.pageLimit, ?_⟩
        rw [length_drop, decide_eq_decide]
        omega

end SearchSpec

/-! ## A page of messages -/

/-- Where all ids have messages, those of the first go, one at least, using up as many ids. -/
theorem fillPage_spec {lookup : Int → Option ChannelMessage} {ids : List Int}
    (h : ∀ id ∈ ids, ∃ m, lookup id = some m ∧ m.id = id) (bytes : Nat) (sent : Bool) :
    ∃ k ≤ ids.length, (fillPage lookup bytes sent ids).1.map (·.id) = ids.take k ∧
      (fillPage lookup bytes sent ids).2.1 = k ∧
      (fillPage lookup bytes sent ids).2.2 = decide (k < ids.length) ∧
      (sent = false → ids ≠ [] → 0 < k) := by
  induction ids generalizing bytes sent with
  | nil => exact ⟨0, le_refl _, rfl, rfl, rfl, fun _ hne => absurd rfl hne⟩
  | cons id ids ih =>
    obtain ⟨m, hm, hid⟩ := h id (.head ids)
    rw [fillPage, hm]
    dsimp only
    split
    · rename_i hfull
      exact ⟨0, Nat.zero_le _, rfl, rfl, rfl, fun hsent _ => absurd hfull.1 (by simp [hsent])⟩
    · obtain ⟨k, hk, hids, hconsumed, hcut, -⟩ :=
        ih (fun id' hid' => h id' (.tail id hid')) (bytes + m.byteSizeLong) true
      refine ⟨k + 1, Nat.succ_le_succ hk, ?_, congrArg (· + 1) hconsumed, ?_,
        fun _ _ => Nat.succ_pos k⟩
      · rw [map_cons, hids, hid, take_succ_cons]
      · rw [length_cons]
        simpa using hcut

theorem hydrate_spec {env : SearchEnv} {req : MessageSearchRequest} {ids : List Int}
    (hlength : ids.length ≤ 200) {id : Int} (hid : id ∈ ids)
    (hin : id ∈ (req.spec db.tables env).sequence fts db) :
    ∃ m, hydrate db.tables env ids id = some m ∧ m.id = id := by
  obtain ⟨m, hm, hsat, rfl⟩ := SearchSpec.mem_sequence.1 hin
  obtain ⟨c, -, hc, -, -, hread, -⟩ := ((satisfies_spec env req m).1 hsat).channel
  refine ⟨fillChannelMessage (db.tables.readMessageRow m) (db.tables.fetchAttachments m.id), ?_, rfl⟩
  rw [hc] at hread
  rw [hydrate, take_of_length_le hlength, if_pos hid, Table.find?_eq_some.2 ⟨hm, rfl⟩,
    Option.filter_some, if_pos (decide_eq_true hread), Option.map_some]

section Page

variable [LinearOrder Score]

namespace SearchSpec

variable (fts db) (s : SearchSpec)

/-- What remains of the results of a search, where its page starts. -/
def rest : List Int :=
  if s.relevance then (s.ranked fts db).drop s.offset else s.remaining fts db

variable {fts db s}

theorem execute_spec (h : Chronological db.tables) :
    (execute fts db s).ids = (s.rest fts db).take s.pageLimit ∧
      (execute fts db s).hasMore = decide (s.pageLimit < (s.rest fts db).length) := by
  unfold rest
  split
  · rename_i hrel
    exact execute_relevance h hrel
  · rename_i hrel
    exact execute_byDate h hrel

theorem mem_ranked {id : Int} (h : id ∈ s.ranked fts db) : id ∈ s.sequence fts db := by
  rw [ranked, rank, mem_map] at h
  obtain ⟨x, hx, rfl⟩ := h
  obtain ⟨id, hid, rfl⟩ := mem_map.1 ((mem_insertionSort _).1 hx)
  exact mem_of_mem_take hid

theorem mem_rest {id : Int} (h : id ∈ s.rest fts db) : id ∈ s.sequence fts db := by
  unfold rest at h
  split at h
  · exact mem_ranked (mem_of_mem_drop h)
  · exact (mem_remaining.1 h).1

end SearchSpec

theorem pageLimit_spec (t : Tables) (env : SearchEnv) (req : MessageSearchRequest) :
    0 < (req.spec t env).pageLimit ∧ (req.spec t env).pageLimit ≤ 50 := by
  rw [SearchSpec.pageLimit, MessageSearchRequest.spec]
  dsimp only
  split_ifs <;> omega

theorem handle_spec (h : Chronological db.tables) {env : SearchEnv} {req : MessageSearchRequest}
    (hok : req.refusal env = none) {s : SearchSpec} (hs : req.spec db.tables env = s)
    {res : MessageSearchResponse} (hres : handleMessageSearch fts db env req = res) :
    ∃ k, (s.rest fts db ≠ [] → 0 < k) ∧ res.messages.map (·.id) = (s.rest fts db).take k ∧
      res.hasMore = decide (k < (s.rest fts db).length) ∧
      (k ≤ (s.rest fts db).length) ∧
      (0 < k → res.nextCursor = if s.relevance then 0 else (s.rest fts db).getD (k - 1) 0) ∧
      res.nextOffset = if s.relevance then (s.offset + k : Int) else 0 := by
  have hpage : (execute fts db s).ids = (s.rest fts db).take s.pageLimit ∧
      (execute fts db s).hasMore = decide (s.pageLimit < (s.rest fts db).length) :=
    SearchSpec.execute_spec h
  obtain ⟨hids, hmore⟩ := hpage
  obtain ⟨hpos, hfifty⟩ := pageLimit_spec db.tables env req
  rw [hs] at hpos hfifty
  unfold handleMessageSearch at hres
  rw [hok, hs] at hres
  subst hres
  have hlength : (execute fts db s).ids.length ≤ 200 := by
    rw [hids, length_take]
    omega
  have hhydrate : ∀ id ∈ (execute fts db s).ids,
      ∃ m, hydrate db.tables env (execute fts db s).ids id = some m ∧ m.id = id := by
    intro id hid
    have hin : id ∈ s.sequence fts db := SearchSpec.mem_rest (mem_of_mem_take (hids ▸ hid))
    rw [← hs] at hin
    exact hydrate_spec hlength hid hin
  obtain ⟨k, hk, hmessages, hconsumed, hcut, hgoes⟩ := fillPage_spec hhydrate 0 false
  generalize s.rest fts db = rest at *
  unfold finishMessageSearch
  dsimp only
  rw [hs, hmessages, hconsumed, hcut, hmore]
  rw [hids, length_take] at hk hcut
  rw [hids, take_take, Nat.min_eq_left (by omega)]
  refine ⟨k, fun hne => hgoes rfl ?_, rfl, ?_, by omega, fun hk0 => ?_, rfl⟩
  · rw [hids, ne_eq, take_eq_nil_iff]
    exact not_or.2 ⟨hpos.ne', hne⟩
  · rw [← Bool.decide_or, decide_eq_decide, length_take]
    omega
  · rw [if_pos hk0, getD_eq_getElem?_getD, getElem?_take_of_lt (by omega),
      ← getD_eq_getElem?_getD]

/-! ## Following the pages -/

variable (fts db) (env : SearchEnv) (req : MessageSearchRequest) (limit : Nat → Int)

/-- A page by its ids, and where the next goes on. -/
def searchPage (i : Nat) (c : Int × Int) : List Int × Option (Int × Int) :=
  let res := handleMessageSearch fts db env
    { req with cursor := c.1, offset := c.2, limit := limit i }
  (res.messages.map (·.id), if res.hasMore then some (res.nextCursor, res.nextOffset) else none)

/-- The results of a search, from the first page on. -/
def followSearch (fuel : Nat) : Option (List Int) := follow (searchPage fts db env req limit) fuel 0 (0, 0)

/-- What remains of the results at a cursor. -/
def restAt (c : Int × Int) : List Int :=
  (({ req with cursor := c.1, offset := c.2 } : MessageSearchRequest).spec db.tables env).rest fts db

variable {fts db env req limit}

theorem restAt_of_relevance (hrel : (req.spec db.tables env).relevance) (c : Int × Int) :
    restAt fts db env req c = ((req.spec db.tables env).ranked fts db).drop c.2.toNat := if_pos hrel

theorem restAt_of_not_relevance (hrel : ¬ (req.spec db.tables env).relevance) (c : Int × Int) :
    restAt fts db env req c = if c.1 > 0 then ((req.spec db.tables env).sequence fts db).filter
      ((req.spec db.tables env).Precedes c.1 ·) else (req.spec db.tables env).sequence fts db := by
  have hrest : restAt fts db env req c =
      if max 0 c.1 > 0 then ((req.spec db.tables env).sequence fts db).filter
        ((req.spec db.tables env).Precedes (max 0 c.1) ·)
      else (req.spec db.tables env).sequence fts db := by
    refine (if_neg hrel).trans ?_
    exact if_congr (and_iff_right hrel) rfl rfl
  rw [hrest]
  by_cases hc : c.1 > 0
  · rw [max_eq_right hc.le]
  · rw [max_eq_left (not_lt.1 hc), if_neg (lt_irrefl 0), if_neg hc]

/-- After the first `k` results the rest remains at their page's cursor. -/
theorem restAt_next (h : Chronological db.tables) {c c' : Int × Int} {k : Nat} (hk : 0 < k)
    (hle : k ≤ (restAt fts db env req c).length)
    (hcursor : ¬ (req.spec db.tables env).relevance → c'.1 = (restAt fts db env req c).getD (k - 1) 0)
    (hoffset : (req.spec db.tables env).relevance → c'.2 = c.2.toNat + k) :
    restAt fts db env req c' = (restAt fts db env req c).drop k := by
  by_cases hrel : (req.spec db.tables env).relevance
  · rw [restAt_of_relevance hrel, restAt_of_relevance hrel, drop_drop, hoffset hrel]
    congr 1
  · have hcursor := hcursor hrel
    generalize hx : (restAt fts db env req c).getD (k - 1) 0 = x at *
    -- The last result of the page, and those around it.
    have hsplit : restAt fts db env req c = (restAt fts db env req c).take (k - 1) ++
        x :: (restAt fts db env req c).drop k := by
      have hlt : k - 1 < (restAt fts db env req c).length := by omega
      have hget : (restAt fts db env req c)[k - 1] = x := by
        rw [← hx, getD_eq_getElem?_getD, getElem?_eq_getElem hlt, Option.getD_some]
      have hdrop := drop_eq_getElem_cons hlt
      rw [hget, Nat.sub_add_cancel hk] at hdrop
      rw [← hdrop, take_append_drop]
    have hmem : x ∈ (req.spec db.tables env).sequence fts db := by
      refine SearchSpec.mem_rest (s := ({ req with cursor := c.1, offset := c.2 } :
        MessageSearchRequest).spec db.tables env) ?_
      have hin : x ∈ restAt fts db env req c := hsplit ▸ mem_append_right _ (.head _)
      exact hin
    obtain ⟨m, hm, -, hid⟩ := SearchSpec.mem_sequence.1 hmem
    have hpos : c'.1 > 0 := by
      rw [hcursor, ← hid]
      exact h.positive m hm
    rw [restAt_of_not_relevance hrel c', if_pos hpos, hcursor]
    have hrest : restAt fts db env req c = _ := restAt_of_not_relevance hrel c
    have hsorted : ((req.spec db.tables env).sequence fts db).Pairwise
        (req.spec db.tables env).Precedes := SearchSpec.pairwise_sequence
    generalize restAt fts db env req c = l at *
    have hall := hrest.symm.trans hsplit
    split at hall
    · refine filter_lt_of_filter hsorted (fun y z hy hlt => decide_eq_true ?_) hall
      exact SearchSpec.precedes_trans (of_decide_eq_true hy) hlt
    · rw [hall] at hsorted ⊢
      exact filter_lt_of_append hsorted

theorem serves_searchPage (h : Chronological db.tables) (hok : req.refusal env = none) (i : Nat)
    (c : Int × Int) : Serves (restAt fts db env req) (fun _ => True) c
      (searchPage fts db env req limit i c) := by
  have hok' : ({ req with cursor := c.1, offset := c.2, limit := limit i } :
      MessageSearchRequest).refusal env = none := hok
  have hrest : (({ req with cursor := c.1, offset := c.2, limit := limit i } :
      MessageSearchRequest).spec db.tables env).rest fts db = restAt fts db env req c := rfl
  unfold searchPage
  dsimp only
  generalize hres : handleMessageSearch fts db env
    { req with cursor := c.1, offset := c.2, limit := limit i } = res
  obtain ⟨k, hgoes, hmessages, hmore, hle, hcursor, hoffset⟩ := handle_spec h hok' rfl hres
  rw [hrest] at hgoes hmessages hmore hle hcursor
  rw [hmessages, hmore]
  by_cases hlt : k < (restAt fts db env req c).length
  · have hk : 0 < k := hgoes (ne_nil_of_length_pos (by omega))
    have hnext : restAt fts db env req (res.nextCursor, res.nextOffset) =
        (restAt fts db env req c).drop k := by
      refine restAt_next h hk hle (fun hrel => ?_) fun hrel => ?_
      · exact (hcursor hk).trans (if_neg hrel)
      · exact hoffset.trans (if_pos hrel)
    rw [decide_eq_true hlt, if_pos rfl]
    refine ⟨?_, fun _ _ => trivial, fun _ _ => ?_⟩
    · rw [Option.map_some, Option.getD_some, hnext, take_append_drop]
    · rw [ne_eq, take_eq_nil_iff]
      exact not_or.2 ⟨hk.ne', ne_nil_of_length_pos (by omega)⟩
  · rw [decide_eq_false hlt, if_neg Bool.false_ne_true]
    refine ⟨?_, nofun, nofun⟩
    rw [Option.map_none, Option.getD_none, append_nil, take_of_length_le (not_lt.1 hlt)]

theorem follow_search (h : Chronological db.tables) (hok : req.refusal env = none) {fuel : Nat}
    (hfuel : (restAt fts db env req (0, 0)).length < fuel) :
    followSearch fts db env req limit fuel = some (restAt fts db env req (0, 0)) := by
  have hserves : ∀ i c, True → Serves (restAt fts db env req) (fun _ => True) c
      (searchPage fts db env req limit i c) := fun i c _ => serves_searchPage h hok i c
  exact follow_eq_some hserves 0 trivial hfuel

/-! ## The results -/

variable (fts db env req)

/-- A message of this id is wanted. -/
def Wanted (id : Int) : Prop :=
  ∃ m ∈ db.tables.messages.rows, m.id = id ∧ req.Wants fts db env m

/-- The ids wanted, each once, in order. -/
structure ListsAll (found : List Int) : Prop where
  mem : ∀ id, id ∈ found ↔ Wanted fts db env req id
  order : found.Pairwise fun a b => if req.sort = .oldest then a < b else a > b

/-- The newest ids wanted, as many as are scored, each once, best score first. -/
structure ListsRanked (found : List Int) : Prop where
  mem : ∀ id ∈ found, Wanted fts db env req id
  newest : ∀ id, Wanted fts db env req id → id ∈ found ∨
    found.length = kRelevancePool ∧ ∀ id' ∈ found, id < id'
  nodup : found.Nodup
  order : found.Pairwise fun a b => Ranked (fts.bm25 db.messagesFts req.expr a, a)
    (fts.bm25 db.messagesFts req.expr b, b)

/-- There are words to look up in the index: results are ranked. -/
def MessageSearchRequest.ByRelevance (req : MessageSearchRequest) : Prop :=
  req.sort = .relevance ∧ req.matchWithinWords = false ∧ req.expr ≠ []

instance : Decidable req.ByRelevance := inferInstanceAs (Decidable (_ ∧ _))

variable {fts db env req}

theorem relevance_iff (t : Tables) : (req.spec t env).relevance ↔ req.ByRelevance := by
  unfold SearchSpec.relevance MessageSearchRequest.ByRelevance
  rw [← and_assoc]
  refine and_congr_left fun _ => ?_
  simp only [MessageSearchRequest.spec]
  cases req.sort <;> cases req.matchWithinWords <;> simp

theorem oldest_iff (t : Tables) : (req.spec t env).oldest ↔ req.sort = .oldest := by
  simp only [SearchSpec.oldest, MessageSearchRequest.spec]
  cases req.sort <;> cases req.matchWithinWords <;> simp

omit [LinearOrder Score] in
theorem mem_sequence_spec {id : Int} :
    id ∈ (req.spec db.tables env).sequence fts db ↔ Wanted fts db env req id := by
  rw [SearchSpec.mem_sequence, Wanted]
  constructor
  · rintro ⟨m, hm, hsat, hid⟩
    exact ⟨m, hm, hid, (satisfies_spec env req m).1 hsat⟩
  · rintro ⟨m, hm, hid, hwants⟩
    exact ⟨m, hm, (satisfies_spec env req m).2 hwants, hid⟩

theorem precedes_spec : (req.spec db.tables env).Precedes =
    fun a b => if req.sort = .oldest then a < b else a > b := by
  funext a b
  exact if_congr (oldest_iff db.tables) rfl rfl

omit [LinearOrder Score] in
theorem lists_sequence : ListsAll fts db env req ((req.spec db.tables env).sequence fts db) where
  mem _ := mem_sequence_spec
  order := by
    have hpairwise : ((req.spec db.tables env).sequence fts db).Pairwise
        (req.spec db.tables env).Precedes := SearchSpec.pairwise_sequence
    rwa [precedes_spec] at hpairwise

instance : Std.Total (@Ranked Score _) where
  total x y := by
    rcases lt_trichotomy x.1 y.1 with hlt | heq | hgt
    · exact .inl (.inl hlt)
    · exact (le_total y.2 x.2).imp (.inr ⟨heq, ·⟩) (.inr ⟨heq.symm, ·⟩)
    · exact .inr (.inl hgt)

instance : IsTrans (Score × Int) Ranked where
  trans x y z hxy hyz := by
    rcases hxy with hlt | ⟨heq, hge⟩
    · rcases hyz with hlt' | ⟨heq', -⟩
      · exact .inl (hlt.trans hlt')
      · exact .inl (heq' ▸ hlt)
    · rcases hyz with hlt' | ⟨heq', hge'⟩
      · exact .inl (heq ▸ hlt')
      · exact .inr ⟨heq.trans heq', hge'.trans hge⟩

theorem rank_perm (s : SearchSpec) (ids : List Int) : (rank fts db s ids).Perm ids := by
  have hids : (ids.map fun id => (fts.bm25 db.messagesFts s.expr id, id)).map (·.2) = ids := by
    rw [map_map]
    exact map_id ids
  have hperm := (perm_insertionSort Ranked
    (ids.map fun id => (fts.bm25 db.messagesFts s.expr id, id))).map (·.2)
  rw [hids] at hperm
  exact hperm

theorem pairwise_rank (s : SearchSpec) (ids : List Int) : (rank fts db s ids).Pairwise fun a b =>
    Ranked (fts.bm25 db.messagesFts s.expr a, a) (fts.bm25 db.messagesFts s.expr b, b) := by
  rw [rank, pairwise_map]
  refine (pairwise_insertionSort Ranked _).imp_of_mem fun {x y} hx hy hxy => ?_
  obtain ⟨a, -, rfl⟩ := mem_map.1 ((mem_insertionSort _).1 hx)
  obtain ⟨b, -, rfl⟩ := mem_map.1 ((mem_insertionSort _).1 hy)
  exact hxy

theorem lists_ranked (hrel : req.ByRelevance) :
    ListsRanked fts db env req ((req.spec db.tables env).ranked fts db) := by
  have hperm : ((req.spec db.tables env).ranked fts db).Perm
      (((req.spec db.tables env).sequence fts db).take kRelevancePool) := rank_perm _ _
  have horder : ((req.spec db.tables env).ranked fts db).Pairwise fun a b =>
      Ranked (fts.bm25 db.messagesFts req.expr a, a) (fts.bm25 db.messagesFts req.expr b, b) :=
    pairwise_rank (req.spec db.tables env) _
  have hsorted : ((req.spec db.tables env).sequence fts db).Pairwise (· > ·) := by
    have hpairwise : ((req.spec db.tables env).sequence fts db).Pairwise
        (req.spec db.tables env).Precedes := SearchSpec.pairwise_sequence
    rw [precedes_spec] at hpairwise
    refine hpairwise.imp fun {a b} hab => ?_
    rwa [if_neg (by rw [hrel.1]; exact nofun)] at hab
  refine ⟨fun id hid => mem_sequence_spec.1 (SearchSpec.mem_ranked hid), fun id hid => ?_, ?_, horder⟩
  · have hin := mem_sequence_spec.2 hid
    rw [hperm.length_eq]
    simp only [hperm.mem_iff]
    generalize (req.spec db.tables env).sequence fts db = ids at *
    rw [← take_append_drop kRelevancePool ids] at hin hsorted
    rcases mem_append.1 hin with htake | hdrop
    · exact .inl htake
    · refine .inr ⟨?_, fun id' hid' => (pairwise_append.1 hsorted).2.2 id' hid' id hdrop⟩
      have hpos := length_pos_of_mem hdrop
      rw [length_drop] at hpos
      rw [length_take]
      omega
  · refine hperm.nodup_iff.2 ?_
    exact (hsorted.imp fun hab => hab.ne').sublist (take_sublist _ _)

variable (fts db env req limit) in
/-- The pages of a search that is not refused have exactly the messages wanted, each once and in
    order, whatever index is walked; by relevance the newest of them, up to as many as are scored,
    best first. -/
theorem search_agrees (h : Chronological db.tables) (hok : req.refusal env = none) :
    ∃ found : List Int,
      (∀ fuel, found.length < fuel → followSearch fts db env req limit fuel = some found) ∧
      if req.ByRelevance then ListsRanked fts db env req found
      else ListsAll fts db env req found := by
  refine ⟨restAt fts db env req (0, 0), fun fuel hfuel => follow_search h hok hfuel, ?_⟩
  split
  · rename_i hrel
    rw [restAt_of_relevance ((relevance_iff _).2 hrel)]
    exact lists_ranked hrel
  · rename_i hrel
    rw [restAt_of_not_relevance (mt (relevance_iff _).1 hrel), if_neg (lt_irrefl 0)]
    exact lists_sequence

end Page

/-! ## More matches than are scored -/

theorem nodup_ids (n : Nat) : ((List.range n).map fun i : Nat => (i + 1 : Int)).Nodup := by
  refine nodup_range.map fun i j hij => ?_
  have heq : (i + 1 : Int) = j + 1 := hij
  omega

/-- A channel with `n` messages, all the same. -/
def sameMessages (n : Nat) : SearchDb where
  tables :=
    { channels := ⟨[{ id := "c", name := [], type := .text, position := 0 }], by decide⟩
      messages := ⟨(List.range n).map fun i : Nat =>
        { id := i + 1, channelId := "c", senderUid := 1, content := [97, 98, 99] }, by
          rw [List.map_map]
          exact nodup_ids n⟩ }
  messagesFts := ⟨(List.range n).map fun i : Nat => ⟨i + 1, [97, 98, 99], []⟩, by
    rw [List.map_map]
    exact nodup_ids n⟩

/-- Every row matches, none better than another. -/
def allMatch : Fts5 Int := ⟨fun _ _ => true, fun _ _ _ => 0⟩

def anyReader : SearchEnv := ⟨true, fun _ => Perms.kAll⟩

/-- A search for the word of these messages. -/
def wordRequest : MessageSearchRequest := { query := [97, 98, 99], sort := .relevance }

theorem mem_sameMessages {n : Nat} {m : DbMessage} (h : m ∈ (sameMessages n).tables.messages.rows) :
    ∃ i : Nat, i < n ∧ m = { id := i + 1, channelId := "c", senderUid := 1, content := [97, 98, 99] } := by
  obtain ⟨i, hi, rfl⟩ := mem_map.1 h
  exact ⟨i, mem_range.1 hi, rfl⟩

theorem chronological_sameMessages (n : Nat) : Chronological (sameMessages n).tables where
  positive m hm := by
    obtain ⟨i, -, rfl⟩ := mem_sameMessages hm
    dsimp only
    omega
  grows m hm m' hm' _ := by
    obtain ⟨i, -, rfl⟩ := mem_sameMessages hm
    obtain ⟨j, -, rfl⟩ := mem_sameMessages hm'
    exact le_refl _

theorem wants_sameMessages {n : Nat} {m : DbMessage}
    (h : m ∈ (sameMessages n).tables.messages.rows) :
    wordRequest.Wants allMatch (sameMessages n) anyReader m := by
  obtain ⟨i, hi, rfl⟩ := mem_sameMessages h
  have hbits : ∀ b, wordRequest.knownHas &&& b = 0 := by
    intro b
    have hzero : wordRequest.knownHas = 0#32 := rfl
    rw [hzero, BitVec.zero_and]
    rfl
  have hfragments : wordRequest.searchWords.contains = [] ∧ wordRequest.searchWords.excludes = [] :=
    ⟨rfl, rfl⟩
  exact {
    channel := ⟨_, .head _, rfl, rfl, .inl rfl, rfl, fun h => Bool.false_ne_true h.2⟩
    words := fun _ => ⟨⟨i + 1, [97, 98, 99], []⟩, mem_map.2 ⟨i, mem_range.2 hi, rfl⟩, rfl, rfl⟩
    sender := .inl nofun
    after := nofun
    before := nofun
    file := fun hbit => absurd (hbits _) hbit
    kinds := fun kb _ hbit => absurd (hbits _) hbit
    link := fun hbit => absurd (hbits _) hbit
    plain := fun _ => rfl
    contains := fun f hf => absurd (hfragments.1 ▸ hf) not_mem_nil
    excludes := fun f hf => absurd (hfragments.2 ▸ hf) not_mem_nil }

/-- Three messages are all found, a page each. -/
theorem search_agrees_three : ∃ found : List Int,
    (∀ fuel, found.length < fuel →
      followSearch allMatch (sameMessages 3) anyReader wordRequest (fun _ => 1) fuel = some found) ∧
    if wordRequest.ByRelevance then
      ListsRanked allMatch (sameMessages 3) anyReader wordRequest found
    else ListsAll allMatch (sameMessages 3) anyReader wordRequest found :=
  search_agrees allMatch (sameMessages 3) anyReader wordRequest (fun _ => 1)
    (chronological_sameMessages 3) (by decide)

theorem relevance_wordRequest (t : Tables) : (wordRequest.spec t anyReader).relevance :=
  (relevance_iff t).2 (by decide)

theorem exists_not_ranked {n : Nat} (h : kRelevancePool < n) :
    ∃ m ∈ (sameMessages n).tables.messages.rows,
      wordRequest.Wants allMatch (sameMessages n) anyReader m ∧
      m.id ∉ (wordRequest.spec (sameMessages n).tables anyReader).ranked allMatch (sameMessages n) := by
  by_contra hall
  have hsub : (sameMessages n).tables.messages.rows.map (·.id) ⊆
      (wordRequest.spec (sameMessages n).tables anyReader).ranked allMatch (sameMessages n) := by
    intro id hid
    obtain ⟨m, hm, rfl⟩ := mem_map.1 hid
    by_contra hnot
    exact hall ⟨m, hm, wants_sameMessages hm, hnot⟩
  have hle := (subperm_of_subset (sameMessages n).tables.messages.nodup hsub).length_le
  have hlength : ((sameMessages n).tables.messages.rows.map (·.id)).length = n := by
    rw [length_map]
    exact (length_map _).trans length_range
  rw [hlength] at hle
  exact absurd (hle.trans SearchSpec.length_ranked_le) (not_le.2 h)

/-- Of 2001 messages, a search by relevance does not find them all. -/
theorem search_misses_one : Chronological (sameMessages 2001).tables ∧
    wordRequest.refusal anyReader = none ∧
    ∃ found : List Int,
      (∀ fuel, found.length < fuel → followSearch allMatch (sameMessages 2001) anyReader wordRequest
        (fun _ => 50) fuel = some found) ∧
      ∃ m ∈ (sameMessages 2001).tables.messages.rows,
        wordRequest.Wants allMatch (sameMessages 2001) anyReader m ∧ m.id ∉ found := by
  have hchronological := chronological_sameMessages 2001
  have hok : wordRequest.refusal anyReader = none := by decide
  refine ⟨hchronological, hok, _, fun fuel hfuel => follow_search hchronological hok hfuel, ?_⟩
  rw [restAt_of_relevance (relevance_wordRequest _)]
  exact exists_not_ranked (by decide)

end Decibell
