import Decibell.Client.HistoryMerge

/-!
# A merged slice is a window of the server's rows

A slice has stored rows by id ascending, then bubbles, no two of one nonce (`IsSlice`), and between
two of its rows every row that the server has (`Contiguous`).
-/

namespace Decibell.Client

open Lib List

variable {T : Type} (row : T → MergeRow)

/-! ## Slices and pages -/

def Ascending (l : List T) : Prop := l.Pairwise fun a b => idOf row a < idOf row b

instance (l : List T) : Decidable (Ascending row l) :=
  inferInstanceAs (Decidable (l.Pairwise fun a b => idOf row a < idOf row b))

/-- Stored rows by id ascending, then bubbles with nonces of their own. -/
structure IsSlice (slice : List T) : Prop where
  shape : slice = stored row slice ++ bubbles row slice
  ascending : Ascending row (stored row slice)
  nonces : ((bubbles row slice).filterMap fun m => nonceOf (row m)).Nodup

/-- A slice has each row of the server between two of its own, but for skipped ones. -/
def Contiguous (server : Nat → Prop) (skip : List Nat) (slice : List T) : Prop :=
  ∀ i, server i → i ∉ skip → ∀ m ∈ stored row slice, ∀ m' ∈ stored row slice,
    idOf row m ≤ i → i ≤ idOf row m' → ∃ x ∈ stored row slice, idOf row x = i

/-- A contiguous run of rows. A page above a row begins right above it; the newest goes up to the
    newest row. -/
structure IsPage (server : Nat → Prop) (afterId : Nat) (latest : Bool) (page : List T) : Prop where
  stored : ∀ r ∈ page, 0 < idOf row r
  ids : (page.map (idOf row)).Nodup
  run : ∃ (first : Nat) (last : Option Nat), (0 < afterId → first = afterId + 1) ∧
    (latest = true → last = none) ∧
    ∀ i, (∃ r ∈ page, idOf row r = i) ↔ server i ∧ first ≤ i ∧ ∀ n ∈ last, i ≤ n

/-- A row of the server between the page and the slice is in reach of either. -/
def Adjoins (server : Nat → Prop) (skip : List Nat) (page slice : List T) : Prop :=
  ∀ r ∈ page, ∀ m ∈ stored row slice, ∀ i, server i → i ∉ skip → idOf row r < i → i < idOf row m →
    (∃ r' ∈ page, i ≤ idOf row r') ∨ ∃ m' ∈ stored row slice, idOf row m' ≤ i

/-- The page's rows that go in: none to skip, and above a row none below the slice's oldest. -/
def answered (afterId : Nat) (skip : List Nat) (slice page : List T) : List T :=
  page.filter fun r => idOf row r ∉ skip &&
    (afterId = 0 || ((stored row slice).head?.map (idOf row)).getD 0 ≤ idOf row r)

/-- The page's range: from its oldest row, or the row asked above, to its newest, or endless. -/
def Covered (afterId : Nat) (latest : Bool) (rows : List T) (i : Nat) : Prop :=
  (if 0 < afterId then afterId < i else ∃ r ∈ rows, idOf row r ≤ i) ∧
    (afterId = 0 ∧ latest = true ∨ ∃ r ∈ rows, i ≤ idOf row r)

section

variable {row}
variable {slice page rows l l' : List T} {m r : T} {n : Nat}

/-! ## Ascending rows -/

theorem Ascending.nodup (h : Ascending row l) : (l.map (idOf row)).Nodup :=
  pairwise_map.2 (List.Pairwise.imp Nat.ne_of_lt h)

theorem Ascending.filter (h : Ascending row l) (p : T → Bool) : Ascending row (l.filter p) :=
  List.Pairwise.filter p h

theorem Ascending.ext (h : Ascending row l) (h' : Ascending row l') (hmem : ∀ m, m ∈ l ↔ m ∈ l') :
    l = l' := by
  have hp : l.Perm l' := (perm_ext_iff_of_nodup h.nodup.of_map h'.nodup.of_map).2 hmem
  exact hp.eq_of_pairwise (fun a b _ _ hab hba => absurd hab (Nat.lt_asymm hba)) h h'

theorem ascending_sortById (h : (l.map (idOf row)).Nodup) : Ascending row (sortById row l) := by
  have htotal : Std.Total fun a b : T => idOf row a ≤ idOf row b := ⟨fun a b => Nat.le_total _ _⟩
  have htrans : IsTrans T fun a b => idOf row a ≤ idOf row b := ⟨fun a b c => Nat.le_trans⟩
  have hsorted := pairwise_insertionSort (fun a b : T => idOf row a ≤ idOf row b) l
  have hnodup : ((sortById row l).map (idOf row)).Nodup :=
    ((perm_insertionSort _ l).map (idOf row)).nodup_iff.2 h
  exact hsorted.imp₂ (fun a b hle hne => Nat.lt_of_le_of_ne hle hne) (pairwise_map.1 hnodup)

theorem mem_sortById : m ∈ sortById row l ↔ m ∈ l := mem_insertionSort _

theorem Ascending.newest_lt (h : Ascending row l) (n : Nat) :
    l = [] ∨ (l.getLast?.map (idOf row)).getD 0 < n ↔ ∀ m ∈ l, idOf row m < n := by
  cases hlast : l.getLast? with
  | none =>
    obtain rfl := getLast?_eq_none_iff.1 hlast
    exact ⟨fun _ m hm => (by cases hm), fun _ => .inl rfl⟩
  | some last =>
    have hne : l ≠ [] := fun hnil => by rw [hnil] at hlast; cases hlast
    obtain ⟨before, rfl⟩ := getLast?_eq_some_iff.1 hlast
    rw [or_iff_right hne, Option.map_some, Option.getD_some]
    refine ⟨fun hlt m hm => ?_, fun hall => hall last (mem_append_right _ (.head _))⟩
    rcases mem_append.1 hm with hm | hm
    · exact Nat.lt_trans ((pairwise_append.1 h).2.2 m hm last (.head _)) hlt
    · rw [mem_singleton.1 hm]
      exact hlt

theorem Ascending.oldest_le (h : Ascending row l) (hm : m ∈ l) :
    (l.head?.map (idOf row)).getD 0 ≤ idOf row m := by
  cases l with
  | nil => cases hm
  | cons x l =>
    rcases mem_cons.1 hm with rfl | hm
    · exact Nat.le_refl _
    · exact Nat.le_of_lt (rel_of_pairwise_cons h hm)

theorem mem_stored : m ∈ stored row slice ↔ m ∈ slice ∧ 0 < idOf row m := by
  rw [stored, mem_filter, decide_eq_true_eq]

theorem mem_bubbles : m ∈ bubbles row slice ↔ m ∈ slice ∧ idOf row m = 0 := by
  rw [bubbles, mem_filter, decide_eq_true_eq]

theorem stored_append (hstored : ∀ m ∈ l, 0 < idOf row m) (hbubbles : ∀ m ∈ l', idOf row m = 0) :
    stored row (l ++ l') = l ∧ bubbles row (l ++ l') = l' := by
  rw [stored, bubbles, filter_append, filter_append]
  constructor
  · rw [filter_eq_self.2, filter_eq_nil_iff.2, append_nil]
    · intro m hm hpos
      exact Nat.ne_of_gt (of_decide_eq_true hpos) (hbubbles m hm)
    · exact fun m hm => decide_eq_true (hstored m hm)
  · rw [filter_eq_nil_iff.2, filter_eq_self.2, nil_append]
    · exact fun m hm => decide_eq_true (hbubbles m hm)
    · intro m hm hzero
      exact Nat.ne_of_gt (hstored m hm) (of_decide_eq_true hzero)

/-! ## A row of the page -/

theorem find?_ofRows (h : Ascending row l) {i : Nat} {prev : T} :
    (Table.ofRows l : Table (idOf row)).find? i = some prev ↔ prev ∈ l ∧ idOf row prev = i := by
  rw [Table.find?_eq_some, Table.rows_ofRows h.nodup]

theorem unchanged_refl (a : MergeRow) : unchanged a a = true := by
  simp [unchanged]

theorem keepRow_cases (h : Ascending row l) (r : T) :
    keepRow row (.ofRows l) r = r ∨ (keepRow row (.ofRows l) r ∈ l ∧
      idOf row (keepRow row (.ofRows l) r) = idOf row r ∧
      unchanged (row (keepRow row (.ofRows l) r)) (row r) = true) := by
  rw [keepRow]
  cases hfind : (Table.ofRows l : Table (idOf row)).find? (idOf row r) with
  | none => exact .inl rfl
  | some prev =>
    obtain ⟨hprev, hid⟩ := (find?_ofRows h).1 hfind
    dsimp only
    split
    · rename_i hsame
      exact .inr ⟨hprev, hid, hsame⟩
    · exact .inl rfl

theorem idOf_keepRow (h : Ascending row l) (r : T) :
    idOf row (keepRow row (.ofRows l) r) = idOf row r := by
  rcases keepRow_cases h r with hr | hr
  · rw [hr]
  · exact hr.2.1

theorem keepRow_of_new (h : Ascending row l) (hr : ∀ m ∈ l, idOf row m ≠ idOf row r) :
    keepRow row (.ofRows l) r = r := by
  rcases keepRow_cases h r with heq | ⟨hmem, hid, -⟩
  · exact heq
  · exact absurd hid (hr _ hmem)

theorem keepRow_again (h : Ascending row l) (h' : Ascending row l')
    (hmem : keepRow row (.ofRows l) r ∈ l') :
    keepRow row (.ofRows l') r = keepRow row (.ofRows l) r := by
  have hfind := (find?_ofRows h').2 ⟨hmem, idOf_keepRow h r⟩
  have hsame : unchanged (row (keepRow row (.ofRows l) r)) (row r) = true := by
    rcases keepRow_cases h r with heq | hr
    · rw [heq]
      exact unchanged_refl _
    · exact hr.2.2
  rw [keepRow, hfind]
  exact if_pos hsame

/-! ## The merge -/

theorem refresh_spec (h : Ascending row l) (hrows : (rows.map (idOf row)).Nodup) {lo : Nat}
    {hi : Option Nat} (hrange : ∀ r ∈ rows, lo ≤ idOf row r ∧ ∀ n ∈ hi, idOf row r ≤ n)
    (tail : List T) :
    ∃ out, refresh row l rows lo hi tail = out ++ tail ∧ Ascending row out ∧
      ∀ m, m ∈ out ↔ (m ∈ l ∧ ¬ (lo ≤ idOf row m ∧ ∀ n ∈ hi, idOf row m ≤ n)) ∨
        ∃ r ∈ rows, m = keepRow row (.ofRows l) r := by
  have houtside : ∀ m, m ∈ l.filter (fun m => idOf row m < lo || hi.any (· < idOf row m)) ↔
      m ∈ l ∧ ¬ (lo ≤ idOf row m ∧ ∀ n ∈ hi, idOf row m ≤ n) := by
    intro m
    rw [mem_filter, Bool.or_eq_true, decide_eq_true_eq, not_and_or, Nat.not_le]
    cases hi <;> simp
  refine ⟨_, rfl, ascending_sortById ?_, fun m => ?_⟩
  · have hids : (rows.map (keepRow row (.ofRows l))).map (idOf row) = rows.map (idOf row) := by
      rw [map_map]
      exact map_congr_left fun r _ => idOf_keepRow h r
    rw [map_append, hids]
    refine (h.nodup.sublist (filter_sublist.map _)).append hrows fun i hi hi' => ?_
    obtain ⟨m, hm, rfl⟩ := mem_map.1 hi
    obtain ⟨r, hr, hid⟩ := mem_map.1 hi'
    exact ((houtside m).1 hm).2 (hid ▸ hrange r hr)
  · rw [mem_sortById, mem_append, houtside, mem_map]
    exact or_congr_right (exists_congr fun r => and_congr_right fun _ => eq_comm)

variable {ownUid : Int} {afterId : Nat} {skip : List Nat} {latest : Bool}

variable (row) in
/-- What a merge leaves: `S` are its stored rows. -/
structure Merged (slice page : List T) (afterId : Nat) (skip : List Nat) (latest : Bool)
    (tail : List T) (out : MergedPage T) (S : List T) : Prop where
  list : out.list = S ++ tail
  ascending : Ascending row S
  /-- A page above the slice, maybe past a gap, is not put in. -/
  applied : out.applied = false ↔ 0 < afterId ∧ ∀ m ∈ stored row slice, idOf row m < afterId
  kept : out.applied = false → S = stored row slice
  /-- Or it replaces the stored rows, as an empty newest page does. -/
  replaced : out.replaced = true ↔ afterId = 0 ∧ stored row slice ≠ [] ∧
    (∀ m ∈ stored row slice, ∀ r ∈ answered row afterId skip slice page, idOf row m < idOf row r) ∧
    (answered row afterId skip slice page = [] → latest = true)
  mem : out.applied = true → ∀ m, m ∈ S ↔
    (out.replaced = false ∧ m ∈ stored row slice ∧
      ¬ Covered row afterId latest (answered row afterId skip slice page) (idOf row m)) ∨
    ∃ r ∈ answered row afterId skip slice page, m = keepRow row (.ofRows (stored row slice)) r

theorem mem_answered : r ∈ answered row afterId skip slice page ↔ r ∈ page ∧ idOf row r ∉ skip ∧
    (afterId = 0 ∨ ((stored row slice).head?.map (idOf row)).getD 0 ≤ idOf row r) := by
  rw [answered, mem_filter, Bool.and_eq_true, decide_eq_true_eq, Bool.or_eq_true,
    decide_eq_true_eq, decide_eq_true_eq]

theorem Ascending.covers (h : Ascending row rows) {first last : T}
    (hfirst : rows.head? = some first) (hlast : rows.getLast? = some last) (i : Nat) :
    ((∃ r ∈ rows, idOf row r ≤ i) ↔ idOf row first ≤ i) ∧
      ((∃ r ∈ rows, i ≤ idOf row r) ↔ i ≤ idOf row last) := by
  refine ⟨⟨fun ⟨r, hr, hle⟩ => ?_, fun hle => ⟨first, mem_of_mem_head? hfirst, hle⟩⟩,
    ⟨fun ⟨r, hr, hle⟩ => ?_, fun hle => ⟨last, mem_of_mem_getLast? hlast, hle⟩⟩⟩
  · have holdest := h.oldest_le hr
    rw [hfirst] at holdest
    exact Nat.le_trans holdest hle
  · obtain ⟨before, rfl⟩ := getLast?_eq_some_iff.1 hlast
    rcases mem_append.1 hr with hr | hr
    · exact Nat.le_trans hle (Nat.le_of_lt ((pairwise_append.1 h).2.2 r hr last (.head _)))
    · rw [mem_singleton.1 hr] at hle
      exact hle

variable (latest) in
theorem refresh_answered (h : IsSlice row slice) (hasc : Ascending row rows)
    (hrows : ∀ r, r ∈ rows ↔ r ∈ answered row afterId skip slice page) (lo : Nat)
    (hi : Option Nat)
    (hrange : ∀ r ∈ rows, lo ≤ idOf row r ∧ ∀ n ∈ hi, idOf row r ≤ n)
    (hcovered : ∀ m ∈ stored row slice, (lo ≤ idOf row m ∧ ∀ n ∈ hi, idOf row m ≤ n) ↔
      Covered row afterId latest (answered row afterId skip slice page) (idOf row m))
    (tail : List T) :
    ∃ out, refresh row (stored row slice) rows lo hi tail = out ++ tail ∧ Ascending row out ∧
      ∀ m, m ∈ out ↔ (false = false ∧ m ∈ stored row slice ∧
        ¬ Covered row afterId latest (answered row afterId skip slice page) (idOf row m)) ∨
      ∃ r ∈ answered row afterId skip slice page,
        m = keepRow row (.ofRows (stored row slice)) r := by
  obtain ⟨out, hout, hascOut, hmem⟩ := refresh_spec h.ascending hasc.nodup hrange tail
  refine ⟨out, hout, hascOut, fun m => (hmem m).trans (or_congr ⟨?_, ?_⟩ ?_)⟩
  · exact fun ⟨hm, houtside⟩ => ⟨rfl, hm, fun hc => houtside ((hcovered m hm).2 hc)⟩
  · exact fun ⟨_, hm, houtside⟩ => ⟨hm, fun hc => houtside ((hcovered m hm).1 hc)⟩
  · exact exists_congr fun r => and_congr_left fun _ => hrows r

/-- Of a page above a row: the slice's rows outside its range, the page's inside. -/
theorem merged_above (h : IsSlice row slice) (hafter : 0 < afterId)
    (habove : ∀ r ∈ page, afterId < idOf row r) (hrowsAsc : Ascending row rows)
    (hmem : ∀ m, m ∈ rows ↔ m ∈ page ∧ idOf row m ∉ skip) (tail : List T) :
    ∃ S, Merged row slice page afterId skip latest tail
      (mergeAbove row (stored row slice ++ tail) (stored row slice) rows tail afterId) S := by
  rw [mergeAbove]
  dsimp only
  have hnotReplaced : ∀ {P : Prop}, false = true ↔ afterId = 0 ∧ P := fun {P} =>
    ⟨fun hf => (by cases hf), fun hP => absurd hP.1 (Nat.ne_of_gt hafter)⟩
  by_cases hgap : stored row slice = [] ∨
      ((stored row slice).getLast?.map (idOf row)).getD 0 < afterId
  · -- The page may lie past a gap.
    rw [if_pos hgap]
    exact ⟨stored row slice, rfl, h.ascending,
      ⟨fun _ => ⟨hafter, (h.ascending.newest_lt afterId).1 hgap⟩, fun _ => rfl⟩, fun _ => rfl,
      hnotReplaced, fun hf => by cases hf⟩
  · rw [if_neg hgap]
    have happlied : true = false ↔ 0 < afterId ∧ ∀ m ∈ stored row slice, idOf row m < afterId :=
      ⟨fun hf => (by cases hf),
        fun hall => absurd ((h.ascending.newest_lt afterId).2 hall.2) hgap⟩
    have hanswered : ∀ r, r ∈ rows.filter (fun r =>
        ((stored row slice).head?.map (idOf row)).getD 0 ≤ idOf row r) ↔
        r ∈ answered row afterId skip slice page := by
      intro r
      rw [mem_filter, hmem, mem_answered, decide_eq_true_eq, and_assoc,
        or_iff_right (Nat.ne_of_gt hafter)]
    have hasc := hrowsAsc.filter fun r =>
      ((stored row slice).head?.map (idOf row)).getD 0 ≤ idOf row r
    generalize rows.filter (fun r =>
      ((stored row slice).head?.map (idOf row)).getD 0 ≤ idOf row r) = rows' at hanswered hasc
    have hcovered : ∀ i, Covered row afterId latest (answered row afterId skip slice page) i ↔
        afterId < i ∧ ∃ r ∈ rows', i ≤ idOf row r := by
      intro i
      simp only [Covered, if_pos hafter, Nat.ne_of_gt hafter, false_and, false_or, hanswered]
    cases hlast : rows'.getLast? with
    | none =>
      obtain rfl := getLast?_eq_none_iff.1 hlast
      refine ⟨stored row slice, rfl, h.ascending, happlied, fun _ => rfl, hnotReplaced,
        fun _ m => ⟨fun hm => .inl ⟨rfl, hm, fun hc => ?_⟩, ?_⟩⟩
      · obtain ⟨-, r, hr, -⟩ := (hcovered _).1 hc
        cases hr
      · rintro (⟨-, hm, -⟩ | ⟨r, hr, -⟩)
        · exact hm
        · cases (hanswered r).2 hr
    | some last =>
      have hends := hasc.covers (head?_eq_some_head fun hnil => by
        rw [hnil] at hlast
        cases hlast) hlast
      have hrange : ∀ r ∈ rows', max (afterId + 1) (((stored row slice).head?.map
          (idOf row)).getD 0) ≤ idOf row r ∧ ∀ n ∈ some (idOf row last), idOf row r ≤ n := by
        intro r hr
        obtain ⟨hr', -, holdest⟩ := mem_answered.1 ((hanswered r).1 hr)
        refine ⟨Nat.max_le.2 ⟨habove r hr', holdest.resolve_left (Nat.ne_of_gt hafter)⟩, ?_⟩
        intro n hn
        cases hn
        exact (hends _).2.1 ⟨r, hr, Nat.le_refl _⟩
      obtain ⟨out, hout, hascOut, hmemOut⟩ := refresh_answered latest h hasc hanswered _ _
        hrange (fun m hm => by
          rw [hcovered, (hends _).2, Nat.max_le, and_iff_left (h.ascending.oldest_le hm)]
          exact and_congr_right fun _ => ⟨fun hall => hall _ rfl, fun hle n hn => by
            cases hn
            exact hle⟩) tail
      exact ⟨out, hout, hascOut, happlied, fun hf => (by cases hf), hnotReplaced,
        fun _ => hmemOut⟩

theorem merged_older (h : IsSlice row slice) (hrowsAsc : Ascending row rows)
    (hmem : ∀ m, m ∈ rows ↔ m ∈ page ∧ idOf row m ∉ skip) (tail : List T) :
    ∃ S, Merged row slice page 0 skip latest tail
      (mergeOlder row (stored row slice ++ tail) (stored row slice) rows tail latest) S := by
  rw [mergeOlder]
  have hanswered : ∀ r, r ∈ rows ↔ r ∈ answered row 0 skip slice page := by
    intro r
    rw [hmem, mem_answered]
    exact and_congr_right fun _ => ⟨fun hr => ⟨hr, .inl rfl⟩, fun hr => hr.1⟩
  have happlied : true = false ↔ 0 < 0 ∧ ∀ m ∈ stored row slice, idOf row m < 0 :=
    ⟨fun hf => (by cases hf), fun hall => absurd hall.1 (Nat.lt_irrefl 0)⟩
  have hcovered : ∀ i, Covered row 0 latest (answered row 0 skip slice page) i ↔
      (∃ r ∈ rows, idOf row r ≤ i) ∧ (latest = true ∨ ∃ r ∈ rows, i ≤ idOf row r) := by
    intro i
    simp only [Covered, Nat.lt_irrefl, if_false, true_and, hanswered]
  cases hlast : rows.getLast? with
  | none =>
    obtain rfl := getLast?_eq_none_iff.1 hlast
    have hnone : ∀ r, r ∉ answered row 0 skip slice page := fun r hr => by
      cases (hanswered r).2 hr
    have hempty := eq_nil_iff_forall_not_mem.2 hnone
    rw [head?_nil]
    dsimp only
    cases latest with
    | true =>
      -- The newest page of an empty channel.
      rw [if_pos rfl]
      refine ⟨[], rfl, .nil, happlied, fun hf => (by cases hf), ?_, fun _ m => ⟨fun hm => ?_, ?_⟩⟩
      · rw [decide_eq_true_eq]
        exact ⟨fun hne => ⟨rfl, hne, fun _ _ r hr => absurd hr (hnone r), fun _ => rfl⟩,
          fun hall => hall.2.1⟩
      · cases hm
      · rintro (⟨hnot, hm, -⟩ | ⟨r, hr, -⟩)
        · rw [decide_eq_false_iff_not, not_not] at hnot
          rw [hnot] at hm
          cases hm
        · exact absurd hr (hnone r)
    | false =>
      rw [if_neg Bool.false_ne_true]
      refine ⟨stored row slice, rfl, h.ascending, happlied, fun hf => (by cases hf),
        ⟨fun hf => (by cases hf), fun hall => hall.2.2.2 hempty⟩, fun _ m => ⟨fun hm => ?_, ?_⟩⟩
      · refine .inl ⟨rfl, hm, fun hc => ?_⟩
        obtain ⟨⟨r, hr, -⟩, -⟩ := (hcovered _).1 hc
        cases hr
      · rintro (⟨-, hm, -⟩ | ⟨r, hr, -⟩)
        · exact hm
        · exact absurd hr (hnone r)
  | some last =>
    obtain ⟨first, hfirst⟩ : ∃ first, rows.head? = some first := by
      cases rows with
      | nil => cases hlast
      | cons first rows => exact ⟨first, rfl⟩
    have hends := hrowsAsc.covers hfirst hlast
    have hbefore : ∀ {m r : T}, idOf row m < idOf row first →
        r ∈ answered row 0 skip slice page → idOf row m < idOf row r := fun hlt hr =>
      Nat.lt_of_lt_of_le hlt ((hends _).1.1 ⟨_, (hanswered _).2 hr, Nat.le_refl _⟩)
    have hfirstMem := (hanswered first).1 (mem_of_mem_head? hfirst)
    rw [hfirst]
    dsimp only
    by_cases hgap : stored row slice = [] ∨
        ((stored row slice).getLast?.map (idOf row)).getD 0 < idOf row first
    · -- The page lies above the slice and takes its place.
      have hall := (h.ascending.newest_lt _).1 hgap
      rw [if_pos hgap]
      refine ⟨rows, rfl, hrowsAsc, happlied, fun hf => (by cases hf), ?_, fun _ m => ?_⟩
      · rw [decide_eq_true_eq]
        exact ⟨fun hne => ⟨rfl, hne, fun m hm r hr => hbefore (hall m hm) hr,
          fun hnil => absurd hfirstMem (hnil ▸ not_mem_nil)⟩, fun hall => hall.2.1⟩
      · have hnew : ∀ r ∈ answered row 0 skip slice page,
            keepRow row (.ofRows (stored row slice)) r = r := fun r hr =>
          keepRow_of_new h.ascending fun m hm => Nat.ne_of_lt (hbefore (hall m hm) hr)
        rw [hanswered]
        constructor
        · exact fun hm => .inr ⟨m, hm, (hnew m hm).symm⟩
        · rintro (⟨hnot, hm, -⟩ | ⟨r, hr, rfl⟩)
          · rw [decide_eq_false_iff_not, not_not] at hnot
            rw [hnot] at hm
            cases hm
          · rw [hnew r hr]
            exact hr
    · rw [if_neg hgap]
      obtain ⟨out, hout, hascOut, hmemOut⟩ := refresh_answered latest h hrowsAsc hanswered
        (idOf row first) (if latest = true then none else some (idOf row last))
        (fun r hr => ⟨(hends _).1.1 ⟨r, hr, Nat.le_refl _⟩, fun n hn => by
          split at hn
          · cases hn
          · cases hn
            exact (hends _).2.1 ⟨r, hr, Nat.le_refl _⟩⟩)
        (fun m _ => by
          rw [hcovered, (hends _).1, (hends _).2]
          refine and_congr_right fun _ => ?_
          cases latest <;> simp) tail
      refine ⟨out, hout, hascOut, happlied, fun hf => (by cases hf), ⟨fun hf => (by cases hf),
        fun hall => ?_⟩, fun _ => hmemOut⟩
      exact absurd ((h.ascending.newest_lt _).2 fun m hm => hall.2.2.1 m hm first hfirstMem) hgap

/-- A merge leaves the slice's rows outside the page's range, the page's inside. -/
theorem merged_spec (h : IsSlice row slice) (hids : (page.map (idOf row)).Nodup)
    (habove : ∀ r ∈ page, afterId < idOf row r) :
    ∃ S, Merged row slice page afterId skip latest
      ((bubbles row slice).filter fun m =>
        !isSettled row (settledNonces (slice.map row) (page.map row) ownUid) m)
      (mergeStoredPage row slice page ownUid afterId skip latest) S := by
  rw [mergeStoredPage]
  generalize settledNonces (slice.map row) (page.map row) ownUid = settled
  generalize htail : (bubbles row slice).filter (fun m => !isSettled row settled m) = tail
  -- Where the stored rows stay as they are, only the settled bubbles go.
  have hkeep : (if settled ≠ [] then stored row slice ++ tail else slice) =
      stored row slice ++ tail := by
    split
    · rfl
    · rename_i hnone
      have hall : tail = bubbles row slice := by
        rw [← htail, Decidable.not_not.1 hnone]
        exact filter_eq_self.2 fun m _ => by simp [isSettled]
      rw [hall]
      exact h.shape
  have hfilter : ((page.filter fun m => 0 < idOf row m && idOf row m ∉ skip).map
      (idOf row)).Nodup := hids.sublist (filter_sublist.map _)
  have hmem : ∀ m, m ∈ sortById row (page.filter fun m => 0 < idOf row m && idOf row m ∉ skip) ↔
      m ∈ page ∧ idOf row m ∉ skip := by
    intro m
    rw [mem_sortById, mem_filter, Bool.and_eq_true, decide_eq_true_eq, decide_eq_true_eq]
    exact and_congr_right fun hm => and_iff_right (Nat.zero_lt_of_lt (habove m hm))
  rw [hkeep, Table.rows_ofRows hfilter]
  split
  · rename_i hafter
    exact merged_above h hafter habove (ascending_sortById hfilter) hmem tail
  · rename_i hafter
    obtain rfl : afterId = 0 := Nat.eq_zero_of_not_pos hafter
    exact merged_older h (ascending_sortById hfilter) hmem tail

/-! ## The window -/

variable {tail S : List T} {out : MergedPage T} {server : Nat → Prop}

theorem Merged.cases (h : Merged row slice page afterId skip latest tail out S)
    (hslice : IsSlice row slice) (hm : m ∈ S) : m ∈ stored row slice ∨
      out.applied = true ∧ ∃ r ∈ answered row afterId skip slice page, idOf row m = idOf row r := by
  cases happlied : out.applied with
  | false => exact .inl (h.kept happlied ▸ hm)
  | true =>
    rcases (h.mem happlied m).1 hm with ⟨-, hm, -⟩ | ⟨r, hr, rfl⟩
    · exact .inl hm
    · exact .inr ⟨rfl, r, hr, idOf_keepRow hslice.ascending r⟩

theorem Merged.positive (h : Merged row slice page afterId skip latest tail out S)
    (hslice : IsSlice row slice) (habove : ∀ r ∈ page, afterId < idOf row r) :
    ∀ m ∈ S, 0 < idOf row m := by
  intro m hm
  rcases h.cases hslice hm with hm | ⟨-, r, hr, hid⟩
  · exact (mem_stored.1 hm).2
  · rw [hid]
    exact Nat.zero_lt_of_lt (habove r (mem_answered.1 hr).1)

theorem isSlice_append (hslice : IsSlice row slice) (hS : Ascending row S)
    (hpositive : ∀ m ∈ S, 0 < idOf row m) (p : T → Bool) :
    IsSlice row (S ++ (bubbles row slice).filter p) ∧
      stored row (S ++ (bubbles row slice).filter p) = S ∧
      bubbles row (S ++ (bubbles row slice).filter p) = (bubbles row slice).filter p := by
  obtain ⟨hstored, hbubbles⟩ := stored_append hpositive
    fun m hm => (mem_bubbles.1 (mem_filter.1 hm).1).2
  refine ⟨⟨?_, ?_, ?_⟩, hstored, hbubbles⟩
  · rw [hstored, hbubbles]
  · rw [hstored]
    exact hS
  · rw [hbubbles]
    exact hslice.nonces.sublist (filter_sublist.filterMap _)

theorem Merged.mem_of_answered (h : Merged row slice page afterId skip latest tail out S)
    (happlied : out.applied = true) (hr : r ∈ answered row afterId skip slice page) :
    keepRow row (.ofRows (stored row slice)) r ∈ S :=
  (h.mem happlied _).2 (.inr ⟨r, hr, rfl⟩)

theorem Merged.oldest_le (h : Merged row slice page afterId skip latest tail out S)
    (hslice : IsSlice row slice) (hafter : afterId ≠ 0) (hm : m ∈ S) :
    ((stored row slice).head?.map (idOf row)).getD 0 ≤ idOf row m := by
  rcases h.cases hslice hm with hm | ⟨-, r, hr, hid⟩
  · exact hslice.ascending.oldest_le hm
  · rw [hid]
    exact (mem_answered.1 hr).2.2.resolve_left hafter

/-- A merge joins no two rows with one of the server's missing in between. -/
theorem Merged.contiguous (h : Merged row slice page afterId skip latest tail out S)
    (hslice : IsSlice row slice) (hpage : IsPage row server afterId latest page)
    (hcontiguous : Contiguous row server skip slice)
    (hadjoins : afterId = 0 → Adjoins row server skip page slice) :
    ∀ i, server i → i ∉ skip → ∀ m ∈ S, ∀ m' ∈ S, idOf row m ≤ i → i ≤ idOf row m' →
      ∃ x ∈ S, idOf row x = i := by
  intro i hserver hskip m hm m' hm' hle hle'
  cases happlied : out.applied with
  | false =>
    rw [h.kept happlied] at hm hm' ⊢
    exact hcontiguous i hserver hskip m hm m' hm' hle hle'
  | true =>
    obtain ⟨first, last, hfirst, hlast, hrun⟩ := hpage.run
    by_cases hin : ∃ r ∈ page, idOf row r = i
    · -- The page has the row.
      obtain ⟨r, hr, rfl⟩ := hin
      have hr' : r ∈ answered row afterId skip slice page := by
        refine mem_answered.2 ⟨hr, hskip, ?_⟩
        by_cases hafter : afterId = 0
        · exact .inl hafter
        · exact .inr ((h.oldest_le hslice hafter hm).trans hle)
      exact ⟨_, h.mem_of_answered happlied hr', idOf_keepRow hslice.ascending r⟩
    · have hrange : ∀ r ∈ answered row afterId skip slice page,
          first ≤ idOf row r ∧ ∀ n ∈ last, idOf row r ≤ n := fun r hr =>
        ((hrun _).1 ⟨r, (mem_answered.1 hr).1, rfl⟩).2
      -- The row is one of the slice's if it lies outside the page's range.
      have hold : ¬ Covered row afterId latest (answered row afterId skip slice page) i →
          out.replaced = false → (∃ x ∈ stored row slice, idOf row x ≤ i) →
          (∃ x ∈ stored row slice, i ≤ idOf row x) → ∃ x ∈ S, idOf row x = i := by
        rintro hc hreplaced ⟨x, hx, hxi⟩ ⟨y, hy, hiy⟩
        obtain ⟨z, hz, rfl⟩ := hcontiguous i hserver hskip x hx y hy hxi hiy
        exact ⟨z, (h.mem happlied z).2 (.inl ⟨hreplaced, hz, hc⟩), rfl⟩
      have hpageRow : ∀ {r : T}, r ∈ answered row afterId skip slice page →
          idOf row (keepRow row (.ofRows (stored row slice)) r) = idOf row r := fun {r} _ =>
        idOf_keepRow hslice.ascending r
      rcases Nat.lt_or_ge i first with hlow | hlow
      · -- It is below the page, and so is `m`, which is a row of the slice.
        rcases (h.mem happlied m).1 hm with ⟨hreplaced, hmst, -⟩ | ⟨r, hr, rfl⟩
        · refine hold (fun hc => ?_) hreplaced ⟨m, hmst, hle⟩ ?_
          · have hc := hc.1
            split at hc
            · rename_i hafter
              rw [hfirst hafter] at hlow
              omega
            · obtain ⟨r, hr, hri⟩ := hc
              have := (hrange r hr).1
              omega
          · -- The slice reaches up to the page.
            rcases Nat.eq_zero_or_pos afterId with hafter | hafter
            · rcases (h.mem happlied m').1 hm' with ⟨-, hmst', -⟩ | ⟨r', hr', -⟩
              · exact ⟨m', hmst', hle'⟩
              · by_contra hnone
                have hbelow : ∀ y ∈ stored row slice, idOf row y < i := fun y hy =>
                  Nat.lt_of_not_le fun hiy => hnone ⟨y, hy, hiy⟩
                have hreplaced' := h.replaced.2 ⟨hafter, ne_nil_of_mem hmst, fun y hy r hr =>
                  Nat.lt_of_lt_of_le (Nat.lt_trans (hbelow y hy) hlow) (hrange r hr).1,
                  fun hnil => absurd hr' (hnil ▸ not_mem_nil)⟩
                rw [hreplaced] at hreplaced'
                cases hreplaced'
            · by_contra hnone
              have hgap := h.applied.2 ⟨hafter, fun y hy => ?_⟩
              · rw [happlied] at hgap
                cases hgap
              · have hiy : ¬ i ≤ idOf row y := fun hiy => hnone ⟨y, hy, hiy⟩
                rw [hfirst hafter] at hlow
                omega
        · rw [hpageRow hr] at hle
          have := (hrange r hr).1
          omega
      · -- It is above the page, and so is `m'`, which is a row of the slice.
        obtain ⟨n, rfl, hn⟩ : ∃ n, last = some n ∧ n < i := by
          by_contra hnone
          refine hin ((hrun i).2 ⟨hserver, hlow, fun n hn => ?_⟩)
          exact Nat.le_of_not_lt fun hlt => hnone ⟨n, hn, hlt⟩
        rcases (h.mem happlied m').1 hm' with ⟨hreplaced, hmst', -⟩ | ⟨r, hr, rfl⟩
        · refine hold (fun hc => ?_) hreplaced ?_ ⟨m', hmst', hle'⟩
          · rcases hc.2 with ⟨-, hlatest⟩ | ⟨r, hr, hri⟩
            · cases hlast hlatest
            · have := (hrange r hr).2 n rfl
              omega
          · rcases (h.mem happlied m).1 hm with ⟨-, hmst, -⟩ | ⟨r, hr, rfl⟩
            · exact ⟨m, hmst, hle⟩
            · rw [hpageRow hr] at hle
              have hrn := (hrange r hr).2 n rfl
              rcases Nat.eq_zero_or_pos afterId with hafter | hafter
              · rcases Nat.eq_or_lt_of_le hle' with hsame | hlt
                · exact ⟨m', hmst', hsame.ge⟩
                · -- The page reaches up to the slice.
                  rcases hadjoins hafter r (mem_answered.1 hr).1 m' hmst' i hserver hskip (by omega)
                    hlt with ⟨r', hr', hir'⟩ | hx
                  · have := ((hrun _).1 ⟨r', hr', rfl⟩).2.2 n rfl
                    omega
                  · exact hx
              · cases hhead : (stored row slice).head? with
                | none =>
                  rw [head?_eq_none_iff.1 hhead] at hmst'
                  cases hmst'
                | some oldest =>
                  have hold := (mem_answered.1 hr).2.2.resolve_left (Nat.ne_of_gt hafter)
                  rw [hhead] at hold
                  exact ⟨oldest, mem_of_mem_head? hhead, Nat.le_trans hold hle⟩
        · rw [hpageRow hr] at hle'
          have := (hrange r hr).2 n rfl
          omega

theorem Merged.again {slice' tail' S' : List T} {out' : MergedPage T}
    (h : Merged row slice page afterId skip latest tail out S) (hslice : IsSlice row slice)
    (h' : Merged row slice' page afterId skip latest tail' out' S')
    (hstored : stored row slice' = S)
    (habove : ∀ r ∈ page, afterId < idOf row r)
    (hin : ∀ r ∈ page, ∃ m ∈ S, idOf row m = idOf row r) : S' = S := by
  have happlied' := h'.applied
  have hreplaced' := h'.replaced
  rw [hstored] at happlied' hreplaced'
  cases happlied : out.applied with
  | false =>
    -- It does not go in the second time either.
    rw [h'.kept, hstored]
    have hgap := h.applied.1 happlied
    rw [← h.kept happlied] at hgap
    exact happlied'.2 hgap
  | true =>
    -- The same rows of the page are asked for.
    have hanswered : ∀ r, r ∈ answered row afterId skip slice' page ↔
        r ∈ answered row afterId skip slice page := by
      intro r
      rw [mem_answered, mem_answered, hstored]
      refine and_congr_right fun hr => and_congr_right fun _ => ?_
      rcases Nat.eq_zero_or_pos afterId with hafter | hafter
      · exact ⟨fun _ => .inl hafter, fun _ => .inl hafter⟩
      · obtain ⟨m, hm, hid⟩ := hin r hr
        exact ⟨fun _ => .inr (hid ▸ h.oldest_le hslice (Nat.ne_of_gt hafter) hm),
          fun _ => .inr (hid ▸ h.ascending.oldest_le hm)⟩
    have hcovered : ∀ i, Covered row afterId latest (answered row afterId skip slice' page) i ↔
        Covered row afterId latest (answered row afterId skip slice page) i := by
      intro i
      simp only [Covered, hanswered]
    have hkept : ∀ r ∈ answered row afterId skip slice page,
        keepRow row (.ofRows S) r = keepRow row (.ofRows (stored row slice)) r := fun r hr =>
      keepRow_again hslice.ascending h.ascending (h.mem_of_answered happlied hr)
    have hagain : out'.applied = true := by
      by_contra hnot
      obtain ⟨hafter, hall⟩ := happlied'.1 (Bool.not_eq_true _ ▸ hnot)
      -- The slice had a row at the cursor or above it, and the merge has one.
      have hreach : ¬ ∀ m ∈ stored row slice, idOf row m < afterId := fun hbelow => by
        have hgap := h.applied.2 ⟨hafter, hbelow⟩
        rw [happlied] at hgap
        cases hgap
      refine hreach fun m hm => Nat.lt_of_not_le fun hle => ?_
      by_cases hc : Covered row afterId latest (answered row afterId skip slice page) (idOf row m)
      · rcases hc.2 with ⟨hzero, -⟩ | ⟨r, hr, -⟩
        · exact Nat.ne_of_gt hafter hzero
        · have hlt := hall _ (h.mem_of_answered happlied hr)
          rw [idOf_keepRow hslice.ascending] at hlt
          exact Nat.lt_asymm hlt (habove r (mem_answered.1 hr).1)
      · have hreplaced : out.replaced = false := by
          by_contra hrep
          exact Nat.ne_of_gt hafter (h.replaced.1 (Bool.not_eq_false _ ▸ hrep)).1
        have hlt := hall m ((h.mem happlied m).2 (.inl ⟨hreplaced, hm, hc⟩))
        omega
    have hinPlace : out'.replaced = false := by
      by_contra hrep
      obtain ⟨hafter, hne, hbelow, hlatest⟩ := hreplaced'.1 (Bool.not_eq_false _ ▸ hrep)
      obtain ⟨m, hm⟩ := exists_mem_of_ne_nil S hne
      rcases h.cases hslice hm with hmst | ⟨-, r, hr, hid⟩
      · by_cases hempty : answered row afterId skip slice' page = []
        · -- An empty newest page had left no rows.
          have hempty' : answered row afterId skip slice page = [] :=
            eq_nil_iff_forall_not_mem.2 fun r hr =>
              absurd ((hanswered r).2 hr) (hempty ▸ not_mem_nil)
          have hrep' := h.replaced.2 ⟨hafter, ne_nil_of_mem hmst,
            fun _ _ r hr => absurd hr (hempty' ▸ not_mem_nil), fun _ => hlatest hempty⟩
          rcases (h.mem happlied m).1 hm with ⟨hnot, -⟩ | ⟨r, hr, -⟩
          · rw [hrep'] at hnot
            cases hnot
          · exact absurd hr (hempty' ▸ not_mem_nil)
        · obtain ⟨r, hr⟩ := exists_mem_of_ne_nil _ hempty
          have hr' := (hanswered r).1 hr
          have hlt := hbelow _ (h.mem_of_answered happlied hr') r hr
          rw [idOf_keepRow hslice.ascending] at hlt
          exact Nat.lt_irrefl _ hlt
      · have hlt := hbelow m hm r ((hanswered r).2 hr)
        exact Nat.ne_of_lt hlt hid
    refine h'.ascending.ext h.ascending fun m => ?_
    rw [h'.mem hagain, hstored, hcovered]
    constructor
    · rintro (⟨-, hm, -⟩ | ⟨r, hr, rfl⟩)
      · exact hm
      · have hr' := (hanswered r).1 hr
        rw [hkept r hr']
        exact h.mem_of_answered happlied hr'
    · intro hm
      by_cases hc : Covered row afterId latest (answered row afterId skip slice page) (idOf row m)
      · rcases (h.mem happlied m).1 hm with ⟨-, -, hout⟩ | ⟨r, hr, rfl⟩
        · exact absurd hc hout
        · exact .inr ⟨r, (hanswered r).2 hr, (hkept r hr).symm⟩
      · exact .inl ⟨hinPlace, hm, hc⟩

theorem IsPage.above (h : IsPage row server afterId latest page) :
    ∀ r ∈ page, afterId < idOf row r := by
  intro r hr
  obtain ⟨first, last, hfirst, -, hrun⟩ := h.run
  rcases Nat.eq_zero_or_pos afterId with hafter | hafter
  · rw [hafter]
    exact h.stored r hr
  · have hle := ((hrun _).1 ⟨r, hr, rfl⟩).2.1
    rw [hfirst hafter] at hle
    exact hle

variable (row) in
/-- What the merge of a page of a server's rows makes of a slice. -/
structure KeepsWindow (server : Nat → Prop) (slice page : List T) (ownUid : Int) (afterId : Nat)
    (skip : List Nat) (latest : Bool) (out : MergedPage T) : Prop where
  isSlice : IsSlice row out.list
  /-- The page's rows inside its range, the slice's outside it. -/
  rows : Merged row slice page afterId skip latest (bubbles row out.list) out (stored row out.list)
  bubbles : bubbles row out.list = (bubbles row slice).filter fun m =>
    !isSettled row (settledNonces (slice.map row) (page.map row) ownUid) m
  /-- Each settled bubble has its own confirming row of the page. -/
  settles : ∃ rowOf, SettledBy ownUid (slice.map row) (page.map row)
    (settledNonces (slice.map row) (page.map row) ownUid) rowOf
  /-- No gap, if the page reaches up to the slice. -/
  contiguous : (afterId = 0 → Adjoins row server skip page slice) →
    Contiguous row server skip out.list
  again : (∀ r ∈ page, ∃ m ∈ out.list, idOf row m = idOf row r) →
    (mergeStoredPage row out.list page ownUid afterId skip latest).list = out.list

theorem isPage_of_perm {ids : List Nat} (first : Nat) (last : Option Nat)
    (hids : ids.Nodup ∧ ∀ i ∈ ids, 0 < i)
    (hcursor : (0 < afterId → first = afterId + 1) ∧ (latest = true → last = none))
    (hpage : (page.map (idOf row)).Perm (ids.filter fun i => first ≤ i && last.all (i ≤ ·))) :
    IsPage row (· ∈ ids) afterId latest page := by
  have hmem : ∀ i, (∃ r ∈ page, idOf row r = i) ↔
      i ∈ ids ∧ first ≤ i ∧ ∀ n ∈ last, i ≤ n := by
    intro i
    rw [← mem_map, hpage.mem_iff, mem_filter, Bool.and_eq_true, decide_eq_true_eq]
    cases last <;> simp
  refine ⟨fun r hr => ?_, hpage.nodup_iff.2 (hids.1.filter _), first, last, hcursor.1, hcursor.2,
    hmem⟩
  exact hids.2 _ ((hmem _).1 ⟨r, hr, rfl⟩).1

end

end Decibell.Client
