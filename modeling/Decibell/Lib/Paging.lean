import Mathlib.Algebra.GroupWithZero.Nat
import Mathlib.Algebra.Order.BigOperators.Group.List

/-!
# Reading a list page by page

A server answers a cursor with a page of rows and the cursor of the next page, if there is one.
`follow` reads on until there is none.

* `Serves` says what a page must be: what remains at its cursor is the page and what remains
  at the next one, and a page that is not the last has a row.
-/

namespace Lib

open List

variable {R C : Type}

/-- Reads pages until there is no next cursor; `pager i` answers the `i`-th request. -/
def follow (pager : Nat → C → List R × Option C) : Nat → Nat → C → Option (List R)
  | 0, _, _ => none
  | fuel + 1, i, c =>
    match (pager i c).2 with
    | none => some (pager i c).1
    | some c' => (follow pager fuel (i + 1) c').map ((pager i c).1 ++ ·)

/-- A page and the next cursor, where `rest` remains at each. -/
structure Serves (rest : C → List R) (valid : C → Prop) (c : C) (p : List R × Option C) : Prop where
  rows : rest c = p.1 ++ (p.2.map rest).getD []
  valid : ∀ c' ∈ p.2, valid c'
  progress : ∀ c' ∈ p.2, p.1 ≠ []

/-- Following the cursors reads what remains, each row once, in order. -/
theorem follow_eq_some {pager : Nat → C → List R × Option C} {rest : C → List R} {valid : C → Prop}
    (h : ∀ i c, valid c → Serves rest valid c (pager i c)) {fuel : Nat} (i : Nat) {c : C}
    (hc : valid c) (hfuel : (rest c).length < fuel) :
    follow pager fuel i c = some (rest c) := by
  induction fuel generalizing i c with
  | zero => exact absurd hfuel (Nat.not_lt_zero _)
  | succ fuel ih =>
    obtain ⟨hrows, hvalid, hprogress⟩ := h i c hc
    rw [follow]
    cases hnext : (pager i c).2 with
    | none =>
      rw [hnext, Option.map_none, Option.getD_none, append_nil] at hrows
      rw [hrows]
    | some c' =>
      rw [hnext, Option.map_some, Option.getD_some] at hrows
      have hlength := congrArg List.length hrows
      have hpos := length_pos_of_ne_nil (hprogress c' hnext)
      rw [length_append] at hlength
      dsimp only
      rw [ih (i + 1) (hvalid c' hnext) (by omega), Option.map_some, ← hrows]

/-- A page that begins the rows at its cursor, and names its last if there are more. -/
theorem serves_of_append {rest : C → List R} {valid : C → Prop} {c : C} {page : List R}
    {next : Option C} (cursor : R → C) (tail : List R) (hrest : rest c = page ++ tail)
    (hnext : next = if tail = [] then none else page.getLast?.map cursor)
    (hpage : tail ≠ [] → page ≠ [])
    (hcursor : ∀ done x, page = done ++ [x] → valid (cursor x) ∧ rest (cursor x) = tail) :
    Serves rest valid c (page, next) := by
  by_cases htail : tail = []
  · rw [if_pos htail] at hnext
    subst hnext
    exact ⟨by rw [hrest, htail]; rfl, nofun, nofun⟩
  · rw [if_neg htail, getLast?_eq_some_getLast (hpage htail), Option.map_some] at hnext
    subst hnext
    obtain ⟨hvalid, hafter⟩ := hcursor _ _ (dropLast_concat_getLast (hpage htail)).symm
    refine ⟨?_, ?_, fun _ _ => hpage htail⟩
    · rw [hrest, Option.map_some, Option.getD_some, hafter]
    · rintro _ ⟨⟩
      exact hvalid

/-- A page and what remains, as something else shows them. -/
theorem Serves.map {S : Type} {rest : C → List R} {valid : C → Prop} {c : C}
    {p : List R × Option C} (h : Serves rest valid c p) (f : R → S) :
    Serves (fun c => (rest c).map f) valid c (p.1.map f, p.2) := by
  obtain ⟨page, next⟩ := p
  refine ⟨?_, h.valid, fun c' hc' => mt map_eq_nil_iff.1 (h.progress c' hc')⟩
  have hrows := congrArg (List.map f) h.rows
  cases next with
  | none => simpa using hrows
  | some c' => simpa using hrows

/-! ## Sorted lists -/

section Sorted

variable {lt : R → R → Prop} [DecidableRel lt]

/-- What comes after a row of a sorted list. -/
theorem filter_lt_of_append [Std.Asymm lt] {done rest : List R} {x : R}
    (h : (done ++ x :: rest).Pairwise lt) : (done ++ x :: rest).filter (lt x ·) = rest := by
  rw [pairwise_append, pairwise_cons] at h
  obtain ⟨-, ⟨hrest, -⟩, hdone⟩ := h
  have hnone : done.filter (lt x ·) = [] := by
    rw [filter_eq_nil_iff]
    intro y hy hlt
    exact Std.Asymm.asymm _ _ (hdone y hy x (.head rest)) (of_decide_eq_true hlt)
  have hx : ¬ lt x x := fun hlt => Std.Asymm.asymm _ _ hlt hlt
  rw [filter_append, hnone, nil_append, filter_cons_of_neg (by simpa using hx),
    filter_eq_self]
  exact fun y hy => decide_eq_true (hrest y hy)

/-- What remains of a sorted list read up to its row `x`. -/
theorem filter_lt_of_filter [Std.Asymm lt] {l done rest : List R} {x : R} {p : R → Bool}
    (hl : l.Pairwise lt) (hup : ∀ y z, p y → lt y z → p z) (hp : l.filter p = done ++ x :: rest) :
    l.filter (lt x ·) = rest := by
  have hx : p x := by
    have hmem : x ∈ l.filter p := hp ▸ mem_append_right done (.head rest)
    exact (mem_filter.1 hmem).2
  have hbeyond : l.filter (lt x ·) = (l.filter p).filter (lt x ·) := by
    rw [filter_filter]
    refine filter_congr fun y _ => ?_
    by_cases hy : lt x y
    · simp [hy, hup x y hx hy]
    · simp [hy]
  rw [hbeyond, hp]
  exact filter_lt_of_append (hp ▸ hl.filter _)

/-- A sorted list is what is up to a point and what is beyond it. -/
theorem filter_append_filter_lt {K : Type} [LinearOrder K] {l : List K} (h : l.Pairwise (· < ·))
    (c : K) : l.filter (· ≤ c) ++ l.filter (c < ·) = l := by
  induction l with
  | nil => rfl
  | cons x l ih =>
    rw [pairwise_cons] at h
    by_cases hx : x ≤ c
    · rw [filter_cons_of_pos (by simpa using hx), filter_cons_of_neg (by simpa using hx),
        cons_append, ih h.2]
    · -- Beyond the point there are only rows beyond it.
      have hnone : l.filter (· ≤ c) = [] := by
        rw [filter_eq_nil_iff]
        intro y hy hle
        exact hx ((h.1 y hy).le.trans (of_decide_eq_true hle))
      have hall : (x :: l).filter (c < ·) = x :: l := by
        rw [filter_eq_self]
        intro y hy
        refine decide_eq_true (lt_of_not_ge fun hle => hx ?_)
        rcases mem_cons.1 hy with rfl | hy
        · exact hle
        · exact (h.1 y hy).le.trans hle
      rw [filter_cons_of_neg (by simpa using hx), hnone, nil_append, hall]

end Sorted

/-! ## Windows -/

section Windows

variable {K : Type}

/-- Keys found, in one piece; whether there are others before and after. -/
structure IsWindow (found older keys newer : List K) (before after : Bool) : Prop where
  parts : found = older ++ keys ++ newer
  before : before = true ↔ older ≠ []
  after : after = true ↔ newer ≠ []
  goes : found ≠ [] → keys ≠ []

variable {all older keys newer : List K} {p : K → Bool} {before after : Bool}

/-- A window at the start of what comes after somewhere is a page. -/
theorem IsWindow.serves_after {lt : K → K → Prop} [DecidableRel lt] [Std.Asymm lt]
    (h : IsWindow (all.filter p) [] keys newer before after)
    (rest : C → List K) (valid : C → Prop) (cursor : K → C) {c : C}
    (hall : all.Pairwise lt) (hup : ∀ y z, p y → lt y z → p z) (hrest : rest c = all.filter p)
    (hcursor : ∀ x ∈ all, valid (cursor x) ∧ rest (cursor x) = all.filter (lt x ·)) :
    Serves rest valid c (keys, if after then keys.getLast?.map cursor else none) := by
  have hparts := h.parts
  rw [nil_append] at hparts
  refine serves_of_append cursor newer ?_ ?_ ?_ ?_
  · rw [hrest, hparts]
  · by_cases hnil : newer = []
    · have hno : ¬ after = true := fun hyes => h.after.1 hyes hnil
      rw [if_neg hno, if_pos hnil]
    · rw [if_pos (h.after.2 hnil), if_neg hnil]
  · intro hne
    refine h.goes fun hnil => hne ?_
    rw [hnil] at hparts
    exact (append_eq_nil_iff.1 hparts.symm).2
  · intro done x hx
    have hread : all.filter p = done ++ x :: newer := by
      rw [hparts, hx, append_assoc]
      rfl
    have hmem : x ∈ all.filter p := hread ▸ mem_append_right done (.head _)
    obtain ⟨hvalid, hbeyond⟩ := hcursor x (mem_filter.1 hmem).1
    exact ⟨hvalid, hbeyond.trans (filter_lt_of_filter hall hup hread)⟩

variable [LinearOrder K]

/-- What is before a key of a sorted list. -/
theorem filter_gt_of_append {done rest : List K} {x : K} (h : all.Pairwise (· < ·))
    (hall : all = done ++ x :: rest) : all.filter (· < x) = done := by
  have hreverse : all.reverse = rest.reverse ++ x :: done.reverse := by
    rw [hall, reverse_append, reverse_cons, append_assoc]
    rfl
  have hsorted : (rest.reverse ++ x :: done.reverse).Pairwise (· > ·) :=
    hreverse ▸ pairwise_reverse.2 h
  have hbelow := filter_lt_of_append hsorted
  rw [← hreverse, filter_reverse] at hbelow
  exact reverse_injective hbelow

/-- What is up to a key of a sorted list. -/
theorem filter_le_of_append {done rest : List K} {x : K} (h : all.Pairwise (· < ·))
    (hall : all = done ++ x :: rest) : all.filter (· ≤ x) = done ++ [x] := by
  subst hall
  rw [pairwise_append, pairwise_cons] at h
  obtain ⟨-, ⟨hrest, -⟩, hdone⟩ := h
  have hkeep : done.filter (· ≤ x) = done := by
    rw [filter_eq_self]
    exact fun y hy => decide_eq_true (hdone y hy x (.head rest)).le
  have hnone : rest.filter (· ≤ x) = [] := by
    rw [filter_eq_nil_iff]
    exact fun y hy hle => not_le.2 (hrest y hy) (of_decide_eq_true hle)
  rw [filter_append, hkeep, filter_cons_of_pos (by simp), hnone]

/-- A window at the end of what comes before somewhere is a page. -/
theorem IsWindow.serves_before (h : IsWindow (all.filter p) older keys [] before after)
    (rest : C → List K) (valid : C → Prop) (cursor : K → C) {c : C}
    (hall : all.Pairwise (· < ·)) (hdown : ∀ y z, p y → z < y → p z) (hrest : rest c = (all.filter p).reverse)
    (hcursor : ∀ x ∈ all, valid (cursor x) ∧ rest (cursor x) = (all.filter (· < x)).reverse) :
    Serves rest valid c (keys.reverse, if before then keys.head?.map cursor else none) := by
  have hparts := h.parts
  rw [append_nil] at hparts
  refine serves_of_append cursor older.reverse ?_ ?_ ?_ ?_
  · rw [hrest, hparts, reverse_append]
  · rw [getLast?_reverse]
    by_cases hnil : older = []
    · have hno : ¬ before = true := fun hyes => h.before.1 hyes hnil
      rw [if_neg hno, hnil, reverse_nil, if_pos rfl]
    · rw [if_pos (h.before.2 hnil), if_neg (mt reverse_eq_nil_iff.1 hnil)]
  · intro hne
    rw [ne_eq, reverse_eq_nil_iff] at hne ⊢
    refine h.goes fun hnil => hne ?_
    rw [hnil] at hparts
    exact (append_eq_nil_iff.1 hparts.symm).1
  · intro done x hx
    -- Read from the end, the keys are those of the page up to `x`, and then the older ones.
    have hread : all.reverse.filter p = done ++ x :: older.reverse := by
      rw [filter_reverse, hparts, reverse_append, hx, append_assoc]
      rfl
    have hmem : x ∈ all := by
      have hmem : x ∈ all.reverse.filter p := hread ▸ mem_append_right done (.head _)
      exact mem_reverse.1 (mem_filter.1 hmem).1
    obtain ⟨hvalid, hbelow⟩ := hcursor x hmem
    refine ⟨hvalid, ?_⟩
    rw [hbelow, ← filter_reverse]
    exact filter_lt_of_filter (pairwise_reverse.2 hall : all.reverse.Pairwise (· > ·))
      (fun y z hy hlt => hdown y z hy hlt) hread

/-- From a window's edges a reader finds all before and after it. -/
theorem IsWindow.around (h : IsWindow all older keys newer before after)
    (below beyond : K → Option (List K)) (hall : all.Pairwise (· < ·))
    (hbelow : ∀ x ∈ all, below x = some (all.filter (· < x)))
    (hbeyond : ∀ x ∈ all, beyond x = some (all.filter (x < ·))) :
    (if before then keys.head?.bind below else some []) = some older ∧
      (if after then keys.getLast?.bind beyond else some []) = some newer := by
  have hparts := h.parts
  constructor
  · by_cases hmore : before = true
    · have hfound : all ≠ [] := by
        rw [hparts, append_assoc]
        exact append_ne_nil_of_left_ne_nil (h.before.1 hmore) _
      obtain ⟨x, more, hx⟩ := exists_cons_of_ne_nil (h.goes hfound)
      have hsplit : all = older ++ x :: (more ++ newer) := by
        rw [hparts, hx, append_assoc]
        rfl
      have hmem : x ∈ all := hsplit ▸ mem_append_right older (.head _)
      rw [if_pos hmore, hx, head?_cons, Option.bind_some, hbelow x hmem,
        filter_gt_of_append hall hsplit]
    · rw [if_neg hmore, Decidable.not_not.1 (mt h.before.2 hmore)]
  · by_cases hmore : after = true
    · have hfound : all ≠ [] := by
        rw [hparts]
        exact append_ne_nil_of_right_ne_nil _ (h.after.1 hmore)
      obtain ⟨more, y, hy⟩ := eq_nil_or_concat' keys |>.resolve_left (h.goes hfound)
      have hsplit : all = (older ++ more) ++ y :: newer := by
        rw [hparts, hy, append_assoc, append_assoc, append_assoc]
        rfl
      have hmem : y ∈ all := hsplit ▸ mem_append_right _ (.head _)
      rw [if_pos hmore, hy, getLast?_append, getLast?_singleton, Option.some_or,
        Option.bind_some, hbeyond y hmem]
      rw [hsplit] at hall ⊢
      rw [filter_lt_of_append hall]
    · rw [if_neg hmore, Decidable.not_not.1 (mt h.after.2 hmore)]

end Windows

/-! ## A row limit -/

/-- The first rows, one more being read to tell whether there are more. -/
def takePage (limit : Nat) (rows : List R) : List R × Bool :=
  let out := rows.take (limit + 1)
  if out.length > limit then (out.dropLast, true) else (out, false)

theorem takePage_eq (limit : Nat) (rows : List R) :
    takePage limit rows = (rows.take limit, decide (limit < rows.length)) := by
  unfold takePage
  dsimp only
  rw [length_take]
  split
  · have hlt : limit < rows.length := by omega
    have hmin : min (min (limit + 1) rows.length - 1) (limit + 1) = limit := by omega
    rw [dropLast_eq_take, length_take, take_take, hmin, decide_eq_true hlt]
  · have hle : rows.length ≤ limit := by omega
    rw [take_of_length_le hle, take_of_length_le (by omega),
      decide_eq_false (Nat.not_lt.2 hle)]

theorem takePage_rest (limit : Nat) (rows : List R) :
    ((takePage limit rows).2 = true ↔ rows.drop limit ≠ []) ∧
      (takePage limit rows).1 = rows.take limit := by
  rw [takePage_eq]
  refine ⟨?_, rfl⟩
  rw [decide_eq_true_iff, ne_eq, drop_eq_nil_iff]
  omega

theorem take_ne_nil {n : Nat} {l : List R} (hn : 0 < n) (h : l ≠ []) : l.take n ≠ [] := by
  rw [ne_eq, take_eq_nil_iff]
  rintro (hzero | hnil)
  · omega
  · exact h hnil

/-- What is left of a list at its start, and where it ends. -/
theorem take_append_reverse {l p : List R} (h : p <+: l.reverse) :
    l.take (l.length - p.length) ++ p.reverse = l := by
  have hp : p = l.reverse.take p.length := prefix_iff_eq_take.1 h
  rw [hp, reverse_take, reverse_reverse, length_take, length_reverse]
  have hle : p.length ≤ l.length := by simpa using h.length_le
  rw [Nat.min_eq_left hle]
  exact take_append_drop ..

@[simp] theorem takePage_nil (limit : Nat) : takePage limit ([] : List R) = ([], false) := by
  rw [takePage_eq, take_nil, length_nil, decide_eq_false (Nat.not_lt_zero limit)]

theorem takePage_map {S : Type} (f : R → S) (limit : Nat) (rows : List R) :
    takePage limit (rows.map f) = ((takePage limit rows).1.map f, (takePage limit rows).2) := by
  rw [takePage_eq, takePage_eq, map_take, length_map]

theorem takePage_take (limit : Nat) (rows : List R) :
    takePage limit (rows.take (limit + 1)) = takePage limit rows := by
  rw [takePage_eq, takePage_eq, take_take, length_take]
  congr 2
  · omega
  · exact propext (by omega)

/-- The window that a row limit leaves on both sides of a point. -/
theorem IsWindow.fetched {limit : Nat} (hlimit : 0 < limit) (upto beyond : List R) :
    IsWindow (upto.reverse ++ beyond) (upto.drop limit).reverse
      ((takePage limit upto).1.reverse ++ (takePage limit beyond).1) (beyond.drop limit)
      (takePage limit upto).2 (takePage limit beyond).2 := by
  obtain ⟨hbefore, hupto⟩ := takePage_rest limit upto
  obtain ⟨hafter, hbeyond⟩ := takePage_rest limit beyond
  refine ⟨?_, ?_, hafter, fun hne => ?_⟩
  · rw [hupto, hbeyond]
    calc upto.reverse ++ beyond
        = (upto.take limit ++ upto.drop limit).reverse ++
            (beyond.take limit ++ beyond.drop limit) := by
          rw [take_append_drop, take_append_drop]
      _ = _ := by simp only [reverse_append, append_assoc]
  · rw [hbefore, ne_eq, ne_eq, reverse_eq_nil_iff]
  · rw [hupto, hbeyond]
    by_cases hnil : upto = []
    · refine append_ne_nil_of_right_ne_nil _ (take_ne_nil hlimit fun hbeyond => hne ?_)
      rw [hnil, hbeyond]
      rfl
    · exact append_ne_nil_of_left_ne_nil
        (mt reverse_eq_nil_iff.1 (take_ne_nil hlimit hnil)) _

/-- The window that a cut leaves, from the key `first` to `last`. -/
theorem IsWindow.cut {found older keys newer : List R} {before after : Bool}
    (h : IsWindow found older keys newer before after) (first last : Nat)
    (hle : first ≤ last) (hlast : last ≤ keys.length) (hlt : keys ≠ [] → first < last) :
    IsWindow found (older ++ keys.take first) ((keys.drop first).take (last - first))
      (keys.drop last ++ newer) (before || decide (0 < first))
      (after || decide (last < keys.length)) := by
  have hkeys : keys.take first ++ (keys.drop first).take (last - first) ++ keys.drop last = keys := by
    have hmid : (keys.drop first).drop (last - first) = keys.drop last := by
      rw [drop_drop, Nat.add_sub_cancel' hle]
    rw [append_assoc, ← hmid, take_append_drop, take_append_drop]
  refine ⟨?_, ?_, ?_, fun hne => ?_⟩
  · calc found = older ++ keys ++ newer := h.parts
      _ = older ++ (keys.take first ++ (keys.drop first).take (last - first) ++ keys.drop last) ++
            newer := by rw [hkeys]
      _ = _ := by simp only [append_assoc]
  · have htake : keys.take first ≠ [] ↔ 0 < first := by
      rw [ne_eq, take_eq_nil_iff, not_or, Nat.pos_iff_ne_zero]
      refine ⟨And.left, fun hfirst => ⟨hfirst, fun hnil => ?_⟩⟩
      rw [hnil] at hlast
      exact hfirst (Nat.le_zero.1 (hle.trans hlast))
    rw [Bool.or_eq_true, h.before, decide_eq_true_iff, ← htake, ne_eq, ne_eq, ne_eq,
      append_eq_nil_iff, not_and_or]
  · have hdrop : keys.drop last ≠ [] ↔ last < keys.length := by
      rw [ne_eq, drop_eq_nil_iff, Nat.not_le]
    rw [Bool.or_eq_true, h.after, decide_eq_true_iff, ← hdrop, ne_eq, ne_eq, ne_eq,
      append_eq_nil_iff, not_and_or, or_comm]
  · have hlt := hlt (h.goes hne)
    have hlen : ((keys.drop first).take (last - first)).length = last - first := by
      rw [length_take, length_drop]
      omega
    exact ne_nil_of_length_pos (by omega)

/-- A key that is not cut away. -/
theorem mem_slice {l done rest : List R} {x : R} (hl : l = done ++ x :: rest) {first last : Nat}
    (hfirst : first ≤ done.length) (hlast : done.length < last) :
    x ∈ (l.drop first).take (last - first) := by
  rw [hl, drop_append_of_le_length hfirst, take_append, length_drop]
  refine mem_append_right _ ?_
  obtain ⟨k, hk⟩ : ∃ k, last - first - (done.length - first) = k + 1 :=
    ⟨last - done.length - 1, by omega⟩
  rw [hk, take_succ_cons]
  exact .head _

/-- The window that is left of the first keys. -/
theorem IsWindow.keepFirst {found older keys newer : List R} {before after : Bool}
    (h : IsWindow found older keys newer before after) (count : Nat) (hcount : count ≤ keys.length)
    (hpos : keys ≠ [] → 0 < count) :
    IsWindow found older (keys.take count) (keys.drop count ++ newer) before
      (after || decide (count < keys.length)) := by
  have hcut := h.cut 0 count (Nat.zero_le _) hcount hpos
  rw [take_zero, append_nil, drop_zero, Nat.sub_zero,
    decide_eq_false (Nat.lt_irrefl 0), Bool.or_false] at hcut
  exact hcut

/-- The window of the last keys, in the other order. -/
theorem IsWindow.keepLast {found older keys newer : List R} {before after : Bool}
    (h : IsWindow found older keys.reverse newer before after) (count : Nat)
    (hcount : count ≤ keys.length) (hpos : keys ≠ [] → 0 < count) :
    IsWindow found (older ++ (keys.drop count).reverse) (keys.take count).reverse newer
      (before || decide (count < keys.length)) after := by
  have hcut := h.cut (keys.length - count) keys.length (Nat.sub_le _ _)
    (by rw [length_reverse]) fun hne => by
      have hpos := hpos (mt reverse_eq_nil_iff.2 hne)
      omega
  have hcounts : keys.length - (keys.length - count) = count := by omega
  have hlast : (keys.reverse.drop (keys.length - count)).take count = (keys.take count).reverse := by
    rw [reverse_take]
    exact take_of_length_le (by rw [length_drop, length_reverse]; omega)
  have hmore : decide (0 < keys.length - count) = decide (count < keys.length) :=
    decide_eq_decide.2 (by omega)
  rw [hcounts, hlast, hmore, length_reverse, decide_eq_false (Nat.lt_irrefl _), Bool.or_false,
    drop_of_length_le (by rw [length_reverse]), nil_append, ← reverse_drop]
    at hcut
  exact hcut

/-- A piece of a list, cut at its end. -/
theorem drop_take_min (l : List R) (offset limit : Nat) :
    (l.take (min l.length (min l.length offset + limit))).drop (min l.length offset) =
      (l.drop offset).take limit := by
  rw [drop_take]
  rcases le_total offset l.length with hle | hge
  · have hcount : min l.length (offset + limit) - offset = min limit (l.drop offset).length := by
      rw [length_drop]
      omega
    rw [Nat.min_eq_right hle, hcount, ← take_eq_take_min]
  · rw [Nat.min_eq_left hge, drop_length, take_nil, drop_of_length_le hge,
      take_nil]

/-! ## A budget of bytes -/

section Budget

variable (size : R → Nat) (budget : Nat)

/-- The rows that fit after `bytes`, up to the first that does not. -/
def fitRows : Nat → List R → List R
  | _, [] => []
  | bytes, r :: rs =>
    if bytes + size r ≤ budget then r :: fitRows (bytes + size r) rs else []

/-- The rows that fit; the first one goes whatever its size. -/
def fitPage : List R → List R
  | [] => []
  | r :: rs => r :: fitRows size budget (size r) rs

/-- One side's next row, if it fits after `bytes`: the bytes, the row, and the rows to try, none
    once one did not fit. -/
def growSide (bytes : Nat) : List R → Nat × List R × List R
  | [] => (bytes, [], [])
  | r :: rs => if bytes + size r ≤ budget then (bytes + size r, [r], rs) else (bytes, [], [])

theorem length_growSide (bytes : Nat) (l : List R) (h : l ≠ []) :
    (growSide size budget bytes l).2.2.length < l.length := by
  cases l with
  | nil => exact absurd rfl h
  | cons r rs =>
    rw [growSide]
    split
    · exact Nat.lt_succ_self _
    · exact Nat.succ_pos _

theorem length_growSide_le (bytes : Nat) (l : List R) :
    (growSide size budget bytes l).2.2.length ≤ l.length := by
  cases l with
  | nil => exact Nat.le_refl _
  | cons r rs => exact Nat.le_of_lt (length_growSide size budget bytes _ (cons_ne_nil r rs))

/-- The older and the newer rows taken, nearest first, a newer and an older in turn. -/
def growPage (bytes : Nat) (older newer : List R) : List R × List R :=
  if _h : older = [] ∧ newer = [] then ([], [])
  else
    let n := growSide size budget bytes newer
    let o := growSide size budget n.1 older
    let more := growPage o.1 o.2.2 n.2.2
    (o.2.1 ++ more.1, n.2.1 ++ more.2)
termination_by older.length + newer.length
decreasing_by
  have hn := length_growSide_le size budget bytes newer
  have ho := length_growSide_le size budget (growSide size budget bytes newer).1 older
  by_cases hne : newer = []
  · have hold := length_growSide size budget (growSide size budget bytes newer).1 older
      fun hold => _h ⟨hold, hne⟩
    omega
  · have hnew := length_growSide size budget bytes newer hne
    omega

variable {size budget}

theorem fitRows_isPrefix (bytes : Nat) (l : List R) : fitRows size budget bytes l <+: l := by
  induction l generalizing bytes with
  | nil => exact prefix_rfl
  | cons r rs ih =>
    rw [fitRows]
    split
    · exact cons_prefix_cons.2 ⟨rfl, ih _⟩
    · exact nil_prefix

theorem fitPage_isPrefix (l : List R) : fitPage size budget l <+: l := by
  cases l with
  | nil => exact prefix_rfl
  | cons r rs => exact cons_prefix_cons.2 ⟨rfl, fitRows_isPrefix _ rs⟩

theorem fitPage_ne_nil {l : List R} (h : l ≠ []) : fitPage size budget l ≠ [] := by
  cases l with
  | nil => exact absurd rfl h
  | cons r rs => exact cons_ne_nil _ _

theorem sum_fitRows_le {bytes : Nat} (h : bytes ≤ budget) (l : List R) :
    bytes + ((fitRows size budget bytes l).map size).sum ≤ budget := by
  induction l generalizing bytes with
  | nil => exact h
  | cons r rs ih =>
    rw [fitRows]
    split
    · rename_i hfits
      rw [map_cons, sum_cons, ← Nat.add_assoc]
      exact ih hfits
    · exact h

theorem fitRows_eq_nil {bytes : Nat} (h : budget < bytes) (l : List R) :
    fitRows size budget bytes l = [] := by
  cases l with
  | nil => rfl
  | cons r rs =>
    rw [fitRows, if_neg]
    omega

variable (size budget) in
/-- A page is within the budget, or a single row. -/
theorem fitPage_within (l : List R) :
    ((fitPage size budget l).map size).sum ≤ budget ∨ (fitPage size budget l).length = 1 ∨
      fitPage size budget l = [] := by
  cases l with
  | nil => exact .inr (.inr rfl)
  | cons r rs =>
    by_cases h : size r ≤ budget
    · exact .inl (sum_fitRows_le h rs)
    · rw [fitPage, fitRows_eq_nil (Nat.lt_of_not_le h)]
      exact .inr (.inl rfl)

theorem fitRows_eq_self {bytes : Nat} {l : List R} (h : bytes + (l.map size).sum ≤ budget) :
    fitRows size budget bytes l = l := by
  induction l generalizing bytes with
  | nil => rfl
  | cons r rs ih =>
    rw [map_cons, sum_cons] at h
    rw [fitRows, if_pos (by omega), ih (by omega)]

/-- Rows within the budget all go. -/
theorem fitPage_eq_self {l : List R} (h : (l.map size).sum ≤ budget) : fitPage size budget l = l := by
  cases l with
  | nil => rfl
  | cons r rs => rw [fitPage, fitRows_eq_self (by simpa using h)]

theorem growSide_isPrefix (bytes : Nat) (l more : List R)
    (h : more <+: (growSide size budget bytes l).2.2) :
    (growSide size budget bytes l).2.1 ++ more <+: l := by
  cases l with
  | nil => exact h
  | cons r rs =>
    rw [growSide] at h ⊢
    split at h
    · rename_i hfits
      rw [if_pos hfits]
      exact cons_prefix_cons.2 ⟨rfl, h⟩
    · rename_i hfits
      rw [if_neg hfits]
      rw [prefix_nil.1 h]
      exact nil_prefix

theorem growSide_bytes (bytes : Nat) (l : List R) :
    (growSide size budget bytes l).1 =
      bytes + ((growSide size budget bytes l).2.1.map size).sum := by
  cases l with
  | nil => rfl
  | cons r rs =>
    rw [growSide]
    split
    · simp
    · rfl

theorem growSide_le {bytes : Nat} (h : bytes ≤ budget) (l : List R) :
    (growSide size budget bytes l).1 ≤ budget := by
  cases l with
  | nil => exact h
  | cons r rs =>
    rw [growSide]
    split
    · assumption
    · exact h

theorem growSide_of_lt {bytes : Nat} (h : budget < bytes) (l : List R) :
    growSide size budget bytes l = (bytes, [], []) := by
  cases l with
  | nil => rfl
  | cons r rs =>
    rw [growSide, if_neg]
    omega

variable (size budget) in
/-- What is taken on both sides is where they start. -/
theorem growPage_isPrefix (bytes : Nat) (older newer : List R) :
    (growPage size budget bytes older newer).1 <+: older ∧
      (growPage size budget bytes older newer).2 <+: newer := by
  fun_induction growPage size budget bytes older newer with
  | case1 bytes older newer h => exact ⟨List.nil_prefix, List.nil_prefix⟩
  | case2 bytes older newer h n o more ih =>
    exact ⟨growSide_isPrefix _ older _ ih.1, growSide_isPrefix _ newer _ ih.2⟩

variable (size) in
/-- What is taken stays within the budget, when the first row is. -/
theorem sum_growPage_le {bytes : Nat} (h : bytes ≤ budget) (older newer : List R) :
    bytes + ((growPage size budget bytes older newer).1.map size).sum +
      ((growPage size budget bytes older newer).2.map size).sum ≤ budget := by
  fun_induction growPage size budget bytes older newer with
  | case1 bytes older newer _ => exact h
  | case2 bytes older newer _ n o more ih =>
    have hn : n.1 = bytes + (n.2.1.map size).sum := growSide_bytes bytes newer
    have ho : o.1 = n.1 + (o.2.1.map size).sum := growSide_bytes n.1 older
    have hwithin : o.1 + (more.1.map size).sum + (more.2.map size).sum ≤ budget :=
      ih (growSide_le (growSide_le h newer) older)
    rw [map_append, map_append, sum_append, sum_append]
    omega

/-- Nothing is taken beside a row over the budget. -/
theorem growPage_of_lt {bytes : Nat} (h : budget < bytes) (older newer : List R) :
    growPage size budget bytes older newer = ([], []) := by
  rw [growPage]
  split
  · rfl
  · rw [growSide_of_lt h newer]
    dsimp only
    rw [growSide_of_lt h older]
    dsimp only
    rw [growPage, dif_pos ⟨rfl, rfl⟩]
    rfl

end Budget

end Lib
