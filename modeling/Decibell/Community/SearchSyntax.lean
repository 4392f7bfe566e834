import Decibell.Community.SearchQuery
import Decibell.Lib.FtsSyntax

/-!
# The text of a search cannot write the query

`buildFtsQuery` spells a query of the full-text index: a string for each word and "phrase" of the
text, and around them only the operators, parentheses and stars that it puts there itself.
-/

namespace Decibell

open Lib List

/-- A word or "phrase" as a string, starred from three letters on. -/
def QueryTerm.asked (t : QueryTerm) : Fts.Term where
  text := dotlessIAsI t.text
  star := ! t.phrase && 3 ≤ wordChars (dotlessIAsI t.text)

/-- There is a letter or a digit in it. -/
def QueryTerm.hasWord (t : QueryTerm) : Bool := wordChars (dotlessIAsI t.text) ≠ 0

/-- The strings that a search is for. -/
def wantedTerms (text : Bytes) : List Fts.Term :=
  ((splitQuery 16 text).filter fun t => t.hasWord && ! t.negate).map (·.asked)

/-- The strings that it leaves out. -/
def unwantedTerms (text : Bytes) : List Fts.Term :=
  ((splitQuery 16 text).filter fun t => t.hasWord && t.negate).map (·.asked)

theorem ftsTerm_eq (t : QueryTerm) : ftsTerm t (dotlessIAsI t.text) = t.asked.spelled := by
  rw [ftsTerm, QueryTerm.asked, Fts.Term.spelled]
  split
  · rfl
  · exact (append_nil _).symm

theorem terms_eq (ts : List QueryTerm) (sign : Bool) :
    ((((ts.map fun t => (t, dotlessIAsI t.text)).filter fun t => wordChars t.2 ≠ 0).map
        fun t => (t.1.negate, ftsTerm t.1 t.2)).filter fun t => t.1 == sign).map (·.2) =
      ((ts.filter fun t => t.hasWord && t.negate == sign).map (·.asked)).map Fts.Term.spelled := by
  induction ts with
  | nil => rfl
  | cons t ts ih =>
    by_cases hword : wordChars (dotlessIAsI t.text) = 0
    · simpa [QueryTerm.hasWord, hword] using ih
    · by_cases hsign : t.negate = sign
      · simpa [QueryTerm.hasWord, hword, hsign, ftsTerm_eq] using ih
      · simpa [QueryTerm.hasWord, hword, hsign] using ih

theorem utf8_signs : utf8 " AND " = 32 :: (Fts.operator 1).1 ++ [32] ∧
    utf8 " NOT " = 32 :: (Fts.operator 0).1 ++ [32] ∧ utf8 "(" = [40] ∧ utf8 ")" = [41] := by
  decide +kernel

theorem buildFtsQuery_spelled (text : Bytes) :
    (buildFtsQuery text).1 = match wantedTerms text with
      | [] => []
      | first :: others => Fts.Query.spelled ⟨first, others, unwantedTerms text⟩ := by
  have hincluded := terms_eq (splitQuery 16 text) false
  have hexcluded := terms_eq (splitQuery 16 text) true
  simp only [beq_false, beq_true] at hincluded hexcluded
  rw [← wantedTerms] at hincluded
  rw [← unwantedTerms] at hexcluded
  obtain ⟨hand, hnot, hopen, hclose⟩ := utf8_signs
  rw [buildFtsQuery, hand, hnot, hopen, hclose]
  dsimp only
  rw [hincluded, hexcluded]
  cases wantedTerms text with
  | nil => rfl
  | cons first others =>
    have hcons : (first :: others).map Fts.Term.spelled ≠ [] := cons_ne_nil _ _
    rw [if_neg hcons]
    by_cases hnone : unwantedTerms text = []
    · rw [if_pos (map_eq_nil_iff.2 hnone), hnone]
      rfl
    · have hsome : (unwantedTerms text).map Fts.Term.spelled ≠ [] :=
        fun h => hnone (map_eq_nil_iff.1 h)
      rw [if_neg hsome, flatMap_map]
      simp [Fts.Query.spelled, Fts.Query.included, Fts.spelledAfter, hnone]

/-! ## Bytes of the text -/

theorem mem_dotlessIAsI {s : Bytes} (h : 0 ∈ dotlessIAsI s) : 0 ∈ s := by
  induction s using dotlessIAsI.induct with
  | case1 s ih =>
    rw [dotlessIAsI, mem_cons] at h
    have hs := ih (h.resolve_left (by decide))
    exact .tail _ (.tail _ hs)
  | case2 b s hno ih =>
    rw [dotlessIAsI, mem_cons] at h
    · exact mem_cons.2 (h.imp_right ih)
    · exact hno
  | case3 => exact h

theorem mem_nextTerm (s : Bytes) (c : UInt8) :
    (c ∈ (nextTerm s).1.text → c ∈ s) ∧ (c ∈ (nextTerm s).2 → c ∈ s) := by
  obtain ⟨s', hs, hterm⟩ := nextTerm_cases s
  have hsign (h : c ∈ s') : c ∈ s := by
    rcases hs with rfl | rfl
    · exact h
    · exact .tail _ h
  rcases hterm with ⟨q, rfl, htext, hrest⟩ | ⟨htext, hrest⟩
  · rw [htext, hrest]
    refine ⟨fun h => hsign (.tail _ ?_), fun h => hsign (.tail _ ?_)⟩
    · exact takeWhile_subset _ h
    · exact dropWhile_subset _ (mem_of_mem_tail h)
  · rw [htext, hrest]
    exact ⟨fun h => hsign (takeWhile_subset _ h), fun h => hsign (dropWhile_subset _ h)⟩

theorem mem_splitQuery {n : Nat} {s : Bytes} {t : QueryTerm} (ht : t ∈ splitQuery n s) {c : UInt8}
    (h : c ∈ t.text) : c ∈ s := by
  induction n generalizing s with
  | zero => cases ht
  | succ n ih =>
    have hdrop : ∀ c ∈ s.dropWhile isSpace, c ∈ s := fun c hc => dropWhile_subset _ hc
    rw [splitQuery] at ht
    split at ht
    · cases ht
    · obtain ⟨htext, hrest⟩ := mem_nextTerm (s.dropWhile isSpace) c
      rcases mem_cons.1 ht with rfl | ht
      · exact hdrop c (htext h)
      · exact hdrop c (hrest (ih ht))

theorem zero_mem_asked {text : Bytes} {a : Fts.Term}
    (ha : a ∈ wantedTerms text ++ unwantedTerms text) (h : 0 ∈ a.text) : 0 ∈ text := by
  have hof : ∃ t ∈ splitQuery 16 text, t.asked = a := by
    rcases mem_append.1 ha with ha | ha
    · obtain ⟨t, ht, heq⟩ := mem_map.1 ha
      exact ⟨t, (mem_filter.1 ht).1, heq⟩
    · obtain ⟨t, ht, heq⟩ := mem_map.1 ha
      exact ⟨t, (mem_filter.1 ht).1, heq⟩
  obtain ⟨t, ht, rfl⟩ := hof
  exact mem_splitQuery ht (mem_dotlessIAsI h)

/-! ## What the index reads -/

/-- Of quoted strings alone: no star. -/
def QuotedOnly (query : Bytes) : Prop :=
  ∃ q : Fts.Query, (∀ t ∈ q.included ++ q.excluded, t.star = false) ∧ query = q.spelled

end Decibell
