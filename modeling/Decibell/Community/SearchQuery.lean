import Decibell.Community.SearchFold

/-!
# The text of a search

A search text is words and "phrases", those to leave out with a minus. It becomes an
expression for the full-text index, or the folded fragments that a message must contain.

* `splitQuery`: the words and phrases;
* `buildFtsQuery`: the expression, every term of it quoted;
* `splitFragments`: the fragments.
-/

namespace Decibell

def isAsciiAlnum (c : UInt8) : Bool := (48 ≤ c && c ≤ 57) || (97 ≤ c && c ≤ 122) || (65 ≤ c && c ≤ 90)

/-- Letters and digits of a token; a code point beyond ASCII counts as one. -/
def wordChars (s : Bytes) : Nat := s.countP fun c => isAsciiAlnum c || 0xC0 ≤ c

def isSpace (c : UInt8) : Bool := c = 32 || c = 9 || c = 10 || c = 13

/-- A token in quotes, with the quotes in it doubled. -/
def quoteFts (token : Bytes) : Bytes :=
  34 :: (token.flatMap fun c => if c = 34 then [34, 34] else [c]) ++ [34]

/-- A word or a "phrase" of a query, or one to leave out. -/
structure QueryTerm where
  text : Bytes
  phrase : Bool := false
  negate : Bool := false
  deriving DecidableEq

/-- The term at the start of a text, and what follows it. -/
def nextTerm (s : Bytes) : QueryTerm × Bytes :=
  let (negate, s) := match s with
    | 45 :: c :: s => if isSpace c then (false, 45 :: c :: s) else (true, c :: s)
    | s => (false, s)
  match s with
  | 34 :: s => (⟨s.takeWhile (· ≠ 34), true, negate⟩, (s.dropWhile (· ≠ 34)).tail)
  | s => (⟨s.takeWhile (! isSpace ·), false, negate⟩, s.dropWhile (! isSpace ·))

/-- The first term, after a minus as its sign up to the next quote or blank, and what follows. -/
theorem nextTerm_cases (s : Bytes) : ∃ s', (s = s' ∨ s = 45 :: s') ∧
    ((∃ q, s' = 34 :: q ∧ (nextTerm s).1.text = q.takeWhile (· ≠ 34) ∧
        (nextTerm s).2 = (q.dropWhile (· ≠ 34)).tail) ∨
      (nextTerm s).1.text = s'.takeWhile (! isSpace ·) ∧
        (nextTerm s).2 = s'.dropWhile (! isSpace ·)) := by
  have hsign : s = (match s with
      | 45 :: c :: s => if isSpace c then (false, 45 :: c :: s) else (true, c :: s)
      | s => (false, s)).2 ∨ s = 45 :: (match s with
      | 45 :: c :: s => if isSpace c then (false, 45 :: c :: s) else (true, c :: s)
      | s => (false, s)).2 := by
    split
    · split
      · exact .inl rfl
      · exact .inr rfl
    · exact .inl rfl
  fun_cases nextTerm s with
  | case1 negate q heq =>
    rw [heq] at hsign
    exact ⟨_, hsign, .inl ⟨q, rfl, rfl, rfl⟩⟩
  | case2 negate s' _ heq =>
    rw [heq] at hsign
    exact ⟨_, hsign, .inr ⟨rfl, rfl⟩⟩

/-- The terms of a query, in order, up to a number of them. -/
def splitQuery : Nat → Bytes → List QueryTerm
  | 0, _ => []
  | maxTerms + 1, text =>
    match text.dropWhile isSpace with
    | [] => []
    | s => (nextTerm s).1 :: splitQuery maxTerms (nextTerm s).2

/-- The index has a dotless i as an i, and so does a query. -/
def dotlessIAsI : Bytes → Bytes
  | 0xC4 :: 0xB1 :: s => 105 :: dotlessIAsI s
  | b :: s => b :: dotlessIAsI s
  | [] => []

/-- The folded fragments a message must contain, and must not. -/
def splitFragments (text : Bytes) : List Bytes × List Bytes :=
  let terms := (splitQuery 16 text).map fun t => (t.negate, searchFold t.text)
  let terms := terms.filter (·.2 ≠ [])
  ((terms.filter (! ·.1)).map (·.2), (terms.filter (·.1)).map (·.2))

/-- A word of three letters or more matches as a prefix. -/
def ftsTerm (t : QueryTerm) (token : Bytes) : Bytes :=
  if ! t.phrase && 3 ≤ wordChars token then quoteFts token ++ [42] else quoteFts token

/-- The index's expression, empty without a word to search for; whether there are only words to
    leave out. -/
def buildFtsQuery (text : Bytes) : Bytes × Bool :=
  let terms := (splitQuery 16 text).map fun t => (t, dotlessIAsI t.text)
  let terms := (terms.filter fun t => wordChars t.2 ≠ 0).map fun t => (t.1.negate, ftsTerm t.1 t.2)
  let included := (terms.filter (! ·.1)).map (·.2)
  let excluded := (terms.filter (·.1)).map (·.2)
  if included = [] then ([], excluded ≠ [])
  else
    let expr := (utf8 " AND ").intercalate included
    if excluded = [] then (expr, false)
    else (utf8 "(" ++ expr ++ utf8 ")" ++ excluded.flatMap fun e => utf8 " NOT " ++ e, false)

-- deploy -"old one" a
example : buildFtsQuery [100, 101, 112, 108, 111, 121, 32, 45, 34, 111, 108, 100, 32, 111, 110, 101,
    34, 32, 97] = (utf8 "(\"deploy\"* AND \"a\") NOT \"old one\"", false) := by decide +kernel

end Decibell
