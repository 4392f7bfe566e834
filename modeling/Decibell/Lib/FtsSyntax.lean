import Mathlib.Data.List.Basic
import Mathlib.Data.List.TakeWhile
import Mathlib.Tactic.Common

/-!
# The query syntax of a full-text index

A query is made of strings in quotes, in which a quote is doubled, of bare words, and of signs.

* `lex` splits it into these, byte by byte; `lex_quoted` is how it reads a string back.
-/

namespace Lib

open List Option
namespace Fts

/-! ## Tokens -/

inductive Token
  /-- A string, without the quotes. -/
  | string (text : List UInt8)
  /-- A bare word: an operator, if it is spelled like one. -/
  | word (text : List UInt8)
  /-- Another sign. -/
  | sign (c : UInt8)
  deriving DecidableEq

/-- A byte of a bare word. -/
def isBare (c : UInt8) : Bool :=
  (48 ≤ c && c ≤ 57) || (65 ≤ c && c ≤ 90) || (97 ≤ c && c ≤ 122) || c = 95 || c = 26 || 128 ≤ c

def isBlank (c : UInt8) : Bool := c = 32 || c = 9 || c = 10 || c = 13

/-- `*`, `(`, `)`, `:`, `+`, `-`, `^`, `,` or a brace. -/
def isSign (c : UInt8) : Bool := [42, 40, 41, 58, 43, 45, 94, 44, 123, 125].contains c

/-- Where the reader stands. -/
inductive Reader
  | between
  | inString (read : List UInt8)
  /-- After a quote in a string: its end, unless another quote follows. -/
  | atQuote (read : List UInt8)
  | inWord (read : List UInt8)
  deriving DecidableEq

/-- A byte between tokens; nothing where none may begin with it. -/
def Reader.begin (c : UInt8) : Option (List Token × Reader) :=
  if c = 34 then some ([], .inString [])
  else if isBare c then some ([], .inWord [c])
  else if isBlank c then some ([], .between)
  else if isSign c then some ([.sign c], .between)
  else none

def Reader.step : Reader → UInt8 → Option (List Token × Reader)
  | .between, c => begin c
  | .inString read, c => some ([], if c = 34 then .atQuote read else .inString (read ++ [c]))
  | .atQuote read, c =>
    if c = 34 then some ([], .inString (read ++ [34]))
    else (begin c).map fun r => (.string read :: r.1, r.2)
  | .inWord read, c =>
    if isBare c then some ([], .inWord (read ++ [c]))
    else (begin c).map fun r => (.word read :: r.1, r.2)

/-- The end of the query; nothing inside a string. -/
def Reader.finish : Reader → Option (List Token)
  | .between => some []
  | .inString _ => none
  | .atQuote read => some [.string read]
  | .inWord read => some [.word read]

/-- A query's other tokens, unless it is malformed. -/
def lexFrom : Reader → List UInt8 → Option (List Token)
  | r, [] => r.finish
  | r, c :: s => (r.step c).bind fun out => (lexFrom out.2 s).map (out.1 ++ ·)

def lex (query : List UInt8) : Option (List Token) := lexFrom .between query

/-- What a reader finds that takes a NUL for the end. -/
def untilNul (query : List UInt8) : List UInt8 := query.takeWhile (· ≠ 0)

theorem untilNul_eq_self {query : List UInt8} (h : 0 ∉ query) : untilNul query = query :=
  takeWhile_eq_self_iff.2 fun _ hc => decide_eq_true fun h0 => h (h0 ▸ hc)

/-- A text with the quotes in it doubled. -/
def doubled (text : List UInt8) : List UInt8 :=
  text.flatMap fun c => if c = 34 then [34, 34] else [c]

/-- A text as a string of a query. -/
def quoted (text : List UInt8) : List UInt8 := 34 :: doubled text ++ [34]

theorem lexFrom_step {r r' : Reader} {c : UInt8} {out : List Token} (h : r.step c = some (out, r'))
    (s : List UInt8) : lexFrom r (c :: s) = (lexFrom r' s).map (out ++ ·) := by
  change (r.step c).bind _ = _
  rw [h]
  rfl

/-- A byte that ends no token. -/
theorem lexFrom_next {r r' : Reader} {c : UInt8} (h : r.step c = some ([], r')) (s : List UInt8) :
    lexFrom r (c :: s) = lexFrom r' s := by
  rw [lexFrom_step h]
  cases lexFrom r' s with
  | none => rfl
  | some ts => rfl

theorem lexFrom_inString (read text s : List UInt8) :
    lexFrom (.inString read) (doubled text ++ s) = lexFrom (.inString (read ++ text)) s := by
  induction text generalizing read with
  | nil =>
    rw [append_nil]
    rfl
  | cons c text ih =>
    have hread : read ++ c :: text = read ++ [c] ++ text := by rw [append_assoc]; rfl
    rw [hread, ← ih]
    by_cases hc : c = 34
    · subst hc
      have hquote : (Reader.inString read).step 34 = some ([], .atQuote read) := rfl
      have hagain : (Reader.atQuote read).step 34 = some ([], .inString (read ++ [34])) := rfl
      change lexFrom (.inString read) (34 :: 34 :: (doubled text ++ s)) = _
      rw [lexFrom_next hquote, lexFrom_next hagain]
    · have hdoubled : doubled (c :: text) = c :: doubled text := by
        change (if c = 34 then [34, 34] else [c]) ++ doubled text = _
        rw [if_neg hc]
        rfl
      have hstep : (Reader.inString read).step c = some ([], .inString (read ++ [c])) :=
        congrArg (fun r => some ([], r)) (if_neg hc)
      rw [hdoubled, cons_append, lexFrom_next hstep]

/-- A string is read as the text it was made from, up to its end. -/
theorem lexFrom_quoted (text s : List UInt8) :
    lexFrom .between (quoted text ++ s) = lexFrom (.atQuote text) s := by
  have hquoted : quoted text ++ s = 34 :: (doubled text ++ 34 :: s) :=
    congrArg (34 :: ·) (append_assoc _ _ _)
  have hopen : Reader.between.step 34 = some ([], .inString []) := rfl
  have hclose : (Reader.inString text).step 34 = some ([], .atQuote text) := rfl
  rw [hquoted, lexFrom_next hopen, lexFrom_inString, nil_append, lexFrom_next hclose]

/-! ## Expressions -/

/-- What a query asks for. -/
inductive Expr
  /-- A string's words; with a star the last may go on. -/
  | phrase (text : List UInt8) (star : Bool)
  | not (e f : Expr)
  | and (e f : Expr)
  | or (e f : Expr)
  deriving DecidableEq

namespace Expr

/-- The row is found, given which phrases are found in it. -/
def Holds (found : List UInt8 → Bool → Prop) : Expr → Prop
  | phrase text star => found text star
  | not e f => e.Holds found ∧ ¬f.Holds found
  | and e f => e.Holds found ∧ f.Holds found
  | or e f => e.Holds found ∨ f.Holds found

end Expr

/-- An operator, tightest first: its spelling, and what it makes. -/
def operator : Nat → List UInt8 × (Expr → Expr → Expr)
  | 0 => ([78, 79, 84], .not)
  | 1 => ([65, 78, 68], .and)
  | _ => ([79, 82], .or)

mutual

/-- The expression tokens begin with, of operators below a level, and what follows. The fuel bounds
    the calls. -/
def parseAt : Nat → Nat → List Token → Option (Expr × List Token)
  | 0, _, _ => none
  | fuel + 1, 0, ts =>
    match ts with
    | .string text :: .sign 42 :: ts => some (.phrase text true, ts)
    | .string text :: ts => some (.phrase text false, ts)
    | .sign 40 :: ts =>
      match parseAt fuel 3 ts with
      | some (e, .sign 41 :: ts) => some (e, ts)
      | _ => none
    | _ => none
  | fuel + 1, level + 1, ts => (parseAt fuel level ts).bind fun out => chain fuel level out.1 out.2

/-- A level's operators after an expression, from left to right. -/
def chain : Nat → Nat → Expr → List Token → Option (Expr × List Token)
  | 0, _, _, _ => none
  | fuel + 1, level, e, ts =>
    match ts with
    | .word w :: rest =>
      if w = (operator level).1 then
        (parseAt fuel level rest).bind fun out =>
          chain fuel level ((operator level).2 e out.1) out.2
      else some (e, ts)
    | ts => some (e, ts)

end

theorem parseAt_level (fuel level : Nat) (ts : List Token) : parseAt (fuel + 1) (level + 1) ts =
    (parseAt fuel level ts).bind fun out => chain fuel level out.1 out.2 := rfl

theorem chain_word (fuel level : Nat) (e : Expr) (w : List UInt8) (rest : List Token) :
    chain (fuel + 1) level e (.word w :: rest) =
      if w = (operator level).1 then
        (parseAt fuel level rest).bind fun out =>
          chain fuel level ((operator level).2 e out.1) out.2
      else some (e, .word w :: rest) := rfl

theorem parseAt_parenthesis {fuel : Nat} {e : Expr} {ts rest : List Token}
    (h : parseAt fuel 3 ts = some (e, .sign 41 :: rest)) :
    parseAt (fuel + 1) 0 (.sign 40 :: ts) = some (e, rest) := by
  change (match parseAt fuel 3 ts with
    | some (e, .sign 41 :: ts) => some (e, ts)
    | _ => none) = _
  rw [h]
  rfl

/-- The expression of a query. -/
def parse (ts : List Token) : Option Expr :=
  match parseAt (4 * ts.length + 8) 3 ts with
  | some (e, []) => some e
  | _ => none

-- a NOT b AND (c OR d*)
example : parse [.string [97], .word [78, 79, 84], .string [98], .word [65, 78, 68], .sign 40,
    .string [99], .word [79, 82], .string [100], .sign 42, .sign 41] =
    some (.and (.not (.phrase [97] false) (.phrase [98] false))
      (.or (.phrase [99] false) (.phrase [100] true))) := by decide

/-! ## Phrases to find, and phrases to leave out -/

/-- A string, with a star if its last word may go on. -/
structure Term where
  text : List UInt8
  star : Bool
  deriving DecidableEq

namespace Term

def tokens (t : Term) : List Token := .string t.text :: if t.star then [.sign 42] else []

def spelled (t : Term) : List UInt8 := quoted t.text ++ if t.star then [42] else []

def phrase (t : Term) : Expr := .phrase t.text t.star

end Term

/-- Tokens of phrases, an operator before each. -/
def after (level : Nat) (ts : List Term) : List Token :=
  ts.flatMap fun t => .word (operator level).1 :: t.tokens

/-- An expression and phrases combined from left to right. -/
def combined (level : Nat) (e : Expr) (ts : List Term) : Expr :=
  ts.foldl (fun e t => (operator level).2 e t.phrase) e

theorem holds_and (found : List UInt8 → Bool → Prop) (e : Expr) (ts : List Term) :
    (combined 1 e ts).Holds found ↔ e.Holds found ∧ ∀ t ∈ ts, found t.text t.star := by
  induction ts generalizing e with
  | nil => simp [combined]
  | cons t ts ih =>
    rw [forall_mem_cons, ← and_assoc]
    exact ih _

theorem holds_not (found : List UInt8 → Bool → Prop) (e : Expr) (ts : List Term) :
    (combined 0 e ts).Holds found ↔ e.Holds found ∧ ∀ t ∈ ts, ¬found t.text t.star := by
  induction ts generalizing e with
  | nil => simp [combined]
  | cons t ts ih =>
    rw [forall_mem_cons, ← and_assoc]
    exact ih _

/-! ### Reading -/

/-- No star follows, and no operator below a level. -/
def Ends (level : Nat) (rest : List Token) : Prop :=
  rest.head? ≠ some (.sign 42) ∧ ∀ l < level, rest.head? ≠ some (.word (operator l).1)

theorem parseAt_term {fuel : Nat} {t : Term} {rest : List Token} (h : Ends 0 rest) :
    parseAt (fuel + 1) 0 (t.tokens ++ rest) = some (t.phrase, rest) := by
  rw [Term.tokens, Term.phrase]
  cases ht : t.star with
  | true => rfl
  | false =>
    cases rest with
    | nil => rfl
    | cons r rest =>
      have hr : r ≠ .sign 42 := fun heq => h.1 (congrArg some heq)
      cases r with
      | string text => rfl
      | word w => rfl
      | sign c =>
        have hc : c ≠ 42 := fun heq => hr (heq ▸ rfl)
        simp [parseAt, hc]

theorem Ends.mono {level m : Nat} {rest : List Token} (h : Ends level rest) (hm : m ≤ level) :
    Ends m rest :=
  ⟨h.1, fun l hl => h.2 l (Nat.lt_of_lt_of_le hl hm)⟩

theorem head_nil_ne {α : Type} (a : α) : [].head? ≠ some a := fun h => some_ne_none a h.symm

theorem ends_nil (level : Nat) : Ends level [] := ⟨head_nil_ne _, fun _ _ => head_nil_ne _⟩

theorem ends_sign (level : Nat) {c : UInt8} (hc : c ≠ 42) (rest : List Token) :
    Ends level (.sign c :: rest) :=
  ⟨fun h => hc (Token.sign.inj (some.inj h)),
    fun _ _ h => Token.noConfusion (some.inj h)⟩

/-- Before an operator the tighter ones have ended. -/
theorem ends_after {level : Nat} (hlevel : level ≤ 2) (ts : List Term) {rest : List Token}
    (h : Ends level rest) : Ends level (after level ts ++ rest) := by
  cases ts with
  | nil => exact h
  | cons t ts =>
    refine ⟨fun heq => Token.noConfusion (some.inj heq), fun l hl heq => ?_⟩
    have hw : (operator level).1 = (operator l).1 := Token.word.inj (some.inj heq)
    obtain rfl | rfl | rfl : level = 0 ∨ level = 1 ∨ level = 2 := by omega
    · exact Nat.not_lt_zero l hl
    · obtain rfl : l = 0 := by omega
      exact absurd hw (by decide)
    · obtain rfl | rfl : l = 0 ∨ l = 1 := by omega
      · exact absurd hw (by decide)
      · exact absurd hw (by decide)

/-- Where no operator of the level follows, nothing is added. -/
theorem chain_stop (fuel : Nat) {level : Nat} {e : Expr} {rest : List Token}
    (h : rest.head? ≠ some (.word (operator level).1)) :
    chain (fuel + 1) level e rest = some (e, rest) := by
  cases rest with
  | nil => rfl
  | cons r rest =>
    cases r with
    | string text => rfl
    | sign c => rfl
    | word w =>
      rw [chain_word]
      exact if_neg fun hw => h (congrArg (fun w => some (Token.word w)) hw)

theorem parseAt_succ {fuel level : Nat} {ts rest : List Token} {e : Expr}
    (h : parseAt fuel level ts = some (e, rest))
    (hrest : rest.head? ≠ some (.word (operator level).1)) :
    parseAt (fuel + 1) (level + 1) ts = some (e, rest) := by
  cases fuel with
  | zero => cases h
  | succ fuel =>
    rw [parseAt_level, h]
    exact chain_stop fuel hrest

/-- A phrase is an expression of every level. -/
theorem parseAt_phrase (fuel : Nat) {level : Nat} (t : Term) {rest : List Token}
    (h : Ends level rest) :
    parseAt (fuel + level + 1) level (t.tokens ++ rest) = some (t.phrase, rest) := by
  induction level with
  | zero => exact parseAt_term h
  | succ level ih =>
    exact parseAt_succ (ih (h.mono (Nat.le_succ level))) (h.2 level (Nat.lt_succ_self level))

/-- The phrases after an expression are read from left to right. -/
theorem chain_after {level : Nat} (hlevel : level ≤ 2) (e : Expr) (ts : List Term)
    {rest : List Token} (h : Ends (level + 1) rest) (fuel : Nat) :
    chain (fuel + level + 2 + ts.length) level e (after level ts ++ rest) =
      some (combined level e ts, rest) := by
  induction ts generalizing e with
  | nil => exact chain_stop (fuel + level + 1) (h.2 level (Nat.lt_succ_self level))
  | cons t ts ih =>
    have hends := ends_after hlevel ts (h.mono (Nat.le_succ level))
    have hphrase := parseAt_phrase (fuel + 1 + ts.length) t hends
    have hfuel : fuel + 1 + ts.length + level + 1 = fuel + level + 2 + ts.length := by omega
    rw [hfuel] at hphrase
    change chain (fuel + level + 2 + ts.length + 1) level e
      (.word (operator level).1 :: (t.tokens ++ after level ts ++ rest)) = _
    rw [chain_word, if_pos rfl, append_assoc, hphrase]
    exact ih _

theorem parseAt_combined {level : Nat} (hlevel : level ≤ 2) (t : Term) (ts : List Term)
    {rest : List Token} (h : Ends (level + 1) rest) (fuel : Nat) :
    parseAt (fuel + level + 3 + ts.length) (level + 1) (t.tokens ++ (after level ts ++ rest)) =
      some (combined level t.phrase ts, rest) := by
  have hends := ends_after hlevel ts (h.mono (Nat.le_succ level))
  have hphrase := parseAt_phrase (fuel + 1 + ts.length) t hends
  have hfuel : fuel + 1 + ts.length + level + 1 = fuel + level + 2 + ts.length := by omega
  have hsucc : fuel + level + 3 + ts.length = fuel + level + 2 + ts.length + 1 := by omega
  rw [hfuel] at hphrase
  rw [hsucc, parseAt_level, hphrase]
  exact chain_after hlevel _ ts h fuel

/-! ### Spelling -/

/-- After a string any token but a string may follow at once. -/
theorem lexFrom_atQuote {text s : List UInt8} (h : s.head? ≠ some 34) :
    lexFrom (.atQuote text) s = (lexFrom .between s).map (.string text :: ·) := by
  cases s with
  | nil => rfl
  | cons c s =>
    have hc : c ≠ 34 := fun heq => h (congrArg some heq)
    have hstep : (Reader.atQuote text).step c =
        (Reader.begin c).map fun r => (.string text :: r.1, r.2) := if_neg hc
    cases hbegin : Reader.begin c with
    | none =>
      rw [hbegin] at hstep
      change ((Reader.atQuote text).step c).bind _ = ((Reader.begin c).bind _).map _
      rw [hstep, hbegin]
      rfl
    | some out =>
      rw [hbegin] at hstep
      rw [lexFrom_step hstep, lexFrom_step (show Reader.between.step c = _ from hbegin), Option.map_map]
      rfl

theorem lexFrom_term {t : Term} {s : List UInt8} (h : s.head? ≠ some 34) :
    lexFrom .between (t.spelled ++ s) = (lexFrom .between s).map (t.tokens ++ ·) := by
  rw [Term.spelled, Term.tokens, append_assoc, lexFrom_quoted]
  cases t.star with
  | false => exact lexFrom_atQuote h
  | true =>
    have hstar : (Reader.atQuote t.text).step 42 = some ([.string t.text, .sign 42], .between) := rfl
    exact lexFrom_step hstar s

theorem lexFrom_parenthesis {c : UInt8} (h : c = 40 ∨ c = 41) (s : List UInt8) :
    lexFrom .between (c :: s) = (lexFrom .between s).map (.sign c :: ·) := by
  have hstep : Reader.between.step c = some ([.sign c], .between) := by
    rcases h with rfl | rfl
    · rfl
    · rfl
  exact lexFrom_step hstep s

/-- An operator between spaces. -/
theorem lexFrom_operator (level : Nat) (s : List UInt8) :
    lexFrom .between (32 :: (operator level).1 ++ 32 :: s) =
      (lexFrom .between s).map (.word (operator level).1 :: ·) := by
  have hblank : Reader.between.step 32 = some ([], .between) := rfl
  have hend (read : List UInt8) : (Reader.inWord read).step 32 = some ([.word read], .between) := rfl
  rcases level with - | - | level
  · have hN : Reader.between.step 78 = some ([], .inWord [78]) := rfl
    have hO : (Reader.inWord [78]).step 79 = some ([], .inWord [78, 79]) := rfl
    have hT : (Reader.inWord [78, 79]).step 84 = some ([], .inWord [78, 79, 84]) := rfl
    change lexFrom .between (32 :: 78 :: 79 :: 84 :: 32 :: s) = _
    rw [lexFrom_next hblank, lexFrom_next hN, lexFrom_next hO, lexFrom_next hT]
    exact lexFrom_step (hend _) s
  · have hA : Reader.between.step 65 = some ([], .inWord [65]) := rfl
    have hN : (Reader.inWord [65]).step 78 = some ([], .inWord [65, 78]) := rfl
    have hD : (Reader.inWord [65, 78]).step 68 = some ([], .inWord [65, 78, 68]) := rfl
    change lexFrom .between (32 :: 65 :: 78 :: 68 :: 32 :: s) = _
    rw [lexFrom_next hblank, lexFrom_next hA, lexFrom_next hN, lexFrom_next hD]
    exact lexFrom_step (hend _) s
  · have hO : Reader.between.step 79 = some ([], .inWord [79]) := rfl
    have hR : (Reader.inWord [79]).step 82 = some ([], .inWord [79, 82]) := rfl
    change lexFrom .between (32 :: 79 :: 82 :: 32 :: s) = _
    rw [lexFrom_next hblank, lexFrom_next hO, lexFrom_next hR]
    exact lexFrom_step (hend _) s

/-- Phrases, an operator between spaces before each. -/
def spelledAfter (level : Nat) (ts : List Term) : List UInt8 :=
  ts.flatMap fun t => 32 :: (operator level).1 ++ 32 :: t.spelled

theorem head_spelledAfter (level : Nat) (ts : List Term) {s : List UInt8} (h : s.head? ≠ some 34) :
    (spelledAfter level ts ++ s).head? ≠ some 34 := by
  cases ts with
  | nil => exact h
  | cons t ts => exact fun heq => absurd (some.inj heq) (by decide)

theorem lexFrom_spelledAfter (level : Nat) (ts : List Term) {s : List UInt8}
    (h : s.head? ≠ some 34) :
    lexFrom .between (spelledAfter level ts ++ s) =
      (lexFrom .between s).map (after level ts ++ ·) := by
  induction ts with
  | nil => simp [spelledAfter, after]
  | cons t ts ih =>
    have hcons : spelledAfter level (t :: ts) ++ s =
        32 :: (operator level).1 ++ 32 :: (t.spelled ++ (spelledAfter level ts ++ s)) := by
      simp [spelledAfter]
    rw [hcons, lexFrom_operator, lexFrom_term (head_spelledAfter level ts h), ih, Option.map_map,
      Option.map_map]
    refine congrArg (Option.map · _) (funext fun l => ?_)
    simp [after]

theorem intercalate_cons (level : Nat) (t : Term) (ts : List Term) :
    (32 :: (operator level).1 ++ [32]).intercalate ((t :: ts).map Term.spelled) =
      t.spelled ++ spelledAfter level ts := by
  induction ts generalizing t with
  | nil => simp [spelledAfter]
  | cons u ts ih =>
    rw [map_cons, map_cons, intercalate_cons_cons, ← map_cons, ih]
    simp [spelledAfter]

/-- A NUL in a string is one of its text. -/
theorem zero_mem_term {t : Term} (h : 0 ∈ t.spelled) : 0 ∈ t.text := by
  have hquoted : 0 ∈ quoted t.text := by
    rw [Term.spelled, mem_append] at h
    refine h.resolve_right fun hstar => ?_
    split at hstar
    · exact absurd hstar (by decide)
    · cases hstar
  simp only [quoted, doubled, cons_append, mem_cons, mem_append, mem_flatMap,
    not_mem_nil, or_false] at hquoted
  rcases hquoted with h | ⟨c, hc, h⟩ | h
  · exact absurd h (by decide)
  · split at h
    · exact absurd h (by decide)
    · rwa [← mem_singleton.1 h] at hc
  · exact absurd h (by decide)

theorem zero_mem_spelledAfter {level : Nat} {ts : List Term} (h : 0 ∈ spelledAfter level ts) :
    ∃ t ∈ ts, 0 ∈ t.text := by
  obtain ⟨t, ht, h⟩ := mem_flatMap.1 h
  refine ⟨t, ht, zero_mem_term ?_⟩
  rcases mem_append.1 h with h | h
  · have hword : 0 ∉ 32 :: (operator level).1 := by
      rcases level with - | - | level
      · decide
      · decide
      · exact (by decide : (0 : UInt8) ∉ [32, 79, 82])
    exact absurd h hword
  · exact (mem_cons.1 h).resolve_left (by decide)

/-! ### The whole query -/

/-- Phrases to find, at least one, and phrases to leave out. -/
structure Query where
  first : Term
  others : List Term
  excluded : List Term
  deriving DecidableEq

namespace Query

def included (q : Query) : List Term := q.first :: q.others

def tokens (q : Query) : List Token :=
  if q.excluded = [] then q.first.tokens ++ after 1 q.others
  else .sign 40 :: (q.first.tokens ++ (after 1 q.others ++ .sign 41 :: after 0 q.excluded))

def expr (q : Query) : Expr := combined 0 (combined 1 q.first.phrase q.others) q.excluded

theorem length_after (level : Nat) (ts : List Term) : ts.length ≤ (after level ts).length := by
  induction ts with
  | nil => exact Nat.le_refl 0
  | cons t ts ih =>
    have hcons : after level (t :: ts) =
        .word (operator level).1 :: (t.tokens ++ after level ts) := rfl
    rw [hcons, length_cons, length_cons, length_append]
    omega

/-- The phrases to find are read up to the end or a parenthesis. -/
theorem parseAt_included (q : Query) {rest : List Token} (h : Ends 3 rest) (fuel : Nat) :
    parseAt (fuel + 5 + q.others.length) 3 (q.first.tokens ++ (after 1 q.others ++ rest)) =
      some (combined 1 q.first.phrase q.others, rest) := by
  have hand := parseAt_combined (show 1 ≤ 2 by decide) q.first q.others
    (h.mono (Nat.le_succ 2)) fuel
  have hfuel : fuel + 5 + q.others.length = fuel + 1 + 3 + q.others.length + 1 := by omega
  rw [hfuel]
  exact parseAt_succ hand (h.2 2 (by decide))

/-- What is left out is read after the parenthesis. -/
theorem parseAt_excluded (q : Query) (fuel : Nat) :
    parseAt (fuel + 9 + q.others.length + q.excluded.length) 3
        (.sign 40 :: (q.first.tokens ++ (after 1 q.others ++ .sign 41 :: after 0 q.excluded))) =
      some (q.expr, []) := by
  have hinner := q.parseAt_included (ends_sign 3 (c := 41) (by decide) (after 0 q.excluded))
    (fuel + q.excluded.length)
  generalize hg : fuel + q.excluded.length + 5 + q.others.length = g at hinner
  -- the parenthesis is what the first NOT takes from
  have hatom : parseAt (g + 1) 0
      (.sign 40 :: (q.first.tokens ++ (after 1 q.others ++ .sign 41 :: after 0 q.excluded))) =
      some (combined 1 q.first.phrase q.others, after 0 q.excluded) :=
    parseAt_parenthesis hinner
  have hchain := chain_after (Nat.zero_le 2) (combined 1 q.first.phrase q.others) q.excluded
    (ends_nil 1) (fuel + 4 + q.others.length)
  have hfuel : fuel + 4 + q.others.length + 0 + 2 + q.excluded.length = g + 1 := by omega
  rw [hfuel, append_nil] at hchain
  have hnot : parseAt (g + 1 + 1) 1
      (.sign 40 :: (q.first.tokens ++ (after 1 q.others ++ .sign 41 :: after 0 q.excluded))) =
      some (q.expr, []) := by
    rw [parseAt_level, hatom]
    exact hchain
  have htotal : fuel + 9 + q.others.length + q.excluded.length = g + 1 + 1 + 1 + 1 := by omega
  rw [htotal]
  exact parseAt_succ (parseAt_succ hnot (head_nil_ne _)) (head_nil_ne _)

/-- A query is parsed as it is meant. -/
theorem parse_tokens (q : Query) : parse q.tokens = some q.expr := by
  have hothers := length_after 1 q.others
  have hexcluded := length_after 0 q.excluded
  rw [parse, tokens]
  by_cases h : q.excluded = []
  · rw [if_pos h]
    obtain ⟨fuel, hfuel⟩ := Nat.exists_eq_add_of_le'
      (show 5 + q.others.length ≤ 4 * (q.first.tokens ++ after 1 q.others).length + 8 by
        rw [length_append]; omega)
    have hand := q.parseAt_included (ends_nil 3) fuel
    rw [append_nil] at hand
    rw [hfuel, ← Nat.add_assoc, hand, expr, h]
    rfl
  · rw [if_neg h]
    obtain ⟨fuel, hfuel⟩ := Nat.exists_eq_add_of_le'
      (show 9 + q.others.length + q.excluded.length ≤ 4 * (Token.sign 40 :: (q.first.tokens ++
          (after 1 q.others ++ .sign 41 :: after 0 q.excluded))).length + 8 by
        simp only [length_cons, length_append]; omega)
    rw [hfuel, ← Nat.add_assoc, ← Nat.add_assoc, q.parseAt_excluded fuel]

/-- The query in writing: what is to be found is in parentheses if something is left out. -/
def spelled (q : Query) : List UInt8 :=
  let found := (32 :: (operator 1).1 ++ [32]).intercalate (q.included.map Term.spelled)
  if q.excluded = [] then found
  else 40 :: found ++ 41 :: spelledAfter 0 q.excluded

/-- A query is read back by tokens: a phrase's bytes are its text only. -/
theorem lex_spelled (q : Query) : lex q.spelled = some q.tokens := by
  rw [lex, spelled, tokens, included, intercalate_cons]
  by_cases h : q.excluded = []
  · have hothers := lexFrom_spelledAfter 1 q.others (head_nil_ne 34)
    have hhead := head_spelledAfter 1 q.others (head_nil_ne 34)
    rw [append_nil] at hothers hhead
    rw [if_pos h, if_pos h, lexFrom_term hhead, hothers]
    simp [lexFrom, Reader.finish]
  · have hexcluded := lexFrom_spelledAfter 0 q.excluded (head_nil_ne 34)
    have hclose : (41 :: spelledAfter 0 q.excluded).head? ≠ some 34 :=
      fun heq => absurd (some.inj heq) (by decide)
    have hothers := lexFrom_spelledAfter 1 q.others hclose
    have hhead := head_spelledAfter 1 q.others hclose
    rw [append_nil] at hexcluded
    rw [if_neg h, if_neg h, cons_append, append_assoc, lexFrom_parenthesis (.inl rfl),
      lexFrom_term hhead, hothers, lexFrom_parenthesis (.inr rfl), hexcluded]
    simp [lexFrom, Reader.finish]

/-- A NUL in a query is one of a phrase. -/
theorem zero_mem_spelled {q : Query} (h : 0 ∈ q.spelled) :
    ∃ t ∈ q.included ++ q.excluded, 0 ∈ t.text := by
  have hfound : 0 ∈ q.first.spelled ++ spelledAfter 1 q.others →
      ∃ t ∈ q.included ++ q.excluded, 0 ∈ t.text := by
    intro h
    rcases mem_append.1 h with h | h
    · exact ⟨q.first, .head _, zero_mem_term h⟩
    · obtain ⟨t, ht, h⟩ := zero_mem_spelledAfter h
      exact ⟨t, mem_append_left _ (.tail _ ht), h⟩
  rw [spelled, included, intercalate_cons] at h
  split at h
  · exact hfound h
  · rcases mem_append.1 h with h | h
    · exact hfound ((mem_cons.1 h).resolve_left (by decide))
    · obtain ⟨t, ht, h⟩ := zero_mem_spelledAfter ((mem_cons.1 h).resolve_left (by decide))
      exact ⟨t, mem_append_right _ ht, h⟩

/-- A row is found by what is to be found, not by what is left out. -/
theorem holds_expr (q : Query) (found : List UInt8 → Bool → Prop) :
    q.expr.Holds found ↔
      (∀ t ∈ q.included, found t.text t.star) ∧ ∀ t ∈ q.excluded, ¬found t.text t.star := by
  rw [expr, holds_not, holds_and, included, forall_mem_cons]
  rfl

end Query

end Fts
end Lib
