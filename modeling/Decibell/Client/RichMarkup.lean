import Mathlib.Data.List.TakeWhile
import Decibell.Client.RichText

/-!
# Markup

What one turn of the scan takes from the source, and the parser as the run of its turns.

* `Leaf`, `CodeBlock` and `Block` say of what source a node without others inside is made: a leaf
  in its markers, and a block in its fence lines, with the white space at the ends of display math.
-/

namespace Decibell.RichText

open Lib List

/-! ## Leaves and their source -/

/-- What a tree of nodes has, in order: plain text unit by unit. -/
inductive Token where
  | unit (c : UInt16)
  | opens (kind : SpanKind)
  | closes (kind : SpanKind)
  | link (href : Units) (embed : Bool)
  | code (text : Units)
  | codeblock (lang : Option Units) (text : Units)
  | math (tex : Units) (display : Bool)

mutual

def RichNode.tokens : RichNode → List Token
  | .text text => text.map .unit
  | .link _ text embed => [.link text embed]
  | .span kind children => .opens kind :: (tokensOf children ++ [.closes kind])
  | .code text => [.code text]
  | .codeblock lang text => [.codeblock lang text]
  | .math tex display => [.math tex display]

def tokensOf : List RichNode → List Token
  | [] => []
  | node :: nodes => node.tokens ++ tokensOf nodes

end

/-- The text of a leaf. -/
def Token.text : Token → Units
  | .unit c => [c]
  | .opens _ | .closes _ => []
  | .link href _ => href
  | .code text => text
  | .codeblock _ text => text
  | .math tex _ => tex

/-- The texts of the leaves, in the order of the document. -/
def leafText (nodes : List RichNode) : Units := (tokensOf nodes).flatMap Token.text

def AtMostNewline (t : Units) : Prop := t = [] ∨ t = [newline]

/-- The source of a link, inline code or inline math: the text in its markers. -/
inductive Leaf (newUrl : Units → Option Url) : Token → Units → Prop
  | link {href : Units} (h : isLinkable newUrl href = true) : Leaf newUrl (.link href true) href
  | angleLink {href : Units} (h : isLinkable newUrl href = true) :
      Leaf newUrl (.link href false) (units "<" ++ href ++ units ">")
  | code {marker text : Units} (h : marker ∈ tickMarkers) :
      Leaf newUrl (.code text) (marker ++ text ++ marker)
  | math {tex : Units} : Leaf newUrl (.math tex false) (units "$" ++ tex ++ units "$")

/-- A code block's source: a fence, maybe with a language line, or backticks. One newline before the
    end, and after backticks, belongs to them. -/
inductive CodeBlock (text : Units) : Option Units → Units → Prop
  | fence {after : Units} (hafter : AtMostNewline after) :
      CodeBlock text none (fenceMarker ++ (text ++ after) ++ fenceMarker)
  | langLine {line after : Units} (hline : ∀ c ∈ line, isLangUnit c = true)
      (hafter : AtMostNewline after) :
      CodeBlock text (if line = [] then none else some (lower line))
        (fenceMarker ++ (line ++ [newline] ++ (text ++ after)) ++ fenceMarker)
  | ticks {marker before after : Units} (h : marker ∈ tickMarkers)
      (hbefore : AtMostNewline before) (hafter : AtMostNewline after) :
      CodeBlock text none (marker ++ (before ++ (text ++ after)) ++ marker)

/-- A block's source; display math may lose some units at its ends. -/
inductive Block (edge : UInt16 → Bool) : Token → Units → Prop
  | code {lang : Option Units} {text part : Units} (h : CodeBlock text lang part) :
      Block edge (.codeblock lang text) part
  | math {before tex after : Units} (hbefore : ∀ c ∈ before, edge c = true)
      (hafter : ∀ c ∈ after, edge c = true) :
      Block edge (.math tex true) (units "$$" ++ (before ++ tex ++ after) ++ units "$$")

/-! ## What the functions of the scan take -/

section Parts

variable {src marker body : Units} {i stop close : Nat}

theorem closerOf_spec (h : closerOf src i stop marker = some close) :
    i + marker.length < close ∧ close + marker.length ≤ stop ∧
      startsAt marker src close = true := by
  obtain ⟨hfind, hlt⟩ := Option.filter_eq_some_iff.1 h
  obtain ⟨-, hle, hp⟩ := position?_spec hfind
  refine ⟨of_decide_eq_true hlt, ?_, (Bool.and_eq_true_iff.1 hp).1⟩
  omega

theorem slice_marked (hopen : startsAt marker src i = true)
    (hclose : startsAt marker src close = true) (hlt : i + marker.length < close) :
    slice src i (close + marker.length) =
      marker ++ slice src (i + marker.length) close ++ marker := by
  rw [← slice_append_slice (Nat.le_add_right i marker.length) (by omega),
    ← slice_append_slice (Nat.le_of_lt hlt) (Nat.le_add_right close marker.length),
    slice_of_startsAt hopen, slice_of_startsAt hclose, append_assoc]

theorem dropNewlineEnd_spec (body : Units) :
    ∃ after, AtMostNewline after ∧ body = dropNewlineEnd body ++ after := by
  rw [dropNewlineEnd]
  split
  · next hlast =>
    exact ⟨[newline], .inr rfl, (dropLast_append_getLast? newline hlast).symm⟩
  · exact ⟨[], .inl rfl, (append_nil body).symm⟩

theorem dropNewlineFront_spec (body : Units) :
    ∃ before, AtMostNewline before ∧ body = before ++ dropNewlineFront body := by
  rw [dropNewlineFront]
  split
  · next hhead => exact ⟨[newline], .inr rfl, (cons_head?_tail hhead).symm⟩
  · exact ⟨[], .inl rfl, rfl⟩

theorem trim_spec (t : Units) : ∃ before after, (∀ c ∈ before, isSpace c = true) ∧
    (∀ c ∈ after, isSpace c = true) ∧ t = before ++ trim t ++ after := by
  refine ⟨t.takeWhile isSpace, ((t.dropWhile isSpace).reverse.takeWhile isSpace).reverse,
    fun c hc => mem_takeWhile_imp hc,
    fun c hc => mem_takeWhile_imp (mem_reverse.1 hc), ?_⟩
  rw [trim, append_assoc, ← reverse_append, takeWhile_append_dropWhile,
    reverse_reverse, takeWhile_append_dropWhile]

theorem codeBlock_fence (inner : Units) :
    CodeBlock (dropNewlineEnd (langLine inner).2) (langLine inner).1
      (fenceMarker ++ inner ++ fenceMarker) := by
  rw [langLine]
  split
  · next hline =>
    obtain ⟨hlt, hall⟩ := Bool.and_eq_true_iff.1 hline
    obtain ⟨after, hafter, hbody⟩ :=
      dropNewlineEnd_spec (inner.drop ((inner.takeWhile (· ≠ newline)).length + 1))
    have hfence := @CodeBlock.langLine
      (dropNewlineEnd (inner.drop ((inner.takeWhile (· ≠ newline)).length + 1))) _ after
      (all_eq_true.1 hall) hafter
    rw [← hbody, takeWhile_ne_append (of_decide_eq_true hlt)] at hfence
    exact hfence
  · obtain ⟨after, hafter, hbody⟩ := dropNewlineEnd_spec inner
    have hfence := @CodeBlock.fence (dropNewlineEnd inner) after hafter
    rw [← hbody] at hfence
    exact hfence
theorem codeBlock_ticks {inner : Units} (h : marker ∈ tickMarkers) :
    CodeBlock (dropNewlineEnd (dropNewlineFront inner)) none (marker ++ inner ++ marker) := by
  obtain ⟨before, hbefore, hinner⟩ := dropNewlineFront_spec inner
  obtain ⟨after, hafter, hbody⟩ := dropNewlineEnd_spec (dropNewlineFront inner)
  have hticks := @CodeBlock.ticks (dropNewlineEnd (dropNewlineFront inner)) marker before after h
    hbefore hafter
  rw [← hbody, ← hinner] at hticks
  exact hticks

theorem block_math (inner : Units) :
    Block isSpace (.math (trim inner) true) (units "$$" ++ inner ++ units "$$") := by
  obtain ⟨before, after, hbefore, hafter, hinner⟩ := trim_spec inner
  have hmath := @Block.math isSpace before (trim inner) after hbefore hafter
  rw [← hinner] at hmath
  exact hmath

theorem trimUrl_isPrefix (candidate : Units) : trimUrl candidate <+: candidate := by
  induction candidate using trimUrl.induct with
  | case1 candidate hsame =>
    exact ⟨[], by rw [trimUrl, if_pos hsame, append_nil]⟩
  | case2 candidate hshed ih =>
    rw [trimUrl, if_neg hshed]
    exact ih.trans (shed_isPrefix candidate)

variable {newUrl : Units → Option Url}

theorem urlExtent_spec (h : 0 < urlExtent newUrl src i stop) :
    i + urlExtent newUrl src i stop ≤ stop ∧
      isLinkable newUrl (slice src i (i + urlExtent newUrl src i stop)) = true := by
  rw [urlExtent] at h ⊢
  split at h
  · next hlink =>
    rw [if_pos hlink]
    have hprefix := (trimUrl_isPrefix ((slice src i stop).takeWhile fun c => !isUrlStop c)).trans
      ( takeWhile_prefix _)
    have hle := hprefix.length_le.trans length_slice_le
    rw [slice_of_isPrefix hprefix]
    exact ⟨by omega, hlink⟩
  · exact absurd h (Nat.lt_irrefl 0)

end Parts

/-! ## What a turn does -/

/-- What a turn of the scan can do from a state. -/
inductive Turn (newUrl : Units → Option Url) (src : Units) (stop : Nat)
    (inside : Option (Nat → Nat → List RichNode)) (s : Scan) : Scan → Prop
  /-- It passes over plain text. -/
  | skip {k : Nat} (hk : 0 < k) : Turn newUrl src stop inside s { s with i := s.i + k }
  | escape {c : UInt16} (hc : c ∈ escapable) (hle : s.i + 2 ≤ stop)
      (hpart : slice src s.i (s.i + 2) = [backslash, c]) :
      Turn newUrl src stop inside s
        { i := s.i + 2, plainFrom := s.i + 2, out := pushText (s.flush src s.i) [c] }
  | leaf {node : RichNode} {tok : Token} {next : Nat} (hnode : node.tokens = [tok])
      (hlt : s.i < next) (hle : next ≤ stop) (hleaf : Leaf newUrl tok (slice src s.i next)) :
      Turn newUrl src stop inside s (s.push src node next)
  | block {node : RichNode} {tok : Token} {next : Nat} (hnode : node.tokens = [tok])
      (hlt : s.i < next) (hle : next ≤ stop) (hblock : Block isSpace tok (slice src s.i next)) :
      Turn newUrl src stop inside s (s.pushBlock src (some node) next)
  /-- A code block without a text. -/
  | blank {lang : Option Units} {next : Nat} (hlt : s.i < next) (hle : next ≤ stop)
      (hblock : CodeBlock [] lang (slice src s.i next)) :
      Turn newUrl src stop inside s (s.pushBlock src none next)
  | span {f : Nat → Nat → List RichNode} {marker : Units} {kind : SpanKind} {close : Nat}
      (hinside : inside = some f) (hmem : (marker, kind) ∈ spanMarkers)
      (hopen : startsAt marker src s.i = true) (hclose : startsAt marker src close = true)
      (hlt : s.i + marker.length < close) (hle : close + marker.length ≤ stop) :
      Turn newUrl src stop inside s
        (s.push src (.span kind (f (s.i + marker.length) close)) (close + marker.length))
  | triple {f : Nat → Nat → List RichNode} {marker : Units} {kind : SpanKind} {close : Nat}
      (hinside : inside = some f) (hmem : (marker, kind) ∈ tripleMarkers)
      (hopen : startsAt marker src s.i = true) (hclose : startsAt marker src close = true)
      (hlt : s.i + 3 < close) (hle : close + 3 ≤ stop) :
      Turn newUrl src stop inside s
        (s.push src (.span kind [.span .italic (f (s.i + 3) close)]) (close + 3))

section Turns

variable {newUrl : Units → Option Url} {src : Units} {stop : Nat}
  {inside : Option (Nat → Nat → List RichNode)} {s s' : Scan}

theorem turn_escape (h : Range.escape? src stop s = some s') :
    Turn newUrl src stop inside s s' := by
  rw [Range.escape?] at h
  split at h
  · next hat =>
    split at h
    · next c hc =>
      split at h
      · next hmem =>
        cases h
        refine .escape hmem hat.2 ?_
        rw [← slice_append_slice (Nat.le_succ _) (Nat.le_succ _), slice_succ hat.1]
        exact congrArg (backslash :: ·) (slice_succ hc)
      · cases h
    · cases h
  · cases h

theorem turn_angleLink (h : Range.angleLink? newUrl src stop s = some s') :
    Turn newUrl src stop inside s s' := by
  rw [Range.angleLink?] at h
  split at h
  · next hat =>
    split at h
    · next close hclose =>
      dsimp only at h
      split at h
      · next hlink =>
        cases h
        obtain ⟨hle, hlt, hgt⟩ := position?_spec hclose
        have hpart : slice src s.i (close + 1) =
            units "<" ++ slice src (s.i + 1) close ++ units ">" := by
          rw [← slice_append_slice (Nat.le_succ s.i) (Nat.le_succ_of_le hle),
            ← slice_append_slice hle (Nat.le_succ close), slice_succ hat.1,
            slice_succ (of_decide_eq_true hgt), append_assoc]
          rfl
        refine .leaf rfl (Nat.lt_succ_of_lt hle) hlt ?_
        rw [hpart]
        exact .angleLink (Bool.and_eq_true_iff.1 hlink).2
      · cases h
    · cases h
  · cases h

theorem turn_autoLink (h : Range.autoLink? newUrl src stop s = some s') :
    Turn newUrl src stop inside s s' := by
  rw [Range.autoLink?] at h
  dsimp only at h
  split at h
  · split at h
    · next hpos =>
      cases h
      obtain ⟨hle, hlink⟩ := urlExtent_spec hpos
      exact .leaf rfl (Nat.lt_add_of_pos_right hpos) hle (.link hlink)
    · cases h
  · cases h

theorem turn_codeblock {lang : Option Units} {text : Units} {next : Nat} (hlt : s.i < next)
    (hle : next ≤ stop) (h : CodeBlock text lang (slice src s.i next)) :
    Turn newUrl src stop inside s (s.pushBlock src (codeblock? lang text) next) := by
  rw [codeblock?]
  split
  · next hnone =>
    subst hnone
    exact .blank hlt hle h
  · exact .block rfl hlt hle (.code h)

theorem turn_fence (h : Range.fence? src stop s = some s') :
    Turn newUrl src stop inside s s' := by
  rw [Range.fence?] at h
  split at h
  · next hopen =>
    split at h
    · next close hclose =>
      cases h
      obtain ⟨hlt, hle, hat⟩ := closerOf_spec hclose
      refine turn_codeblock (by omega) hle ?_
      have hpart := slice_marked hopen hat hlt
      rw [show close + 3 = close + fenceMarker.length from rfl, hpart]
      exact codeBlock_fence _
    · cases h
  · cases h

theorem turn_inlineCode (h : Range.inlineCode? src stop s = some s') :
    Turn newUrl src stop inside s s' := by
  rw [Range.inlineCode?] at h
  split at h
  · next marker hmarker =>
    have hmem := mem_of_find?_eq_some hmarker
    have hopen := @find?_some _ (startsAt · src s.i) _ _ hmarker
    split at h
    · next close hclose =>
      obtain ⟨hlt, hle, hat⟩ := closerOf_spec hclose
      have hpart := slice_marked hopen hat hlt
      dsimp only at h
      split at h
      · cases h
        refine turn_codeblock (by omega) hle ?_
        rw [hpart]
        exact codeBlock_ticks hmem
      · cases h
        refine .leaf rfl (by omega) hle ?_
        rw [hpart]
        exact .code hmem
    · cases h
  · cases h

theorem turn_displayMath (h : Range.displayMath? src stop s = some s') :
    Turn newUrl src stop inside s s' := by
  rw [Range.displayMath?] at h
  split at h
  · next hopen =>
    split at h
    · next close hclose =>
      obtain ⟨hlt, hle, hat⟩ := closerOf_spec hclose
      have hpart := slice_marked hopen hat hlt
      dsimp only at h
      split at h
      · cases h
        exact .skip (by decide)
      · cases h
        have hlen : s.i < close + 2 := by omega
        refine .block rfl hlen hle ?_
        rw [show close + 2 = close + (units "$$").length from rfl, hpart]
        exact block_math _
    · cases h
      exact .skip (by decide)
  · cases h

theorem turn_inlineMath (h : Range.inlineMath? src stop s = some s') :
    Turn newUrl src stop inside s s' := by
  rw [Range.inlineMath?] at h
  split at h
  · next hopen =>
    split at h
    · next close hclose =>
      obtain ⟨hlt, hle, hat⟩ := closerOf_spec hclose
      have hpart := slice_marked hopen hat hlt
      dsimp only at h
      split at h
      · cases h
        have hlen : s.i < close + 1 := by omega
        refine .leaf rfl hlen hle ?_
        rw [show close + 1 = close + (units "$").length from rfl, hpart]
        exact .math
      · cases h
    · cases h
  · cases h

theorem spanCloser_spec {i close : Nat} {marker : Units} {apart : Bool}
    (h : Range.spanCloser src stop i marker apart = some close) :
    i + marker.length < close ∧ close + marker.length ≤ stop ∧
      startsAt marker src close = true :=
  closerOf_spec (Option.filter_eq_some_iff.1 h).1

theorem length_of_tripleMarkers {m : Units × SpanKind} (h : m ∈ tripleMarkers) :
    m.1.length = 3 := by
  rcases mem_cons.1 h with rfl | h
  · rfl
  · rw [mem_singleton.1 h]
    rfl

theorem turn_triple {f : Nat → Nat → List RichNode} (hinside : inside = some f)
    (h : Range.triple? src stop f s = some s') : Turn newUrl src stop inside s s' := by
  rw [Range.triple?] at h
  split at h
  · next marker kind hmarker =>
    have hmem := mem_of_find?_eq_some hmarker
    have hopen := @find?_some _ (fun m : Units × SpanKind => startsAt m.1 src s.i) _ _ hmarker
    have hlen := length_of_tripleMarkers hmem
    dsimp only at hlen
    split at h
    · next close hclose =>
      cases h
      obtain ⟨hlt, hle, hat⟩ := spanCloser_spec hclose
      rw [hlen] at hlt hle
      exact .triple hinside hmem hopen hat hlt hle
    · cases h
  · cases h

theorem turn_emphasis {f : Nat → Nat → List RichNode} (hinside : inside = some f)
    (h : Range.emphasis? src stop f s = some s') : Turn newUrl src stop inside s s' := by
  rw [Range.emphasis?] at h
  split at h
  · next marker kind hmarker =>
    have hmem := mem_of_find?_eq_some hmarker
    have hopen := @find?_some _ (fun m : Units × SpanKind => startsAt m.1 src s.i) _ _ hmarker
    split at h
    · next close hclose =>
      cases h
      obtain ⟨hlt, hle, hat⟩ := spanCloser_spec hclose
      exact .span hinside hmem hopen hat hlt hle
    · cases h
  · cases h

theorem orElse_getD {α : Type} {P : α → Prop} {o o' : Option α} {d : α}
    (h : ∀ x, o = some x → P x) (h' : P (o'.getD d)) : P ((o <|> o').getD d) := by
  cases o with
  | none => exact h'
  | some x => exact h x rfl

theorem step_turn (inside : Option (Nat → Nat → List RichNode)) (s : Scan) :
    Turn newUrl src stop inside s (Range.step newUrl src stop inside s) := by
  rw [Range.step]
  refine orElse_getD (fun _ => turn_escape) ?_
  refine orElse_getD (fun _ => turn_angleLink) ?_
  refine orElse_getD (fun _ => turn_autoLink) ?_
  refine orElse_getD (fun _ => turn_fence) ?_
  refine orElse_getD (fun _ => turn_inlineCode) ?_
  refine orElse_getD (fun _ => turn_displayMath) ?_
  refine orElse_getD (fun _ => turn_inlineMath) ?_
  refine orElse_getD (fun s' htriple => ?_) ?_
  · obtain ⟨f, hinside, hf⟩ := Option.bind_eq_some_iff.1 htriple
    exact turn_triple hinside hf
  · cases hemphasis : inside.bind fun inside => Range.emphasis? src stop inside s with
    | none => exact .skip (by decide)
    | some s' =>
      obtain ⟨f, hinside, hf⟩ := Option.bind_eq_some_iff.1 hemphasis
      exact turn_emphasis hinside hf

theorem le_pushBlock {node : Option RichNode} {next : Nat} :
    next ≤ (s.pushBlock src node next).i := by
  rw [Scan.pushBlock.eq_def]
  dsimp only
  split
  · exact Nat.le_succ next
  · exact Nat.le_refl next

theorem Turn.lt (h : Turn newUrl src stop inside s s') : s.i < s'.i := by
  cases h with
  | skip hk => exact Nat.lt_add_of_pos_right hk
  | escape => exact Nat.lt_add_of_pos_right (by decide)
  | leaf _ hlt => exact hlt
  | block _ hlt => exact Nat.lt_of_lt_of_le hlt le_pushBlock
  | blank hlt => exact Nat.lt_of_lt_of_le hlt le_pushBlock
  | span _ _ _ _ hlt =>
    exact Nat.lt_of_le_of_lt (Nat.le_add_right _ _) (Nat.lt_of_lt_of_le hlt (Nat.le_add_right _ _))
  | triple _ _ _ _ hlt =>
    exact Nat.lt_of_le_of_lt (Nat.le_add_right _ _) (Nat.lt_of_lt_of_le hlt (Nat.le_add_right _ _))

end Turns

/-! ## The parser -/

section Parser

variable (newUrl : Units → Option Url)

/-- Turns up to the end of the range. -/
def scan (src : Units) (stop : Nat) (inside : Option (Nat → Nat → List RichNode)) (s : Scan) :
    Scan :=
  if s.i < stop then scan src stop inside (Range.step newUrl src stop inside s) else s
termination_by stop - s.i
decreasing_by
  have hlt := (@step_turn newUrl src stop inside s).lt
  omega

/-- Emphasis is nested in as many levels as are left. -/
def parseRange (src : Units) : Nat → Nat → Nat → List RichNode
  | 0, start, stop => (scan newUrl src stop none { i := start, plainFrom := start }).flush src stop
  | levels + 1, start, stop =>
    (scan newUrl src stop (some (parseRange src levels)) { i := start, plainFrom := start }).flush
      src stop

def maxDepth : Nat := 8

/-- What was parsed, the oldest first. -/
abbrev Parsed := List (Units × List RichNode)

def parsedMax : Nat := 500

/-- The parser, and what it has parsed then. -/
def parseRichText (parsed : Parsed) (content : Units) : List RichNode × Parsed :=
  match parsed.lookup content with
  | some nodes => (nodes, parsed)
  | none =>
    let nodes := parseRange newUrl content maxDepth 0 content.length
    let parsed := if parsedMax ≤ parsed.length then parsed.drop (parsedMax / 4) else parsed
    (nodes, parsed ++ [(content, nodes)])

end Parser

end Decibell.RichText
