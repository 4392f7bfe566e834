import Decibell.Client.RichMarkup

/-!
# What the parser loses

A text is one way to write the nodes that the parser makes of it (`Written`): it is the texts of the
leaves in the order of the document and recognised markup between them, and nothing else.
-/

namespace Decibell.RichText

open Lib List

/-- Code blocks without a text, each with one newline after it at most. -/
inductive Blanks : Units → Prop
  | nil : Blanks []
  | snoc {t part after : Units} {lang : Option Units} (h : Blanks t)
      (hblock : CodeBlock [] lang part) (hafter : AtMostNewline after) :
      Blanks (t ++ (part ++ after))

/-- What a block swallows before it: nothing, or a newline before blanks. -/
def Gap (t : Units) : Prop := t = [] ∨ ∃ blanks, Blanks blanks ∧ t = newline :: blanks

/-- A text is a way to write the leaves: their texts in order, and recognised markup. Display math
    may lose some units at its ends. -/
inductive Written (newUrl : Units → Option Url) (edge : UInt16 → Bool) :
    List Token → Units → Prop
  | nil : Written newUrl edge [] []
  | unit {ts : List Token} {a : Units} (h : Written newUrl edge ts a) (c : UInt16) :
      Written newUrl edge (ts ++ [.unit c]) (a ++ [c])
  | escape {ts : List Token} {a : Units} (h : Written newUrl edge ts a) {c : UInt16}
      (hc : c ∈ escapable) : Written newUrl edge (ts ++ [.unit c]) (a ++ [backslash, c])
  | leaf {ts : List Token} {a part : Units} {tok : Token} (h : Written newUrl edge ts a)
      (hleaf : Leaf newUrl tok part) : Written newUrl edge (ts ++ [tok]) (a ++ part)
  | span {ts us : List Token} {a b marker : Units} {kind : SpanKind}
      (h : Written newUrl edge ts a) (hinside : Written newUrl edge us b)
      (hmem : (marker, kind) ∈ spanMarkers) :
      Written newUrl edge (ts ++ (.opens kind :: (us ++ [.closes kind])))
        (a ++ (marker ++ b ++ marker))
  | block {ts : List Token} {a gap part after : Units} {tok : Token}
      (h : Written newUrl edge ts a) (hgap : Gap gap) (hblock : Block edge tok part)
      (hafter : AtMostNewline after) :
      Written newUrl edge (ts ++ [tok]) (a ++ gap ++ (part ++ after))
  | blank {ts : List Token} {a part after : Units} {lang : Option Units}
      (h : Written newUrl edge ts a) (hblock : CodeBlock [] lang part)
      (hafter : AtMostNewline after) : Written newUrl edge ts (a ++ (part ++ after))

section Writing

variable {newUrl : Units → Option Url} {edge : UInt16 → Bool} {ts : List Token} {a t : Units}

theorem Written.units (h : Written newUrl edge ts a) (t : Units) :
    Written newUrl edge (ts ++ t.map .unit) (a ++ t) := by
  induction t generalizing ts a with
  | nil =>
    rw [map_nil, append_nil, append_nil]
    exact h
  | cons c t ih =>
    have hrest := ih (h.unit c)
    rw [append_assoc, append_assoc] at hrest
    exact hrest

theorem newline_not_escapable : newline ∉ escapable := by decide

theorem Written.last_newline (h : Written newUrl edge ts a) {ts' : List Token}
    (hts : ts = ts' ++ [.unit newline]) : ∃ b blanks, a = b ++ newline :: blanks ∧
      Blanks blanks ∧ Written newUrl edge ts' b := by
  induction h with
  | nil => exact absurd hts.symm (append_ne_nil_of_right_ne_nil _ (cons_ne_nil _ _))
  | @unit ts a h c =>
    obtain ⟨rfl, heq⟩ := append_inj' hts rfl
    cases heq
    exact ⟨a, [], rfl, .nil, h⟩
  | @escape ts a h c hc =>
    obtain ⟨-, heq⟩ := append_inj' hts rfl
    cases heq
    exact absurd hc newline_not_escapable
  | @leaf ts a part tok h hleaf =>
    obtain ⟨-, heq⟩ := append_inj' hts rfl
    cases heq
    cases hleaf
  | @span ts us a b marker kind h hinside hmem =>
    rw [← cons_append, ← append_assoc] at hts
    obtain ⟨-, heq⟩ := append_inj' hts rfl
    cases heq
  | @block ts a gap part after tok h hgap hblock hafter =>
    obtain ⟨-, heq⟩ := append_inj' hts rfl
    cases heq
    cases hblock
  | @blank ts a part after lang h hblock hafter ih =>
    obtain ⟨b, blanks, rfl, hblanks, hwritten⟩ := ih hts
    exact ⟨b, blanks ++ (part ++ after), append_assoc .., hblanks.snoc hblock hafter,
      hwritten⟩

/-! ## Leaves in the source -/

theorem Leaf.text_infix {tok : Token} {part : Units} (h : Leaf newUrl tok part) :
    tok.text <:+: part := by
  cases h with
  | link => exact infix_rfl
  | angleLink => exact infix_append ..
  | code => exact infix_append ..
  | math => exact infix_append ..

theorem CodeBlock.text_infix {text part : Units} {lang : Option Units}
    (h : CodeBlock text lang part) : text <:+: part := by
  have hmarked {u w : Units} (hu : text <:+: u) : text <:+: w ++ u ++ w :=
    hu.trans (infix_append ..)
  cases h with
  | fence => exact hmarked (prefix_append ..).isInfix
  | langLine =>
    exact hmarked ((prefix_append ..).isInfix.trans (suffix_append ..).isInfix)
  | ticks =>
    exact hmarked ((prefix_append ..).isInfix.trans (suffix_append ..).isInfix)

theorem Block.text_infix {tok : Token} {part : Units} (h : Block edge tok part) :
    tok.text <:+: part := by
  cases h with
  | code h => exact h.text_infix
  | math => exact (infix_append ..).trans (infix_append ..)

theorem Written.verbatim (h : Written newUrl edge ts a) : ∀ tok ∈ ts, tok.text <:+: a := by
  have hbefore {u v : Units} {ts : List Token} (h : ∀ tok ∈ ts, tok.text <:+: u) :
      ∀ tok ∈ ts, tok.text <:+: u ++ v :=
    fun tok htok => (h tok htok).trans (prefix_append u v).isInfix
  have hlast {u v : Units} {tok : Token} (h : tok.text <:+: v) :
      ∀ tok' ∈ [tok], tok'.text <:+: u ++ v :=
    fun tok' htok => mem_singleton.1 htok ▸ h.trans (suffix_append u v).isInfix
  induction h with
  | nil => exact forall_mem_nil _
  | unit _ c ih => exact forall_mem_append.2 ⟨hbefore ih, hlast infix_rfl⟩
  | escape _ _ ih =>
    exact forall_mem_append.2 ⟨hbefore ih, hlast (suffix_cons ..).isInfix⟩
  | leaf _ hleaf ih => exact forall_mem_append.2 ⟨hbefore ih, hlast hleaf.text_infix⟩
  | @span ts us a b marker kind _ _ _ ih ih' =>
    refine forall_mem_append.2 ⟨hbefore ih, forall_mem_cons.2 ⟨List.nil_infix, ?_⟩⟩
    refine forall_mem_append.2 ⟨fun tok htok => ?_, hlast nil_infix⟩
    exact (ih' tok htok).trans ((infix_append ..).trans (suffix_append ..).isInfix)
  | block _ _ hblock _ ih =>
    refine forall_mem_append.2 ⟨hbefore (hbefore ih), hlast ?_⟩
    exact hblock.text_infix.trans (prefix_append ..).isInfix
  | blank _ _ _ ih => exact hbefore ih

theorem Written.sublist (h : Written newUrl edge ts a) : (ts.flatMap Token.text).Sublist a := by
  induction h with
  | nil => exact .refl _
  | unit _ c ih =>
    rw [flatMap_append]
    exact ih.append (.refl _)
  | escape _ _ ih =>
    rw [flatMap_append]
    exact ih.append (sublist_cons_self ..)
  | leaf _ hleaf ih =>
    rw [flatMap_append, flatMap_singleton]
    exact ih.append hleaf.text_infix.sublist
  | @span ts us a b marker kind _ _ _ ih ih' =>
    rw [flatMap_append, flatMap_cons, flatMap_append]
    refine ih.append ?_
    rw [show Token.text (.opens kind) = [] from rfl, flatMap_singleton,
      show Token.text (.closes kind) = [] from rfl, append_nil]
    exact ih'.trans (infix_append marker b marker).sublist
  | @block ts a gap part after tok _ _ hblock _ ih =>
    rw [flatMap_append, flatMap_singleton]
    refine (ih.trans (sublist_append_left a gap)).append ?_
    exact hblock.text_infix.sublist.trans (sublist_append_left ..)
  | blank _ _ _ ih => exact ih.trans (sublist_append_left ..)

/-! ## Units that are no markup -/

/-- A unit that markers, fence lines and the like are of. -/
def isMarkup (c : UInt16) : Bool :=
  c = newline || isLangUnit c || c ∈ RichText.units "*_~\x60$<>\\"

variable {c : UInt16}

theorem count_markup {m : Units} (hm : m.all isMarkup = true) (hc : isMarkup c = false) :
    m.count c = 0 := by
  refine count_eq_zero.2 fun hmem => ?_
  exact absurd ((all_eq_true.1 hm c hmem).symm.trans hc) (by decide)

theorem AtMostNewline.count (h : AtMostNewline t) (hc : isMarkup c = false) : t.count c = 0 := by
  rcases h with rfl | rfl
  · rfl
  · exact count_markup (by decide) hc

theorem count_marked {m m' : Units} (hm : m.all isMarkup = true) (hm' : m'.all isMarkup = true)
    (hc : isMarkup c = false) : (m ++ t ++ m').count c = t.count c := by
  rw [count_append, count_append, count_markup hm hc, count_markup hm' hc,
    Nat.zero_add, Nat.add_zero]

theorem tickMarker_markup {marker : Units} (h : marker ∈ tickMarkers) :
    marker.all isMarkup = true := by
  have hall : ∀ m ∈ tickMarkers, m.all isMarkup = true := by decide
  exact hall marker h

theorem spanMarker_markup {marker : Units} {kind : SpanKind} (h : (marker, kind) ∈ spanMarkers) :
    marker.all isMarkup = true := by
  have hall : ∀ m ∈ spanMarkers, m.1.all isMarkup = true := by decide
  exact hall _ h

theorem Leaf.count {tok : Token} {part : Units} (h : Leaf newUrl tok part)
    (hc : isMarkup c = false) : part.count c = tok.text.count c := by
  cases h with
  | link => rfl
  | angleLink => exact count_marked rfl rfl hc
  | code hmarker => exact count_marked (tickMarker_markup hmarker) (tickMarker_markup hmarker) hc
  | math => exact count_marked rfl rfl hc

theorem CodeBlock.count {text part : Units} {lang : Option Units}
    (h : CodeBlock text lang part) (hc : isMarkup c = false) :
    part.count c = text.count c := by
  have hfence : fenceMarker.all isMarkup = true := rfl
  cases h with
  | fence hafter =>
    rw [count_marked hfence hfence hc, count_append, hafter.count hc, Nat.add_zero]
  | @langLine line after hline hafter =>
    have hlang : (line ++ [newline]).count c = 0 := by
      refine count_markup (all_append.trans ?_) hc
      refine Bool.and_eq_true_iff.2 ⟨all_eq_true.2 fun d hd => ?_, rfl⟩
      rw [isMarkup, hline d hd, Bool.or_true, Bool.true_or]
    rw [count_marked hfence hfence hc, count_append, hlang, count_append,
      hafter.count hc, Nat.zero_add, Nat.add_zero]
  | ticks hmarker hbefore hafter =>
    rw [count_marked (tickMarker_markup hmarker) (tickMarker_markup hmarker) hc,
      count_append, count_append, hbefore.count hc, hafter.count hc, Nat.zero_add,
      Nat.add_zero]

theorem Block.count {tok : Token} {part : Units} (h : Block edge tok part)
    (hc : isMarkup c = false) (hedge : edge c = false) : part.count c = tok.text.count c := by
  cases h with
  | code h => exact h.count hc
  | math hbefore hafter =>
    have hnone {w : Units} (hw : ∀ d ∈ w, edge d = true) : w.count c = 0 :=
      count_eq_zero.2 fun hmem => absurd ((hw c hmem).symm.trans hedge) (by decide)
    rw [count_marked rfl rfl hc, count_append, count_append, hnone hbefore,
      hnone hafter, Nat.zero_add, Nat.add_zero]
    rfl

theorem Blanks.count (h : Blanks t) (hc : isMarkup c = false) : t.count c = 0 := by
  induction h with
  | nil => rfl
  | snoc _ hblock hafter ih =>
    rw [count_append, count_append, ih, hblock.count hc, hafter.count hc]
    rfl

/-- A unit that is no markup is in the leaves as often as in the source. -/
theorem Written.count (h : Written newUrl edge ts a) (hc : isMarkup c = false)
    (hedge : edge c = false) : a.count c = (ts.flatMap Token.text).count c := by
  induction h with
  | nil => rfl
  | unit _ d ih =>
    rw [count_append, flatMap_append, count_append, ih]
    rfl
  | @escape ts a _ d _ ih =>
    have hback : [backslash].count c = 0 := count_markup (by decide) hc
    rw [show [backslash, d] = [backslash] ++ [d] from rfl, count_append, count_append,
      hback, Nat.zero_add, flatMap_append, count_append, ih]
    rfl
  | leaf _ hleaf ih =>
    rw [count_append, hleaf.count hc, flatMap_append, count_append, ih,
      flatMap_singleton]
  | span _ _ hmem ih ih' =>
    have hmarker := spanMarker_markup hmem
    rw [count_append, count_marked hmarker hmarker hc, flatMap_append,
      count_append, flatMap_cons, flatMap_append, flatMap_singleton, ih, ih']
    exact congrArg _ (congrArg _ (append_nil _).symm)
  | @block ts a gap part after tok _ hgap hblock hafter ih =>
    have hgap' : gap.count c = 0 := by
      rcases hgap with rfl | ⟨blanks, hblanks, rfl⟩
      · rfl
      · rw [← singleton_append, count_append, hblanks.count hc]
        exact count_markup rfl hc
    rw [count_append, count_append, count_append, hgap', hblock.count hc hedge,
      hafter.count hc, flatMap_append, count_append, flatMap_singleton, ih]
    rfl
  | blank _ hblock hafter ih =>
    rw [count_append, count_append, hblock.count hc, hafter.count hc, ← ih]
    rfl

end Writing

/-! ## The nodes that a scan has -/

theorem tokensOf_append (nodes more : List RichNode) :
    tokensOf (nodes ++ more) = tokensOf nodes ++ tokensOf more := by
  induction nodes with
  | nil => rfl
  | cons node nodes ih =>
    rw [cons_append, tokensOf, tokensOf, ih, append_assoc]

theorem tokensOf_singleton (node : RichNode) : tokensOf [node] = node.tokens := by
  rw [tokensOf, tokensOf, append_nil]

theorem tokensOf_snoc (nodes : List RichNode) (node : RichNode) :
    tokensOf (nodes ++ [node]) = tokensOf nodes ++ node.tokens := by
  rw [tokensOf_append, tokensOf_singleton]

theorem tokens_text (text : Units) : (RichNode.text text).tokens = text.map .unit := by
  rw [RichNode.tokens]

theorem tokensOf_pushText (out : List RichNode) (text : Units) :
    tokensOf (pushText out text) = tokensOf out ++ text.map .unit := by
  rw [pushText]
  split
  · next hnil => rw [hnil, map_nil, append_nil]
  · split
    · next last hlast =>
      rw [tokensOf_snoc, tokens_text, map_append, ← append_assoc, ← tokens_text last,
        ← tokensOf_snoc, dropLast_append_getLast? _ hlast]
    · rw [tokensOf_snoc, tokens_text]

theorem tokensOf_trim (out : List RichNode) : trimOneTrailingNewline out = out ∨
    tokensOf out = tokensOf (trimOneTrailingNewline out) ++ [.unit newline] := by
  rw [trimOneTrailingNewline.eq_def]
  split
  · next text hlast =>
    split
    · next hnewline =>
      have hout : tokensOf out = tokensOf out.dropLast ++ text.dropLast.map .unit ++
          [.unit newline] := by
        rw [append_assoc, ← map_singleton, ← map_append,
          dropLast_append_getLast? _ hnewline, ← tokens_text, ← tokensOf_snoc,
          dropLast_append_getLast? _ hlast]
      refine .inr ?_
      split
      · next hnil =>
        rw [hout, hnil, map_nil, append_nil]
      · rw [tokensOf_snoc, tokens_text]
        exact hout
    · exact .inl rfl
  · exact .inl rfl

/-! ## A scan on its way -/

/-- What a scan has is written as the source, up to where the plain text begins. -/
structure Scanned (newUrl : Units → Option Url) (src : Units) (start stop : Nat) (s : Scan) :
    Prop where
  start_le : start ≤ s.plainFrom
  plain_le : s.plainFrom ≤ s.i
  le_stop : s.plainFrom ≤ stop
  written : Written newUrl isSpace (tokensOf s.out) (slice src start s.plainFrom)

section Scanning

variable {newUrl : Units → Option Url} {src : Units} {start stop : Nat} {s s' : Scan}
  {inside : Option (Nat → Nat → List RichNode)}

theorem Scanned.flush (h : Scanned newUrl src start stop s) {upTo : Nat}
    (hle : s.plainFrom ≤ upTo) :
    Written newUrl isSpace (tokensOf (s.flush src upTo)) (slice src start upTo) := by
  rw [Scan.flush]
  split
  · rw [tokensOf_pushText, ← slice_append_slice h.start_le hle]
    exact h.written.units _
  · next hnot =>
    rw [Nat.le_antisymm (Nat.le_of_not_lt hnot) hle]
    exact h.written

/-- Up to the next position the nodes are written, and plain text begins. -/
theorem Scanned.next (h : Scanned newUrl src start stop s) {out : List RichNode} {next : Nat}
    (hlt : s.i < next) (hle : next ≤ stop) {part : Units}
    (hpart : slice src s.i next = part)
    (hout : Written newUrl isSpace (tokensOf out) (slice src start s.i ++ part)) :
    Scanned newUrl src start stop { i := next, plainFrom := next, out } where
  start_le := (h.start_le.trans h.plain_le).trans (Nat.le_of_lt hlt)
  plain_le := Nat.le_refl next
  le_stop := hle
  written := by
    rw [← hpart, slice_append_slice (h.start_le.trans h.plain_le) (Nat.le_of_lt hlt)] at hout
    exact hout

theorem Scanned.push (h : Scanned newUrl src start stop s) {node : RichNode} {next : Nat}
    (hlt : s.i < next) (hle : next ≤ stop) {part : Units} (hpart : slice src s.i next = part)
    (hnode : ∀ {ts : List Token} {a : Units}, Written newUrl isSpace ts a →
      Written newUrl isSpace (ts ++ node.tokens) (a ++ part)) :
    Scanned newUrl src start stop (s.push src node next) := by
  refine h.next hlt hle hpart ?_
  rw [tokensOf_snoc]
  exact hnode (h.flush h.plain_le)

theorem written_trim {out : List RichNode} {a : Units}
    (h : Written newUrl isSpace (tokensOf out) a) : ∃ b gap, a = b ++ gap ∧ Gap gap ∧
      Written newUrl isSpace (tokensOf (trimOneTrailingNewline out)) b := by
  rcases tokensOf_trim out with hsame | htokens
  · rw [hsame]
    exact ⟨a, [], (append_nil a).symm, .inl rfl, h⟩
  · obtain ⟨b, blanks, ha, hblanks, hb⟩ := h.last_newline htokens
    exact ⟨b, newline :: blanks, ha, .inr ⟨blanks, hblanks, rfl⟩, hb⟩

theorem swallowed_after {next : Nat} (hstop : src[stop]? ≠ some newline) (hle : next ≤ stop) :
    let next' := if src[next]? = some newline then next + 1 else next
    next ≤ next' ∧ next' ≤ stop ∧ AtMostNewline (slice src next next') := by
  dsimp only
  split
  · next hat =>
    have hne : next ≠ stop := fun heq => hstop (heq ▸ hat)
    exact ⟨Nat.le_succ next, Nat.lt_of_le_of_ne hle hne, .inr (slice_succ hat)⟩
  · exact ⟨Nat.le_refl next, hle, .inl slice_self⟩

theorem Scanned.pushBlock (h : Scanned newUrl src start stop s)
    (hstop : src[stop]? ≠ some newline) {node : Option RichNode} {next : Nat} (hlt : s.i < next)
    (hle : next ≤ stop)
    (hnode : ∀ {out : List RichNode} {a after : Units}, AtMostNewline after →
      Written newUrl isSpace (tokensOf out) a →
      Written newUrl isSpace (tokensOf (match node with
        | some node => trimOneTrailingNewline out ++ [node]
        | none => out)) (a ++ (slice src s.i next ++ after))) :
    Scanned newUrl src start stop (s.pushBlock src node next) := by
  obtain ⟨hnext, hin, hafter⟩ := swallowed_after hstop hle
  rw [Scan.pushBlock.eq_def]
  refine h.next (Nat.lt_of_lt_of_le hlt hnext) hin ?_ (hnode hafter (h.flush h.plain_le))
  exact (slice_append_slice (Nat.le_of_lt hlt) hnext).symm

theorem marker_head {marker : Units} {kind : SpanKind}
    (h : (marker, kind) ∈ spanMarkers ∨ (marker, kind) ∈ tripleMarkers) :
    ∃ c rest, marker = c :: rest ∧ c ≠ newline := by
  have hall : ∀ m ∈ spanMarkers ++ tripleMarkers, m.1.head?.any (· ≠ newline) = true := by
    decide
  have hm := hall _ (mem_append.2 h)
  cases marker with
  | nil => cases hm
  | cons c rest => exact ⟨c, rest, rfl, of_decide_eq_true hm⟩

/-- A triple marker is one of bold or underlined text around one of italics. -/
theorem triple_split {marker : Units} {kind : SpanKind} (h : (marker, kind) ∈ tripleMarkers) :
    ∃ outer inner, (outer, kind) ∈ spanMarkers ∧ (inner, .italic) ∈ spanMarkers ∧
      marker = outer ++ inner ∧ marker = inner ++ outer := by
  rcases mem_cons.1 h with heq | h
  · cases heq
    exact ⟨units "**", units "*", by decide, by decide, rfl, rfl⟩
  · cases mem_singleton.1 h
    exact ⟨units "__", units "_", by decide, by decide, rfl, rfl⟩

/-- A turn keeps it, if the inner parser writes each range no newline follows. -/
theorem Turn.scanned (h : Turn newUrl src stop inside s s')
    (hs : Scanned newUrl src start stop s) (hstop : src[stop]? ≠ some newline)
    (hinside : ∀ f, inside = some f → ∀ a b, a ≤ b → src[b]? ≠ some newline →
      Written newUrl isSpace (tokensOf (f a b)) (slice src a b)) :
    Scanned newUrl src start stop s' := by
  -- A closing marker is no newline.
  have hcloser {marker : Units} {kind : SpanKind} {close : Nat}
      (hmem : (marker, kind) ∈ spanMarkers ∨ (marker, kind) ∈ tripleMarkers)
      (hclose : startsAt marker src close = true) : src[close]? ≠ some newline := by
    obtain ⟨c, rest, rfl, hne⟩ := marker_head hmem
    rw [getElem?_of_startsAt_cons hclose]
    exact fun heq => hne (Option.some.inj heq)
  cases h with
  | skip hk =>
    exact ⟨hs.start_le, hs.plain_le.trans (Nat.le_add_right _ _), hs.le_stop, hs.written⟩
  | escape hc hle hpart =>
    refine hs.next (Nat.lt_add_of_pos_right (by decide)) hle hpart ?_
    rw [tokensOf_pushText]
    exact (hs.flush hs.plain_le).escape hc
  | leaf hnode hlt hle hleaf =>
    exact hs.push hlt hle rfl fun hw => hnode ▸ hw.leaf hleaf
  | block hnode hlt hle hblock =>
    refine hs.pushBlock hstop hlt hle fun hafter hw => ?_
    obtain ⟨b, gap, rfl, hgap, hb⟩ := written_trim hw
    rw [tokensOf_snoc, hnode]
    exact hb.block hgap hblock hafter
  | blank hlt hle hblock =>
    exact hs.pushBlock hstop hlt hle fun hafter hw => hw.blank hblock hafter
  | @span f marker kind close hf hmem hopen hclose hlt hle =>
    refine hs.push ((Nat.le_add_right _ _).trans_lt (hlt.trans_le (Nat.le_add_right _ _))) hle
      (slice_marked hopen hclose hlt) fun hw => ?_
    rw [RichNode.tokens]
    exact hw.span (hinside f hf _ _ (Nat.le_of_lt hlt) (hcloser (.inl hmem) hclose)) hmem
  | @triple f marker kind close hf hmem hopen hclose hlt hle =>
    have hlen := length_of_tripleMarkers hmem
    dsimp only at hlen
    have hpart := slice_marked hopen hclose (hlen ▸ hlt)
    rw [hlen] at hpart
    refine hs.push (by omega) hle hpart fun {ts a} hw => ?_
    have hf := hinside f hf _ _ (Nat.le_of_lt hlt) (hcloser (.inr hmem) hclose)
    obtain ⟨outer, inner, houter, hinner, hsplit, hsplit'⟩ := triple_split hmem
    have hspan := hw.span (Written.nil.span hf hinner) houter
    have htokens : (RichNode.span kind [.span .italic (f (s.i + 3) close)]).tokens =
        .opens kind :: ([] ++ (.opens .italic :: (tokensOf (f (s.i + 3) close) ++
          [.closes .italic])) ++ [.closes kind]) := by
      rw [RichNode.tokens, tokensOf_singleton, RichNode.tokens, nil_append]
    have hsource : marker ++ slice src (s.i + 3) close ++ marker =
        outer ++ ([] ++ (inner ++ slice src (s.i + 3) close ++ inner)) ++ outer := by
      -- The marker is read as one that opens, and the other way round as one that closes.
      calc marker ++ slice src (s.i + 3) close ++ marker
          = outer ++ inner ++ slice src (s.i + 3) close ++ (inner ++ outer) := by
            rw [← hsplit, ← hsplit']
        _ = outer ++ ([] ++ (inner ++ slice src (s.i + 3) close ++ inner)) ++ outer := by
            simp only [append_assoc, nil_append]
    rw [htokens, hsource]
    exact hspan

theorem scan_written (hs : Scanned newUrl src start stop s) (hstop : src[stop]? ≠ some newline)
    (hinside : ∀ f, inside = some f → ∀ a b, a ≤ b → src[b]? ≠ some newline →
      Written newUrl isSpace (tokensOf (f a b)) (slice src a b)) :
    Written newUrl isSpace (tokensOf ((scan newUrl src stop inside s).flush src stop))
      (slice src start stop) := by
  induction s using scan.induct newUrl src stop inside with
  | case1 s hlt ih =>
    rw [scan, if_pos hlt]
    exact ih ((step_turn inside s).scanned hs hstop hinside)
  | case2 s hnot =>
    rw [scan, if_neg hnot]
    exact hs.flush hs.le_stop

theorem scanned_init (hle : start ≤ stop) :
    Scanned newUrl src start stop { i := start, plainFrom := start } := by
  refine ⟨Nat.le_refl start, Nat.le_refl start, hle, ?_⟩
  rw [slice_self]
  exact .nil

theorem parseRange_written (levels : Nat) (hle : start ≤ stop)
    (hstop : src[stop]? ≠ some newline) :
    Written newUrl isSpace (tokensOf (parseRange newUrl src levels start stop))
      (slice src start stop) := by
  induction levels generalizing start stop with
  | zero =>
    rw [parseRange]
    exact scan_written (scanned_init hle) hstop fun f hf => by cases hf
  | succ levels ih =>
    rw [parseRange]
    refine scan_written (scanned_init hle) hstop fun f hf a b hab hb => ?_
    cases hf
    exact ih hab hb

end Scanning

/-! ## The parser with its cache -/

/-- What was parsed is what the parser makes of it. -/
def Sound (newUrl : Units → Option Url) (parsed : Parsed) : Prop :=
  ∀ e ∈ parsed, e.2 = parseRange newUrl e.1 maxDepth 0 e.1.length

section Cache

variable {newUrl : Units → Option Url} {parsed : Parsed}

theorem parseRichText_spec (h : Sound newUrl parsed) (content : Units) :
    (parseRichText newUrl parsed content).1 =
        parseRange newUrl content maxDepth 0 content.length ∧
      Sound newUrl (parseRichText newUrl parsed content).2 := by
  rw [parseRichText.eq_def]
  split
  · next nodes hhit =>
    obtain ⟨before, after, heq, -⟩ := lookup_eq_some_iff.1 hhit
    refine ⟨h (content, nodes) ?_, h⟩
    rw [heq]
    exact mem_append_right _ mem_cons_self
  · refine ⟨rfl, forall_mem_append.2 ⟨?_, forall_mem_singleton.2 rfl⟩⟩
    split
    · exact fun e he => h e (mem_of_mem_drop he)
    · exact h

theorem sound_foldl (earlier : List Units) (h : Sound newUrl parsed) :
    Sound newUrl (earlier.foldl (fun parsed t => (parseRichText newUrl parsed t).2) parsed) := by
  induction earlier generalizing parsed with
  | nil => exact h
  | cons t earlier ih => exact ih (parseRichText_spec h t).2

/-- **The parser loses nothing.** Whatever was parsed before, the text is a way to write the nodes
    it is parsed to: the leaves' texts in order, pieces of the source, and recognised markup. -/
theorem rich_text_lossless (newUrl : Units → Option Url) (earlier : List Units)
    (content : Units) :
    let parsed := earlier.foldl (fun parsed t => (parseRichText newUrl parsed t).2) []
    let nodes := (parseRichText newUrl parsed content).1
    Written newUrl isSpace (tokensOf nodes) content ∧ (leafText nodes).Sublist content ∧
      ∀ tok ∈ tokensOf nodes, tok.text <:+: content := by
  have hsound := @sound_foldl newUrl [] earlier (List.forall_mem_nil _)
  have hstop : content[content.length]? ≠ some newline := by
    rw [List.getElem?_length]
    exact fun hnone => by cases hnone
  have hwritten := @parseRange_written newUrl content 0 content.length maxDepth (Nat.zero_le _)
    hstop
  rw [slice_zero_length] at hwritten
  dsimp only
  rw [(parseRichText_spec hsound content).1]
  exact ⟨hwritten, hwritten.sublist, hwritten.verbatim⟩

/-- Where display math may lose nothing, its white space is lost. -/
theorem not_rich_text_lossless_spaces :
    ¬∀ (newUrl : Units → Option Url) (content : Units), Written newUrl (fun _ => false)
      (tokensOf (parseRichText newUrl [] content).1) content := by
  intro h
  have hcount := @Written.count _ _ _ _ (unit ' ') (h (fun _ => none) (units "$$ x $$"))
    (by decide) rfl
  exact absurd hcount (by decide +kernel)

end Cache

end Decibell.RichText
