import Decibell.Lib.Slices

/-!
# Rich text

The texts of messages are parsed by one scan from left to right, with recursion only into emphasis.
Code and math are leaves, and so are links; what nothing recognises is plain text.

A text is the list of its UTF-16 units. The scan ends as each turn goes on by a unit at least
(`Range.lt_step`).
-/

namespace Decibell.RichText

open Lib

/-- A string of the renderer: its UTF-16 units. -/
abbrev Units := List UInt16

def unit (c : Char) : UInt16 := c.toNat.toUInt16

/-- The units of an ASCII text. -/
def units (s : String) : Units := s.toList.map unit

def newline : UInt16 := unit '\n'

def backslash : UInt16 := unit '\\'

/-- What is white space: `\s`, and what `trim` trims. -/
def isSpace (c : UInt16) : Bool :=
  9 ≤ c && c ≤ 13 || c = 32 || c = 0xa0 || c = 0x1680 || 0x2000 ≤ c && c ≤ 0x200a || c = 0x2028 ||
    c = 0x2029 || c = 0x202f || c = 0x205f || c = 0x3000 || c = 0xfeff

def isDigit (c : UInt16) : Bool := unit '0' ≤ c && c ≤ unit '9'

def isUpper (c : UInt16) : Bool := unit 'A' ≤ c && c ≤ unit 'Z'

def isLower (c : UInt16) : Bool := unit 'a' ≤ c && c ≤ unit 'z'

/-- `WORD_CHAR`. -/
def isWordUnit (c : UInt16) : Bool := isUpper c || isLower c || isDigit c

/-- `toLowerCase`, as far as it is compared with ASCII texts. -/
def lower (t : Units) : Units := t.map fun c => if isUpper c then c + 32 else c

def isWord (s : Units) (i : Nat) : Bool := (s[i]?.map isWordUnit).getD false

/-- Position `i - 1` is that of a word, where there is one. -/
def isWordBefore (s : Units) (i : Nat) : Bool := 0 < i && isWord s (i - 1)

def isSpaceAt (s : Units) (i : Nat) : Bool := (s[i]?.map isSpace).getD true

/-! ## Invite links -/

structure PendingInvite where
  code : Units
  endpoint : Option (Units × Nat)

def inviteScheme : Units := units "decibell://invite/"

def parsePort (t : Units) : Option Nat :=
  if 1 ≤ t.length && t.length ≤ 5 && t.all isDigit then
    some (t.foldl (fun n c => 10 * n + (c.toNat - 48)) 0) |>.filter fun port =>
      1 ≤ port && port ≤ 65535
  else none

/-- `[^\s/:]+`. -/
def isPlainHost (t : Units) : Bool :=
  !t.isEmpty && t.all fun c => !isSpace c && c ≠ unit '/' && c ≠ unit ':'

/-- `\[[0-9a-f:.]+\]`, in any case. -/
def isBracketedHost (t : Units) : Bool :=
  let inner := slice t 1 (t.length - 1)
  3 ≤ t.length && t.head? = some (unit '[') && t.getLast? = some (unit ']') &&
    (lower inner).all fun c =>
      isDigit c || unit 'a' ≤ c && c ≤ unit 'f' || c = unit ':' || c = unit '.'

/-- The host without the brackets around it. -/
def bareHost (t : Units) : Units :=
  let t := if t.head? = some (unit '[') then t.tail else t
  if t.getLast? = some (unit ']') then t.dropLast else t

def parseEndpoint (host port : Units) : Option (Units × Nat) := do
  let port ← parsePort port
  if (bareHost host).isEmpty then none else some (bareHost host, port)

def isCode (t : Units) : Bool := 4 ≤ t.length && t.length ≤ 64 && t.all isWordUnit

/-- `host:port`: the colon is the last one. -/
def parseHostPort (t : Units) : Option (Units × Nat) :=
  let port := (t.reverse.takeWhile (· ≠ unit ':')).reverse
  let host := t.take (t.length - port.length - 1)
  if port.length < t.length && (isBracketedHost host || isPlainHost host) then
    parseEndpoint host port
  else none

/-- The code, and the endpoint that older links have: `INVITE_RE`. -/
def parseInviteLink (url : Units) : Option PendingInvite :=
  if inviteScheme.isPrefixOf (lower url) then
    match (url.drop inviteScheme.length).splitOn (unit '/') with
    | [code] | [code, []] => if isCode code then some ⟨code, none⟩ else none
    | [hostPort, code] | [hostPort, code, []] =>
      if isCode code then (parseHostPort hostPort).map fun e => ⟨code, some e⟩ else none
    | [host, port, code] | [host, port, code, []] =>
      if isCode code && isPlainHost host then
        (parseEndpoint host port).map fun e => ⟨code, some e⟩
      else none
    | _ => none
  else none

/-! ## Links -/

/-- What the parser reads of a parsed URL. -/
structure Url where
  protocol : Units
  hostname : Units

def urlMaxLen : Nat := 2048

/-- `URL_STOP`. -/
def isUrlStop (c : UInt16) : Bool := isSpace c || c ∈ units "<>\"\x60"

/-- `URL_TRAIL_PUNCT`. -/
def isTrailPunct (c : UInt16) : Bool := c ∈ units ".,:;!?'\""

/-- `URL_CLOSERS`. -/
def urlOpener (closer : UInt16) : Option UInt16 :=
  if closer = unit ')' then some (unit '(')
  else if closer = unit ']' then some (unit '[')
  else if closer = unit '}' then some (unit '{')
  else none

def startsWithScheme (s : Units) (i : Nat) : Bool :=
  let head := lower (slice s i (i + 8))
  (units "https://").isPrefixOf head || (units "http://").isPrefixOf head ||
    lower (slice s i (i + inviteScheme.length)) = inviteScheme

section Links

-- The URL parser: the protocol and the host name, or nothing where it throws.
variable (newUrl : Units → Option Url)

def isLinkable (candidate : Units) : Bool :=
  if urlMaxLen < candidate.length then false
  else if (units "decibell:").isPrefixOf (lower candidate) then (parseInviteLink candidate).isSome
  else
    match newUrl candidate with
    | none => false
    | some u =>
      if u.protocol ≠ units "http:" && u.protocol ≠ units "https:" then false
      else u.hostname.contains (unit '.') || u.hostname = units "localhost"

/-- A closing bracket at the end goes, if it has no opening one. -/
def shedCloser (candidate : Units) : Units :=
  match candidate.getLast? with
  | none => candidate
  | some last =>
    match urlOpener last with
    | none => candidate
    | some opener =>
      if candidate.count opener < candidate.count last then candidate.dropLast else candidate

/-- One turn of the loop that trims a candidate. -/
def shed (candidate : Units) : Units :=
  shedCloser (if (candidate.getLast?.map isTrailPunct).getD false then candidate.dropLast
    else candidate)

theorem shedCloser_isPrefix (candidate : Units) : shedCloser candidate <+: candidate := by
  rw [shedCloser]
  repeat' split
  all_goals first | exact List.prefix_rfl | exact List.dropLast_prefix _

theorem shed_isPrefix (candidate : Units) : shed candidate <+: candidate := by
  refine (shedCloser_isPrefix _).trans ?_
  split
  · exact List.dropLast_prefix _
  · exact List.prefix_rfl

theorem length_shed_lt {candidate : Units} (h : shed candidate ≠ candidate) :
    (shed candidate).length < candidate.length :=
  Nat.lt_of_not_le fun hle => h ((shed_isPrefix candidate).eq_of_length_le hle)

/-- Trims until nothing is shed. -/
def trimUrl (candidate : Units) : Units :=
  if shed candidate = candidate then candidate else trimUrl (shed candidate)
termination_by candidate.length
decreasing_by exact length_shed_lt ‹_›

def urlExtent (src : Units) (i stop : Nat) : Nat :=
  let candidate := trimUrl ((slice src i stop).takeWhile fun c => !isUrlStop c)
  if isLinkable newUrl candidate then candidate.length else 0

end Links

/-! ## Nodes -/

inductive SpanKind where
  | bold
  | italic
  | underline
  | strike
deriving DecidableEq

inductive RichNode where
  | text (text : Units)
  | link (href text : Units) (embed : Bool)
  | span (kind : SpanKind) (children : List RichNode)
  | code (text : Units)
  | codeblock (lang : Option Units) (text : Units)
  | math (tex : Units) (display : Bool)

/-- `ESCAPABLE`. -/
def escapable : Units := units "*_~\x60$\\"

/-- A run of backslashes of odd length stands before position `i`. -/
def isEscaped (src : Units) (i : Nat) : Bool :=
  ((src.take i).reverse.takeWhile (· = backslash)).length % 2 = 1

/-- A marker's next occurrence without a backslash, before `stop`. -/
def findCloser (src : Units) (start stop : Nat) (marker : Units) : Option Nat :=
  position? (fun i => startsAt marker src i && !isEscaped src i) start (stop + 1 - marker.length)

/-- What closes the marker at `i`, with something between. -/
def closerOf (src : Units) (i stop : Nat) (marker : Units) : Option Nat :=
  (findCloser src (i + marker.length) stop marker).filter fun close =>
    i + marker.length < close

/-- A block breaks the line, so that one newline before it goes. -/
def trimOneTrailingNewline (out : List RichNode) : List RichNode :=
  match out.getLast? with
  | some (.text text) =>
    if text.getLast? = some newline then
      if text.dropLast = [] then out.dropLast else out.dropLast ++ [.text text.dropLast]
    else out
  | _ => out

def pushText (out : List RichNode) (text : Units) : List RichNode :=
  if text = [] then out
  else
    match out.getLast? with
    | some (.text last) => out.dropLast ++ [.text (last ++ text)]
    | _ => out ++ [.text text]

/-! ## The scan -/

/-- Where a scan is, where the plain text before begins, and what it has. -/
structure Scan where
  i : Nat
  plainFrom : Nat
  out : List RichNode := []

namespace Scan

variable (src : Units) (s : Scan)

/-- `flush` up to the position of the scan. -/
def flush (upTo : Nat) : List RichNode :=
  if s.plainFrom < upTo then pushText s.out (slice src s.plainFrom upTo) else s.out

/-- A node is made of what stands before a position. -/
def push (node : RichNode) (next : Nat) : Scan :=
  { i := next, plainFrom := next, out := s.flush src s.i ++ [node] }

/-- A block is made of what stands before; one newline after it goes. -/
def pushBlock (node : Option RichNode) (next : Nat) : Scan :=
  let out := s.flush src s.i
  let out :=
    match node with
    | some node => trimOneTrailingNewline out ++ [node]
    | none => out
  let next := if src[next]? = some newline then next + 1 else next
  { i := next, plainFrom := next, out }

end Scan

def fenceMarker : Units := units "\x60\x60\x60"

def tickMarkers : List Units := [units "\x60\x60", units "\x60"]

/-- A unit of the name of a language. -/
def isLangUnit (c : UInt16) : Bool := isWordUnit c || c ∈ units "#+._-"

/-- The language line of a fence, and its body. -/
def langLine (body : Units) : Option Units × Units :=
  let line := body.takeWhile (· ≠ newline)
  if line.length < body.length && line.all isLangUnit then
    (if line = [] then none else some (lower line), body.drop (line.length + 1))
  else (none, body)

def dropNewlineFront (body : Units) : Units :=
  if body.head? = some newline then body.tail else body

def dropNewlineEnd (body : Units) : Units :=
  if body.getLast? = some newline then body.dropLast else body

/-- The code block of a body, unless that is empty. -/
def codeblock? (lang : Option Units) (body : Units) : Option RichNode :=
  if body = [] then none else some (.codeblock lang body)

def trim (t : Units) : Units := ((t.dropWhile isSpace).reverse.dropWhile isSpace).reverse

/-- The markers of emphasis, the longest first. -/
def spanMarkers : List (Units × SpanKind) :=
  [(units "**", .bold), (units "__", .underline), (units "~~", .strike), (units "*", .italic),
    (units "_", .italic)]

/-- Two markers at once: bold or underlined outside, italic inside. -/
def tripleMarkers : List (Units × SpanKind) :=
  [(units "***", .bold), (units "___", .underline)]

namespace Range

-- The source, and the end of the range that is scanned.
variable (newUrl : Units → Option Url) (src : Units) (stop : Nat)

def escape? (s : Scan) : Option Scan :=
  if src[s.i]? = some backslash ∧ s.i + 1 < stop then
    match src[s.i + 1]? with
    | some c =>
      if c ∈ escapable then
        some { i := s.i + 2, plainFrom := s.i + 2, out := pushText (s.flush src s.i) [c] }
      else none
    | none => none
  else none

/-- `<https://…>`. -/
def angleLink? (s : Scan) : Option Scan :=
  if src[s.i]? = some (unit '<') ∧ startsWithScheme src (s.i + 1) = true then
    match position? (fun i => src[i]? = some (unit '>')) (s.i + 1) stop with
    | some close =>
      let inner := slice src (s.i + 1) close
      if !inner.any isSpace && isLinkable newUrl inner then
        some (s.push src (.link inner inner false) (close + 1))
      else none
    | none => none
  else none

def autoLink? (s : Scan) : Option Scan :=
  if startsWithScheme src s.i && !isWordBefore src s.i then
    let len := urlExtent newUrl src s.i stop
    if 0 < len then
      let href := slice src s.i (s.i + len)
      some (s.push src (.link href href true) (s.i + len))
    else none
  else none

def fence? (s : Scan) : Option Scan :=
  if startsAt fenceMarker src s.i then
    match closerOf src s.i stop fenceMarker with
    | some close =>
      let (lang, body) := langLine (slice src (s.i + 3) close)
      some (s.pushBlock src (codeblock? lang (dropNewlineEnd body)) (close + 3))
    | none => none
  else none

/-- Code in one or two backticks: over several lines it is a block. -/
def inlineCode? (s : Scan) : Option Scan :=
  match tickMarkers.find? (startsAt · src s.i) with
  | some marker =>
    match closerOf src s.i stop marker with
    | some close =>
      let inner := slice src (s.i + marker.length) close
      if newline ∈ inner then
        let body := dropNewlineEnd (dropNewlineFront inner)
        some (s.pushBlock src (codeblock? none body) (close + marker.length))
      else some (s.push src (.code inner) (close + marker.length))
    | none => none
  | none => none

/-- Display math; markers with nothing between are passed. -/
def displayMath? (s : Scan) : Option Scan :=
  if startsAt (units "$$") src s.i then
    match closerOf src s.i stop (units "$$") with
    | some close =>
      let tex := trim (slice src (s.i + 2) close)
      if tex = [] then some { s with i := s.i + 2 }
      else some (s.pushBlock src (some (.math tex true)) (close + 2))
    | none => some { s with i := s.i + 2 }
  else none

def inlineMath? (s : Scan) : Option Scan :=
  if startsAt (units "$") src s.i then
    match closerOf src s.i stop (units "$") with
    | some close =>
      let tex := slice src (s.i + 1) close
      if !isSpaceAt src (s.i + 1) && !isSpaceAt src (close - 1) &&
          !((src[close + 1]?.map isDigit).getD false) && newline ∉ tex then
        some (s.push src (.math tex false) (close + 1))
      else none
    | none => none
  else none

/-- What closes emphasis: no white space at the content's ends, no word around underscores. -/
def spanCloser (i : Nat) (marker : Units) (apart : Bool) : Option Nat :=
  (closerOf src i stop marker).filter fun close =>
    !isSpaceAt src (i + marker.length) && !isSpaceAt src (close - 1) &&
      (!apart || !isWordBefore src i && !isWord src (close + marker.length))

section Emphasis

-- The parser of what is inside.
variable (inside : Nat → Nat → List RichNode)

def triple? (s : Scan) : Option Scan :=
  match tripleMarkers.find? fun m => startsAt m.1 src s.i with
  | some (marker, kind) =>
    match spanCloser src stop s.i marker (marker = units "___") with
    | some close =>
      some (s.push src (.span kind [.span .italic (inside (s.i + 3) close)]) (close + 3))
    | none => none
  | none => none

def emphasis? (s : Scan) : Option Scan :=
  match spanMarkers.find? fun m => startsAt m.1 src s.i with
  | some (marker, kind) =>
    match spanCloser src stop s.i marker (marker = units "_") with
    | some close =>
      some (s.push src (.span kind (inside (s.i + marker.length) close)) (close + marker.length))
    | none => none
  | none => none

end Emphasis

/-- One turn: what is recognised first, or one unit of plain text. Too deep nothing is emphasis. -/
def step (inside : Option (Nat → Nat → List RichNode)) (s : Scan) : Scan :=
  (escape? src stop s <|> angleLink? newUrl src stop s <|> autoLink? newUrl src stop s <|>
    fence? src stop s <|> inlineCode? src stop s <|> displayMath? src stop s <|>
    inlineMath? src stop s <|> (inside.bind fun inside => triple? src stop inside s) <|>
    (inside.bind fun inside => emphasis? src stop inside s)).getD { s with i := s.i + 1 }

end Range

end Decibell.RichText
