import Mathlib.Tactic.Common

/-!
# Push-to-talk and push-to-mute

What the hotkeys say about the microphone, read by the capture loop once a frame. A
push-to-talk key goes on holding the gate open for a short delay after its release.
-/

namespace Decibell

/-- What the hotkeys say: the threshold decides, transmit, or do not. -/
inductive Gate
  | vad
  | open
  | closed
deriving DecidableEq

def defaultReleaseDelayMs : Nat := 100
def maxReleaseDelayMs : Nat := 1000

/-- The hotkeys' state; `releasedAt` is one more than the last release, 0 for none. -/
structure GateState where
  pttMode : Bool := false
  pttHeld : Bool := false
  releaseDelayMs : Nat := defaultReleaseDelayMs
  releasedAt : Nat := 0
  ptmHeld : Bool := false

namespace GateState

def setMode (g : GateState) (pushToTalk : Bool) (releaseDelayMs : Nat) : GateState :=
  { g with releaseDelayMs := min releaseDelayMs maxReleaseDelayMs, pttMode := pushToTalk }

def setPttHeld (g : GateState) (held : Bool) (nowMs : Nat) : GateState :=
  let was := g.pttHeld
  let g := { g with pttHeld := held }
  if was && ! held then { g with releasedAt := nowMs + 1 } else g

def setPtmHeld (g : GateState) (held : Bool) : GateState := { g with ptmHeld := held }

def gateAt (g : GateState) (nowMs : Nat) : Gate :=
  if g.ptmHeld then .closed
  else if ! g.pttMode then .vad
  else if g.pttHeld then .open
  else if g.releasedAt ≠ 0 ∧ nowMs + 1 < g.releasedAt + g.releaseDelayMs then .open
  else .closed

end GateState
end Decibell
