import Mathlib.Algebra.Group.Nat.Defs
import Mathlib.Data.List.Basic
import Mathlib.Data.List.Induction
import Mathlib.Tactic.Common

/-!
# Hotkeys

Raw transitions of keys are turned into presses and releases of bindings.

* `Matcher.setBindings`, `key`, `releaseAll`: the matcher, where the sets of held keys and of
  active bindings are lists, of which only the members matter. Each of its functions looks at
  the bindings in turn (`emit`).
-/

namespace Decibell.Hotkeys

open List

/-! ## Keys -/

inductive Action
  | toggleMute
  | toggleDeafen
  | pushToTalk
  | pushToMute
  | leaveVoice
  | answerCall
  | declineCall
deriving DecidableEq

/-- Held actions have a release; the rest fire on press only. -/
def Action.isHold : Action → Bool
  | pushToTalk | pushToMute => true
  | _ => false

/-- The DOM codes of the keys that are known. -/
def keyNames : List String :=
  ["KeyA", "KeyB", "KeyC", "KeyD", "KeyE", "KeyF", "KeyG", "KeyH", "KeyI", "KeyJ", "KeyK", "KeyL",
    "KeyM", "KeyN", "KeyO", "KeyP", "KeyQ", "KeyR", "KeyS", "KeyT", "KeyU", "KeyV", "KeyW",
    "KeyX", "KeyY", "KeyZ", "Digit1", "Digit2", "Digit3", "Digit4", "Digit5", "Digit6", "Digit7",
    "Digit8", "Digit9", "Digit0", "Enter", "Escape", "Backspace", "Tab", "Space", "Minus",
    "Equal", "BracketLeft", "BracketRight", "Backslash", "Semicolon", "Quote", "Backquote",
    "Comma", "Period", "Slash", "CapsLock", "F1", "F2", "F3", "F4", "F5", "F6", "F7", "F8", "F9",
    "F10", "F11", "F12", "PrintScreen", "ScrollLock", "Pause", "Insert", "Home", "PageUp",
    "Delete", "End", "PageDown", "ArrowRight", "ArrowLeft", "ArrowDown", "ArrowUp", "NumLock",
    "NumpadDivide", "NumpadMultiply", "NumpadSubtract", "NumpadAdd", "NumpadEnter", "Numpad1",
    "Numpad2", "Numpad3", "Numpad4", "Numpad5", "Numpad6", "Numpad7", "Numpad8", "Numpad9",
    "Numpad0", "NumpadDecimal", "IntlBackslash", "ContextMenu", "Power", "NumpadEqual", "F13",
    "F14", "F15", "F16", "F17", "F18", "F19", "F20", "F21", "F22", "F23", "F24", "Open", "Help",
    "Select", "Again", "Undo", "Cut", "Copy", "Paste", "Find", "AudioVolumeMute", "AudioVolumeUp",
    "AudioVolumeDown", "NumpadComma", "IntlRo", "KanaMode", "IntlYen", "Convert", "NonConvert",
    "Lang1", "Lang2", "Lang3", "Lang4", "Lang5", "NumpadParenLeft", "NumpadParenRight",
    "ControlLeft", "ShiftLeft", "AltLeft", "MetaLeft", "ControlRight", "ShiftRight", "AltRight",
    "MetaRight", "BrightnessUp", "BrightnessDown", "MediaPlay", "MediaPause", "MediaRecord",
    "MediaFastForward", "MediaRewind", "MediaTrackNext", "MediaTrackPrevious", "MediaStop",
    "Eject", "MediaPlayPause", "MediaSelect", "LaunchMail", "LaunchApp2", "LaunchApp1",
    "LaunchControlPanel", "SelectTask", "LaunchScreenSaver", "LaunchAssistant", "BrowserSearch",
    "BrowserHome", "BrowserBack", "BrowserForward", "BrowserStop", "BrowserRefresh",
    "BrowserFavorites", "ZoomToggle", "MailReply", "MailForward", "MailSend",
    "KeyboardLayoutSelect", "ShowAllWindows"]

inductive Modifier
  | control
  | shift
  | alt
  | metaKey
deriving DecidableEq

/-- The place of a modifier in a bitset. -/
def Modifier.index : Modifier → Nat
  | control => 0
  | shift => 1
  | alt => 2
  | metaKey => 3

def Modifier.bit (m : Modifier) : Nat := 2 ^ m.index

/-- Generic modifier names a binding may use. -/
def genericModifier (key : String) : Option Modifier :=
  if key = "Control" then some .control
  else if key = "Shift" then some .shift
  else if key = "Alt" then some .alt
  else if key = "Meta" then some .metaKey
  else none

/-- The modifier that a physical key belongs to. -/
def sidedModifier (key : String) : Option Modifier :=
  if key = "ControlLeft" ∨ key = "ControlRight" then some .control
  else if key = "ShiftLeft" ∨ key = "ShiftRight" then some .shift
  else if key = "AltLeft" ∨ key = "AltRight" then some .alt
  else if key = "MetaLeft" ∨ key = "MetaRight" then some .metaKey
  else none

/-- The key that a binding names, if it is known. -/
def intern (key : String) : Option String :=
  if key ∈ keyNames ++ ["Mouse3", "Mouse4", "Mouse5", "Control", "Shift", "Alt", "Meta"] then
    some key
  else none

/-- A bitset of modifiers. -/
structure Mods where
  bits : Nat
  small : bits < 2 ^ 4
deriving DecidableEq

namespace Mods

theorem zero_small : 0 < 2 ^ 4 := by decide

def empty : Mods := ⟨0, zero_small⟩

theorem bit_small (m : Modifier) : m.bit < 2 ^ 4 := by cases m <;> decide

def insert (mods : Mods) (m : Modifier) : Mods where
  bits := mods.bits ||| m.bit
  small := Nat.or_lt_two_pow mods.small (bit_small m)

def has (mods : Mods) (m : Modifier) : Prop := mods.bits.testBit m.index = true

theorem not_has_empty (m : Modifier) : ¬ empty.has m := by
  rw [has, empty, Nat.zero_testBit]
  exact Bool.false_ne_true

theorem has_insert {mods : Mods} {m m' : Modifier} :
    (mods.insert m).has m' ↔ m = m' ∨ mods.has m' := by
  have hbit : m.bit.testBit m'.index = decide (m = m') := by cases m <;> cases m' <;> decide
  rw [has, insert, Nat.testBit_or, Bool.or_eq_true, hbit, decide_eq_true_eq, has, or_comm]

theorem eq_iff {mods mods' : Mods} : mods = mods' ↔ ∀ m, mods.has m ↔ mods'.has m := by
  refine ⟨fun h m => by rw [h], fun h => ?_⟩
  obtain ⟨bits, hsmall⟩ := mods
  obtain ⟨bits', hsmall'⟩ := mods'
  rw [mk.injEq]
  refine Nat.eq_of_testBit_eq fun i => ?_
  rcases Nat.lt_or_ge i 4 with hi | hi
  · obtain ⟨m, rfl⟩ : ∃ m : Modifier, m.index = i := by
      match i, hi with
      | 0, _ => exact ⟨.control, rfl⟩
      | 1, _ => exact ⟨.shift, rfl⟩
      | 2, _ => exact ⟨.alt, rfl⟩
      | 3, _ => exact ⟨.metaKey, rfl⟩
    exact Bool.eq_iff_iff.2 (h m)
  · -- There are four modifiers.
    have hpow : 2 ^ 4 ≤ 2 ^ i := Nat.pow_le_pow_right (by decide) hi
    rw [Nat.testBit_lt_two_pow (by omega), Nat.testBit_lt_two_pow (by omega)]

end Mods

/-! ## Bindings -/

/-- A binding as it is configured. -/
structure Binding where
  id : String
  action : Action
  keys : List String

/-- A part of a binding. -/
inductive Part
  | key (k : String)
  | modifier (m : Modifier)
deriving DecidableEq

/-- The modifier that a part is, or that its key belongs to. -/
def Part.modifier? : Part → Option Modifier
  | key k => sidedModifier k
  | modifier m => some m

/-- A binding with its main part, and its parts' modifiers. -/
structure Compiled where
  id : String
  action : Action
  parts : List Part
  mods : Mods
  parts_ne : parts ≠ []
  mods_spec : ∀ m, mods.has m ↔ ∃ p ∈ parts, p.modifier? = some m

/-- Parts and their modifiers. -/
structure Parts where
  parts : List Part
  mods : Mods
  mods_spec : ∀ m, mods.has m ↔ ∃ p ∈ parts, p.modifier? = some m

def Parts.none : Parts where
  parts := []
  mods := .empty
  mods_spec m := by simp [Mods.not_has_empty]

/-- One more part. -/
def Parts.push (ps : Parts) (p : Part) : Parts where
  parts := ps.parts ++ [p]
  mods := match p.modifier? with
    | some m => ps.mods.insert m
    | .none => ps.mods
  mods_spec m := by
    have hspec := ps.mods_spec m
    simp only [List.mem_append, List.mem_singleton, or_and_right, exists_or, exists_eq_left]
    split
    · next m' h =>
      rw [Mods.has_insert, hspec, h, Option.some.injEq, or_comm]
    · next h => simp [hspec, h]

/-- The parts that a binding's keys are, if all are known. -/
def compileKeys : List String → Parts → Option Parts
  | [], ps => some ps
  | k :: ks, ps =>
    (intern k).bind fun k => compileKeys ks (ps.push
      (match genericModifier k with
      | some m => .modifier m
      | none => .key k))

/-- A binding without keys, or with an unknown one, is dropped. -/
def compile (b : Binding) : Option Compiled :=
  (compileKeys b.keys .none).bind fun ps =>
    if h : ps.parts = [] then none
    else some { id := b.id, action := b.action, parts := ps.parts, mods := ps.mods, parts_ne := h,
                mods_spec := ps.mods_spec }

/-! ## The matcher -/

/-- What is reported; the binding's place is for the record. -/
structure Fired where
  id : String
  action : Action
  pressed : Bool
  index : Nat
deriving DecidableEq

structure Matcher where
  bindings : List Compiled := []
  /-- The keys that are held. -/
  held : List String := []
  /-- The places of the hold bindings that are down. -/
  active : List Nat := []

def Part.heldBy (held : List String) : Part → Bool
  | key k => held.contains k
  | modifier m => held.any fun k => sidedModifier k = some m

def allHeld (held : List String) (b : Compiled) : Bool := b.parts.all (·.heldBy held)

def heldMods (held : List String) : Mods :=
  held.foldl (fun mods k => match sidedModifier k with
    | some m => mods.insert m
    | none => mods) .empty

def Part.matchedBy (k : String) : Part → Bool
  | key k' => k' = k
  | modifier m => sidedModifier k = some m

def partMatchesAny (b : Compiled) (key : String) : Bool := b.parts.any (·.matchedBy key)

namespace Matcher

/-- What is reported of the bindings, in turn. -/
def emit (m : Matcher) (p : Nat → Compiled → Option Bool) : List Fired :=
  m.bindings.zipIdx.filterMap fun x =>
    (p x.2 x.1).map fun pressed => { id := x.1.id, action := x.1.action, pressed, index := x.2 }

/-- Everything is released. -/
def releaseAll (m : Matcher) : Matcher × List Fired :=
  ({ m with held := [], active := [] }, m.emit fun i _ => if i ∈ m.active then some false else none)

def setBindings (m : Matcher) (bindings : List Binding) : Matcher × List Fired :=
  let (m, released) := m.releaseAll
  ({ m with bindings := bindings.filterMap compile }, released)

/-- What a key-down does to a binding, `held` with the new key. -/
def pressOf (m : Matcher) (held : List String) (key : String) (i : Nat) (b : Compiled) :
    Option Bool :=
  if ! allHeld held b then none
  else if b.action.isHold then if i ∈ m.active then none else some true
  else if partMatchesAny b key ∧ heldMods held = b.mods then some true
  else none

/-- What a key-up does to a binding, `held` without the key. -/
def releaseOf (m : Matcher) (held : List String) (i : Nat) (b : Compiled) : Option Bool :=
  if i ∈ m.active ∧ ¬ allHeld held b then some false else none

def key (m : Matcher) (key : String) (down : Bool) : Matcher × List Fired :=
  if down then
    -- A key that is held already repeats.
    if key ∈ m.held then (m, [])
    else
      let held := key :: m.held
      let out := m.emit (m.pressOf held key)
      ({ m with held, active := m.active ++ (out.filter (·.action.isHold)).map (·.index) }, out)
  else
    if key ∉ m.held then (m, [])
    else
      let held := m.held.erase key
      let out := m.emit (m.releaseOf held)
      ({ m with held, active := m.active.filter fun i => i ∉ out.map (·.index) }, out)

end Matcher

/-! ## Events -/

inductive KeyEvent
  | down (key : String)
  | up (key : String)
  | releaseAll
deriving DecidableEq

namespace Matcher

def step (m : Matcher) : KeyEvent → Matcher × List Fired
  | .down k => m.key k true
  | .up k => m.key k false
  | .releaseAll => m.releaseAll

def after (m : Matcher) (events : List KeyEvent) : Matcher :=
  events.foldl (fun m e => (m.step e).1) m

/-- All that is reported. -/
def firedBy : Matcher → List KeyEvent → List Fired
  | _, [] => []
  | m, e :: events => (m.step e).2 ++ ((m.step e).1).firedBy events

end Matcher

/-- A key went down, and since then neither it went up nor all was released. -/
def HeldAfter (events : List KeyEvent) (k : String) : Prop :=
  ∃ pre post, events = pre ++ .down k :: post ∧ .up k ∉ post ∧ .releaseAll ∉ post

/-- A part's key is held, or its modifier on either side. -/
def Part.HeldAfter (events : List KeyEvent) : Part → Prop
  | key k => Hotkeys.HeldAfter events k
  | modifier m => ∃ k, sidedModifier k = some m ∧ Hotkeys.HeldAfter events k

def AllHeldAfter (events : List KeyEvent) (b : Compiled) : Prop := ∀ p ∈ b.parts, p.HeldAfter events

/-- The held modifiers are those that a binding has. -/
def ModifiersAfter (events : List KeyEvent) (b : Compiled) : Prop :=
  ∀ m, (∃ k, sidedModifier k = some m ∧ HeldAfter events k) ↔ ∃ p ∈ b.parts, p.modifier? = some m

/-- A key-down completes a binding, with exactly its modifiers held. -/
def Completes (pre : List KeyEvent) (e : KeyEvent) (b : Compiled) : Prop :=
  (∃ k, e = .down k) ∧ ¬ AllHeldAfter pre b ∧ AllHeldAfter (pre ++ [e]) b ∧
    ModifiersAfter (pre ++ [e]) b

/-- Presses and releases alternate, and the first one is a press. -/
def Alternating (presses : List Bool) : Prop :=
  ∀ i p, presses[i]? = some p → p = decide (i % 2 = 0)

/-- What is reported of a binding. -/
def firedOf (i : Nat) (out : List Fired) : List Bool := (out.filter (·.index = i)).map (·.pressed)

structure Faithful (m : Matcher) (events : List KeyEvent) : Prop where
  hold_active : ∀ pre, pre <+: events → ∀ i b, m.bindings[i]? = some b → b.action.isHold →
    (i ∈ (m.after pre).active ↔ AllHeldAfter pre b)
  hold_alternates : ∀ i b, m.bindings[i]? = some b → b.action.isHold →
    Alternating (firedOf i (m.firedBy events))
  press_completes : ∀ pre e post, events = pre ++ e :: post → ∀ i b, m.bindings[i]? = some b →
    b.action.isHold = false →
      (Completes pre e b → firedOf i ((m.after pre).step e).2 = [true]) ∧
      (¬ Completes pre e b → firedOf i ((m.after pre).step e).2 = [])

/-! ## What is held -/

section Held

variable {events : List KeyEvent} {k k' : String}

theorem not_heldAfter_nil : ¬ HeldAfter [] k := by
  rintro ⟨pre, post, h, -⟩
  exact absurd h.symm (by simp)

theorem heldAfter_snoc {e : KeyEvent} : HeldAfter (events ++ [e]) k ↔
    e = .down k ∨ HeldAfter events k ∧ e ≠ .up k ∧ e ≠ .releaseAll := by
  constructor
  · rintro ⟨pre, post, h, hup, hall⟩
    rcases eq_nil_or_concat post with rfl | ⟨post, e', rfl⟩
    · obtain ⟨-, h⟩ := append_inj' h rfl
      exact .inl (singleton_inj.1 h)
    · rw [concat_eq_append] at h hup hall
      rw [← cons_append, ← append_assoc] at h
      obtain ⟨rfl, hlast⟩ := append_inj' h rfl
      obtain rfl := singleton_inj.1 hlast
      refine .inr ⟨⟨pre, post, rfl, fun hmem => hup ?_, fun hmem => hall ?_⟩, fun he => hup ?_,
        fun he => hall ?_⟩
      · exact mem_append_left _ hmem
      · exact mem_append_left _ hmem
      · exact he ▸ mem_append_right _ (.head _)
      · exact he ▸ mem_append_right _ (.head _)
  · rintro (rfl | ⟨⟨pre, post, rfl, hup, hall⟩, hneup, hneall⟩)
    · exact ⟨events, [], rfl, not_mem_nil, not_mem_nil⟩
    · refine ⟨pre, post ++ [e], by rw [append_assoc]; rfl, ?_, ?_⟩
      · rw [mem_append, mem_singleton]
        exact fun h => h.elim hup (hneup ·.symm)
      · rw [mem_append, mem_singleton]
        exact fun h => h.elim hall (hneall ·.symm)

theorem has_heldMods {held : List String} {m : Modifier} :
    (heldMods held).has m ↔ ∃ k ∈ held, sidedModifier k = some m := by
  have hfold : ∀ (held : List String) (mods : Mods),
      (held.foldl (fun mods k => match sidedModifier k with
        | some m => mods.insert m
        | none => mods) mods).has m ↔ mods.has m ∨ ∃ k ∈ held, sidedModifier k = some m := by
    intro held
    induction held with
    | nil => simp
    | cons k held ih =>
      intro mods
      rw [foldl_cons, ih, exists_mem_cons_iff, ← or_assoc]
      refine or_congr_left ?_
      split
      · next m' h => rw [Mods.has_insert, h, Option.some.injEq, or_comm]
      · next h => simp [h]
  rw [heldMods, hfold]
  simp [Mods.not_has_empty]

end Held

/-! ## One event -/

section Steps

variable {m m₀ : Matcher} {events : List KeyEvent} {e : KeyEvent} {i : Nat} {b : Compiled}
  {held : List String} {p : Nat → Compiled → Option Bool}

theorem mem_emit {f : Fired} : f ∈ m.emit p ↔ ∃ b, m.bindings[f.index]? = some b ∧
    p f.index b = some f.pressed ∧ f.id = b.id ∧ f.action = b.action := by
  rw [Matcher.emit, mem_filterMap]
  constructor
  · rintro ⟨⟨b, i⟩, hb, hf⟩
    obtain ⟨pressed, hpressed, rfl⟩ := Option.map_eq_some_iff.1 hf
    exact ⟨b, mem_zipIdx_iff_getElem?.1 hb, hpressed, rfl, rfl⟩
  · rintro ⟨b, hb, hpressed, hid, haction⟩
    refine ⟨(b, f.index), mem_zipIdx_iff_getElem?.2 hb, ?_⟩
    change (p f.index b).map _ = some f
    rw [hpressed, Option.map_some, ← hid, ← haction]

theorem firedOf_append {out out' : List Fired} :
    firedOf i (out ++ out') = firedOf i out ++ firedOf i out' := by
  rw [firedOf, filter_append, map_append]
  rfl

theorem firedOf_emit : firedOf i (m.emit p) = ((m.bindings[i]?).bind (p i)).toList := by
  have hfrom : ∀ (bs : List Compiled) (k : Nat), ∀ i,
      firedOf i ((bs.zipIdx k).filterMap fun x => (p x.2 x.1).map fun pressed =>
        ⟨x.1.id, x.1.action, pressed, x.2⟩) =
      if k ≤ i then ((bs[i - k]?).bind (p i)).toList else [] := by
    intro bs
    induction bs with
    | nil => intro k i; simp [firedOf]
    | cons b bs ih =>
      intro k i
      have hhead : firedOf i
          ((p k b).map fun pressed => (⟨b.id, b.action, pressed, k⟩ : Fired)).toList =
          if k = i then (p k b).toList else [] := by
        cases p k b with
        | none => simp [firedOf]
        | some pressed =>
          by_cases hk : k = i <;> simp [firedOf, hk]
      have hsplit : ((b :: bs).zipIdx k).filterMap (fun x => (p x.2 x.1).map fun pressed =>
          (⟨x.1.id, x.1.action, pressed, x.2⟩ : Fired)) =
          ((p k b).map fun pressed => (⟨b.id, b.action, pressed, k⟩ : Fired)).toList ++
            ((bs.zipIdx (k + 1)).filterMap fun x => (p x.2 x.1).map fun pressed =>
              ⟨x.1.id, x.1.action, pressed, x.2⟩) := by
        rw [zipIdx_cons, filterMap_cons]
        dsimp only
        cases p k b <;> rfl
      rw [hsplit, firedOf_append, hhead, ih]
      rcases Nat.lt_trichotomy i k with hlt | rfl | hgt
      · rw [if_neg (by omega), if_neg (by omega), if_neg (by omega), nil_append]
      · rw [if_pos rfl, if_neg (by omega), if_pos (Nat.le_refl _), Nat.sub_self, append_nil]
        rfl
      · rw [if_neg (by omega), if_pos (by omega), if_pos (by omega), nil_append,
          show i - k = i - (k + 1) + 1 by omega, getElem?_cons_succ]
  have h := hfrom m.bindings 0 i
  rwa [if_pos (Nat.zero_le i), Nat.sub_zero] at h

/-- What is true of a matcher after events. -/
structure Keeps (m₀ : Matcher) (events : List KeyEvent) (m : Matcher) : Prop where
  bindings : m.bindings = m₀.bindings
  held : ∀ k, k ∈ m.held ↔ HeldAfter events k
  nodup : m.held.Nodup
  active : ∀ i, i ∈ m.active ↔
    ∃ b, m.bindings[i]? = some b ∧ b.action.isHold = true ∧ allHeld m.held b = true

theorem heldBy_iff (h : ∀ k, k ∈ held ↔ HeldAfter events k) (part : Part) :
    part.heldBy held = true ↔ part.HeldAfter events := by
  cases part with
  | key k => exact contains_iff_mem.trans (h k)
  | modifier m =>
    rw [Part.heldBy, any_eq_true]
    exact exists_congr fun k => by rw [h k, decide_eq_true_eq, and_comm]

theorem allHeld_iff (h : ∀ k, k ∈ held ↔ HeldAfter events k) :
    allHeld held b = true ↔ AllHeldAfter events b := by
  rw [allHeld, all_eq_true]
  exact forall₂_congr fun part _ => heldBy_iff h part

theorem heldMods_eq_iff (h : ∀ k, k ∈ held ↔ HeldAfter events k) :
    heldMods held = b.mods ↔ ModifiersAfter events b := by
  rw [Mods.eq_iff]
  refine forall_congr' fun m => ?_
  rw [has_heldMods, b.mods_spec]
  refine iff_congr (exists_congr fun k => ?_) Iff.rfl
  rw [h k, and_comm]

theorem allHeld_mono {held' : List String} (hsub : ∀ k ∈ held, k ∈ held')
    (h : allHeld held b = true) : allHeld held' b = true := by
  rw [allHeld, all_eq_true] at *
  intro part hpart
  have hpart := h part hpart
  cases part with
  | key k => exact contains_iff_mem.2 (hsub k (contains_iff_mem.1 hpart))
  | modifier m =>
    rw [Part.heldBy, any_eq_true] at *
    obtain ⟨k, hk, hm⟩ := hpart
    exact ⟨k, hsub k hk, hm⟩

theorem Keeps.active_of_get (h : Keeps m₀ events m) (hb : m.bindings[i]? = some b) :
    i ∈ m.active ↔ b.action.isHold = true ∧ allHeld m.held b = true := by
  rw [h.active]
  refine ⟨fun ⟨b', hb', hhold⟩ => ?_, fun hhold => ⟨b, hb, hhold⟩⟩
  rw [hb, Option.some.injEq] at hb'
  rwa [hb']

theorem Keeps.step (h : Keeps m₀ events m) (e : KeyEvent) :
    Keeps m₀ (events ++ [e]) (m.step e).1 := by
  cases e with
  | down k =>
    rw [Matcher.step, Matcher.key, if_pos rfl]
    by_cases hk : k ∈ m.held
    · -- The key repeats.
      rw [if_pos hk]
      refine ⟨h.bindings, fun k' => ?_, h.nodup, h.active⟩
      rw [heldAfter_snoc, h.held]
      constructor
      · exact fun hk' => .inr ⟨hk', nofun, nofun⟩
      · rintro (heq | ⟨hk', -⟩)
        · cases heq
          exact (h.held k).1 hk
        · exact hk'
    · rw [if_neg hk]
      refine ⟨h.bindings, fun k' => ?_, nodup_cons.2 ⟨hk, h.nodup⟩, fun i => ?_⟩
      · rw [heldAfter_snoc, mem_cons, h.held]
        simp [eq_comm]
      · have hsub : ∀ k' ∈ m.held, k' ∈ k :: m.held := fun k' => mem_cons_of_mem k
        rw [mem_append]
        constructor
        · rintro (hactive | hnew)
          · obtain ⟨b, hb, hhold, hheld⟩ := (h.active i).1 hactive
            exact ⟨b, hb, hhold, allHeld_mono hsub hheld⟩
          · obtain ⟨f, hf, rfl⟩ := mem_map.1 hnew
            obtain ⟨hf, hhold⟩ := mem_filter.1 hf
            obtain ⟨b, hb, hpress, -, haction⟩ := mem_emit.1 hf
            refine ⟨b, hb, haction ▸ hhold, ?_⟩
            by_contra hnot
            rw [Matcher.pressOf, if_pos (by simpa using hnot)] at hpress
            cases hpress
        · rintro ⟨b, hb, hhold, hheld⟩
          by_cases hactive : i ∈ m.active
          · exact .inl hactive
          · refine .inr (mem_map.2 ⟨⟨b.id, b.action, true, i⟩,
              mem_filter.2 ⟨mem_emit.2 ⟨b, hb, ?_, rfl, rfl⟩, hhold⟩, rfl⟩)
            change allHeld (k :: m.held) b = true at hheld
            rw [Matcher.pressOf, hheld, if_neg (by decide), if_pos hhold, if_neg hactive]
  | up k =>
    rw [Matcher.step, Matcher.key, if_neg (by decide)]
    by_cases hk : k ∈ m.held
    · rw [if_neg (not_not.2 hk)]
      refine ⟨h.bindings, fun k' => ?_, h.nodup.erase k, fun i => ?_⟩
      · rw [heldAfter_snoc, h.nodup.mem_erase_iff, h.held]
        simp [and_comm, eq_comm]
      · have hsub : ∀ k' ∈ m.held.erase k, k' ∈ m.held := fun k' => mem_of_mem_erase
        rw [mem_filter, decide_eq_true_eq]
        constructor
        · rintro ⟨hactive, hkept⟩
          obtain ⟨b, hb, hhold, hheld⟩ := (h.active i).1 hactive
          refine ⟨b, hb, hhold, ?_⟩
          by_contra hnot
          refine hkept (mem_map.2 ⟨⟨b.id, b.action, false, i⟩,
            mem_emit.2 ⟨b, hb, ?_, rfl, rfl⟩, rfl⟩)
          rw [Matcher.releaseOf, if_pos ⟨hactive, hnot⟩]
        · rintro ⟨b, hb, hhold, hheld⟩
          refine ⟨(h.active i).2 ⟨b, hb, hhold, allHeld_mono hsub hheld⟩, fun hreleased => ?_⟩
          obtain ⟨f, hf, rfl⟩ := mem_map.1 hreleased
          obtain ⟨b', hb', hrelease, -⟩ := mem_emit.1 hf
          change m.bindings[f.index]? = some b at hb
          rw [hb, Option.some.injEq] at hb'
          subst hb'
          rw [Matcher.releaseOf, if_neg (fun hnot => hnot.2 hheld)] at hrelease
          cases hrelease
    · -- A key that is not held goes up.
      rw [if_pos hk]
      refine ⟨h.bindings, fun k' => ?_, h.nodup, h.active⟩
      rw [heldAfter_snoc, ← h.held]
      constructor
      · intro hk'
        refine .inr ⟨hk', fun heq => ?_, nofun⟩
        cases heq
        exact hk hk'
      · rintro (heq | ⟨hk', -⟩)
        · cases heq
        · exact hk'
  | releaseAll =>
    refine ⟨h.bindings, fun k => ?_, nodup_nil, fun i => ?_⟩
    · rw [heldAfter_snoc]
      simp [Matcher.step, Matcher.releaseAll]
    · refine ⟨fun hi => absurd hi not_mem_nil, ?_⟩
      rintro ⟨b, -, -, hheld⟩
      -- A binding has a part, and no key is held.
      obtain ⟨part, hpart⟩ := exists_mem_of_ne_nil _ b.parts_ne
      have hnone := all_eq_true.1 hheld part hpart
      cases part <;> exact absurd hnone (by simp [Part.heldBy, Matcher.step, Matcher.releaseAll])

theorem Keeps.firedOf_hold (h : Keeps m₀ events m) (e : KeyEvent) (hb : m.bindings[i]? = some b)
    (hhold : b.action.isHold = true) :
    firedOf i (m.step e).2 =
      if i ∈ (m.step e).1.active then if i ∈ m.active then [] else [true]
      else if i ∈ m.active then [false] else [] := by
  have hafter : i ∈ (m.step e).1.active ↔ allHeld (m.step e).1.held b = true := by
    have hstep := h.step e
    rw [hstep.active_of_get (by rw [hstep.bindings, ← h.bindings, hb]), and_iff_right hhold]
  cases e with
  | down k =>
    rw [Matcher.step, Matcher.key, if_pos rfl] at *
    by_cases hk : k ∈ m.held
    · rw [if_pos hk]
      split <;> rfl
    · rw [if_neg hk] at *
      dsimp only at *
      rw [firedOf_emit, hb, Option.bind_some, Matcher.pressOf, if_pos hhold]
      by_cases hheld : allHeld (k :: m.held) b = true
      · rw [if_neg (by simp [hheld]), if_pos (hafter.2 hheld)]
        split <;> rfl
      · have hold : i ∉ m.active := fun hi => hheld (allHeld_mono (fun k' => mem_cons_of_mem k)
          ((h.active_of_get hb).1 hi).2)
        rw [if_pos (by simpa using hheld), if_neg (fun hi => hheld (hafter.1 hi)), if_neg hold]
        rfl
  | up k =>
    rw [Matcher.step, Matcher.key, if_neg (by decide)] at *
    by_cases hk : k ∈ m.held
    · rw [if_neg (not_not.2 hk)] at *
      dsimp only at *
      rw [firedOf_emit, hb, Option.bind_some, Matcher.releaseOf]
      by_cases hheld : allHeld (m.held.erase k) b = true
      · have hactive : i ∈ m.active := (h.active_of_get hb).2 ⟨hhold,
          allHeld_mono (fun k' => mem_of_mem_erase) hheld⟩
        rw [if_neg (fun hnot => hnot.2 hheld), if_pos (hafter.2 hheld), if_pos hactive]
        rfl
      · rw [if_neg (fun hi => hheld (hafter.1 hi))]
        split
        · next hrelease => rw [if_pos hrelease.1]; rfl
        · next hkept => rw [if_neg fun hi => hkept ⟨hi, hheld⟩]; rfl
    · rw [if_pos hk]
      split <;> rfl
  | releaseAll =>
    rw [Matcher.step, Matcher.releaseAll]
    dsimp only
    rw [firedOf_emit, hb, Option.bind_some, if_neg not_mem_nil]
    split <;> rfl

/-- A modifier's second side goes down while a binding is complete. -/
def SecondSide (pre : List KeyEvent) (e : KeyEvent) (b : Compiled) : Prop :=
  ∃ k md, e = .down k ∧ ¬ HeldAfter pre k ∧ .modifier md ∈ b.parts ∧ sidedModifier k = some md ∧
    AllHeldAfter pre b ∧ ModifiersAfter pre b

theorem heldMods_cons_of_held {k : String} {md : Modifier} (hk : sidedModifier k = some md)
    (hheld : ∃ k' ∈ held, sidedModifier k' = some md) : heldMods (k :: held) = heldMods held := by
  refine Mods.eq_iff.2 fun m => ?_
  rw [has_heldMods, has_heldMods, exists_mem_cons_iff, hk, Option.some.injEq]
  refine or_iff_right_of_imp ?_
  rintro rfl
  exact hheld

theorem partMatchesAny_of_completes {k : String} (hbefore : ¬ allHeld held b = true)
    (hafter : allHeld (k :: held) b = true) : partMatchesAny b k = true := by
  by_contra hnone
  refine hbefore (all_eq_true.2 fun part hpart => ?_)
  have hheld := all_eq_true.1 hafter part hpart
  have hother : ¬ part.matchedBy k = true := fun hmatch =>
    hnone (any_eq_true.2 ⟨part, hpart, hmatch⟩)
  cases part with
  | key k' =>
    rcases mem_cons.1 (contains_iff_mem.1 hheld) with heq | hmem
    · exact absurd (decide_eq_true heq) hother
    · exact contains_iff_mem.2 hmem
  | modifier md =>
    rw [Part.heldBy, any_cons, Bool.or_eq_true] at hheld
    exact hheld.resolve_left hother

/-- A key-down, no repeat, fires a press binding it completes, or one complete whose modifier's
    second side it is. -/
theorem press_iff {k : String} (hheld : ∀ k, k ∈ held ↔ HeldAfter events k)
    (hheld' : ∀ k', k' ∈ k :: held ↔ HeldAfter (events ++ [.down k]) k') (hk : k ∉ held) :
    allHeld (k :: held) b = true ∧ partMatchesAny b k = true ∧ heldMods (k :: held) = b.mods ↔
      Completes events (.down k) b ∨ SecondSide events (.down k) b := by
  have hsub : ∀ k' ∈ held, k' ∈ k :: held := fun k' => mem_cons_of_mem k
  constructor
  · rintro ⟨hall, hmatch, hmods⟩
    by_cases hbefore : allHeld held b = true
    · obtain ⟨part, hpart, hmatch⟩ := any_eq_true.1 hmatch
      have hpartHeld := all_eq_true.1 hbefore part hpart
      cases part with
      | key k' =>
        -- The key itself was not held.
        obtain rfl : k' = k := of_decide_eq_true hmatch
        exact absurd (contains_iff_mem.1 hpartHeld) hk
      | modifier md =>
        have hmd : sidedModifier k = some md := of_decide_eq_true hmatch
        rw [Part.heldBy, any_eq_true] at hpartHeld
        simp only [decide_eq_true_eq] at hpartHeld
        rw [heldMods_cons_of_held hmd hpartHeld] at hmods
        exact .inr ⟨k, md, rfl, fun hheldk => hk ((hheld k).2 hheldk), hpart, hmd,
          (allHeld_iff hheld).1 hbefore, (heldMods_eq_iff hheld).1 hmods⟩
    · exact .inl ⟨⟨k, rfl⟩, fun hnot => hbefore ((allHeld_iff hheld).2 hnot),
        (allHeld_iff hheld').1 hall, (heldMods_eq_iff hheld').1 hmods⟩
  · rintro (⟨-, hbefore, hafter, hmods⟩ | ⟨k', md, heq, -, hpart, hmd, hbefore, hmods⟩)
    · have hall := (allHeld_iff hheld').2 hafter
      exact ⟨hall, partMatchesAny_of_completes (fun h => hbefore ((allHeld_iff hheld).1 h)) hall,
        (heldMods_eq_iff hheld').2 hmods⟩
    · cases heq
      have hall := (allHeld_iff hheld).2 hbefore
      have hpartHeld := all_eq_true.1 hall _ hpart
      rw [Part.heldBy, any_eq_true] at hpartHeld
      simp only [decide_eq_true_eq] at hpartHeld
      refine ⟨allHeld_mono hsub hall, any_eq_true.2 ⟨_, hpart, decide_eq_true hmd⟩, ?_⟩
      rw [heldMods_cons_of_held hmd hpartHeld]
      exact (heldMods_eq_iff hheld).2 hmods

theorem Keeps.firedOf_press (h : Keeps m₀ events m) (e : KeyEvent) (hb : m.bindings[i]? = some b)
    (hpress : b.action.isHold = false) :
    (Completes events e b ∨ SecondSide events e b → firedOf i (m.step e).2 = [true]) ∧
    (¬ (Completes events e b ∨ SecondSide events e b) → firedOf i (m.step e).2 = []) := by
  have hinactive : i ∉ m.active := fun hi => by
    rw [h.active_of_get hb, hpress] at hi
    exact Bool.false_ne_true hi.1
  cases e with
  | down k =>
    have hstep := (h.step (.down k)).held
    rw [Matcher.step, Matcher.key, if_pos rfl] at *
    by_cases hk : k ∈ m.held
    · -- The key repeats, and what is held stays.
      rw [if_pos hk] at *
      refine ⟨fun hfires => ?_, fun _ => rfl⟩
      rcases hfires with ⟨-, hbefore, hafter, -⟩ | ⟨k', md, heq, hnot, -⟩
      · exact absurd ((allHeld_iff h.held).1 ((allHeld_iff hstep).2 hafter)) hbefore
      · cases heq
        exact absurd ((h.held k).1 hk) hnot
    · rw [if_neg hk] at *
      dsimp only at *
      rw [firedOf_emit, hb, Option.bind_some, Matcher.pressOf, hpress,
        ← press_iff h.held hstep hk]
      constructor
      · rintro ⟨hall, hmatch⟩
        rw [if_neg (by simp [hall]), if_neg Bool.false_ne_true, if_pos hmatch]
        rfl
      · intro hnot
        by_cases hall : allHeld (k :: m.held) b = true
        · rw [if_neg (by simp [hall]), if_neg Bool.false_ne_true, if_neg fun hmatch =>
            hnot ⟨hall, hmatch⟩]
          rfl
        · rw [if_pos (by simpa using hall)]
          rfl
  | up k =>
    refine ⟨?_, fun _ => ?_⟩
    · rintro (⟨⟨k', heq⟩, -⟩ | ⟨k', md, heq, -⟩) <;> cases heq
    · rw [Matcher.step, Matcher.key, if_neg (by decide)]
      split
      · rfl
      · dsimp only
        rw [firedOf_emit, hb, Option.bind_some, Matcher.releaseOf, if_neg fun hr => hinactive hr.1]
        rfl
  | releaseAll =>
    refine ⟨?_, fun _ => ?_⟩
    · rintro (⟨⟨k', heq⟩, -⟩ | ⟨k', md, heq, -⟩) <;> cases heq
    · rw [Matcher.step, Matcher.releaseAll]
      dsimp only
      rw [firedOf_emit, hb, Option.bind_some, if_neg hinactive]
      rfl

end Steps

/-! ## Runs -/

section Runs

variable {m₀ m : Matcher} {events pre : List KeyEvent} {i : Nat} {b : Compiled}

theorem after_snoc {e : KeyEvent} : m.after (events ++ [e]) = ((m.after events).step e).1 := by
  rw [Matcher.after, foldl_append]
  rfl

theorem firedBy_snoc {e : KeyEvent} :
    m.firedBy (events ++ [e]) = m.firedBy events ++ ((m.after events).step e).2 := by
  induction events generalizing m with
  | nil => exact append_nil _
  | cons e' events ih =>
    rw [cons_append, Matcher.firedBy, ih, Matcher.firedBy, append_assoc]
    rfl

/-- A matcher whose bindings were just set. -/
def Fresh (m : Matcher) : Prop := m.held = [] ∧ m.active = []

theorem fresh_setBindings (m : Matcher) (bindings : List Binding) :
    Fresh (m.setBindings bindings).1 := ⟨rfl, rfl⟩

theorem Fresh.keeps (h : Fresh m₀) (events : List KeyEvent) :
    Keeps m₀ events (m₀.after events) := by
  induction events using List.reverseRecOn with
  | nil =>
    refine ⟨rfl, fun k => ?_, ?_, fun i => ?_⟩
    · change k ∈ m₀.held ↔ _
      rw [h.1]
      exact ⟨fun hk => absurd hk not_mem_nil, fun hk => absurd hk not_heldAfter_nil⟩
    · change m₀.held.Nodup
      rw [h.1]
      exact nodup_nil
    · change i ∈ m₀.active ↔ _
      rw [h.2]
      refine ⟨fun hi => absurd hi not_mem_nil, ?_⟩
      rintro ⟨b, -, -, hheld⟩
      obtain ⟨part, hpart⟩ := exists_mem_of_ne_nil _ b.parts_ne
      have hnone := all_eq_true.1 hheld part hpart
      change part.heldBy m₀.held = true at hnone
      rw [h.1] at hnone
      cases part <;> cases hnone
  | append_singleton events e ih =>
    rw [after_snoc]
    exact ih.step e

theorem Alternating.snoc {presses : List Bool} (h : Alternating presses) {p : Bool}
    (hp : p = decide (presses.length % 2 = 0)) : Alternating (presses ++ [p]) := by
  intro i p' hi
  rcases Nat.lt_trichotomy i presses.length with hlt | rfl | hgt
  · rw [getElem?_append_left hlt] at hi
    exact h i p' hi
  · rw [getElem?_concat_length, Option.some.injEq] at hi
    rw [← hi, hp]
  · rw [getElem?_eq_none (by rw [length_append, length_singleton]; omega)] at hi
    cases hi

theorem Fresh.alternating (h : Fresh m₀) (hb : m₀.bindings[i]? = some b)
    (hhold : b.action.isHold = true) (events : List KeyEvent) :
    Alternating (firedOf i (m₀.firedBy events)) ∧
      (i ∈ (m₀.after events).active ↔ (firedOf i (m₀.firedBy events)).length % 2 = 1) := by
  induction events using List.reverseRecOn with
  | nil =>
    refine ⟨nofun, ?_⟩
    change i ∈ m₀.active ↔ 0 % 2 = 1
    rw [h.2]
    simp
  | append_singleton events e ih =>
    obtain ⟨halternates, hactive⟩ := ih
    have hkeeps := h.keeps events
    rw [firedBy_snoc, firedOf_append, after_snoc,
      hkeeps.firedOf_hold e (by rw [hkeeps.bindings, hb]) hhold]
    split
    · next hafter =>
      split
      · next hbefore =>
        rw [append_nil]
        exact ⟨halternates, iff_of_true hafter (hactive.1 hbefore)⟩
      · next hbefore =>
        rw [hactive] at hbefore
        refine ⟨halternates.snoc (by simp; omega), iff_of_true hafter ?_⟩
        rw [length_append, length_singleton]
        omega
    · next hafter =>
      split
      · next hbefore =>
        rw [hactive] at hbefore
        refine ⟨halternates.snoc (by simp; omega), iff_of_false hafter ?_⟩
        rw [length_append, length_singleton]
        omega
      · next hbefore =>
        rw [append_nil]
        exact ⟨halternates, iff_of_false hafter (mt hactive.2 hbefore)⟩

theorem not_completes_of_secondSide {e : KeyEvent} (h : SecondSide pre e b) :
    ¬ Completes pre e b := by
  obtain ⟨k, md, -, -, -, -, hall, -⟩ := h
  exact fun hcompletes => hcompletes.2.1 hall

/-- After its bindings are set a matcher is faithful to the held keys exactly if never the second
    side of a modifier of a complete press binding goes down. -/
theorem faithful_iff (m : Matcher) (bindings : List Binding) (events : List KeyEvent) :
    Faithful (m.setBindings bindings).1 events ↔
      ∀ pre e post, events = pre ++ e :: post → ∀ b ∈ (m.setBindings bindings).1.bindings,
        b.action.isHold = false → ¬ SecondSide pre e b := by
  have hfresh := fresh_setBindings m bindings
  generalize (m.setBindings bindings).1 = m₀ at *
  constructor
  · intro h pre e post hevents b hmem hpress hsecond
    obtain ⟨i, hb⟩ := List.getElem?_of_mem hmem
    have hkeeps := hfresh.keeps pre
    have hfires := (hkeeps.firedOf_press e (by rw [hkeeps.bindings, hb]) hpress).1 (.inr hsecond)
    rw [(h.press_completes pre e post hevents i b hb hpress).2
      (not_completes_of_secondSide hsecond)] at hfires
    cases hfires
  · intro h
    refine ⟨fun pre _ i b hb hhold => ?_,
      fun i b hb hhold => (hfresh.alternating hb hhold events).1,
      fun pre e post hevents i b hb hpress => ?_⟩
    · have hkeeps := hfresh.keeps pre
      rw [hkeeps.active_of_get (by rw [hkeeps.bindings, hb]), and_iff_right hhold]
      exact allHeld_iff hkeeps.held
    · have hkeeps := hfresh.keeps pre
      have hfires := hkeeps.firedOf_press e (by rw [hkeeps.bindings, hb]) hpress
      rwa [or_iff_left (h pre e post hevents b (List.mem_of_getElem? hb) hpress)] at hfires

def muteMatcher : Matcher :=
  (({} : Matcher).setBindings [⟨"mute", .toggleMute, ["Control", "KeyM"]⟩]).1

def controlLeftM : List KeyEvent := [.down "ControlLeft", .down "KeyM"]

/-- The other Control key goes down while both are held: mute toggles again. -/
theorem not_faithful : ¬ ∀ (m : Matcher) (bindings : List Binding) (events : List KeyEvent),
    Faithful (m.setBindings bindings).1 events := by
  intro h
  have hfaithful : Faithful muteMatcher (controlLeftM ++ [.down "ControlRight"]) := h _ _ _
  obtain ⟨b, hb⟩ : ∃ b, muteMatcher.bindings[0]? = some b := Option.isSome_iff_exists.1 (by decide)
  have hall : ∀ b ∈ muteMatcher.bindings[0]?,
      allHeld (muteMatcher.after controlLeftM).held b = true ∧ b.action.isHold = false := by
    decide +kernel
  have hfresh : Fresh muteMatcher := fresh_setBindings _ _
  have hkeeps := hfresh.keeps controlLeftM
  have hcomplete := (allHeld_iff hkeeps.held).1 (hall b hb).1
  have hsilent := (hfaithful.press_completes controlLeftM (.down "ControlRight") [] rfl 0 b hb
    (hall b hb).2).2 fun hcompletes => hcompletes.2.1 hcomplete
  have hfires : firedOf 0 ((muteMatcher.after controlLeftM).step (.down "ControlRight")).2 =
      [true] := by decide +kernel
  rw [hfires] at hsilent
  cases hsilent

end Runs

end Decibell.Hotkeys
