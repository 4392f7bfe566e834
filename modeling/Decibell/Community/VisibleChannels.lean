import Decibell.Community.CacheSound
import Decibell.Community.Order
import Decibell.Lib.Headings

/-!
# The channels a user is shown

A user is shown the channels they can view and the categories they can view or need as a header for
one of those. What category a channel is under is nowhere in the list: it is the nearest one above.
-/

namespace Decibell

open Lib List

/-- The channels to show; `pendingCategory` is the one above, not viewable. -/
def visibleFrom {m : Type → Type} [Monad m] (viewable : DbChannel → m Bool) :
    List DbChannel → Option DbChannel → m (List DbChannel)
  | [], _ => pure []
  | ch :: channels, pendingCategory => do
    let view ← viewable ch
    if ch.type = .category then
      if view then return ch :: (← visibleFrom viewable channels none)
      else visibleFrom viewable channels (some ch)
    else if view then
      return pendingCategory.toList ++ ch :: (← visibleFrom viewable channels none)
    else visibleFrom viewable channels pendingCategory

namespace CommunityDb

def listChannels : DbM (List DbChannel) := do return (← get).tables.ordered

def viewable (user : Uid) (ch : DbChannel) : DbM Bool := do
  return (← channelPermissions user ch.id) &&& Perms.kViewChannel ≠ 0

def visibleChannels (user : Uid) : DbM (List DbChannel) := do
  visibleFrom (viewable user) (← listChannels) none

end CommunityDb

/-! ## For a predicate -/

/-- The channels to show of a list; `view` says which can be viewed. -/
def visible (view : DbChannel → Bool) (channels : List DbChannel) : List DbChannel :=
  Id.run (visibleFrom (fun ch => pure (view ch)) channels none)

/-- The row is the header of a category. -/
def isCategory (ch : DbChannel) : Bool := ch.type = .category

/-- The channels, each with the nearest category above. -/
def underCategory (channels : List DbChannel) : List (DbChannel × Option DbChannel) :=
  items isCategory none channels

variable {view : DbChannel → Bool} {channels : List DbChannel}

theorem visibleFrom_eq_prune (view : DbChannel → Bool) (channels : List DbChannel)
    (pending : Option DbChannel) :
    Id.run (visibleFrom (fun ch => pure (view ch)) channels pending) =
      prune isCategory view pending channels := by
  induction channels generalizing pending with
  | nil => rfl
  | cons ch channels ih =>
    rw [prune, ← ih none, ← ih (some ch), ← ih pending]
    by_cases hc : ch.type = .category
    · cases hv : view ch with
      | true => simp [visibleFrom, isCategory, hc, hv]
      | false => simp [visibleFrom, isCategory, hc, hv]
    · cases hv : view ch with
      | true => simp [visibleFrom, isCategory, hc, hv]
      | false => simp [visibleFrom, isCategory, hc, hv]

theorem visible_eq_prune (view : DbChannel → Bool) (channels : List DbChannel) :
    visible view channels = prune isCategory view none channels :=
  visibleFrom_eq_prune view channels none

theorem visible_sublist (view : DbChannel → Bool) (channels : List DbChannel) :
    (visible view channels).Sublist channels := by
  rw [visible_eq_prune]
  exact prune_sublist none channels

theorem underCategory_visible (view : DbChannel → Bool) (channels : List DbChannel) :
    underCategory (visible view channels) =
      (underCategory channels).filter fun e => view e.1 := by
  rw [visible_eq_prune]
  exact items_prune (.inl ⟨rfl, rfl⟩)

/-- What is shown is a part of the channels, in order: all that can be viewed, a category that
    cannot exactly if a channel under it is shown, and each under the nearest category above it. -/
theorem visible_faithful (view : DbChannel → Bool) (channels : List DbChannel) :
    let shown := visible view channels
    shown.Sublist channels ∧
    (∀ ch ∈ channels, view ch = true → ch ∈ shown) ∧
    (∀ k ∈ channels, k.type = .category → view k = false →
      (k ∈ shown ↔ ∃ ch ∈ shown, (ch, some k) ∈ underCategory channels)) ∧
    underCategory shown = (underCategory channels).filter fun e => view e.1 := by
  dsimp only
  refine ⟨visible_sublist view channels, fun ch hch hv => ?_, fun k hk hc hv => ?_,
    underCategory_visible view channels⟩
  · rw [visible_eq_prune]
    exact mem_prune_of_keep hch hv
  · have hheading : isCategory k = true := decide_eq_true hc
    rw [visible_eq_prune, mem_prune_heading hheading hv]
    constructor
    · rintro ⟨ch, hunder, hv⟩
      exact ⟨ch, mem_prune_of_keep (mem_of_mem_items hunder).1 hv, hunder⟩
    · rintro ⟨ch, hshown, hunder⟩
      exact ⟨ch, hunder, keep_of_mem_prune (mem_of_mem_items hunder).2 hshown⟩

/-! ## What the server shows -/

namespace CommunityDb

open Memory ChannelLayout

variable {X : Uid → Table DbMeta.key → Prop} {d : CommunityDb}

theorem visibleFrom_spec {viewable : DbChannel → DbM Bool} (hd : Quiet (Sound X) d)
    (h : ∀ ch ∈ channels, ∀ d', Quiet (Sound X) d' → SameState d d' →
      Answers X d' (viewable ch) (view ch)) (pending : Option DbChannel) :
    Answers X d (visibleFrom viewable channels pending) (prune isCategory view pending channels) := by
  induction channels generalizing d pending with
  | nil => exact .pure hd []
  | cons ch channels ih =>
    rw [visibleFrom]
    refine (h ch (.head _) d hd (.refl d)).bind fun d₁ hd₁ hs₁ => ?_
    have ih₁ := fun pending => ih (d := d₁) hd₁
      (fun ch hch d' hd' hs => h ch (.tail _ hch) d' hd' (hs₁.trans hs)) pending
    by_cases hc : ch.type = .category
    · have hheading : isCategory ch = true := decide_eq_true hc
      rw [prune, if_pos hc, if_pos hheading]
      cases view ch with
      | true => exact (ih₁ none).bind fun d₂ hd₂ _ => .pure hd₂ _
      | false => exact ih₁ (some ch)
    · have hheading : ¬isCategory ch = true := fun h => hc (of_decide_eq_true h)
      rw [prune, if_neg hc, if_neg hheading]
      cases view ch with
      | true => exact (ih₁ none).bind fun d₂ hd₂ _ => .pure hd₂ _
      | false => exact ih₁ pending

def views (d : CommunityDb) (user : Uid) (ch : DbChannel) : Bool :=
  d.toMemory.channelPermissions d.tables user ch.id &&& Perms.kViewChannel ≠ 0

theorem visibleChannels_spec (hd : Quiet (Sound X) d) (user : Uid) :
    Answers X d (visibleChannels user) (visible (d.views user) d.tables.ordered) := by
  rw [visible_eq_prune, visibleChannels]
  refine (Answers.gets hd fun d => d.tables.ordered).bind fun d₁ hd₁ hs₁ => ?_
  refine visibleFrom_spec hd₁ (fun ch hch d₂ hd₂ hs₂ => ?_) none
  refine (channelPermissions_spec hd₂ user ch.id).bind fun d₃ hd₃ _ => ?_
  -- a channel that is listed has a place in the layout
  have hplace : d₂.tables.layout.parentOf.find? ch.id ≠ none := by
    rw [hs₂.tables, hs₁.tables, Tables.layout, find?_parentOf_ofRows d.tables.nodup_ordered,
      ne_eq, parentIn_eq_none]
    exact not_not.2 (mem_map_of_mem hch)
  rw [if_neg hplace, hs₂.channelPermissions, hs₁.channelPermissions]
  exact .pure hd₃ _

/-- The owner of a server is shown its channel. -/
def oneChannel : CommunityDb where
  ownerCache := 1
  conn := ⟨{ channels := .ofRows [⟨"general", [], .text, 0, 0, true, false, false⟩] }, none, []⟩

theorem visibleChannels_spec_oneChannel :
    ((visibleChannels 1).run oneChannel).1.map (·.id) = ["general"] ∧
      Answers (fun _ _ => True) oneChannel (visibleChannels 1)
        (visible (oneChannel.views 1) oneChannel.tables.ordered) :=
  ⟨by decide +kernel, visibleChannels_spec (d := oneChannel)
    ⟨⟨trivial, Memo.sound_empty, Memo.sound_empty, by rintro ⟨⟩, by rintro _ _ ⟨⟩⟩, rfl⟩ 1⟩

end CommunityDb
end Decibell
