import Mathlib.Data.Set.Basic

/-!
# Permission bits

Permissions are a 64-bit field. `kAll` is what the owner and an administrator
have; `kKnownMask` are the bits that are defined, which is what every stored
field is masked with.
-/

namespace Decibell

abbrev Permissions := BitVec 64

namespace Perms

/-- The permission that is bit `n`. -/
def bit (n : Nat) : Permissions := 1#64 <<< n

def kAdministrator : Permissions := bit 0
def kManageServer : Permissions := bit 1
def kManageChannels : Permissions := bit 2
def kManageRoles : Permissions := bit 3
def kKickMembers : Permissions := bit 4
def kBanMembers : Permissions := bit 5
def kManageMessages : Permissions := bit 6
def kManageInvites : Permissions := bit 7
def kManageNicknames : Permissions := bit 8
def kSendMessages : Permissions := bit 10
def kConnectVoice : Permissions := bit 11
def kStream : Permissions := bit 12
def kViewChannel : Permissions := bit 13
def kReadHistory : Permissions := bit 14
def kAttachFiles : Permissions := bit 15
def kViewAuditLog : Permissions := bit 16
def kModerateMembers : Permissions := bit 17
def kMuteMembers : Permissions := bit 18
def kDeafenMembers : Permissions := bit 19
def kMoveMembers : Permissions := bit 20
def kCreateInvite : Permissions := bit 21
def kChangeNickname : Permissions := bit 22
def kEmbedLinks : Permissions := bit 23
def kSpeak : Permissions := bit 24

/-- Every bit, defined or not. -/
def kAll : Permissions := BitVec.allOnes 64

/-- Every defined bit. -/
def kKnownMask : Permissions :=
  kAdministrator ||| kManageServer ||| kManageChannels ||| kManageRoles |||
    kKickMembers ||| kBanMembers ||| kManageMessages ||| kManageInvites |||
    kManageNicknames ||| kSendMessages ||| kConnectVoice ||| kStream |||
    kViewChannel ||| kReadHistory ||| kAttachFiles |||
    kViewAuditLog ||| kModerateMembers |||
    kMuteMembers ||| kDeafenMembers ||| kMoveMembers |||
    kCreateInvite ||| kChangeNickname ||| kEmbedLinks ||| kSpeak

/-- The bits an administrator's role stands for: all of them. -/
def expand (p : Permissions) : Permissions := if p &&& kAdministrator = 0 then p else kAll

/-! ## Permissions as sets of bits -/

def bits (p : Permissions) : Set Nat := {i | p.getLsbD i = true}

theorem mem_bits {p : Permissions} {i : Nat} : i ∈ bits p ↔ p.getLsbD i = true := Iff.rfl

theorem bits_or (p q : Permissions) : bits (p ||| q) = bits p ∪ bits q := by
  ext i
  simp [mem_bits]

theorem bits_zero : bits 0 = ∅ := by
  ext i
  simp [mem_bits]

theorem mem_bits_kAll {i : Nat} : i ∈ bits kAll ↔ i < 64 := by
  rw [mem_bits, kAll, BitVec.getLsbD_allOnes, decide_eq_true_iff]

theorem lt_of_mem_bits {p : Permissions} {i : Nat} (h : i ∈ bits p) : i < 64 :=
  BitVec.lt_of_getLsbD h

theorem bits_subset_iff {p q : Permissions} : p &&& ~~~q = 0 ↔ bits p ⊆ bits q := by
  constructor
  · intro h i hi
    have := congrArg (BitVec.getLsbD · i) h
    have hlt := lt_of_mem_bits hi
    simp only [mem_bits] at hi ⊢
    simpa [hi, hlt] using this
  · intro h
    refine BitVec.eq_of_getLsbD_eq fun i hi => ?_
    have := @h i
    simp only [mem_bits] at this
    cases hp : p.getLsbD i <;> simp_all

theorem bits_subset_of_xor {p p' q : Permissions} (h : (p' ^^^ p) &&& ~~~q = 0) :
    bits p' ⊆ bits p ∪ bits q := by
  intro i hi
  have := @bits_subset_iff.1 h i
  simp only [mem_bits, Set.mem_union] at hi this ⊢
  cases hp : p.getLsbD i <;> simp_all

theorem admin_mem_iff {p : Permissions} : p &&& kAdministrator ≠ 0 ↔ 0 ∈ bits p := by
  rw [mem_bits, ne_eq, not_iff_comm, Bool.not_eq_true]
  constructor
  · intro h
    refine BitVec.eq_of_getLsbD_eq fun i hi => ?_
    rcases Nat.eq_zero_or_pos i with rfl | hpos
    · rw [BitVec.getLsbD_and, h]
      simp
    · simp [kAdministrator, bit, hpos.ne']
  · intro h
    have := congrArg (BitVec.getLsbD · 0) h
    simpa [kAdministrator, bit] using this

theorem mem_bits_expand {p : Permissions} {i : Nat} :
    i ∈ bits (expand p) ↔ i ∈ bits p ∨ 0 ∈ bits p ∧ i < 64 := by
  rw [expand]
  split
  · rename_i h
    have h0 : 0 ∉ bits p := fun h' => admin_mem_iff.2 h' h
    simp [h0]
  · rename_i h
    have h0 : 0 ∈ bits p := admin_mem_iff.1 h
    rw [mem_bits_kAll]
    exact ⟨fun hi => .inr ⟨h0, hi⟩, fun hi => hi.elim lt_of_mem_bits And.right⟩

end Perms
end Decibell
