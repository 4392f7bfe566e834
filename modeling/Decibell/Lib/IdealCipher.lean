import Mathlib.Logic.Encodable.Basic
import Mathlib.Logic.Equiv.List
import Mathlib.Tactic.Common

/-!
# Ideal ciphers

Authenticated encryption, idealised: what is decrypted is exactly what was encrypted under the same
key, nonce and associated data, and a ciphertext is of one key, nonce, message and data only.

* `codeCipher` is an ideal cipher: the ciphertext is the number of what it is of, in unary.
-/

namespace Lib

variable {K N M A C : Type*}

/-- Decryption inverts encryption in its context; a ciphertext has one context and message. -/
structure IdealCipher (encrypt : K → N → M → A → Option C) (decrypt : K → N → C → A → Option M) :
    Prop where
  decrypt_iff : ∀ {k n c a m}, decrypt k n c a = some m ↔ encrypt k n m a = some c
  injective : ∀ {k n m a k' n' m' a' c}, encrypt k n m a = some c → encrypt k' n' m' a' = some c →
    k = k' ∧ n = n' ∧ m = m' ∧ a = a'

/-- What was encrypted is decrypted in its context only, to its message. -/
theorem IdealCipher.bound {encrypt : K → N → M → A → Option C}
    {decrypt : K → N → C → A → Option M} (h : IdealCipher encrypt decrypt) {k k' : K} {n n' : N}
    {m m' : M} {a a' : A} {c : C} (hencrypt : encrypt k n m a = some c)
    (hdecrypt : decrypt k' n' c a' = some m') : k = k' ∧ n = n' ∧ m = m' ∧ a = a' :=
  h.injective hencrypt (h.decrypt_iff.1 hdecrypt)

section Code

/-- Bytes are countable. -/
instance encodableByte : Encodable UInt8 :=
  .ofLeftInjection UInt8.toNat (fun n => some (UInt8.ofNat n)) fun b =>
    congrArg some (UInt8.ofNat_toNat (x := b))

variable [Encodable K] [Encodable N] [Encodable M] [Encodable A]

/-- As many bytes as the number of what is encrypted, and more. -/
def codeEncrypt (pad : Nat) (k : K) (n : N) (m : M) (a : A) : Option (List UInt8) :=
  some (List.replicate (pad + Encodable.encode (k, n, m, a)) 0)

/-- The message of a number, if of this context. -/
def codeDecrypt (pad : Nat) (k : K) (n : N) (c : List UInt8) (a : A) : Option M :=
  (@Encodable.decode (K × N × M × A) _ (c.length - pad)).bind fun code =>
    if codeEncrypt pad k n code.2.2.1 a = some c then some code.2.2.1 else none

theorem codeEncrypt_injective {pad : Nat} {k k' : K} {n n' : N} {m m' : M} {a a' : A}
    {c : List UInt8} (h : codeEncrypt pad k n m a = some c)
    (h' : codeEncrypt pad k' n' m' a' = some c) : k = k' ∧ n = n' ∧ m = m' ∧ a = a' := by
  have hlength := congrArg List.length (Option.some.inj (h.trans h'.symm))
  rw [List.length_replicate, List.length_replicate] at hlength
  have hcode := Encodable.encode_injective (Nat.add_left_cancel hlength)
  simpa only [Prod.mk.injEq] using hcode

theorem idealCipher_code (pad : Nat) :
    IdealCipher (@codeEncrypt K N M A _ _ _ _ pad) (codeDecrypt pad) where
  decrypt_iff {k n c a m} := by
    rw [codeDecrypt, Option.bind_eq_some_iff]
    constructor
    · rintro ⟨code, -, hif⟩
      split at hif
      · next hencrypt =>
        cases hif
        exact hencrypt
      · cases hif
    · intro h
      have hlength : c.length - pad = Encodable.encode (k, n, m, a) := by
        rw [← Option.some.inj h, List.length_replicate, Nat.add_sub_cancel_left]
      refine ⟨(k, n, m, a), ?_, if_pos h⟩
      rw [hlength]
      exact Encodable.encodek _
  injective := codeEncrypt_injective

end Code

end Lib
