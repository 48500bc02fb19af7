import Mathlib.Data.Set.Basic
import Mathlib.Tactic.Ring

namespace Zngtcp2.Lib.Seal

/-- Key derivation and authenticated encryption as a library offers them. Every function may fail. -/
structure Suite (β Prk Okm Ctx : Type) where
  extract : List β → List β → Option Prk
  expand : Prk → Nat → List β → Option Okm
  encryptInit : Okm → Option Ctx
  decryptInit : Okm → Option Ctx
  encrypt : Ctx → Okm → List β → List β → Option (List β)
  decrypt : Ctx → Okm → List β → List β → Option (List β)

variable {β Prk Okm Ctx : Type}

namespace Suite

variable (s : Suite β Prk Okm Ctx)

def hkdf (secret salt : List β) (len : Nat) (info : List β) : Option Okm := do
  let prk ← s.extract secret salt
  s.expand prk len info

def lock (key nonce : Okm) (aad plaintext : List β) : Option (List β) := do
  let ctx ← s.encryptInit key
  s.encrypt ctx nonce aad plaintext

def unlock (key nonce : Okm) (aad ciphertext : List β) : Option (List β) := do
  let ctx ← s.decryptInit key
  s.decrypt ctx nonce aad ciphertext

/-- No function fails, the derivation is injective, and decryption succeeds for the ciphertexts of the
encryptions that have been made, and for each of them with its own key, nonce and additional data only. -/
structure Ideal (overhead : Nat) (made : Set (List β)) : Prop where
  hkdf_total : ∀ secret salt len info, ∃ okm, s.hkdf secret salt len info = some okm
  hkdf_inj : ∀ {secret salt secret' salt' len info info' okm}, s.hkdf secret salt len info = some okm →
    s.hkdf secret' salt' len info' = some okm → secret' = secret ∧ salt' = salt ∧ info' = info
  lock_total : ∀ key nonce aad plaintext, ∃ ciphertext, s.lock key nonce aad plaintext = some ciphertext
  lock_length : ∀ {key nonce aad plaintext ciphertext}, s.lock key nonce aad plaintext = some ciphertext →
    ciphertext.length = plaintext.length + overhead
  lock_inj : ∀ {key nonce aad plaintext key' nonce' aad' plaintext' ciphertext}, ciphertext ∈ made →
    s.lock key nonce aad plaintext = some ciphertext → s.lock key' nonce' aad' plaintext' = some ciphertext →
    key' = key ∧ nonce' = nonce ∧ aad' = aad ∧ plaintext' = plaintext
  unlock_iff : ∀ {key nonce aad plaintext ciphertext}, s.unlock key nonce aad ciphertext = some plaintext ↔
    ciphertext ∈ made ∧ s.lock key nonce aad plaintext = some ciphertext
  decryptInit_total : ∀ key, ∃ ctx, s.decryptInit key = some ctx

namespace Ideal

variable {s} {overhead : Nat} {made : Set (List β)} (h : s.Ideal overhead made)

include h

/-- What has been encrypted under derived keys is decrypted under the keys of the same secret only. -/
theorem unlock_derived {secret secret' salt info info₂ aad aad' plaintext plaintext' ciphertext : List β}
    {len len₂ : Nat} {key nonce key' nonce' : Okm}
    (hkey : s.hkdf secret salt len info = some key) (hnonce : s.hkdf secret salt len₂ info₂ = some nonce)
    (hkey' : s.hkdf secret' salt len info = some key') (hnonce' : s.hkdf secret' salt len₂ info₂ = some nonce')
    (hlock : s.lock key nonce aad plaintext = some ciphertext) (hmade : ciphertext ∈ made) :
    s.unlock key' nonce' aad' ciphertext = some plaintext' ↔ secret' = secret ∧ aad' = aad ∧ plaintext' = plaintext := by
  rw [h.unlock_iff]
  constructor
  · rintro ⟨-, hlock'⟩
    obtain ⟨rfl, -, haad, hplaintext⟩ := h.lock_inj hmade hlock hlock'
    exact ⟨(h.hkdf_inj hkey hkey').1, haad, hplaintext⟩
  · rintro ⟨rfl, rfl, rfl⟩
    cases hkey.symm.trans hkey'
    cases hnonce.symm.trans hnonce'
    exact ⟨hmade, hlock⟩

end Ideal

end Suite

end Zngtcp2.Lib.Seal
