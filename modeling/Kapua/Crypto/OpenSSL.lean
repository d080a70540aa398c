import Kapua.Foundation.ByteMemory

/-!
# Session keys, key pairs and the OpenSSL interface

`AESKey` and `KeyPair` of `RSA.hpp`, and `OpenSSL`, the calls the program makes into libcrypto. The
library is not part of the repository, so it enters as a parameter: every definition that reaches
it takes an `OpenSSL PKey`, with `PKey` the type of `EVP_PKEY` objects. A call that can fail
returns an `Option`, and the randomness of RSA padding is an argument.

What the program relies on is stated apart from the parameter, in structures. `RoundTrips` says
that decryption under the matching key undoes encryption and that a ciphertext is no longer than
the documentation allows; `OtherKeysFail` says that decryption under any other key fails. Which
public key matches which private key is itself a parameter (`Matches`). `Pkcs7` says how long a
padded ciphertext is, and `DecryptContract` how RSA decryption uses the buffer it writes to.
-/

set_option autoImplicit false
set_option relaxedAutoImplicit false

namespace Kapua

/-- `struct AESKey`: a 256-bit session key. -/
structure AESKey where
  key : Vector UInt8 32
  deriving DecidableEq

namespace AESKey

/-- The bytes of a session key in memory order. -/
def bytes (context : AESKey) : Bytes := context.key.toList

/-- The session key slot after a call wrote `written` from its start on. Bytes of the slot that
were not written keep their value. Bytes past the 32 of the slot land in the memory behind it, which
is not modelled: that there are none is said of a pass by `InBounds`. -/
def overwrite (context : AESKey) (written : Bytes) : AESKey :=
  ⟨Vector.ofFn fun i ↦ written.getD i context.key[i]⟩

@[simp] theorem length_bytes (context : AESKey) : context.bytes.length = 32 := by
  simp [bytes]

/-- A call that wrote nothing leaves the slot. -/
@[simp] theorem overwrite_nil (context : AESKey) : context.overwrite [] = context := by
  cases context with
  | mk key =>
    simp only [overwrite, AESKey.mk.injEq]
    ext i hi
    simp

/-- Writing a whole session key over a slot leaves that key. -/
@[simp] theorem overwrite_bytes (context other : AESKey) :
    context.overwrite other.bytes = other := by
  cases other with
  | mk key =>
    simp only [overwrite, bytes, AESKey.mk.injEq]
    ext i hi
    simp [List.getD]

/-- A call leaves the slot when what it wrote there is what the slot begins with. -/
theorem overwrite_eq_self_iff (context : AESKey) (written : Bytes) :
    context.overwrite written = context ↔ written.take 32 <+: context.bytes := by
  have hbyte (i : ℕ) (hi : i < 32) (hlt : i < written.length) :
      (context.overwrite written).key[i] = written[i] := by
    simp [overwrite, hlt]
  rw [List.prefix_iff_getElem]
  constructor
  · intro h
    refine ⟨by simp, fun i hi ↦ ?_⟩
    obtain ⟨hslot, hlt⟩ : i < 32 ∧ i < written.length := by simpa using hi
    rw [List.getElem_take, ← hbyte i hslot hlt]
    simp [h, bytes]
  · rintro ⟨_, h⟩
    cases context with
    | mk key =>
      simp only [overwrite, AESKey.mk.injEq]
      ext i hi
      by_cases hlt : i < written.length
      · have hsame := h i (by simpa using ⟨hi, hlt⟩)
        simpa [hlt, bytes] using congrArg UInt8.toNat hsame
      · simp [List.getD, hlt]
end AESKey

/-- `struct KeyPair`: two `EVP_PKEY` pointers, either of which can be null. -/
structure KeyPair (PKey : Type) where
  publicKey : Option PKey
  privateKey : Option PKey

/-- The calls into libcrypto.
* `i2dPublicKey key` is the encoding `i2d_PublicKey` writes, `none` when it reports an error.
* `d2iPublicKey bytes` is the key `d2i_PublicKey` reads from the front of `bytes`, `none` for null.
* `evpPkeySize key` is `EVP_PKEY_size`, for RSA the size of the modulus in bytes.
* `evpPkeyEncrypt key padding message` is what `EVP_PKEY_encrypt` writes with that padding
  randomness.
* `evpPkeyDecrypt key outlen ciphertext` is what `EVP_PKEY_decrypt` writes when `*outlen` holds
  `outlen` on entry.
* `aes256CbcEncrypt key iv plaintext` and `aes256CbcDecrypt key iv ciphertext` are the
  init/update/final sequences for `EVP_aes_256_cbc` with the default padding. -/
structure OpenSSL (PKey : Type) where
  i2dPublicKey : PKey → Option Bytes
  d2iPublicKey : Bytes → Option PKey
  evpPkeySize : PKey → ℕ
  evpPkeyEncrypt : PKey → ℕ → Bytes → Option Bytes
  evpPkeyDecrypt : PKey → ℕ → Bytes → Option Bytes
  aes256CbcEncrypt : AESKey → Bytes → Bytes → Option Bytes
  aes256CbcDecrypt : AESKey → Bytes → Bytes → Option Bytes

namespace OpenSSL

variable {PKey : Type}

/-- What decryption under the matching key does.
* `rsa_undo`: with room for the modulus, `EVP_PKEY_decrypt` recovers the message.
* `rsa_room`: with less room it fails.
* `rsa_length`: an RSA ciphertext is no longer than the modulus.
* `aes_undo`: AES-CBC decryption under the same key and vector recovers the plaintext.
* `aes_shrinks`: a plaintext is no longer than the ciphertext it was decrypted from.
* `aes_length`: the ciphertext of a bare packet header, padded to a block, still fits a datagram
  behind the 32 leading bytes. -/
structure RoundTrips (ssl : OpenSSL PKey) (Matches : PKey → PKey → Prop) : Prop where
  rsa_undo : ∀ {publicKey privateKey padding message ciphertext outlen},
    Matches publicKey privateKey → ssl.evpPkeyEncrypt publicKey padding message = some ciphertext →
      ssl.evpPkeySize privateKey ≤ outlen →
        ssl.evpPkeyDecrypt privateKey outlen ciphertext = some message
  rsa_room : ∀ {privateKey ciphertext outlen}, outlen < ssl.evpPkeySize privateKey →
    ssl.evpPkeyDecrypt privateKey outlen ciphertext = none
  rsa_length : ∀ {publicKey padding message ciphertext},
    ssl.evpPkeyEncrypt publicKey padding message = some ciphertext →
      ciphertext.length ≤ ssl.evpPkeySize publicKey
  aes_undo : ∀ {key iv plaintext ciphertext},
    ssl.aes256CbcEncrypt key iv plaintext = some ciphertext →
      ssl.aes256CbcDecrypt key iv ciphertext = some plaintext
  aes_shrinks : ∀ {key iv plaintext ciphertext},
    ssl.aes256CbcDecrypt key iv ciphertext = some plaintext → plaintext.length ≤ ciphertext.length
  aes_length : ∀ {key iv plaintext ciphertext},
    ssl.aes256CbcEncrypt key iv plaintext = some ciphertext → plaintext.length = 46 →
      32 + ciphertext.length ≤ 1450

/-- What AES-256-CBC with PKCS#7 padding does.
* `aes_undo`: decryption under the same key and vector recovers the plaintext.
* `aes_padded`: the ciphertext is the plaintext filled up to the next multiple of 16 bytes. -/
structure Pkcs7 (ssl : OpenSSL PKey) : Prop where
  aes_undo : ∀ {key iv plaintext ciphertext},
    ssl.aes256CbcEncrypt key iv plaintext = some ciphertext →
      ssl.aes256CbcDecrypt key iv ciphertext = some plaintext
  aes_padded : ∀ {key iv plaintext ciphertext},
    ssl.aes256CbcEncrypt key iv plaintext = some ciphertext →
      ciphertext.length = (plaintext.length / 16 + 1) * 16

/-- What `EVP_PKEY_decrypt` does with an output buffer, `recovered key ciphertext` being the
plaintext behind the padding.
* `room`: with less room than the modulus has, it fails.
* `whole`: otherwise it writes the whole plaintext, if there is one. -/
structure DecryptContract (ssl : OpenSSL PKey) (recovered : PKey → Bytes → Option Bytes) :
    Prop where
  room : ∀ {key ciphertext outlen}, outlen < ssl.evpPkeySize key →
    ssl.evpPkeyDecrypt key outlen ciphertext = none
  whole : ∀ {key ciphertext outlen}, ssl.evpPkeySize key ≤ outlen →
    ssl.evpPkeyDecrypt key outlen ciphertext = recovered key ciphertext

/-- Decryption under any key but the matching one fails. -/
structure OtherKeysFail (ssl : OpenSSL PKey) (Matches : PKey → PKey → Prop) : Prop where
  rsa_other : ∀ {publicKey privateKey padding message ciphertext outlen},
    ¬ Matches publicKey privateKey →
      ssl.evpPkeyEncrypt publicKey padding message = some ciphertext →
        ssl.evpPkeyDecrypt privateKey outlen ciphertext = none
  aes_other : ∀ {key other iv plaintext ciphertext}, other ≠ key →
    ssl.aes256CbcEncrypt key iv plaintext = some ciphertext →
      ssl.aes256CbcDecrypt other iv ciphertext = none

/-- Whatever private key an RSA ciphertext is decrypted with and whatever room the output has, a
successful decryption returns the message that was encrypted. -/
theorem RoundTrips.eq_of_decrypt {ssl : OpenSSL PKey} {Matches : PKey → PKey → Prop}
    (htrips : ssl.RoundTrips Matches) (hothers : ssl.OtherKeysFail Matches)
    {publicKey privateKey : PKey} {padding outlen : ℕ} {message ciphertext result : Bytes}
    (hencrypt : ssl.evpPkeyEncrypt publicKey padding message = some ciphertext)
    (hdecrypt : ssl.evpPkeyDecrypt privateKey outlen ciphertext = some result) :
    result = message := by
  by_cases hmatch : Matches publicKey privateKey
  · by_cases hroom : ssl.evpPkeySize privateKey ≤ outlen
    · have hundo := htrips.rsa_undo hmatch hencrypt hroom
      rw [hdecrypt] at hundo
      exact Option.some.inj hundo
    · rw [htrips.rsa_room (not_le.mp hroom)] at hdecrypt
      exact absurd hdecrypt (by simp)
  · rw [hothers.rsa_other hmatch hencrypt] at hdecrypt
    exact absurd hdecrypt (by simp)

end OpenSSL

end Kapua
