import Kapua.Crypto.OpenSSL

/-!
# Transporting a session key under RSA

`RSA::encrypt_aes_context` and `RSA::decrypt_aes_context`. The first writes the RSA encryption of a
session key into a buffer of a stated size. The second hands the caller's session key slot to
`EVP_PKEY_decrypt` as the output buffer and checks the length afterwards, so a plaintext of another
length is reported as a failure after it has been written; `Decrypted.written` are the bytes that
went into the slot whatever was reported.
-/

set_option autoImplicit false
set_option relaxedAutoImplicit false

namespace Kapua

variable {PKey : Type} (ssl : OpenSSL PKey)

/-- `RSA::encrypt_aes_context`: the bytes written to `out_buffer`, whose count is `*out_size`, or
`none` when it returns false. The first `EVP_PKEY_encrypt` call only asks for the size. -/
def encryptAesContext (context : AESKey) (publicKey : Option PKey) (inSize padding : ℕ) :
    Option Bytes :=
  match publicKey with
  | none => none
  | some key =>
    if inSize < ssl.evpPkeySize key then none
    else ssl.evpPkeyEncrypt key padding context.bytes

/-- What `RSA::decrypt_aes_context` did: its result and the bytes written to `*context`. -/
structure Decrypted where
  ok : Bool
  written : Bytes

/-- `RSA::decrypt_aes_context`, with `outSize` the value `*out_size` holds on entry. -/
def decryptAesContext (privateKey : Option PKey) (input : Bytes) (outSize : ℕ) : Decrypted :=
  match privateKey with
  | none => ⟨false, []⟩
  | some key =>
    match ssl.evpPkeyDecrypt key outSize input with
    | none => ⟨false, []⟩
    | some plaintext => ⟨plaintext.length == 32, plaintext⟩

variable {ssl}

/-- A session key that was encrypted fits the buffer it was encrypted into. -/
theorem length_le_of_encryptAesContext {Matches : PKey → PKey → Prop}
    (htrips : ssl.RoundTrips Matches) {context : AESKey} {publicKey : Option PKey}
    {inSize padding : ℕ} {ciphertext : Bytes}
    (h : encryptAesContext ssl context publicKey inSize padding = some ciphertext) :
    ciphertext.length ≤ inSize := by
  cases publicKey with
  | none => simp [encryptAesContext] at h
  | some key =>
    simp only [encryptAesContext] at h
    split_ifs at h with hsize
    have hlength := htrips.rsa_length h
    omega

/-- A decryption that succeeds writes a whole session key. -/
theorem exists_context_of_decrypted {privateKey : Option PKey} {input : Bytes} {outSize : ℕ}
    (h : (decryptAesContext ssl privateKey input outSize).ok = true) :
    ∃ context : AESKey, decryptAesContext ssl privateKey input outSize = ⟨true, context.bytes⟩ := by
  unfold decryptAesContext at h ⊢
  split at h
  · cases h
  · split at h
    · cases h
    · rename_i plaintext _
      have hlength : plaintext.length = 32 := by simpa using h
      refine ⟨⟨⟨plaintext.toArray, by simpa using hlength⟩⟩, ?_⟩
      simp [hlength, AESKey.bytes, Vector.toList]

/-- Decrypting an encrypted session key, under whatever key, either reports failure and writes
nothing or writes exactly that session key. -/
theorem decryptAesContext_of_encrypted {Matches : PKey → PKey → Prop}
    (htrips : ssl.RoundTrips Matches) (hothers : ssl.OtherKeysFail Matches) {context : AESKey}
    {publicKey : PKey} {padding : ℕ} {ciphertext : Bytes}
    (hencrypt : ssl.evpPkeyEncrypt publicKey padding context.bytes = some ciphertext)
    (privateKey : Option PKey) (outSize : ℕ) :
    decryptAesContext ssl privateKey ciphertext outSize = ⟨false, []⟩ ∨
      decryptAesContext ssl privateKey ciphertext outSize = ⟨true, context.bytes⟩ := by
  cases privateKey with
  | none => exact Or.inl rfl
  | some key =>
    cases hdecrypt : ssl.evpPkeyDecrypt key outSize ciphertext with
    | none => exact Or.inl (by simp [decryptAesContext, hdecrypt])
    | some plaintext =>
      have hplain := htrips.eq_of_decrypt hothers hencrypt hdecrypt
      exact Or.inr (by simp [decryptAesContext, hdecrypt, hplain])

/-- Decrypting an encrypted session key under the matching key with room for the modulus writes
exactly that session key and succeeds. -/
theorem decryptAesContext_of_matches {Matches : PKey → PKey → Prop}
    (htrips : ssl.RoundTrips Matches) {context : AESKey} {publicKey privateKey : PKey}
    {padding outSize : ℕ} {ciphertext : Bytes} (hmatch : Matches publicKey privateKey)
    (hencrypt : ssl.evpPkeyEncrypt publicKey padding context.bytes = some ciphertext)
    (hroom : ssl.evpPkeySize privateKey ≤ outSize) :
    decryptAesContext ssl (some privateKey) ciphertext outSize = ⟨true, context.bytes⟩ := by
  simp [decryptAesContext, htrips.rsa_undo hmatch hencrypt hroom]

end Kapua
