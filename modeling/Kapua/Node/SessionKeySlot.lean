import Kapua.Node.TaggedCipher

/-!
# The session key slot

The `EncryptionContext` case of `_process_packet` lets `decrypt_aes_context` decrypt straight into
the record's session key, and passes a length variable that was never assigned. `EVP_PKEY_decrypt`
takes that variable for the size of the buffer: it refuses to write when the value is below the
modulus size, and otherwise writes the whole plaintext, whose length the sender chose. The length
is checked after that.

`keeps_to_slot_iff` says which plaintexts and which values of the variable the slot survives.
`wideCipher` is an instance of the library with a modulus of 256 bytes.
-/

set_option autoImplicit false
set_option relaxedAutoImplicit false

namespace Kapua

variable {PKey : Type} (ssl : OpenSSL PKey) (recovered : PKey → Bytes → Option Bytes)

/-- Decrypting an `EncryptionContext` packet into a session key slot goes well.
* `within`: nothing is written past the slot.
* `whole`: a plaintext that is exactly a session key is taken over, and the call succeeds. -/
structure KeepsToSlot (privateKey : Option PKey) (pkt : Packet) (context : AESKey)
    (outSize : ℕ) : Prop where
  within : (decryptAesContext ssl privateKey pkt.data outSize).written.length ≤ 32
  whole : ∀ key plaintext, privateKey = some key → recovered key pkt.data = some plaintext →
    plaintext.length = 32 →
      (decryptAesContext ssl privateKey pkt.data outSize).ok = true ∧
        (context.overwrite
          (decryptAesContext ssl privateKey pkt.data outSize).written).bytes = plaintext

/-- The value of the length variable suits the plaintext: room for the modulus when the plaintext is
a session key, and no room for it when the plaintext is longer. -/
def SuitsPlaintext (privateKey : Option PKey) (pkt : Packet) (outSize : ℕ) : Prop :=
  ∀ key plaintext, privateKey = some key → recovered key pkt.data = some plaintext →
    (plaintext.length = 32 → ssl.evpPkeySize key ≤ outSize) ∧
      (32 < plaintext.length → outSize < ssl.evpPkeySize key)

variable {ssl recovered}

/-- Writing as many bytes as a session key has over a slot leaves these bytes in it. -/
theorem AESKey.bytes_overwrite (context : AESKey) {plaintext : Bytes}
    (hlength : plaintext.length = 32) : (context.overwrite plaintext).bytes = plaintext := by
  have hkey : plaintext = (⟨⟨plaintext.toArray, by simpa using hlength⟩⟩ : AESKey).bytes := by
    simp [AESKey.bytes, Vector.toList]
  rw [hkey, AESKey.overwrite_bytes]

/-- With room for the modulus, whatever plaintext there is gets written. -/
theorem decryptAesContext_roomy (hcontract : ssl.DecryptContract recovered) {key : PKey}
    {input plaintext : Bytes} {outSize : ℕ} (hroom : ssl.evpPkeySize key ≤ outSize)
    (hplain : recovered key input = some plaintext) :
    decryptAesContext ssl (some key) input outSize = ⟨plaintext.length == 32, plaintext⟩ := by
  simp only [decryptAesContext, hcontract.whole hroom, hplain]

/-- With less room nothing is written. -/
theorem decryptAesContext_tight (hcontract : ssl.DecryptContract recovered) {key : PKey}
    {outSize : ℕ} (hroom : outSize < ssl.evpPkeySize key) (input : Bytes) :
    decryptAesContext ssl (some key) input outSize = ⟨false, []⟩ := by
  simp only [decryptAesContext, hcontract.room hroom]

/-- Without a plaintext nothing is written. -/
theorem decryptAesContext_unrecovered (hcontract : ssl.DecryptContract recovered) {key : PKey}
    {input : Bytes} (hplain : recovered key input = none) (outSize : ℕ) :
    decryptAesContext ssl (some key) input outSize = ⟨false, []⟩ := by
  rcases Nat.lt_or_ge outSize (ssl.evpPkeySize key) with htight | hroomy
  · exact decryptAesContext_tight hcontract htight input
  · simp only [decryptAesContext, hcontract.whole hroomy, hplain]

/-- A refused decryption keeps to the slot, unless the plaintext is a session key. -/
theorem keepsToSlot_of_refused {privateKey : Option PKey} {pkt : Packet} (context : AESKey)
    {outSize : ℕ} (hrefused : decryptAesContext ssl privateKey pkt.data outSize = ⟨false, []⟩)
    (hother : ∀ key plaintext, privateKey = some key → recovered key pkt.data = some plaintext →
      plaintext.length ≠ 32) : KeepsToSlot ssl recovered privateKey pkt context outSize where
  within := by
    rw [hrefused]
    exact Nat.zero_le _
  whole := fun key plaintext hkey hplain hlength ↦
    absurd hlength (hother key plaintext hkey hplain)

/-- Decrypting a received session key keeps to the slot exactly when the length variable suits the
plaintext. Assumes: the contract of `EVP_PKEY_decrypt`. -/
theorem keeps_to_slot_iff (hcontract : ssl.DecryptContract recovered) (privateKey : Option PKey)
    (pkt : Packet) (context : AESKey) (outSize : ℕ) :
    KeepsToSlot ssl recovered privateKey pkt context outSize ↔
      SuitsPlaintext ssl recovered privateKey pkt outSize := by
  constructor
  · rintro ⟨hwithin, hwhole⟩ key plaintext rfl hplain
    rcases Nat.lt_or_ge outSize (ssl.evpPkeySize key) with htight | hroomy
    · refine ⟨fun hlength ↦ ?_, fun _ ↦ htight⟩
      have hok := (hwhole key plaintext rfl hplain hlength).1
      rw [decryptAesContext_tight hcontract htight] at hok
      cases hok
    · refine ⟨fun _ ↦ hroomy, fun hlong ↦ ?_⟩
      rw [decryptAesContext_roomy hcontract hroomy hplain] at hwithin
      exact absurd hlong (not_lt.mpr hwithin)
  · intro hsuits
    cases privateKey with
    | none => exact keepsToSlot_of_refused context rfl fun _ _ hkey ↦ by cases hkey
    | some key =>
      cases hplain : recovered key pkt.data with
      | none =>
        refine keepsToSlot_of_refused context
          (decryptAesContext_unrecovered hcontract hplain outSize) fun _ plaintext hkey hsome ↦ ?_
        obtain rfl := Option.some.inj hkey
        exact absurd (hplain.symm.trans hsome) (by simp)
      | some plaintext =>
        have honly : ∀ key' plaintext', some key = some key' →
            recovered key' pkt.data = some plaintext' → plaintext' = plaintext := by
          intro key' plaintext' hkey hsome
          obtain rfl := Option.some.inj hkey
          exact Option.some.inj (hsome.symm.trans hplain)
        obtain ⟨hexact, hlong⟩ := hsuits key plaintext rfl hplain
        rcases Nat.lt_or_ge outSize (ssl.evpPkeySize key) with htight | hroomy
        · refine keepsToSlot_of_refused context (decryptAesContext_tight hcontract htight _) ?_
          intro key' plaintext' hkey hsome hlength
          obtain rfl := honly key' plaintext' hkey hsome
          exact absurd htight (not_lt.mpr (hexact hlength))
        · have hdecrypted := decryptAesContext_roomy hcontract hroomy hplain
          constructor
          · rw [hdecrypted]
            exact not_lt.mp fun htoolong ↦ absurd (hlong htoolong) (not_lt.mpr hroomy)
          · intro key' plaintext' hkey hsome hlength
            obtain rfl := honly key' plaintext' hkey hsome
            rw [hdecrypted]
            exact ⟨beq_iff_eq.mpr hlength, context.bytes_overwrite hlength⟩

/-! ### A cipher with a modulus of 256 bytes -/

/-- The plaintext behind the padding: a block of 256 bytes names its key and then the length of its
message, which leaves room for eleven bytes of padding at least. -/
def wideRecovered (key : UInt8) (ciphertext : Bytes) : Option Bytes :=
  match ciphertext with
  | name :: count :: block =>
    if name = key ∧ count.toNat ≤ 245 ∧ block.length = 254 then some (block.take count.toNat)
    else none
  | _ => none

/-- The cipher whose RSA blocks are 256 bytes long. -/
def wideCipher : OpenSSL UInt8 :=
  { tagged with
    evpPkeySize := fun _ ↦ 256
    evpPkeyEncrypt := fun key _ message ↦
      if message.length ≤ 245 then
        some (key :: UInt8.ofNat message.length ::
          (message ++ List.replicate (254 - message.length) 0))
      else none
    evpPkeyDecrypt := fun key outlen ciphertext ↦
      if outlen < 256 then none else wideRecovered key ciphertext }

theorem wideCipher_contract : wideCipher.DecryptContract wideRecovered where
  room := fun {_ _ outlen} hroom ↦ by
    show (if outlen < 256 then none else _) = none
    exact if_pos hroom
  whole := fun {_ _ outlen} hroom ↦ by
    show (if outlen < 256 then none else _) = _
    exact if_neg (not_lt.mpr hroom)

/-- An `EncryptionContext` packet of the node 7 with the encryption of `count` bytes under the key
named 1. -/
def widePacket (count : ℕ) : Packet :=
  let encrypted := (wideCipher.evpPkeyEncrypt 1 0 (List.replicate count 8)).getD []
  ((Packet.construct (fun _ ↦ 0) .encryptionContext 7 5).writeData encrypted).setLength
    encrypted.length

/-- `keeps_to_slot_iff` for a session key and a length variable with room for the modulus. -/
theorem keeps_to_slot_iff_wide :
    KeepsToSlot wideCipher wideRecovered (some 1) (widePacket 32) (taggedKey 0) 256 ↔
      SuitsPlaintext wideCipher wideRecovered (some 1) (widePacket 32) 256 :=
  keeps_to_slot_iff wideCipher_contract (some 1) (widePacket 32) (taggedKey 0) 256

/-- A plaintext of 245 bytes is written over the slot and 213 bytes more, when the length variable
has room for the modulus; and a session key is refused, when the variable holds zero. -/
theorem not_keepsToSlot :
    ¬ KeepsToSlot wideCipher wideRecovered (some 1) (widePacket 245) (taggedKey 0) 256 ∧
      ¬ KeepsToSlot wideCipher wideRecovered (some 1) (widePacket 32) (taggedKey 0) 0 := by
  constructor
  · intro hkeeps
    have hwritten : (decryptAesContext wideCipher (some 1) (widePacket 245).data
        256).written.length = 245 := by decide +kernel
    have hwithin := hkeeps.within
    rw [hwritten] at hwithin
    omega
  · intro hkeeps
    have hplain : wideRecovered 1 (widePacket 32).data = some (List.replicate 32 8) := by
      decide +kernel
    have hok := (hkeeps.whole 1 _ rfl hplain (List.length_replicate ..)).1
    rw [decryptAesContext_tight wideCipher_contract (by decide)] at hok
    cases hok

end Kapua
