import Kapua.Node.EncryptedFraming

/-!
# The result of `_send`

`_send` compares what `sendto` returns with the length of the packet before encryption. For a packet
that is sent as it is, that is the length of the datagram. An encrypted datagram is longer
(`length_lt_of_sealed`), so that `_send` returns false when all of it was accepted. The result tells
the truth about an encrypted datagram only where `sendto` returns neither length
(`send_truthful_iff`).
-/

set_option autoImplicit false
set_option relaxedAutoImplicit false

namespace Kapua

variable {PKey : Type} (ssl : OpenSSL PKey)

/-- `sendto` accepted the whole of the datagram `_send` built. -/
def SendResult.Whole (result : SendResult) (draw : Draw PKey) : Prop :=
  ∃ out ∈ result.sent, draw.sendto out.bytes = out.bytes.length

/-- `_send` returns true if and only if the whole datagram was accepted. -/
def SendTruthful (node : Option (Node PKey)) (pkt : Packet) (addr : Sockaddr) (draw : Draw PKey) :
    Prop :=
  (send ssl node pkt addr draw).ok = true ↔ (send ssl node pkt addr draw).Whole draw

/-- The record the packet is sent to is one that `_send` encrypts for. -/
def Encrypts (node : Option (Node PKey)) : Prop :=
  ∃ record, node = some record ∧ NodeState.checkEncryption ≤ record.state

variable {ssl} {pkt : Packet} {addr : Sockaddr} {draw : Draw PKey}

/-- An encrypted datagram is longer than the packet. -/
theorem length_lt_of_sealed (hpkcs : ssl.Pkcs7) {context : AESKey} {iv : Vector UInt8 32}
    {buffer : Bytes} (hsealed : aesEncrypt ssl context iv pkt.datagram = some buffer) :
    kapuaHeaderSize + pkt.length < buffer.length := by
  obtain ⟨ciphertext, hseal, rfl⟩ := Option.map_eq_some_iff.mp hsealed
  have hpadded := hpkcs.aes_padded hseal
  have hplain : pkt.datagram.length = kapuaHeaderSize + pkt.length := by simp [Packet.datagram]
  have hblock := Nat.lt_div_mul_add (a := kapuaHeaderSize + pkt.length) (by decide : 0 < 16)
  rw [hplain] at hpadded
  rw [List.length_append, hpadded]
  omega

/-- Without encryption the packet is the datagram, and the result tells the truth. -/
theorem send_truthful_of_plain {node : Option (Node PKey)} (hplain : ¬ Encrypts node) :
    SendTruthful ssl node pkt addr draw := by
  have hlength : (pkt.datagram.length : ℤ) = kapuaHeaderSize + pkt.length := by
    simp [Packet.datagram]
  have hsent : send ssl node pkt addr draw =
      ⟨draw.sendto pkt.datagram == kapuaHeaderSize + pkt.length,
        [⟨addr, pkt.datagram, pkt, none⟩]⟩ := by
    cases node with
    | none => rfl
    | some record =>
      have hstate : ¬ NodeState.checkEncryption ≤ record.state :=
        fun hstate ↦ hplain ⟨record, rfl, hstate⟩
      simp only [send, if_neg hstate]
  unfold SendTruthful SendResult.Whole
  rw [hsent]
  simp [hlength]

/-- Without a datagram there is nothing to accept. -/
theorem send_truthful_of_unsealed {record : Node PKey}
    (hstate : NodeState.checkEncryption ≤ record.state)
    (hfailed : aesEncrypt ssl record.aesContextTx draw.iv pkt.datagram = none) :
    SendTruthful ssl (some record) pkt addr draw := by
  have hsent : send ssl (some record) pkt addr draw = ⟨false, []⟩ := by
    simp only [send, if_pos hstate, hfailed]
  unfold SendTruthful SendResult.Whole
  rw [hsent]
  simp

/-- With encryption the result tells the truth if `sendto` returns both lengths or neither. -/
theorem send_truthful_sealed_iff {record : Node PKey} {buffer : Bytes}
    (hstate : NodeState.checkEncryption ≤ record.state)
    (hsealed : aesEncrypt ssl record.aesContextTx draw.iv pkt.datagram = some buffer) :
    SendTruthful ssl (some record) pkt addr draw ↔
      (draw.sendto buffer = kapuaHeaderSize + pkt.length ↔ draw.sendto buffer = buffer.length) := by
  have hsent : send ssl (some record) pkt addr draw =
      ⟨draw.sendto buffer == kapuaHeaderSize + pkt.length,
        [⟨addr, buffer, pkt, some record.aesContextTx⟩]⟩ := by
    simp only [send, if_pos hstate, hsealed]
  unfold SendTruthful SendResult.Whole
  rw [hsent]
  simp

/-- `_send` tells the truth exactly where the packet is not encrypted, the encryption fails, or
`sendto` returns neither the length of the encrypted datagram nor that of the packet. Assumes: the
cipher pads to blocks of 16 bytes. -/
theorem send_truthful_iff (hpkcs : ssl.Pkcs7) (node : Option (Node PKey)) (pkt : Packet)
    (addr : Sockaddr) (draw : Draw PKey) : SendTruthful ssl node pkt addr draw ↔
      ∀ record buffer, node = some record → NodeState.checkEncryption ≤ record.state →
        aesEncrypt ssl record.aesContextTx draw.iv pkt.datagram = some buffer →
          draw.sendto buffer ≠ buffer.length ∧
            draw.sendto buffer ≠ kapuaHeaderSize + pkt.length := by
  by_cases hencrypts : Encrypts node
  · obtain ⟨record, rfl, hstate⟩ := hencrypts
    cases hsealed : aesEncrypt ssl record.aesContextTx draw.iv pkt.datagram with
    | none =>
      refine iff_of_true (send_truthful_of_unsealed hstate hsealed) ?_
      rintro record' buffer ⟨⟩ - hbuffer
      exact absurd (hsealed.symm.trans hbuffer) (by simp)
    | some buffer =>
      have hlonger : (kapuaHeaderSize + pkt.length : ℤ) < buffer.length := by
        exact_mod_cast length_lt_of_sealed hpkcs hsealed
      rw [send_truthful_sealed_iff hstate hsealed]
      constructor
      · rintro hboth record' buffer' ⟨⟩ - hbuffer
        cases hsealed.symm.trans hbuffer
        refine ⟨fun hwhole ↦ ?_, fun hpacket ↦ ?_⟩
        · exact hlonger.ne ((hboth.mpr hwhole).symm.trans hwhole)
        · exact hlonger.ne (hpacket.symm.trans (hboth.mp hpacket))
      · intro hneither
        obtain ⟨hwhole, hpacket⟩ := hneither record buffer rfl hstate hsealed
        exact iff_of_false hpacket hwhole
  · refine iff_of_true (send_truthful_of_plain hencrypts) ?_
    intro record buffer hnode hstate
    exact absurd ⟨record, hnode, hstate⟩ hencrypts

/-- `send_truthful_iff` for a packet to a record in `checkEncryption`. -/
theorem send_truthful_iff_sealed :
    SendTruthful blockCipher (some sealedNode) (zeroFilled .ready 7 0) ⟨1, 1⟩ (taggedDraw 9) ↔
      ∀ record buffer, some sealedNode = some record → NodeState.checkEncryption ≤ record.state →
        aesEncrypt blockCipher record.aesContextTx (taggedDraw 9).iv
          (zeroFilled .ready 7 0).datagram = some buffer →
        (taggedDraw 9).sendto buffer ≠ buffer.length ∧
          (taggedDraw 9).sendto buffer ≠ kapuaHeaderSize + (zeroFilled .ready 7 0).length :=
  send_truthful_iff blockCipher_pkcs7 _ _ _ _

/-- A `Ready` packet is encrypted and accepted whole, and `_send` returns false. -/
theorem not_send_truthful : ¬ ∀ (node : Option (Node UInt8)) (pkt : Packet) (addr : Sockaddr)
    (draw : Draw UInt8), SendTruthful blockCipher node pkt addr draw := by
  intro htruthful
  have hready := htruthful (some sealedNode) (zeroFilled .ready 7 0) ⟨1, 1⟩ (taggedDraw 9)
  obtain ⟨out, hsent⟩ := exists_sent_sealedNode (zeroFilled .ready 7 0) ⟨1, 1⟩ (taggedDraw 9)
  have htrue := hready.mpr ⟨out, hsent, rfl⟩
  exact absurd htrue (by decide +kernel)

end Kapua
