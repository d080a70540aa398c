import Kapua.Foundation.BlockPadding
import Kapua.Node.PacketFront
import Kapua.Node.TaggedCipher

/-!
# Encrypted datagrams

To a record that has reached `checkEncryption`, `_send` sends 32 random bytes and the ciphertext of
header and data. Nothing in the datagram says that it is encrypted: `_receive` takes it for
plaintext when it begins with the magic number, which the random bytes can do, and decrypts it
otherwise. `roundTrip_iff` says when the packet survives, `sealed_fits_iff` when the datagram fits
the buffers on both sides, which are sized for the format without encryption.

`blockCipher` is an instance of the library whose ciphertexts have the length AES-CBC gives them.
-/

set_option autoImplicit false
set_option relaxedAutoImplicit false

namespace Kapua

variable {PKey : Type} {ssl : OpenSSL PKey}

/-! ### A cipher that pads to blocks -/

/-- The cipher that pads to blocks of 16 bytes and masks every byte with the first byte of the
key. -/
def blockCipher : OpenSSL UInt8 :=
  { tagged with
    aes256CbcEncrypt := fun key _ plaintext ↦
      some ((BlockPadding.pad 16 plaintext).map (· ^^^ key.key[0]))
    aes256CbcDecrypt := fun key _ ciphertext ↦
      BlockPadding.unpad 16 (ciphertext.map (· ^^^ key.key[0])) }

theorem blockCipher_pkcs7 : blockCipher.Pkcs7 where
  aes_undo := by
    intro key iv plaintext ciphertext hencrypt
    simp only [blockCipher, Option.some.injEq] at hencrypt ⊢
    subst hencrypt
    have hmask : (fun byte ↦ byte ^^^ key.key[0]) ∘ (fun byte ↦ byte ^^^ key.key[0]) = id := by
      funext byte
      show byte ^^^ key.key[0] ^^^ key.key[0] = byte
      rw [UInt8.xor_assoc, UInt8.xor_self, UInt8.xor_zero]
    rw [List.map_map, hmask, List.map_id]
    exact BlockPadding.unpad_pad (by decide) (by decide) plaintext
  aes_padded := by
    intro key iv plaintext ciphertext hencrypt
    simp only [blockCipher, Option.some.injEq] at hencrypt
    subst hencrypt
    rw [List.length_map, BlockPadding.length_pad (by decide)]

/-! ### What an encrypted datagram consists of -/

/-- A record that has reached `checkEncryption` is sent the random bytes and the ciphertext of
header and data. -/
theorem mem_sent_sealed {node : Node PKey} (hstate : NodeState.checkEncryption ≤ node.state)
    {pkt : Packet} {addr : Sockaddr} {draw : Draw PKey} {out : Sent}
    (hsent : out ∈ (send ssl (some node) pkt addr draw).sent) : ∃ ciphertext,
      ssl.aes256CbcEncrypt node.aesContextTx (draw.iv.toList.take 16) pkt.datagram =
        some ciphertext ∧ out.bytes = draw.iv.toList ++ ciphertext := by
  simp only [send, if_pos hstate, aesEncrypt] at hsent
  cases hseal : ssl.aes256CbcEncrypt node.aesContextTx (draw.iv.toList.take 16) pkt.datagram with
  | none => simp [hseal] at hsent
  | some ciphertext =>
    simp only [hseal, Option.map_some, List.mem_singleton] at hsent
    exact ⟨ciphertext, rfl, by rw [hsent]⟩

/-- The random bytes, the ciphertext and the padding of a packet. -/
theorem length_sealed (hpkcs : ssl.Pkcs7) {node : Node PKey}
    (hstate : NodeState.checkEncryption ≤ node.state) {pkt : Packet} {addr : Sockaddr}
    {draw : Draw PKey} {out : Sent} (hsent : out ∈ (send ssl (some node) pkt addr draw).sent) :
    out.bytes.length = 32 + ((kapuaHeaderSize + pkt.length) / 16 + 1) * 16 := by
  obtain ⟨ciphertext, hseal, hbytes⟩ := mem_sent_sealed hstate hsent
  rw [hbytes, List.length_append, hpkcs.aes_padded hseal]
  simp [Packet.datagram]

variable (ssl) in
/-- What arrives of an encrypted datagram. -/
theorem sealed_arrives (s : LoopState PKey) (draw : Draw PKey) (addr : Sockaddr)
    {iv : Vector UInt8 32} {ciphertext bytes : Bytes} (hbytes : bytes = iv.toList ++ ciphertext)
    (hfits : bytes.length ≤ kapuaMaxPacketSize) :
    (arrivedDatagram s addr bytes draw).size = 32 + ciphertext.length ∧
    (arrivedDatagram s addr bytes draw).pkt.magic = iv.toList.take 5 ∧
    (arrivedDatagram s addr bytes draw).pkt 5 = iv[5] ∧
    ∀ key, aesDecrypt ssl key ((arrivedDatagram s addr bytes draw).pkt.slice 0
      (arrivedDatagram s addr bytes draw).size) =
        ssl.aes256CbcDecrypt key (iv.toList.take 16) ciphertext := by
  have hwhole : bytes.take kapuaMaxPacketSize = bytes := List.take_of_length_le hfits
  have hiv : iv.toList.length = 32 := by simp
  simp only [arrivedDatagram, hwhole]
  refine ⟨by simp [hbytes], ?_, ?_, fun key ↦ ?_⟩
  · rw [Packet.magic, Memory.slice_write_inside _ (Nat.zero_le _) (by simp [hbytes]; omega)]
    simp [hbytes, List.take_append_of_le_length]
  · rw [Memory.write_of_mem _ (Nat.zero_le _) (by simp [hbytes]; omega)]
    simp [hbytes]
  · rw [Memory.slice_write_self, aesDecrypt, hbytes, List.take_append_of_le_length (by simp),
      List.drop_append_of_le_length (by simp), List.drop_of_length_le (by simp), List.nil_append]

/-! ### The buffers -/

/-- A datagram fits: `_send` assembles it within `crypt_buffer`, and whoever receives it, with
whatever in its packet buffer, gets all of it. -/
def FitsBuffers (PKey : Type) (bytes : Bytes) : Prop :=
  bytes.length ≤ kapuaMaxPacketSize ∧
    ∀ (s : LoopState PKey) (addr : Sockaddr) (draw : Draw PKey),
      (arrivedDatagram s addr bytes draw).pkt.slice 0 (arrivedDatagram s addr bytes draw).size =
        bytes

/-- `recvfrom` delivers the front of a datagram that the packet buffer has room for. -/
theorem slice_arrivedDatagram (s : LoopState PKey) (addr : Sockaddr) (bytes : Bytes)
    (draw : Draw PKey) :
    (arrivedDatagram s addr bytes draw).pkt.slice 0 (arrivedDatagram s addr bytes draw).size =
      bytes.take kapuaMaxPacketSize :=
  Memory.slice_write_self _ 0 _

/-- A datagram as long as the packet buffer arrives whole. -/
theorem fitsBuffers_iff (bytes : Bytes) :
    FitsBuffers PKey bytes ↔ bytes.length ≤ kapuaMaxPacketSize := by
  constructor
  · exact And.left
  · intro hlength
    refine ⟨hlength, fun s addr draw ↦ ?_⟩
    rw [slice_arrivedDatagram, List.take_of_length_le hlength]

/-- An encrypted datagram fits the buffers exactly when the packet carries at most 1361 bytes of
data. Assumes: the cipher pads to blocks of 16 bytes, and a record that has reached
`checkEncryption`. -/
theorem sealed_fits_iff (hpkcs : ssl.Pkcs7) {node : Node PKey}
    (hstate : NodeState.checkEncryption ≤ node.state) {pkt : Packet} {addr : Sockaddr}
    {draw : Draw PKey} {out : Sent} (hsent : out ∈ (send ssl (some node) pkt addr draw).sent) :
    FitsBuffers PKey out.bytes ↔ pkt.length ≤ 1361 := by
  have hlength := length_sealed hpkcs hstate hsent
  rw [fitsBuffers_iff, hlength]
  simp only [kapuaHeaderSize, kapuaMaxPacketSize]
  -- 88 blocks are the most that fit behind the random bytes
  have hblocks : 32 + ((46 + pkt.length) / 16 + 1) * 16 ≤ 1450 ↔ (46 + pkt.length) / 16 < 88 := by
    omega
  rw [hblocks, Nat.div_lt_iff_lt_mul (by decide)]
  omega

/-- A packet of the given type with `count` zero bytes of data. -/
def zeroFilled (type : PacketType) (fromId : UInt64) (count : ℕ) : Packet :=
  ((Packet.construct (fun _ ↦ 0) type fromId kapuaIdBroadcast).writeData
    (List.replicate count 0)).setLength count

/-- Zeroed storage for a record in `checkEncryption`. -/
def sealedNode : Node UInt8 := { taggedNode with state := .checkEncryption }

/-- The length of a packet filled with zero bytes. Assumes: it fits the 16-bit field. -/
theorem length_zeroFilled (type : PacketType) (fromId : UInt64) {count : ℕ}
    (hcount : count < 65536) : (zeroFilled type fromId count).length = count := by
  have hfilled := (Packet.isHeader_construct (fun _ ↦ 0) type fromId kapuaIdBroadcast).withData
    (by simpa using hcount : (List.replicate count (0 : UInt8)).length < 65536)
  simpa [zeroFilled] using hfilled.length

/-- A record in `checkEncryption` is sent a datagram. -/
theorem exists_sent_sealedNode (pkt : Packet) (addr : Sockaddr) (draw : Draw UInt8) :
    ∃ out, out ∈ (send blockCipher (some sealedNode) pkt addr draw).sent := by
  have hstate : NodeState.checkEncryption ≤ sealedNode.state := by decide
  refine ⟨⟨addr, draw.iv.toList ++ (BlockPadding.pad 16 pkt.datagram).map
    (· ^^^ sealedNode.aesContextTx.key[0]), pkt, some sealedNode.aesContextTx⟩, ?_⟩
  simp [send, hstate, aesEncrypt, blockCipher]

/-- `sealed_fits_iff` for a packet without data. -/
theorem sealed_fits_iff_empty : ∃ out ∈ (send blockCipher (some sealedNode)
      (zeroFilled .ready 7 0) ⟨1, 1⟩ (taggedDraw 9)).sent,
    FitsBuffers UInt8 out.bytes ↔ (zeroFilled .ready 7 0).length ≤ 1361 := by
  obtain ⟨out, hsent⟩ := exists_sent_sealedNode (zeroFilled .ready 7 0) ⟨1, 1⟩ (taggedDraw 9)
  exact ⟨out, hsent, sealed_fits_iff blockCipher_pkcs7 (by decide) hsent⟩

/-- A packet with as much data as the format allows does not fit when it is encrypted. -/
theorem not_fitsBuffers : (zeroFilled .ready 7 kapuaMaxDataSize).length ≤ kapuaMaxDataSize ∧
    ∃ out ∈ (send blockCipher (some sealedNode) (zeroFilled .ready 7 kapuaMaxDataSize) ⟨1, 1⟩
      (taggedDraw 9)).sent, ¬ FitsBuffers UInt8 out.bytes := by
  have hlength := length_zeroFilled .ready 7 (show kapuaMaxDataSize < 65536 by decide)
  obtain ⟨out, hsent⟩ := exists_sent_sealedNode (zeroFilled .ready 7 kapuaMaxDataSize) ⟨1, 1⟩
    (taggedDraw 9)
  refine ⟨hlength.le, out, hsent, fun hfits ↦ ?_⟩
  have hsealed := length_sealed blockCipher_pkcs7 (by decide) hsent
  rw [hlength] at hsealed
  have htoolong := hfits.1
  simp only [hsealed, kapuaHeaderSize, kapuaMaxDataSize, kapuaMaxPacketSize] at htoolong
  omega

/-! ### The round trip -/

/-- The leading bytes of an encrypted datagram do not begin with the magic number. -/
def Unmarked (iv : Vector UInt8 32) : Prop := iv.toList.take 5 ≠ kapuaMagicNumber

variable (ssl) in
/-- The encrypted datagram happens to begin with the packet itself: the random bytes are the first
bytes of the packet, and its encryption begins with the rest. -/
def Mimics (key : AESKey) (iv : Vector UInt8 32) (pkt : Packet) : Prop :=
  iv.toList = pkt.slice 0 32 ∧ ∃ ciphertext,
    ssl.aes256CbcEncrypt key (iv.toList.take 16) pkt.datagram = some ciphertext ∧
      ciphertext.take (14 + pkt.length) = pkt.slice 32 (14 + pkt.length)

variable (ssl) in
/-- `_receive` returns true on the datagram and hands on a packet with the header and the data of
the given one. -/
def HandsOn (s : LoopState PKey) (addr : Sockaddr) (bytes : Bytes) (draw : Draw PKey)
    (pkt : Packet) : Prop :=
  (receive ssl s (.datagram addr bytes) draw).accepted = true ∧
    (receive ssl s (.datagram addr bytes) draw).loop.pkt.slice 0 kapuaHeaderSize =
      pkt.slice 0 kapuaHeaderSize ∧
    (receive ssl s (.datagram addr bytes) draw).loop.pkt.data = pkt.data

/-- Header and data are equal when the packets have the same front. -/
theorem header_data_eq_iff (pkt pkt' : Packet) :
    pkt'.slice 0 kapuaHeaderSize = pkt.slice 0 kapuaHeaderSize ∧ pkt'.data = pkt.data ↔
      pkt'.slice 0 (kapuaHeaderSize + pkt.length) = pkt.datagram := by
  have hsplit (memory : Memory) (count : ℕ) : memory.slice 0 (kapuaHeaderSize + count) =
      memory.slice 0 kapuaHeaderSize ++ memory.slice kapuaHeaderSize count := by
    rw [← List.take_append_drop kapuaHeaderSize (memory.slice 0 (kapuaHeaderSize + count)),
      Memory.take_slice _ (Nat.le_add_right _ _), Memory.drop_slice, Nat.zero_add,
      Nat.add_sub_cancel_left]
  have hfield (first second : Packet)
      (h : first.slice 0 kapuaHeaderSize = second.slice 0 kapuaHeaderSize) :
      first.length = second.length := by
    have hlast := congrArg (List.drop 44) h
    rw [Memory.drop_slice, Memory.drop_slice] at hlast
    exact congrArg leNat hlast
  rw [Packet.datagram, hsplit, hsplit]
  constructor
  · rintro ⟨hheader, hdata⟩
    rw [Packet.data, Packet.data, hfield _ _ hheader] at hdata
    rw [hheader, hdata]
  · intro h
    obtain ⟨hheader, hdata⟩ := List.append_inj h (by simp)
    rw [Packet.data, Packet.data, hfield _ _ hheader]
    exact ⟨hheader, hdata⟩

/-- A packet with the front of one the program builds passes the header checks of every node but
its sender. -/
theorem Packet.Built.passes {pkt pkt' : Packet} (hpkt : pkt.Built) {myId : UInt64}
    (hforeign : pkt.fromId ≠ myId) {front size : ℕ} (hfront : SameFront front pkt' pkt)
    (hheader : kapuaHeaderSize ≤ front) (hsize : kapuaHeaderSize ≤ size) :
    pkt'.checkMagicValid = true ∧ passesHeader myId pkt' size = true := by
  refine ⟨(hfront.checkMagicValid_eq hheader).trans hpkt.magic, ?_⟩
  have hpasses : passesHeader myId pkt front = true := by
    simp [passesHeader, hheader, hpkt.version, hforeign]
  rw [← hfront.passesHeader_eq hheader] at hpasses
  simp only [passesHeader, hheader, hsize, decide_true, Bool.true_and] at hpasses ⊢
  exact hpasses

/-- The front of what arrives is the front of the datagram. -/
theorem front_arrivedDatagram (s : LoopState PKey) (addr : Sockaddr) {bytes : Bytes}
    (draw : Draw PKey) {count : ℕ} (hcount : count ≤ bytes.length)
    (hfits : bytes.length ≤ kapuaMaxPacketSize) :
    (arrivedDatagram s addr bytes draw).pkt.slice 0 count = bytes.take count := by
  have hwhole := slice_arrivedDatagram s addr bytes draw
  rw [List.take_of_length_le hfits] at hwhole
  have hsize : (arrivedDatagram s addr bytes draw).size = bytes.length := by
    simp [arrivedDatagram, hfits]
  rw [hsize] at hwhole
  rw [← Memory.take_slice _ hcount, hwhole]

/-- A datagram that begins with 32 random bytes begins with the packet exactly when these are the
packet's first bytes and what follows them is the rest. -/
theorem take_eq_datagram_iff {iv : Vector UInt8 32} {ciphertext : Bytes} {pkt : Packet} :
    (iv.toList ++ ciphertext).take (kapuaHeaderSize + pkt.length) = pkt.datagram ↔
      iv.toList = pkt.slice 0 32 ∧
        ciphertext.take (14 + pkt.length) = pkt.slice 32 (14 + pkt.length) := by
  have hcount : kapuaHeaderSize + pkt.length = 32 + (14 + pkt.length) := by
    simp only [kapuaHeaderSize]
    omega
  have hiv : iv.toList.length = 32 := by simp
  have hsplit : pkt.datagram = pkt.slice 0 32 ++ pkt.slice 32 (14 + pkt.length) := by
    rw [Packet.datagram, hcount, ← List.take_append_drop 32 (pkt.slice 0 _),
      Memory.take_slice _ (Nat.le_add_right _ _), Memory.drop_slice, Nat.zero_add,
      Nat.add_sub_cancel_left]
  rw [hsplit, hcount, List.take_append, List.take_of_length_le (by omega), hiv,
    Nat.add_sub_cancel_left]
  constructor
  · intro h
    exact List.append_inj h (by simp)
  · rintro ⟨hfirst, hrest⟩
    rw [hfirst, hrest]

/-- Handing on a packet, in terms of the checks. -/
theorem handsOn_iff (s : LoopState PKey) (addr : Sockaddr) (bytes : Bytes) (draw : Draw PKey)
    (pkt : Packet) : HandsOn ssl s addr bytes draw pkt ↔
      (screened ssl s (arrivedDatagram s addr bytes draw)).accepted = true ∧
        (screened ssl s (arrivedDatagram s addr bytes draw)).pkt.slice 0
          (kapuaHeaderSize + pkt.length) = pkt.datagram := by
  have hrecv := recvfrom_datagram s addr bytes draw
  rw [HandsOn, receive_accepted hrecv, receive_pkt hrecv, header_data_eq_iff]

section RoundTrip

variable {node record : Node PKey} {pkt : Packet} {addr source : Sockaddr} {draw : Draw PKey}
  {out : Sent} {s : LoopState PKey} (hpkcs : ssl.Pkcs7) (hpkt : pkt.Built)
  (hsender : NodeState.checkEncryption ≤ node.state)
  (hsent : out ∈ (send ssl (some node) pkt addr draw).sent)
  (hfits : out.bytes.length ≤ kapuaMaxPacketSize)
  (hforeign : pkt.fromId ≠ s.core.myId) (draw' : Draw PKey)

include hpkcs hpkt hsender hsent hfits hforeign

/-- A packet that was sent encrypted is decrypted and handed on when the random bytes do not begin
with the magic number. -/
theorem handsOn_of_unmarked (hpeer : s.core.peer source = some record)
    (hreceiver : NodeState.checkEncryption ≤ record.state)
    (hkey : record.aesContextRx = node.aesContextTx) (hmarked : Unmarked draw.iv) :
    HandsOn ssl s source out.bytes draw' pkt := by
  obtain ⟨ciphertext, hseal, hbytes⟩ := mem_sent_sealed hsender hsent
  obtain ⟨hsize, hmagic, -, hopen⟩ := sealed_arrives ssl s draw' source hbytes hfits
  have hlength := hpkcs.aes_padded hseal
  have hheader : kapuaHeaderSize ≤ (arrivedDatagram s source out.bytes draw').size := by
    rw [hsize, hlength]
    simp only [kapuaHeaderSize]
    omega
  have hraw : (arrivedDatagram s source out.bytes draw').pkt.checkMagicValid = false := by
    rw [Packet.checkMagicValid, hmagic]
    exact beq_false_of_ne hmarked
  have hplain := (hopen record.aesContextRx).trans (hkey ▸ hpkcs.aes_undo hseal)
  have hfront : SameFront (kapuaHeaderSize + pkt.length)
      ((arrivedDatagram s source out.bytes draw').pkt.write 0 pkt.datagram) pkt :=
    sameFront_write _ pkt _
  obtain ⟨hvalid, hpasses⟩ := hpkt.passes hforeign hfront (Nat.le_add_right _ _) hheader
  have haccepted : Acceptance ssl s (arrivedDatagram s source out.bytes draw') _ pkt.datagram :=
    .decrypted hraw hpeer hreceiver hplain rfl hvalid hpasses
  rw [handsOn_iff, haccepted.screened_eq.2]
  exact ⟨haccepted.screened_eq.1, hfront.slice_eq (by omega)⟩

/-- A packet that was sent encrypted behind random bytes that begin with the magic number is taken
for plaintext, and is handed on exactly when the datagram begins with the packet. -/
theorem handsOn_iff_of_marked (hmarked : ¬ Unmarked draw.iv) :
    HandsOn ssl s source out.bytes draw' pkt ↔ Mimics ssl node.aesContextTx draw.iv pkt := by
  obtain ⟨ciphertext, hseal, hbytes⟩ := mem_sent_sealed hsender hsent
  obtain ⟨hsize, hmagic, -, -⟩ := sealed_arrives ssl s draw' source hbytes hfits
  have hlength := hpkcs.aes_padded hseal
  have hlong : kapuaHeaderSize + pkt.length ≤ ciphertext.length := by
    simp only [hlength, Packet.datagram, Memory.length_slice, kapuaHeaderSize]
    omega
  have hheader : kapuaHeaderSize ≤ (arrivedDatagram s source out.bytes draw').size := by omega
  have hraw : (arrivedDatagram s source out.bytes draw').pkt.checkMagicValid = true := by
    rw [Packet.checkMagicValid, hmagic, not_not.mp hmarked]
    exact beq_self_eq_true _
  have hplain : screened ssl s (arrivedDatagram s source out.bytes draw') = _ :=
    screen_plain ssl s.core.myId (Or.inl hraw) _
  have hdelivered : (arrivedDatagram s source out.bytes draw').pkt.slice 0
      (kapuaHeaderSize + pkt.length) = out.bytes.take (kapuaHeaderSize + pkt.length) :=
    front_arrivedDatagram s source draw' (by rw [hbytes, List.length_append]; omega) hfits
  have hmimics : Mimics ssl node.aesContextTx draw.iv pkt ↔
      out.bytes.take (kapuaHeaderSize + pkt.length) = pkt.datagram := by
    rw [hbytes, take_eq_datagram_iff, Mimics, hseal]
    simp only [Option.some.injEq, exists_eq_left']
  rw [handsOn_iff, hplain, hmimics, ← hdelivered]
  constructor
  · exact And.right
  · intro hslice
    have hfront := sameFront_iff.mpr hslice
    exact ⟨(hpkt.passes hforeign hfront (Nat.le_add_right _ _) hheader).2, hslice⟩

end RoundTrip

/-- A packet that was sent encrypted is handed on exactly when the random bytes do not begin with
the magic number, or the datagram happens to begin with the packet itself. Assumes: the cipher is
AES-CBC with its padding, a packet the program builds, a datagram that fits, records on both sides
that have reached `checkEncryption` and hold the same session key, and a receiver with another
id. -/
theorem roundTrip_iff (hpkcs : ssl.Pkcs7) {pkt : Packet} (hpkt : pkt.Built)
    {node record : Node PKey} (hsender : NodeState.checkEncryption ≤ node.state)
    {addr source : Sockaddr} {draw : Draw PKey} {out : Sent}
    (hsent : out ∈ (send ssl (some node) pkt addr draw).sent)
    (hfits : out.bytes.length ≤ kapuaMaxPacketSize) {s : LoopState PKey}
    (hpeer : s.core.peer source = some record)
    (hreceiver : NodeState.checkEncryption ≤ record.state)
    (hkey : record.aesContextRx = node.aesContextTx) (hforeign : pkt.fromId ≠ s.core.myId)
    (draw' : Draw PKey) : HandsOn ssl s source out.bytes draw' pkt ↔
      Unmarked draw.iv ∨ Mimics ssl node.aesContextTx draw.iv pkt := by
  by_cases hmarked : Unmarked draw.iv
  · have hhands := handsOn_of_unmarked hpkcs hpkt hsender hsent hfits hforeign draw' hpeer
      hreceiver hkey hmarked
    exact iff_of_true hhands (Or.inl hmarked)
  · rw [handsOn_iff_of_marked hpkcs hpkt hsender hsent hfits hforeign draw' hmarked]
    exact (or_iff_right hmarked).symm

theorem built_zeroFilled (type : PacketType) (fromId : UInt64) (count : ℕ) :
    (zeroFilled type fromId count).Built :=
  .length (.data (.directed _ type fromId _) _) count

/-- A loop of the node 5 with a record in `checkEncryption` for one address. -/
def sealedLoop : LoopState UInt8 where
  core := ⟨5, ⟨some 1, some 1⟩, fun _ ↦ none, fun addr ↦ if addr = ⟨1, 1⟩ then some 0 else none,
    fun _ ↦ sealedNode, 1⟩
  pkt := fun _ ↦ 0
  fromAddr := ⟨0, 0⟩

/-- `taggedDraw` with leading bytes that begin with the magic number. -/
def markedDraw (byte : UInt8) : Draw UInt8 :=
  { taggedDraw byte with iv := Vector.ofFn fun i ↦ kapuaMagicNumber.getD i 0 }

/-- A bare packet for a record in `checkEncryption` is sent in a datagram that fits. -/
theorem exists_sent_ready (draw : Draw UInt8) :
    ∃ out ∈ (send blockCipher (some sealedNode) (zeroFilled .ready 7 0) ⟨1, 1⟩ draw).sent,
      out.bytes.length ≤ kapuaMaxPacketSize := by
  obtain ⟨out, hsent⟩ := exists_sent_sealedNode (zeroFilled .ready 7 0) ⟨1, 1⟩ draw
  refine ⟨out, hsent, ?_⟩
  rw [length_sealed blockCipher_pkcs7 (by decide) hsent, length_zeroFilled .ready 7 (by decide)]
  decide

/-- `roundTrip_iff` for a `Ready` behind random bytes that are all ones. -/
theorem roundTrip_iff_ready : ∃ out ∈ (send blockCipher (some sealedNode) (zeroFilled .ready 7 0)
      ⟨1, 1⟩ (taggedDraw 9)).sent,
    HandsOn blockCipher sealedLoop ⟨1, 1⟩ out.bytes (taggedDraw 9) (zeroFilled .ready 7 0) ↔
      Unmarked (taggedDraw 9).iv ∨
        Mimics blockCipher sealedNode.aesContextTx (taggedDraw 9).iv (zeroFilled .ready 7 0) := by
  obtain ⟨out, hsent, hfits⟩ := exists_sent_ready (taggedDraw 9)
  have hpeer : sealedLoop.core.peer ⟨1, 1⟩ = some sealedNode := rfl
  have hforeign : (zeroFilled .ready 7 0).fromId ≠ sealedLoop.core.myId := by decide +kernel
  exact ⟨out, hsent, roundTrip_iff blockCipher_pkcs7 (built_zeroFilled .ready 7 0) (by decide)
    hsent hfits hpeer (by decide) rfl hforeign (taggedDraw 9)⟩

/-- A `Ready` behind random bytes that begin with the magic number is not handed on. -/
theorem not_handsOn : ∃ out ∈ (send blockCipher (some sealedNode) (zeroFilled .ready 7 0) ⟨1, 1⟩
      (markedDraw 9)).sent,
    out.bytes.length ≤ kapuaMaxPacketSize ∧ sealedLoop.core.peer ⟨1, 1⟩ = some sealedNode ∧
      (zeroFilled .ready 7 0).fromId ≠ sealedLoop.core.myId ∧
      ¬ HandsOn blockCipher sealedLoop ⟨1, 1⟩ out.bytes (taggedDraw 9) (zeroFilled .ready 7 0) := by
  obtain ⟨out, hsent, hfits⟩ := exists_sent_ready (markedDraw 9)
  have hforeign : (zeroFilled .ready 7 0).fromId ≠ sealedLoop.core.myId := by decide +kernel
  have hmarked : ¬ Unmarked (markedDraw 9).iv := by
    unfold Unmarked
    decide +kernel
  have hdiffers : (markedDraw 9).iv.toList ≠ (zeroFilled .ready 7 0).slice 0 32 := by
    decide +kernel
  refine ⟨out, hsent, hfits, rfl, hforeign, ?_⟩
  rw [handsOn_iff_of_marked blockCipher_pkcs7 (built_zeroFilled .ready 7 0) (by decide) hsent hfits
    hforeign (taggedDraw 9) hmarked]
  exact fun hmimics ↦ hdiffers hmimics.1

end Kapua
