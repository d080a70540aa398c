import Kapua.Crypto.OpenSSL

/-!
# The packet

`struct Packet` of `Protocol.hpp`, with the constants of `Protocol.hpp` and `Kapua.hpp`. The struct
is packed, and the program reinterprets it as the datagram buffer, so a packet here is the memory
from the object's first byte on and every field is a slice at its offset; multi-byte fields are in
host order, little-endian. The object ends at `kapuaMaxPacketSize`; what a read with an unchecked
length finds behind it is part of the same memory.

A constructor writes some fields into storage it is given and leaves the rest of that storage
alone: `packetId` and `requestId` are never assigned. `construct` is the chain of constructors the
program uses; `IsHeader` collects what a receiver checks of the result and `isHeader_construct`
shows that the constructors establish it.
-/

set_option autoImplicit false
set_option relaxedAutoImplicit false

namespace Kapua

/-- `KAPUA_MAX_PACKET_SIZE`. -/
@[reducible, simp] def kapuaMaxPacketSize : ℕ := 1450

/-- `KAPUA_HEADER_SIZE`. -/
@[reducible, simp] def kapuaHeaderSize : ℕ := 46

/-- `KAPUA_MAX_DATA_SIZE`. -/
@[reducible, simp] def kapuaMaxDataSize : ℕ := kapuaMaxPacketSize - kapuaHeaderSize

/-- `KAPUA_ID_BROADCAST`. -/
def kapuaIdBroadcast : UInt64 := 0xFFFFFFFFFFFFFFFF

/-- `KAPUA_MAGIC_NUMBER`. -/
def kapuaMagicNumber : Bytes := [0x4B, 0x61, 0x70, 0x75, 0x61]

/-- `KapuaVersion`. -/
structure KapuaVersion where
  major : UInt8
  minor : UInt8
  patch : UInt8
  deriving DecidableEq

/-- `KAPUA_VERSION`. -/
def kapuaVersion : KapuaVersion := ⟨0x00, 0x00, 0x01⟩

/-- `Packet::PacketType`. -/
inductive PacketType
  | ping
  | publicKeyRequest
  | publicKeyReply
  | encryptionContext
  | ready
  | discovery
  deriving DecidableEq

/-- The `uint16_t` an enumerator stands for. -/
def PacketType.code : PacketType → ℕ
  | ping => 0
  | publicKeyRequest => 1
  | publicKeyReply => 2
  | encryptionContext => 3
  | ready => 4
  | discovery => 0xFFFF

/-- The enumerator a received `uint16_t` stands for; a value outside the enumeration reaches the
`default` case of the program's switches. -/
def PacketType.ofCode (code : ℕ) : Option PacketType :=
  if code = 0 then some ping
  else if code = 1 then some publicKeyRequest
  else if code = 2 then some publicKeyReply
  else if code = 3 then some encryptionContext
  else if code = 4 then some ready
  else if code = 0xFFFF then some discovery
  else none

theorem PacketType.ofCode_code (type : PacketType) : PacketType.ofCode type.code = some type := by
  cases type <;> rfl

theorem PacketType.code_lt (type : PacketType) : type.code < 256 ^ 2 := by
  cases type <;> decide

/-- A packet: the memory from the start of a `Packet` object on. -/
abbrev Packet := Memory

namespace Packet

/-! ### Fields -/

/-- `magic`. -/
def magic (pkt : Packet) : Bytes := pkt.slice 0 5

/-- `version`. -/
def version (pkt : Packet) : KapuaVersion := ⟨pkt 5, pkt 6, pkt 7⟩

/-- `type`, `none` for a value outside the enumeration. -/
def type (pkt : Packet) : Option PacketType := PacketType.ofCode (leNat (pkt.slice 8 2))

/-- `packet_id`. -/
def packetId (pkt : Packet) : UInt64 := UInt64.ofNat (leNat (pkt.slice 10 8))

/-- `from_id`. -/
def fromId (pkt : Packet) : UInt64 := UInt64.ofNat (leNat (pkt.slice 18 8))

/-- `to_id`. -/
def toId (pkt : Packet) : UInt64 := UInt64.ofNat (leNat (pkt.slice 26 8))

/-- `ttl`. -/
def ttl (pkt : Packet) : ℕ := leNat (pkt.slice 34 2)

/-- `request_id`. -/
def requestId (pkt : Packet) : UInt64 := UInt64.ofNat (leNat (pkt.slice 36 8))

/-- `length`. -/
def length (pkt : Packet) : ℕ := leNat (pkt.slice 44 2)

/-- The bytes a reader that trusts `length` takes from `data`. -/
def data (pkt : Packet) : Bytes := pkt.slice kapuaHeaderSize pkt.length

/-- The bytes `_send` takes from the object, the header and `length` bytes of data. -/
def datagram (pkt : Packet) : Bytes := pkt.slice 0 (kapuaHeaderSize + pkt.length)

/-! ### Methods -/

/-- `Packet::Packet(PacketType, uint64_t, uint64_t)` on the given storage: the member initialisers
of `ttl` and `length`, the assignments of the default constructor, then those of the two
constructors that delegate to it. -/
def construct (storage : Memory) (type : PacketType) (fromId toId : UInt64) : Packet :=
  let initialised := (storage.write 34 (leBytes 2 32)).write 44 (leBytes 2 0)
  let default := ((initialised.write 0 kapuaMagicNumber).write 5
    [kapuaVersion.major, kapuaVersion.minor, kapuaVersion.patch]).write 44 (leBytes 2 0)
  let typed := (default.write 8 (leBytes 2 type.code)).write 18 (leBytes 8 fromId.toNat)
  let broadcast := typed.write 26 (leBytes 8 kapuaIdBroadcast.toNat)
  broadcast.write 26 (leBytes 8 toId.toNat)

/-- `Packet::Packet()` on the given storage. -/
def constructDefault (storage : Memory) : Packet :=
  let initialised := (storage.write 34 (leBytes 2 32)).write 44 (leBytes 2 0)
  ((initialised.write 0 kapuaMagicNumber).write 5
    [kapuaVersion.major, kapuaVersion.minor, kapuaVersion.patch]).write 44 (leBytes 2 0)

/-- `Packet::Packet(PacketType, uint64_t)` on the given storage. -/
def constructBroadcast (storage : Memory) (type : PacketType) (fromId : UInt64) : Packet :=
  (((constructDefault storage).write 8 (leBytes 2 type.code)).write 18
    (leBytes 8 fromId.toNat)).write 26 (leBytes 8 kapuaIdBroadcast.toNat)

/-- `Packet::Packet(PacketType, uint64_t, uint64_t, uint64_t)` on the given storage, the only
constructor that assigns `request_id`. -/
def constructReply (storage : Memory) (type : PacketType) (fromId toId requestId : UInt64) :
    Packet :=
  (construct storage type fromId toId).write 36 (leBytes 8 requestId.toNat)

/-- Assignment to `length`, which keeps the low 16 bits. -/
def setLength (pkt : Packet) (len : ℕ) : Packet := pkt.write 44 (leBytes 2 len)

/-- A copy into `data`. -/
def writeData (pkt : Packet) (bytes : Bytes) : Packet := pkt.write kapuaHeaderSize bytes

/-- `Packet::check_magic_valid`. -/
def checkMagicValid (pkt : Packet) : Bool := pkt.magic == kapuaMagicNumber

/-- `Packet::check_version_valid` with `strict` at its default. -/
def checkVersionValid (pkt : Packet) : Bool := pkt.version.major == kapuaVersion.major

section Keys

variable {PKey : Type} (ssl : OpenSSL PKey)

/-- `Packet::write_public_key`; an error is the text of the `runtime_error` it throws. The source
calls `i2d_PublicKey` twice, for the length and for the bytes; its third error, a second length
that differs, cannot arise from one encoding. -/
def writePublicKey (pkt : Packet) (keyPair : KeyPair PKey) : Except String Packet :=
  match keyPair.publicKey with
  | none => .error "Public key is null"
  | some key =>
    match ssl.i2dPublicKey key with
    | none => .error "Failed to get the length of the public key"
    | some encoded =>
      if encoded.length = 0 then .error "Failed to get the length of the public key"
      else if kapuaMaxDataSize < encoded.length then
        .error "Length of encoded public key is larger than KAPUA_MAX_DATA_SIZE"
      else .ok ((pkt.writeData encoded).setLength encoded.length)

/-- `Packet::read_public_key`: the key it stores, or the text of the `runtime_error` it throws. -/
def readPublicKey (pkt : Packet) : Except String PKey :=
  match ssl.d2iPublicKey pkt.data with
  | none => .error "Failed to deserialize the public key"
  | some key => .ok key

end Keys

end Packet

section Keys

variable {PKey : Type} {ssl : OpenSSL PKey}

variable (ssl) in
/-- A key pair with a public key that is not null and whose encoding fits a packet. -/
def KeyPair.Writable (keys : KeyPair PKey) : Prop :=
  ∃ key encoded, keys.publicKey = some key ∧ ssl.i2dPublicKey key = some encoded ∧
    0 < encoded.length ∧ encoded.length ≤ kapuaMaxDataSize

/-- A packet with a public key is the packet filled with the encoded key. -/
theorem writePublicKey_eq_ok {keys : KeyPair PKey} {pkt reply : Packet}
    (h : pkt.writePublicKey ssl keys = .ok reply) : ∃ key encoded, keys.publicKey = some key ∧
      ssl.i2dPublicKey key = some encoded ∧ 0 < encoded.length ∧
      encoded.length ≤ kapuaMaxDataSize ∧
      reply = (pkt.writeData encoded).setLength encoded.length := by
  unfold Packet.writePublicKey at h
  split at h
  · cases h
  · rename_i key hkey
    split at h
    · cases h
    · rename_i encoded hencoded
      split_ifs at h with hempty hlong
      exact ⟨key, encoded, hkey, hencoded, Nat.pos_of_ne_zero hempty, not_lt.mp hlong,
        (Except.ok.inj h).symm⟩

/-- A key pair that was written can be sent. -/
theorem writable_of_writePublicKey {keys : KeyPair PKey} {pkt reply : Packet}
    (h : pkt.writePublicKey ssl keys = .ok reply) : keys.Writable ssl := by
  obtain ⟨key, encoded, hkey, hencoded, hpos, hfits, -⟩ := writePublicKey_eq_ok h
  exact ⟨key, encoded, hkey, hencoded, hpos, hfits⟩

/-- Writing a key pair that can be sent does not throw. -/
theorem writePublicKey_of_writable {keys : KeyPair PKey} (hkeys : keys.Writable ssl)
    (pkt : Packet) : ∃ reply, pkt.writePublicKey ssl keys = .ok reply := by
  obtain ⟨key, encoded, hkey, hencoded, hpos, hfits⟩ := hkeys
  refine ⟨(pkt.writeData encoded).setLength encoded.length, ?_⟩
  simp only [Packet.writePublicKey, hkey, hencoded, if_neg hpos.ne', if_neg (not_lt.mpr hfits)]

end Keys

namespace Packet

/-! ### What the constructors establish -/

/-- A header that passes a receiver's checks, with the given type, sender and data length. -/
structure IsHeader (pkt : Packet) (type : PacketType) (fromId : UInt64) (len : ℕ) : Prop where
  magic : pkt.checkMagicValid = true
  version : pkt.checkVersionValid = true
  type : pkt.type = some type
  fromId : pkt.fromId = fromId
  length : pkt.length = len

theorem ofNat_leNat_leBytes (id : UInt64) :
    UInt64.ofNat (leNat (leBytes 8 id.toNat)) = id := by
  rw [leNat_leBytes_of_lt (by have := id.toNat_lt; omega)]
  simp

/-- The constructors establish a header with the given type and sender and no data. -/
theorem isHeader_construct (storage : Memory) (type : PacketType) (fromId toId : UInt64) :
    IsHeader (construct storage type fromId toId) type fromId 0 where
  magic := by
    have hmagic : (construct storage type fromId toId).slice 0 5 = kapuaMagicNumber := by
      simp only [construct]
      repeat rw [Memory.slice_write_below _ _ (by decide)]
      exact Memory.slice_write_self _ _ _
    simp [checkMagicValid, Packet.magic, hmagic]
  version := by
    have hmajor : (construct storage type fromId toId) 5 = kapuaVersion.major := by
      simp only [construct]
      repeat rw [Memory.write_of_lt _ _ (by decide)]
      rw [Memory.write_of_mem _ (by decide) (by decide)]
      rfl
    simp [checkVersionValid, Packet.version, hmajor]
  type := by
    have htype : (construct storage type fromId toId).slice 8 2 = leBytes 2 type.code := by
      simp only [construct]
      repeat rw [Memory.slice_write_below _ _ (by decide)]
      simpa using Memory.slice_write_self _ 8 (leBytes 2 type.code)
    rw [Packet.type, htype, leNat_leBytes_of_lt type.code_lt, PacketType.ofCode_code]
  fromId := by
    have hfrom : (construct storage type fromId toId).slice 18 8 = leBytes 8 fromId.toNat := by
      simp only [construct]
      repeat rw [Memory.slice_write_below _ _ (by decide)]
      simpa using Memory.slice_write_self _ 18 (leBytes 8 fromId.toNat)
    rw [Packet.fromId, hfrom, ofNat_leNat_leBytes]
  length := by
    have hlength : (construct storage type fromId toId).slice 44 2 = leBytes 2 0 := by
      simp only [construct]
      iterate 4 rw [Memory.slice_write_above _ (by simp)]
      exact Memory.slice_write_self _ 44 (leBytes 2 0)
    rw [Packet.length, hlength]
    rfl

/-- The packets the program builds: what one of the four constructors leaves in some storage, with
`data` and `length` filled in any number of times. -/
inductive Built : Packet → Prop
  | default (storage : Memory) : Built (constructDefault storage)
  | broadcast (storage : Memory) (type : PacketType) (fromId : UInt64) :
      Built (constructBroadcast storage type fromId)
  | directed (storage : Memory) (type : PacketType) (fromId toId : UInt64) :
      Built (construct storage type fromId toId)
  | reply (storage : Memory) (type : PacketType) (fromId toId requestId : UInt64) :
      Built (constructReply storage type fromId toId requestId)
  | data {pkt : Packet} (hpkt : Built pkt) (bytes : Bytes) : Built (pkt.writeData bytes)
  | length {pkt : Packet} (hpkt : Built pkt) (len : ℕ) : Built (pkt.setLength len)

/-- A write behind the version leaves the first eight bytes. -/
theorem front_write {memory : Memory} {offset : ℕ} (bytes : Bytes) (h : 8 ≤ offset) :
    (memory.write offset bytes).slice 0 8 = memory.slice 0 8 :=
  Memory.slice_write_below _ _ (by omega)

/-- Every packet the program builds begins with the magic number and the version. -/
theorem Built.front {pkt : Packet} (hpkt : Built pkt) : pkt.slice 0 8 =
    kapuaMagicNumber ++ [kapuaVersion.major, kapuaVersion.minor, kapuaVersion.patch] := by
  have hdefault (storage : Memory) : (constructDefault storage).slice 0 8 =
      kapuaMagicNumber ++ [kapuaVersion.major, kapuaVersion.minor, kapuaVersion.patch] := rfl
  induction hpkt with
  | default storage => exact hdefault storage
  | broadcast storage type fromId =>
    rw [constructBroadcast, front_write _ (by decide), front_write _ (by decide),
      front_write _ (by decide), hdefault]
  | directed storage type fromId toId =>
    show (Memory.write (constructBroadcast storage type fromId) 26 _).slice 0 8 = _
    rw [constructBroadcast, front_write _ (by decide), front_write _ (by decide),
      front_write _ (by decide), front_write _ (by decide), hdefault]
  | reply storage type fromId toId requestId =>
    rw [constructReply, front_write _ (by decide)]
    show (Memory.write (constructBroadcast storage type fromId) 26 _).slice 0 8 = _
    rw [constructBroadcast, front_write _ (by decide), front_write _ (by decide),
      front_write _ (by decide), front_write _ (by decide), hdefault]
  | data hpkt bytes ih => rw [writeData, front_write _ (by decide), ih]
  | length hpkt len ih => rw [setLength, front_write _ (by decide), ih]

/-- Every packet the program builds passes the magic number check. -/
theorem Built.magic {pkt : Packet} (hpkt : Built pkt) : pkt.checkMagicValid = true := by
  have hmagic : pkt.slice 0 5 = (pkt.slice 0 8).take 5 := (Memory.take_slice pkt (by decide)).symm
  simp [checkMagicValid, Packet.magic, hmagic, hpkt.front, kapuaMagicNumber]

/-- Every packet the program builds passes the version check. -/
theorem Built.version {pkt : Packet} (hpkt : Built pkt) : pkt.checkVersionValid = true := by
  have hbyte : (pkt.slice 0 8)[5]? = some kapuaVersion.major := by rw [hpkt.front]; rfl
  simp only [Memory.getElem?_slice, Nat.reduceLT, if_true, Nat.zero_add, Option.some.injEq]
    at hbyte
  simp [checkVersionValid, Packet.version, hbyte]

/-- Filling `data` and setting `length` keeps the rest of the header. Assumes: the length fits the
16-bit field. -/
theorem IsHeader.withData {pkt : Packet} {type : PacketType} {fromId : UInt64} {len : ℕ}
    (hpkt : IsHeader pkt type fromId len) {bytes : Bytes} (hlen : bytes.length < 65536) :
    IsHeader ((pkt.writeData bytes).setLength bytes.length) type fromId bytes.length where
  magic := by
    rw [← hpkt.magic]
    simp only [checkMagicValid, Packet.magic, setLength, writeData]
    rw [Memory.slice_write_below _ _ (by decide), Memory.slice_write_below _ _ (by decide)]
  version := by
    rw [← hpkt.version]
    simp only [checkVersionValid, Packet.version, setLength, writeData]
    rw [Memory.write_of_lt _ _ (by decide), Memory.write_of_lt _ _ (by decide)]
  type := by
    rw [← hpkt.type]
    simp only [Packet.type, setLength, writeData]
    rw [Memory.slice_write_below _ _ (by decide), Memory.slice_write_below _ _ (by decide)]
  fromId := by
    rw [← hpkt.fromId]
    simp only [Packet.fromId, setLength, writeData]
    rw [Memory.slice_write_below _ _ (by decide), Memory.slice_write_below _ _ (by decide)]
  length := by
    have hslice := Memory.slice_write_self (pkt.writeData bytes) 44 (leBytes 2 bytes.length)
    rw [length_leBytes] at hslice
    rw [Packet.length, setLength, hslice, leNat_leBytes_of_lt (by simpa using hlen)]

/-- The data of a packet that was filled is what it was filled with. Assumes: the length fits the
16-bit field. -/
theorem data_withData (pkt : Packet) {bytes : Bytes} (hlen : bytes.length < 65536) :
    ((pkt.writeData bytes).setLength bytes.length).data = bytes := by
  have hslice := Memory.slice_write_self (pkt.writeData bytes) 44 (leBytes 2 bytes.length)
  rw [length_leBytes] at hslice
  have hlength : ((pkt.writeData bytes).setLength bytes.length).length = bytes.length := by
    rw [Packet.length, setLength, hslice, leNat_leBytes_of_lt (by simpa using hlen)]
  rw [data, hlength, setLength, Memory.slice_write_above _ (by simp)]
  exact Memory.slice_write_self _ _ _

end Packet

end Kapua
