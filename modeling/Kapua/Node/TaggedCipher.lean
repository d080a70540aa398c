import Kapua.Node.ReceiveLoop

/-!
# A concrete cipher

An instance of the `OpenSSL` interface that can be run. Keys are named by a byte; a public key
matches the private key of the same name and is encoded behind a leading `0x30`, as a DER sequence
is. A ciphertext is the name of its key followed by the message, and decryption checks the name.
`tagged_roundTrips` and `tagged_otherKeysFail` show that the assumptions on the library are
satisfiable together.

`taggedDraw` is a draw with zeroed memory, `taggedStart` a loop with an empty node table,
`taggedDatagram` builds a plaintext datagram with the packet's own constructors, and
`taggedHandshake` is the peer's side of a handshake.
-/

set_option autoImplicit false
set_option relaxedAutoImplicit false

namespace Kapua

/-- The cipher whose ciphertexts name their key. -/
def tagged : OpenSSL UInt8 where
  i2dPublicKey := fun key ↦ some [0x30, key]
  d2iPublicKey := fun bytes ↦
    match bytes with
    | 0x30 :: key :: _ => some key
    | _ => none
  evpPkeySize := fun _ ↦ 33
  evpPkeyEncrypt := fun key _ message ↦
    if message.length ≤ 32 then some (key :: message) else none
  evpPkeyDecrypt := fun key outlen ciphertext ↦
    if outlen < 33 then none
    else if ciphertext.head? = some key then some ciphertext.tail else none
  aes256CbcEncrypt := fun key _ plaintext ↦ some (key.bytes ++ plaintext)
  aes256CbcDecrypt := fun key _ ciphertext ↦
    if ciphertext.take 32 = key.bytes then some (ciphertext.drop 32) else none

theorem tagged_roundTrips : tagged.RoundTrips Eq where
  rsa_undo := by
    rintro publicKey privateKey padding message ciphertext outlen rfl hencrypt hroom
    simp only [tagged, Option.ite_none_right_eq_some, Option.some.injEq] at hencrypt hroom ⊢
    obtain ⟨_, rfl⟩ := hencrypt
    simp [Nat.not_lt.mpr hroom]
  rsa_room := by
    intro privateKey ciphertext outlen hroom
    simp only [tagged] at hroom ⊢
    rw [if_pos hroom]
  rsa_length := by
    intro publicKey padding message ciphertext hencrypt
    simp only [tagged, Option.ite_none_right_eq_some, Option.some.injEq] at hencrypt ⊢
    obtain ⟨hlength, rfl⟩ := hencrypt
    rw [List.length_cons]
    omega
  aes_undo := by
    intro key iv plaintext ciphertext hencrypt
    simp only [tagged, Option.some.injEq] at hencrypt ⊢
    subst hencrypt
    simp
  aes_shrinks := by
    intro key iv plaintext ciphertext hdecrypt
    simp only [tagged, Option.ite_none_right_eq_some, Option.some.injEq] at hdecrypt
    obtain ⟨-, rfl⟩ := hdecrypt
    simp
  aes_length := by
    intro key iv plaintext ciphertext hencrypt hlength
    simp only [tagged, Option.some.injEq] at hencrypt
    subst hencrypt
    simp [hlength]

theorem AESKey.bytes_inj {first second : AESKey} (h : first.bytes = second.bytes) :
    first = second := by
  rw [← first.overwrite_bytes second, ← h, AESKey.overwrite_bytes]

theorem tagged_otherKeysFail : tagged.OtherKeysFail Eq where
  rsa_other := by
    intro publicKey privateKey padding message ciphertext outlen hne hencrypt
    simp only [tagged, Option.ite_none_right_eq_some, Option.some.injEq] at hencrypt ⊢
    obtain ⟨_, rfl⟩ := hencrypt
    simp [hne]
  aes_other := by
    intro key other iv plaintext ciphertext hne hencrypt
    simp only [tagged, Option.some.injEq] at hencrypt ⊢
    subst hencrypt
    have htag : key.bytes ≠ other.bytes := fun heq ↦ hne (AESKey.bytes_inj heq.symm)
    simp [htag]

/-- A session key of equal bytes. -/
def taggedKey (byte : UInt8) : AESKey := ⟨Vector.replicate 32 byte⟩

/-- Zeroed storage for a record. -/
def taggedNode : Node UInt8 :=
  ⟨⟨0, 0⟩, 0, .initialised, ⟨none, none⟩, taggedKey 0, taggedKey 0, 0⟩

/-- A draw over zeroed memory: the session key has equal bytes, the leading bytes of an encrypted
datagram are all ones, `len` has room for the modulus and `sendto` accepts everything. -/
def taggedDraw (byte : UInt8) : Draw UInt8 where
  sessionKey := taggedKey byte
  iv := Vector.replicate 32 1
  padding := 0
  len := 33
  now := 0
  node := taggedNode
  pkt := fun _ ↦ 0
  rpkPkt := fun _ ↦ 0
  reply := fun _ ↦ 0
  behind := fun _ ↦ 0
  sendto := fun bytes ↦ bytes.length

/-- A loop of the node `id` that holds the keys named `key`, with an empty node table and a zeroed
buffer. -/
def taggedStart (id : UInt64) (key : UInt8) : LoopState UInt8 where
  core := ⟨id, ⟨some key, some key⟩, fun _ ↦ none, fun _ ↦ none, fun _ ↦ taggedNode, 0⟩
  pkt := fun _ ↦ 0
  fromAddr := ⟨0, 0⟩

theorem empty_taggedStart (id : UInt64) (key : UInt8) : (taggedStart id key).core.Empty :=
  ⟨rfl, fun _ ↦ rfl, fun _ ↦ rfl⟩

/-- A plaintext datagram from the node `fromId`. -/
def taggedDatagram (type : PacketType) (fromId : UInt64) (data : Bytes) : Bytes :=
  (((Packet.construct (fun _ ↦ 0) type fromId kapuaIdBroadcast).writeData data).setLength
    data.length).slice 0 (kapuaHeaderSize + data.length)

/-- A datagram from the node `fromId`, encrypted with the session key named `key`. -/
def taggedSealed (key : UInt8) (type : PacketType) (fromId : UInt64) : Bytes :=
  List.replicate 32 1 ++ ((taggedKey key).bytes ++ taggedDatagram type fromId [])

/-- The datagrams of the node 7 that take a node holding the keys named 1 through the handshake. -/
def taggedHandshake : List (Arrival × Draw UInt8) :=
  [taggedDatagram .publicKeyRequest 7 [], taggedDatagram .publicKeyReply 7 [0x30, 2],
    taggedDatagram .encryptionContext 7 (1 :: (taggedKey 8).bytes), taggedSealed 8 .ready 7].map
      fun bytes ↦ (.datagram ⟨1, 1⟩ bytes, taggedDraw 9)

/-- The handshake reaches a connected record. -/
theorem exists_connected : ∃ s, Reachable tagged s ∧ s.core.findNode ⟨1, 1⟩ = some 0 ∧
    (s.core.heap 0).state = .connected ∧ s.core.myId = 5 ∧ s.core.keys.publicKey = some 1 := by
  obtain ⟨s, hreach, hcheck⟩ := exists_reachable tagged (empty_taggedStart 5 1) taggedHandshake
    (fun s ↦ s.core.findNode ⟨1, 1⟩ == some 0 && decide ((s.core.heap 0).state = .connected) &&
      s.core.myId == 5 && s.core.keys.publicKey == some 1) (by decide +kernel)
  simp only [Bool.and_eq_true, beq_iff_eq, decide_eq_true_eq] at hcheck
  obtain ⟨⟨⟨hfind, hstate⟩, hid⟩, hkey⟩ := hcheck
  exact ⟨s, hreach, hfind, hstate, hid, hkey⟩

end Kapua
