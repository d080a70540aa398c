import Kapua.Handshake.Protocol
import Kapua.Node.PacketFront
import Kapua.Peers.System

/-!
# Datagrams and the messages they encode

A loop state is related to the endpoint its record of the peer amounts to (`Fits`), and a datagram
to the message it encodes (`Encodes`): a plaintext datagram is a packet of the message's type whose
data is what the message carries, and an encrypted one is a bare packet under the session key.
`Encodes.plain_accepted` and `Encodes.sealed_cases` show what the checks of `_receive` make of a
datagram of the peer, and the lemmas after them that what a pass sends encodes a message.

An encrypted datagram must be refused by a receiver that cannot decrypt it. `Understood` says so,
either because decryption under another key fails or because no other key comes into play.
-/

set_option autoImplicit false
set_option relaxedAutoImplicit false

namespace Kapua

open Handshake (Message Session Choice progress)

variable {PKey : Type}

/-- What is fixed about two nodes: the ids each goes by, their key pairs, and what is known of the
leading bytes of their encrypted datagrams. -/
structure Setup (PKey : Type) where
  ids : Side → UInt64 → Prop
  keys : Side → KeyPair PKey
  leads : Vector UInt8 32 → Prop
  disjoint : ∀ {side id other}, ids side id → ids side.other other → other ≠ id

/-- The session a record amounts to. -/
def Node.toSession (node : Node PKey) : Session AESKey :=
  ⟨node.state, node.aesContextTx, node.aesContextRx⟩

namespace Setup

variable (ssl : OpenSSL PKey) (Matches : PKey → PKey → Prop) (setup : Setup PKey) (peers : Peers)

/-- A loop state whose record of the peer amounts to `endpoint`. -/
structure Fits (side : Side) (s : LoopState PKey) (endpoint : Option (Session AESKey)) : Prop where
  wellFormed : s.core.WellFormed
  id : setup.ids side s.core.myId
  keys : s.core.keys = setup.keys side
  record : (peers.record side s).map Node.toSession = endpoint

/-- A packet of the node on `side` that a receiver's checks accept and that fits a datagram. -/
structure Framed (side : Side) (pkt : Packet) : Prop where
  magic : pkt.checkMagicValid = true
  version : pkt.checkVersionValid = true
  fromId : setup.ids side pkt.fromId
  fits : kapuaHeaderSize + pkt.length ≤ kapuaMaxPacketSize

/-- The data is the encoded public key of a key pair. -/
def EncodesKey (keys : KeyPair PKey) (data : Bytes) : Prop :=
  ∃ publicKey, keys.publicKey = some publicKey ∧ ssl.i2dPublicKey publicKey = some data

/-- The data is a session key, encrypted for the owner of a key pair with the public key that its
encoding is decoded to. -/
def SealedFor (keys : KeyPair PKey) (context : AESKey) (data : Bytes) : Prop :=
  ∃ encoded received padding, EncodesKey ssl keys encoded ∧
    ssl.d2iPublicKey encoded = some received ∧
    ssl.evpPkeyEncrypt received padding context.bytes = some data

/-- The type of the packet that carries a message. -/
def packetType : Message AESKey → PacketType
  | .discovery => .discovery
  | .request => .publicKeyRequest
  | .reply => .publicKeyReply
  | .context _ => .encryptionContext
  | .ready _ => .ready

/-- The packet is one of the node on `side` with the type and the data of a message. -/
structure Holds (side : Side) (pkt : Packet) (message : Message AESKey) : Prop where
  type : pkt.type = some (packetType message)
  reply : message = .reply → EncodesKey ssl (setup.keys side) pkt.data
  context : ∀ key, message = .context key → SealedFor ssl (setup.keys side.other) key pkt.data

/-- The bytes a message is sent as. -/
def SentAs (pkt : Packet) (bytes : Bytes) : Message AESKey → Prop
  | .ready key => pkt.length = 0 ∧
      ∃ iv, setup.leads iv ∧ aesEncrypt ssl key iv pkt.datagram = some bytes
  | _ => bytes = pkt.datagram

/-- A datagram of the node on `side` that encodes a message. -/
structure Encodes (side : Side) (out : Sent) (message : Message AESKey) : Prop where
  framed : setup.Framed side out.packet
  holds : setup.Holds ssl side out.packet message
  bytes : setup.SentAs ssl out.packet out.bytes message

/-- An encrypted datagram is refused by a record that does not encrypt yet, because of its leading
bytes, and by a record that decrypts with another session key. -/
structure Understood (endpoint : Option (Session AESKey)) (message : Message AESKey) : Prop where
  early : ∀ key, message = .ready key → progress endpoint < 4 →
    ∀ iv, setup.leads iv → Unversioned iv
  late : ∀ key, message = .ready key → 4 ≤ progress endpoint →
    Handshake.rx endpoint = some key ∨ ssl.OtherKeysFail Matches

/-- The cryptographic calls of the nodes succeed, and a pass on `side` with this draw has room for
what it decrypts. -/
def Succeeds (side : Side) (draw : Draw PKey) : Prop :=
  Serviceable ssl Matches setup.keys ∧ draw.Roomy ssl (setup.keys side)

variable {ssl Matches setup peers}

/-! ### What arrives -/

theorem framed_of_isHeader {side : Side} {pkt : Packet} {type : PacketType} {id : UInt64} {len : ℕ}
    (h : pkt.IsHeader type id len) (hid : setup.ids side id)
    (hlen : kapuaHeaderSize + len ≤ kapuaMaxPacketSize) : setup.Framed side pkt where
  magic := h.magic
  version := h.version
  fromId := h.fromId ▸ hid
  fits := h.length ▸ hlen

/-- Packets with the same front hold the same message. -/
theorem Holds.sameFront {side : Side} {pkt pkt' : Packet} {message : Message AESKey} {size : ℕ}
    (h : setup.Holds ssl side pkt message) (hfront : SameFront size pkt' pkt)
    (hsize : kapuaHeaderSize + pkt.length ≤ size) : setup.Holds ssl side pkt' message := by
  have hheader : kapuaHeaderSize ≤ size := by omega
  have htype := hfront.type_eq hheader
  have hlength := hfront.length_eq hheader
  have hdata : pkt'.data = pkt.data := hfront.data_eq hheader (by rwa [hlength])
  exact ⟨htype.trans h.type, fun heq ↦ hdata ▸ h.reply heq, fun key heq ↦ hdata ▸ h.context key heq⟩

/-- A packet of the peer passes the header checks, and so does every packet with its front. -/
theorem Framed.passes {side : Side} {pkt pkt' : Packet} {front size : ℕ} {myId : UInt64}
    (h : setup.Framed side.other pkt) (hid : setup.ids side myId)
    (hfront : SameFront front pkt' pkt) (hheader : kapuaHeaderSize ≤ front)
    (hsize : kapuaHeaderSize ≤ size) :
    pkt'.checkMagicValid = true ∧ passesHeader myId pkt' size = true := by
  refine ⟨(hfront.checkMagicValid_eq hheader).trans h.magic, ?_⟩
  have hother : pkt.fromId ≠ myId := setup.disjoint hid h.fromId
  have hpkt : passesHeader myId pkt front = true := by
    simp [passesHeader, hheader, h.version, hother]
  rw [← hfront.passesHeader_eq hheader] at hpkt
  simp only [passesHeader, hheader, hsize, decide_true, Bool.true_and] at hpkt ⊢
  exact hpkt

section Arrival

variable {side : Side} {s : LoopState PKey} {endpoint : Option (Session AESKey)} {out : Sent}
  {message : Message AESKey} (draw : Draw PKey)

/-- A plaintext datagram of the peer is accepted as it is. -/
theorem Encodes.plain_accepted (h : setup.Encodes ssl side.other out message)
    (hs : setup.Fits peers side s endpoint) (hplain : ∀ key, message ≠ .ready key) :
    (screened ssl s (arrivedDatagram s (peers.addr side.other) out.bytes draw)).accepted = true ∧
      setup.Holds ssl side.other
        (screened ssl s (arrivedDatagram s (peers.addr side.other) out.bytes draw)).pkt
        message := by
  have hbytes : out.bytes = out.packet.datagram := by
    have hsent := h.bytes
    cases message with
    | ready key => exact absurd rfl (hplain key)
    | _ => exact hsent
  obtain ⟨hsize, hfront⟩ := sameFront_datagram s (peers.addr side.other) draw h.framed.fits
  rw [hbytes]
  have hheader : kapuaHeaderSize ≤
      (arrivedDatagram s (peers.addr side.other) out.packet.datagram draw).size := by omega
  rw [← hsize] at hfront
  obtain ⟨hmagic, hpasses⟩ := h.framed.passes hs.id hfront hheader hheader
  obtain ⟨haccepted, hpkt⟩ := (Acceptance.plain (Or.inl hmagic) hpasses :
    Acceptance ssl s _ _ _).screened_eq
  rw [hpkt]
  exact ⟨haccepted, h.holds.sameFront hfront hsize.ge⟩

/-- An encrypted datagram: what it consists of. -/
theorem Encodes.sealed (htrips : ssl.RoundTrips Matches) {key : AESKey}
    (h : setup.Encodes ssl side.other out (.ready key)) : ∃ iv : Vector UInt8 32, ∃ ciphertext,
      setup.leads iv ∧ out.packet.length = 0 ∧ out.bytes = iv.toList ++ ciphertext ∧
      ssl.aes256CbcEncrypt key (iv.toList.take 16) out.packet.datagram = some ciphertext ∧
      kapuaHeaderSize ≤ ciphertext.length ∧ out.bytes.length ≤ kapuaMaxPacketSize := by
  obtain ⟨hlength, iv, hleads, hseal⟩ := h.bytes
  obtain ⟨ciphertext, hencrypt, hbytes⟩ := Option.map_eq_some_iff.mp hseal
  have hbare : out.packet.datagram.length = 46 := by simp [Packet.datagram, hlength]
  have hshrinks := htrips.aes_shrinks (htrips.aes_undo hencrypt)
  have hfits := htrips.aes_length hencrypt hbare
  refine ⟨iv, ciphertext, hleads, hlength, hbytes.symm, hencrypt, hbare.ge.trans hshrinks, ?_⟩
  simpa [← hbytes] using hfits

/-- An encrypted datagram of the peer is refused, or accepted because the record decrypts with the
session key it was encrypted with. -/
theorem Encodes.sealed_cases (htrips : ssl.RoundTrips Matches)
    (hmarked : ∀ iv, setup.leads iv → Unmarked iv) {key : AESKey}
    (h : setup.Encodes ssl side.other out (.ready key)) (hs : setup.Fits peers side s endpoint)
    (hunderstood : setup.Understood ssl Matches endpoint (.ready key)) :
    ((screened ssl s (arrivedDatagram s (peers.addr side.other) out.bytes draw)).accepted = false ∧
      (progress endpoint < 4 ∨ Handshake.rx endpoint ≠ some key)) ∨
    ((screened ssl s (arrivedDatagram s (peers.addr side.other) out.bytes draw)).accepted = true ∧
      Handshake.rx endpoint = some key ∧ setup.Holds ssl side.other
        (screened ssl s (arrivedDatagram s (peers.addr side.other) out.bytes draw)).pkt
        (.ready key)) := by
  obtain ⟨iv, ciphertext, hleads, hlength, hbytes, hencrypt, hlong, hfits⟩ := h.sealed htrips
  obtain ⟨hsize, hmagic, hfive, hopen⟩ :=
    sealed_arrives ssl s draw (peers.addr side.other) hbytes hfits
  generalize harrived : arrivedDatagram s (peers.addr side.other) out.bytes draw = arrived at *
  have hfrom : s.core.peer arrived.fromAddr = peers.record side s := by
    rw [← harrived]
    rfl
  have hinvalid : arrived.pkt.checkMagicValid = false := by
    rw [Packet.checkMagicValid, hmagic]
    exact beq_eq_false_iff_ne.mpr (hmarked iv hleads)
  have hheader : kapuaHeaderSize ≤ arrived.size := by omega
  have hrecord := hs.record
  by_cases hplace : progress endpoint < 4
  · refine Or.inl ⟨?_, Or.inl hplace⟩
    have hstate : ∀ record, s.core.peer arrived.fromAddr = some record →
        ¬ NodeState.checkEncryption ≤ record.state := by
      intro record hpeer (hle : 3 ≤ record.state.rank)
      rw [← hrecord, ← hfrom, hpeer, Option.map_some, Handshake.progress_some] at hplace
      simp only [Node.toSession] at hplace
      omega
    have hversion : arrived.pkt.checkVersionValid = false := by
      rw [Packet.checkVersionValid, Packet.version, hfive]
      exact beq_eq_false_iff_ne.mpr (hunderstood.early key rfl hplace iv hleads)
    rw [screened, screen_plain ssl _ (Or.inr hstate)]
    simp [passesHeader, hversion]
  · cases hpeer : peers.record side s with
    | none =>
      rw [hpeer] at hrecord
      exact absurd (by simp [← hrecord]) hplace
    | some record =>
      rw [hpeer, Option.map_some] at hrecord
      have hstate : NodeState.checkEncryption ≤ record.state := by
        show 3 ≤ record.state.rank
        rw [← hrecord, Handshake.progress_some] at hplace
        simp only [Node.toSession] at hplace
        omega
      have hrx : Handshake.rx endpoint = some record.aesContextRx := by
        rw [← hrecord]
        rfl
      rw [hpeer] at hfrom
      by_cases hkey : record.aesContextRx = key
      · refine Or.inr ?_
        have hplain : aesDecrypt ssl record.aesContextRx (arrived.pkt.slice 0 arrived.size) =
            some out.packet.datagram := by
          rw [hopen, hkey]
          exact htrips.aes_undo hencrypt
        have hfront := sameFront_write arrived.pkt out.packet
          (kapuaHeaderSize + out.packet.length)
        obtain ⟨hvalid, hpasses⟩ := h.framed.passes hs.id hfront (Nat.le_add_right _ _) hheader
        obtain ⟨haccepted, hpkt⟩ := (Acceptance.decrypted hinvalid hfrom hstate hplain rfl hvalid
          hpasses).screened_eq
        rw [hpkt]
        exact ⟨haccepted, hkey ▸ hrx, h.holds.sameFront hfront le_rfl⟩
      · refine Or.inl ⟨?_, Or.inr fun hsame ↦ hkey (Option.some.inj (hrx.symm.trans hsame))⟩
        have hothers : ssl.OtherKeysFail Matches := by
          rcases hunderstood.late key rfl (not_lt.mp hplace) with hsame | hothers
          · exact absurd (Option.some.inj (hrx.symm.trans hsame)) hkey
          · exact hothers
        have hnone : aesDecrypt ssl record.aesContextRx (arrived.pkt.slice 0 arrived.size) =
            none := by
          rw [hopen]
          exact hothers.aes_other hkey hencrypt
        rw [screened, screen_eq ssl _ _ _ hheader, hfrom,
          openPacket_undecrypted hinvalid hstate hnone]
        rfl

end Arrival

/-! ### What is sent -/

/-- What a node sends as it is. -/
theorem encodes_of_plain {side : Side} {addr : Sockaddr} {pkt : Packet} {key : Option AESKey}
    {message : Message AESKey} (hframed : setup.Framed side pkt)
    (hholds : setup.Holds ssl side pkt message) (hplain : ∀ key, message ≠ .ready key) :
    setup.Encodes ssl side ⟨addr, pkt.datagram, pkt, key⟩ message := by
  refine ⟨hframed, hholds, ?_⟩
  cases message with
  | ready key => exact absurd rfl (hplain key)
  | _ => rfl

section Replies

variable {side : Side} {myId : UInt64} (hid : setup.ids side myId)

include hid

/-- A packet without data, sent as it is. -/
theorem encodes_construct (storage : Memory) (toId : UInt64) (addr : Sockaddr)
    (message : Message AESKey) (hmessage : message = .discovery ∨ message = .request) :
    setup.Encodes ssl side ⟨addr,
      (Packet.construct storage (packetType message) myId toId).datagram,
      Packet.construct storage (packetType message) myId toId, none⟩ message := by
  have hheader := Packet.isHeader_construct storage (packetType message) myId toId
  refine encodes_of_plain (framed_of_isHeader hheader hid (by decide)) ⟨hheader.type, ?_, ?_⟩ ?_
  · rintro rfl
    simp at hmessage
  · rintro key rfl
    simp at hmessage
  · rintro key rfl
    simp at hmessage

/-- A packet that was filled has the data it was filled with, and fits a datagram. -/
theorem framed_withData (storage : Memory) (type : PacketType) (toId : UInt64) {bytes : Bytes}
    (hlen : bytes.length ≤ kapuaMaxDataSize) {pkt : Packet}
    (hpkt : pkt = ((Packet.construct storage type myId toId).writeData bytes).setLength
      bytes.length) : setup.Framed side pkt ∧ pkt.type = some type ∧ pkt.data = bytes := by
  simp only [kapuaMaxDataSize, kapuaMaxPacketSize, kapuaHeaderSize] at hlen
  have hfield : bytes.length < 65536 := by omega
  have hheader := (Packet.isHeader_construct storage type myId toId).withData hfield
  have hfits : kapuaHeaderSize + bytes.length ≤ kapuaMaxPacketSize := by
    simp only [kapuaMaxPacketSize, kapuaHeaderSize]
    omega
  subst hpkt
  exact ⟨framed_of_isHeader hheader hid hfits, hheader.type, Packet.data_withData _ hfield⟩

/-- The reply to a request encodes a reply. -/
theorem encodes_reply {storage : Memory} {toId : UInt64} {addr : Sockaddr} {reply : Packet}
    (hreply : (Packet.construct storage .publicKeyReply myId toId).writePublicKey ssl
      (setup.keys side) = .ok reply) :
    setup.Encodes ssl side ⟨addr, reply.datagram, reply, none⟩ .reply := by
  obtain ⟨publicKey, encoded, hkey, hencoded, -, hlen, hpkt⟩ := writePublicKey_eq_ok hreply
  obtain ⟨hframed, htype, hdata⟩ := framed_withData hid storage .publicKeyReply toId hlen hpkt
  exact encodes_of_plain hframed ⟨htype, fun _ ↦ ⟨publicKey, hkey, hdata ▸ hencoded⟩, by simp⟩
    (by simp)

/-- The reply to a reply encodes the session key it was given. -/
theorem encodes_context (htrips : ssl.RoundTrips Matches) {storage : Memory} {toId : UInt64}
    {addr : Sockaddr} {context : AESKey} {encoded encrypted : Bytes} {received : PKey}
    {padding : ℕ} {pkt : Packet} (hencoded : EncodesKey ssl (setup.keys side.other) encoded)
    (hreceived : ssl.d2iPublicKey encoded = some received)
    (hseal : encryptAesContext ssl context (some received) kapuaMaxDataSize padding =
      some encrypted)
    (hpkt : pkt = ((Packet.construct storage .encryptionContext myId toId).writeData
      encrypted).setLength encrypted.length) :
    setup.Encodes ssl side ⟨addr, pkt.datagram, pkt, none⟩ (.context context) := by
  obtain ⟨hframed, htype, hdata⟩ := framed_withData hid storage .encryptionContext toId
    (length_le_of_encryptAesContext htrips hseal) hpkt
  have hencrypt : ssl.evpPkeyEncrypt received padding context.bytes = some encrypted := by
    simp only [encryptAesContext] at hseal
    split_ifs at hseal
    exact hseal
  refine encodes_of_plain hframed ⟨htype, by simp, fun key heq ↦ ?_⟩ (by simp)
  obtain rfl : context = key := by simpa using heq
  exact ⟨encoded, received, padding, hencoded, hreceived, hdata ▸ hencrypt⟩

/-- The reply to a session key, if it can be encrypted, encodes a message under the record's
session key. -/
theorem encodes_ready {draw : Draw PKey} (hleads : setup.leads draw.iv) {node : Node PKey}
    (hstate : node.state = .checkEncryption) (toId : UInt64) (addr : Sockaddr) :
    List.Forall₂ (setup.Encodes ssl side)
      (send ssl (some node) ((Packet.construct draw.reply .ready myId toId).setLength 0) addr
        draw).sent
      (if (aesEncrypt ssl node.aesContextTx draw.iv
        ((Packet.construct draw.reply .ready myId toId).setLength 0).datagram).isSome
        then [.ready node.aesContextTx] else []) := by
  have hheader : ((Packet.construct draw.reply .ready myId toId).setLength 0).IsHeader .ready
      myId 0 := by
    have hempty : ([] : Bytes).length < 65536 := by decide
    have hfilled := (Packet.isHeader_construct draw.reply .ready myId toId).withData hempty
    simpa [Packet.writeData] using hfilled
  have hencrypts : NodeState.checkEncryption ≤ node.state := by simp [hstate]
  cases hseal : aesEncrypt ssl node.aesContextTx draw.iv
      ((Packet.construct draw.reply .ready myId toId).setLength 0).datagram with
  | none => simp [send, hencrypts, hseal]
  | some bytes =>
    simp only [send, if_pos hencrypts, hseal, Option.isSome_some, if_true]
    exact .cons ⟨framed_of_isHeader hheader hid (by decide), ⟨hheader.type, by simp, by simp⟩,
      hheader.length, draw.iv, hleads, hseal⟩ .nil

end Replies

end Setup

end Kapua
