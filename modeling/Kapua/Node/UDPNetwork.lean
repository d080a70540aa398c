import Kapua.Crypto.RSA
import Kapua.Node.Core

/-!
# The receive loop

`class UDPNetwork`: `_send`, `_receive`, `_process_packet`, `_broadcast`, and the body of
`_main_loop`. The loop owns one packet buffer, which every datagram is received into and which is
never cleared, and the address variable `recvfrom` fills; both are part of `LoopState`, because
what an earlier datagram left there can be read again.

What a pass takes from outside the program is its `Arrival`, the outcome of `select` and
`recvfrom`, and a `Draw`: the random bytes, the result of `sendto`, the clock, and the contents of
every piece of memory the program reads before it has written it. An exception is an `Except`
error carrying the text of the `runtime_error`; nothing in the loop catches it.

`Sent` is a datagram handed to `sendto`. Beside the address and the bytes it records the packet
`_send` was given and the session key it encrypted with, and `Screened` records the session key
`_receive` decrypted with; the program does not keep these, and no definition reads them. Logging
is left out.
-/

set_option autoImplicit false
set_option relaxedAutoImplicit false

namespace Kapua

/-- What one pass of the loop takes from outside the program.
* `sessionKey`: the bytes `AESKey::generate` draws.
* `iv`: the bytes `_generate_iv` draws.
* `padding`: the randomness of RSA padding.
* `len`: what the uninitialised `len` of `_process_packet` holds.
* `now`: the clock.
* `node`: the storage of a `Node` from `new`.
* `pkt`, `rpkPkt`, `reply`: the storage of the packets of `_broadcast`, `_receive` and
  `_process_packet`.
* `behind`: the memory past the packet buffer, at its offsets from the buffer.
* `sendto`: the result of `sendto` for the bytes it is given. -/
structure Draw (PKey : Type) where
  sessionKey : AESKey
  iv : Vector UInt8 32
  padding : ℕ
  len : ℕ
  now : ℕ
  node : Node PKey
  pkt : Memory
  rpkPkt : Memory
  reply : Memory
  behind : Memory
  sendto : Bytes → ℤ

/-- A datagram handed to `sendto`, with the packet `_send` was given and the session key it was
encrypted with, if any. -/
structure Sent where
  addr : Sockaddr
  bytes : Bytes
  packet : Packet
  key : Option AESKey

/-- The outcome of `select` and `recvfrom`. -/
inductive Arrival
  | nothing
  | failed
  | datagram (addr : Sockaddr) (bytes : Bytes)

/-- The variables of `_main_loop` and the core it works on. -/
structure LoopState (PKey : Type) where
  core : Core PKey
  pkt : Packet
  fromAddr : Sockaddr

variable {PKey : Type} (ssl : OpenSSL PKey)

/-! ### Session key encryption of datagrams -/

/-- `UDPNetwork::_aes_encrypt`: 32 random bytes, of which the cipher uses the first 16 as its
vector, then the ciphertext. -/
def aesEncrypt (context : AESKey) (iv : Vector UInt8 32) (plaintext : Bytes) : Option Bytes :=
  (ssl.aes256CbcEncrypt context (iv.toList.take 16) plaintext).map (iv.toList ++ ·)

/-- `UDPNetwork::_aes_decrypt`. -/
def aesDecrypt (context : AESKey) (ciphertext : Bytes) : Option Bytes :=
  ssl.aes256CbcDecrypt context (ciphertext.take 16) (ciphertext.drop 32)

/-! ### Sending -/

/-- The result of `_send` and what it handed to `sendto`. -/
structure SendResult where
  ok : Bool
  sent : List Sent

/-- `UDPNetwork::_send`. -/
def send (node : Option (Node PKey)) (pkt : Packet) (addr : Sockaddr) (draw : Draw PKey) :
    SendResult :=
  match node with
  | none => ⟨draw.sendto pkt.datagram == kapuaHeaderSize + pkt.length,
      [⟨addr, pkt.datagram, pkt, none⟩]⟩
  | some node =>
    if NodeState.checkEncryption ≤ node.state then
      match aesEncrypt ssl node.aesContextTx draw.iv pkt.datagram with
      | none => ⟨false, []⟩
      | some buffer => ⟨draw.sendto buffer == kapuaHeaderSize + pkt.length,
          [⟨addr, buffer, pkt, some node.aesContextTx⟩]⟩
    else ⟨draw.sendto pkt.datagram == kapuaHeaderSize + pkt.length,
      [⟨addr, pkt.datagram, pkt, none⟩]⟩

/-- `UDPNetwork::_broadcast` on `port`. -/
def broadcast (core : Core PKey) (port : UInt16) (draw : Draw PKey) : List Sent :=
  (send ssl none (Packet.construct draw.pkt .discovery core.myId kapuaIdBroadcast)
    ⟨port, 0xFFFFFFFF⟩ draw).sent

/-! ### Receiving -/

/-- The variables `recvfrom` fills: the packet buffer, the sender's address, and the `uint16_t` its
result is assigned to. -/
structure Arrived where
  pkt : Packet
  fromAddr : Sockaddr
  size : ℕ

/-- `recvfrom` into the packet buffer, `none` when `select` reports nothing to read. `recvfrom`
writes at most `kapuaMaxPacketSize` bytes and drops the rest of the datagram; its failure value,
minus one, becomes 65535. -/
def recvfrom (s : LoopState PKey) (arrival : Arrival) (draw : Draw PKey) : Option Arrived :=
  let buffer : Packet := fun i ↦ if i < kapuaMaxPacketSize then s.pkt i else draw.behind i
  match arrival with
  | .nothing => none
  | .failed => some ⟨buffer, s.fromAddr, 65535⟩
  | .datagram addr bytes =>
    let bytes := bytes.take kapuaMaxPacketSize
    some ⟨buffer.write 0 bytes, addr, bytes.length⟩

/-- The outcome of checks on the packet buffer: whether they let the packet through, the buffer
afterwards, and the session key it was decrypted with, if any. -/
structure Screened where
  accepted : Bool
  pkt : Packet
  key : Option AESKey

/-- The magic number check of `_receive`, with the decryption it leads to. A packet without the
magic number is let through as it is unless the sender's record has reached `checkEncryption`. -/
def openPacket (node : Option (Node PKey)) (pkt : Packet) (size : ℕ) : Screened :=
  if pkt.checkMagicValid then ⟨true, pkt, none⟩
  else
    match node with
    | none => ⟨true, pkt, none⟩
    | some node =>
      if NodeState.checkEncryption ≤ node.state then
        match aesDecrypt ssl node.aesContextRx (pkt.slice 0 size) with
        | none => ⟨false, pkt, some node.aesContextRx⟩
        | some plaintext =>
          let pkt : Packet := pkt.write 0 plaintext
          ⟨pkt.checkMagicValid, pkt, some node.aesContextRx⟩
      else ⟨true, pkt, none⟩

/-- The checks of `_receive` on the `size` bytes received from the sender with the given record:
the size, the magic number, the version, and whether the packet is our own. -/
def screen (myId : UInt64) (node : Option (Node PKey)) (pkt : Packet) (size : ℕ) : Screened :=
  if size ≤ 0 then ⟨false, pkt, none⟩
  else if size < kapuaHeaderSize then ⟨false, pkt, none⟩
  else
    let opened := openPacket ssl node pkt size
    if !opened.accepted then opened
    else if !opened.pkt.checkVersionValid then { opened with accepted := false }
    else if opened.pkt.fromId = myId then { opened with accepted := false }
    else opened

/-- What `_receive` returns and leaves: its result, `*node`, the loop variables, the datagrams sent
and the session key it decrypted with. -/
structure Received (PKey : Type) where
  accepted : Bool
  node : Option NodePtr
  loop : LoopState PKey
  sent : List Sent
  key : Option AESKey

/-- `UDPNetwork::_receive`. -/
def receive (s : LoopState PKey) (arrival : Arrival) (draw : Draw PKey) : Received PKey :=
  match recvfrom s arrival draw with
  | none => ⟨false, none, s, [], none⟩
  | some arrived =>
    let node := s.core.findNode arrived.fromAddr
    let screened := screen ssl s.core.myId (s.core.peer arrived.fromAddr) arrived.pkt arrived.size
    let s : LoopState PKey := ⟨s.core, screened.pkt, arrived.fromAddr⟩
    if !screened.accepted then ⟨false, node, s, [], screened.key⟩
    else
      match node with
      | some ptr => ⟨true, some ptr, s, [], screened.key⟩
      | none =>
        let (core, ptr) := s.core.addNode draw.node s.pkt.fromId s.fromAddr
        let rpkPkt := Packet.construct draw.rpkPkt .publicKeyRequest core.myId s.pkt.fromId
        let result := send ssl (some (core.heap ptr)) rpkPkt s.fromAddr draw
        ⟨true, some ptr, { s with core := core }, result.sent, screened.key⟩

/-! ### Processing -/

/-- The `PublicKeyRequest` case of `_process_packet`, for a known node. -/
def onPublicKeyRequest (myId : UInt64) (keys : KeyPair PKey) (node : Node PKey)
    (draw : Draw PKey) : Except String (Node PKey × List Sent) :=
  match (Packet.construct draw.reply .publicKeyReply myId node.id).writePublicKey ssl keys with
  | .error what => .error what
  | .ok reply =>
    let node := { node with state := .keyExchange }
    .ok (node, (send ssl (some node) reply node.addr draw).sent)

/-- The `PublicKeyReply` case. -/
def onPublicKeyReply (myId : UInt64) (node : Node PKey) (pkt : Packet) (draw : Draw PKey) :
    Except String (Node PKey × List Sent) :=
  if node.state ≠ .keyExchange then .ok (node, [])
  else
    match pkt.readPublicKey ssl with
    | .error what => .error what
    | .ok key =>
      let node := { node with
        keys := { node.keys with publicKey := some key }, aesContextTx := draw.sessionKey }
      let reply := Packet.construct draw.reply .encryptionContext myId node.id
      match encryptAesContext ssl node.aesContextTx node.keys.publicKey kapuaMaxDataSize
          draw.padding with
      | none => .ok (node, [])
      | some encrypted =>
        let reply := (reply.writeData encrypted).setLength encrypted.length
        let node := { node with state := .handshake }
        .ok (node, (send ssl (some node) reply node.addr draw).sent)

/-- The `EncryptionContext` case. -/
def onEncryptionContext (myId : UInt64) (keys : KeyPair PKey) (node : Node PKey) (pkt : Packet)
    (draw : Draw PKey) : Except String (Node PKey × List Sent) :=
  if node.state ≠ .handshake then .ok (node, [])
  else
    let decrypted := decryptAesContext ssl keys.privateKey pkt.data draw.len
    let node := { node with aesContextRx := node.aesContextRx.overwrite decrypted.written }
    if !decrypted.ok then .ok (node, [])
    else
      let reply := (Packet.construct draw.reply .ready myId node.id).setLength 0
      let node := { node with state := .checkEncryption }
      .ok (node, (send ssl (some node) reply node.addr draw).sent)

/-- The `Ready` case. -/
def onReady (node : Node PKey) : Except String (Node PKey × List Sent) :=
  if node.state ≠ .checkEncryption then .ok (node, [])
  else .ok ({ node with state := .connected }, [])

/-- The `switch` of `_process_packet` on a known node. -/
def dispatch (myId : UInt64) (keys : KeyPair PKey) (node : Node PKey) (pkt : Packet)
    (draw : Draw PKey) : Except String (Node PKey × List Sent) :=
  match pkt.type with
  | some .ping => .ok (node, [])
  | some .publicKeyRequest => onPublicKeyRequest ssl myId keys node draw
  | some .publicKeyReply => onPublicKeyReply ssl myId node pkt draw
  | some .encryptionContext => onEncryptionContext ssl myId keys node pkt draw
  | some .ready => onReady node
  | some .discovery => .ok (node, [])
  | none => .ok (node, [])

/-- `UDPNetwork::_process_packet`. Without a node every case of the switch stops at its first
check, so nothing happens. -/
def processPacket (core : Core PKey) (node : Option NodePtr) (pkt : Packet) (draw : Draw PKey) :
    Except String (Core PKey × List Sent) :=
  match node with
  | none => .ok (core, [])
  | some ptr =>
    match dispatch ssl core.myId core.keys ((core.heap ptr).updateLastContact draw.now) pkt
        draw with
    | .error what => .error what
    | .ok (record, sent) => .ok (core.setNode ptr record, sent)

/-! ### The loop -/

/-- One pass of the receive/process cycle of `_main_loop`. -/
def pass (s : LoopState PKey) (arrival : Arrival) (draw : Draw PKey) :
    Except String (LoopState PKey × List Sent) :=
  let received := receive ssl s arrival draw
  if received.accepted then
    match processPacket ssl received.loop.core received.node received.loop.pkt draw with
    | .error what => .error what
    | .ok (core, sent) => .ok ({ received.loop with core := core }, received.sent ++ sent)
  else .ok (received.loop, received.sent)

/-- The passes of `_main_loop` over a list of arrivals. -/
def runLoop : LoopState PKey → List (Arrival × Draw PKey) → Except String (LoopState PKey)
  | s, [] => .ok s
  | s, (arrival, draw) :: rest =>
    match pass ssl s arrival draw with
    | .error what => .error what
    | .ok (next, _) => runLoop next rest

/-- The states the receive loop reaches from an empty node table: whatever the own id and key pair,
the packet buffer and the address variable are at the start, and whatever arrives. -/
def Reachable (s : LoopState PKey) : Prop :=
  ∃ start inputs, start.core.Empty ∧ runLoop ssl start inputs = .ok s

end Kapua
