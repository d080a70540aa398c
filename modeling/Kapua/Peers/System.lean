import Kapua.Foundation.TwoHosts
import Kapua.Node.EncryptedFraming

/-!
# Two peers

Two nodes that run the receive loop towards each other. A message is a datagram one of them handed
to `sendto`; what the receiver gets to see of it is its bytes and the sender's address. A node may
broadcast at any time, and its broadcast reaches the peer and comes back to the node itself. A pass
that throws ends its thread, so it is a step that does not happen.

Which datagrams are delivered, in which order and how often is not said here: that is a restriction
on the actions of the network.
-/

set_option autoImplicit false
set_option relaxedAutoImplicit false

namespace Kapua

variable {PKey : Type}

/-- Two nodes behind different socket addresses that broadcast on `port`. -/
structure Peers where
  addr : Side → Sockaddr
  port : UInt16
  addr_ne : ∀ side, addr side.other ≠ addr side

namespace Peers

variable (ssl : OpenSSL PKey) (peers : Peers)

/-- The node on one side. Of what a pass sends, the peer is handed what was sent to its address. -/
def program (side : Side) : Program (LoopState PKey) Sent (Draw PKey) where
  announce := fun s draw ↦ broadcast ssl s.core peers.port draw
  internal := fun s draw ↦ (broadcast ssl s.core peers.port draw).head?.bind fun out ↦
    (pass ssl s (.datagram (peers.addr side) out.bytes) draw).toOption.map Prod.fst
  receive := fun s out draw ↦
    (pass ssl s (.datagram (peers.addr side.other) out.bytes) draw).toOption.map fun result ↦
      (result.1, result.2.filter fun reply ↦ reply.addr = peers.addr side.other)

/-- The record a node has of its peer. -/
def record (side : Side) (s : LoopState PKey) : Option (Node PKey) :=
  s.core.peer (peers.addr side.other)

/-- A broadcast is a single plaintext datagram. -/
theorem broadcast_eq (core : Core PKey) (port : UInt16) (draw : Draw PKey) :
    broadcast ssl core port draw = [⟨⟨port, 0xFFFFFFFF⟩,
      (Packet.construct draw.pkt .discovery core.myId kapuaIdBroadcast).datagram,
      Packet.construct draw.pkt .discovery core.myId kapuaIdBroadcast, none⟩] := rfl

/-- What a node does on its own is a pass over its own broadcast. -/
theorem internal_eq (side : Side) (s : LoopState PKey) (draw : Draw PKey) :
    (peers.program ssl side).internal s draw =
      (pass ssl s (.datagram (peers.addr side) (Packet.construct draw.pkt .discovery s.core.myId
        kapuaIdBroadcast).datagram) draw).toOption.map Prod.fst := by
  simp only [program, broadcast_eq, List.head?_cons, Option.bind_some]

/-- A node has a record of its peer in a state. -/
def InState (side : Side) (s : LoopState PKey) (state : NodeState) : Prop :=
  ∃ node ∈ peers.record side s, node.state = state

instance (side : Side) (s : LoopState PKey) (state : NodeState) :
    Decidable (peers.InState side s state) :=
  inferInstanceAs (Decidable (∃ node ∈ peers.record side s, node.state = state))

end Peers

/-- Two nodes with empty node tables and different ids, and nothing in flight. -/
structure Started (network : Network (LoopState PKey) Sent) : Prop where
  empty : ∀ side, (network side).party.core.Empty
  inbox : ∀ side, (network side).inbox = []
  log : ∀ side, (network side).log = []
  id_ne : ∀ side, (network side.other).party.core.myId ≠ (network side).party.core.myId

/-- The session keys of two records match in both directions. -/
def Node.KeysMatch (node peer : Node PKey) : Prop :=
  node.aesContextTx = peer.aesContextRx ∧ peer.aesContextTx = node.aesContextRx

/-! ### What is assumed of the random bytes -/

/-- In the leading bytes of an encrypted datagram, the byte a header has its version at is not the
major version. -/
def Unversioned (iv : Vector UInt8 32) : Prop := iv[5] ≠ kapuaVersion.major

/-- The leading bytes of an encrypted datagram are not taken for a header. -/
def Opaque (iv : Vector UInt8 32) : Prop := Unmarked iv ∧ Unversioned iv

/-- The uninitialised `len` has room for whatever is decrypted with the key pair. -/
def Draw.Roomy (ssl : OpenSSL PKey) (keys : KeyPair PKey) (draw : Draw PKey) : Prop :=
  ∀ key, keys.privateKey = some key → ssl.evpPkeySize key ≤ draw.len

/-- A key pair that the peer can use: the public key can be encoded, a receiver decodes it to a key
that matches the private key, and session keys can be encrypted with that into a packet. -/
def KeyPair.Serves (ssl : OpenSSL PKey) (Matches : PKey → PKey → Prop) (keys : KeyPair PKey) :
    Prop :=
  ∀ publicKey encoded, keys.publicKey = some publicKey → ssl.i2dPublicKey publicKey = some encoded →
    ∃ privateKey received, keys.privateKey = some privateKey ∧
      ssl.d2iPublicKey encoded = some received ∧ Matches received privateKey ∧
      ssl.evpPkeySize received ≤ kapuaMaxDataSize ∧
      ∀ padding (context : AESKey), (ssl.evpPkeyEncrypt received padding context.bytes).isSome

/-- The cryptographic calls of two nodes succeed. -/
structure Serviceable (ssl : OpenSSL PKey) (Matches : PKey → PKey → Prop)
    (keys : Side → KeyPair PKey) : Prop where
  serves : ∀ side, (keys side).Serves ssl Matches
  seals : ∀ key iv plaintext, (ssl.aes256CbcEncrypt key iv plaintext).isSome

end Kapua
