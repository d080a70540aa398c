import Kapua.Node.TaggedCipher

/-!
# Handling that fails half-way

The cases of `_process_packet` write to the peer record between steps that can fail: a key that
cannot be decoded, an encryption or a decryption that reports an error, a reply that `_send` cannot
send. `attempt` is the handling of a packet with its failures kept apart: the record as it is when
handling ends, however it ends, the packet that was handed to `_send`, and the step that failed, if
any. `dispatch_eq_attempt` says that the `switch` of the receive loop is this handling, with
exceptions for the failures that throw.

`leaves_record_iff` is the exact condition on the packet, the record and the calls it leads to under
which a failure leaves the record. Only a `PublicKeyRequest` checks before it writes; the other
cases write to the record first, and all of them advance its state before they know whether the
reply could be sent. For an encrypted `Ready`, `_send` reports a failure even when it was sent, as
it looks for the size of the packet (`TakesAs`).
-/

set_option autoImplicit false
set_option relaxedAutoImplicit false

namespace Kapua

/-- The steps of handling a packet that can fail. The two that serialise a public key throw, with
the text of the `runtime_error`; the others return false. -/
inductive Failure
  | writePublicKey (what : String)
  | readPublicKey (what : String)
  | encryptAesContext
  | decryptAesContext
  | send
  deriving DecidableEq

/-- Where the handling of a packet ended: the record, the packet that was handed to `_send`, what
that sent, and the step that failed. -/
structure Attempt (PKey : Type) where
  node : Node PKey
  handed : Option Packet
  sent : List Sent
  failure : Option Failure

variable {PKey : Type} (ssl : OpenSSL PKey)

/-- The call of `_send` that ends a case of `_process_packet`. -/
def sendReply (node : Node PKey) (reply : Packet) (draw : Draw PKey) : Attempt PKey :=
  let result := send ssl (some node) reply node.addr draw
  ⟨node, some reply, result.sent, if result.ok then none else some .send⟩

/-- The `PublicKeyRequest` case of `_process_packet`. -/
def tryPublicKeyRequest (myId : UInt64) (keys : KeyPair PKey) (node : Node PKey)
    (draw : Draw PKey) : Attempt PKey :=
  match (Packet.construct draw.reply .publicKeyReply myId node.id).writePublicKey ssl keys with
  | .error what => ⟨node, none, [], some (.writePublicKey what)⟩
  | .ok reply => sendReply ssl { node with state := .keyExchange } reply draw

/-- The `PublicKeyReply` case. `read_public_key` stores the result of `d2i_PublicKey` before it
looks whether that is null. -/
def tryPublicKeyReply (myId : UInt64) (node : Node PKey) (pkt : Packet) (draw : Draw PKey) :
    Attempt PKey :=
  if node.state ≠ .keyExchange then ⟨node, none, [], none⟩
  else
    let node := { node with
      keys := { node.keys with publicKey := ssl.d2iPublicKey pkt.data } }
    match pkt.readPublicKey ssl with
    | .error what => ⟨node, none, [], some (.readPublicKey what)⟩
    | .ok _ =>
      let reply := Packet.construct draw.reply .encryptionContext myId node.id
      let node := { node with aesContextTx := draw.sessionKey }
      match encryptAesContext ssl node.aesContextTx node.keys.publicKey kapuaMaxDataSize
          draw.padding with
      | none => ⟨node, none, [], some .encryptAesContext⟩
      | some encrypted =>
        sendReply ssl { node with state := .handshake }
          ((reply.writeData encrypted).setLength encrypted.length) draw

/-- The `EncryptionContext` case. `decrypt_aes_context` writes to the session key of the record. -/
def tryEncryptionContext (myId : UInt64) (keys : KeyPair PKey) (node : Node PKey) (pkt : Packet)
    (draw : Draw PKey) : Attempt PKey :=
  if node.state ≠ .handshake then ⟨node, none, [], none⟩
  else
    let decrypted := decryptAesContext ssl keys.privateKey pkt.data draw.len
    let node := { node with aesContextRx := node.aesContextRx.overwrite decrypted.written }
    if !decrypted.ok then ⟨node, none, [], some .decryptAesContext⟩
    else
      sendReply ssl { node with state := .checkEncryption }
        ((Packet.construct draw.reply .ready myId node.id).setLength 0) draw

/-- The `Ready` case. -/
def tryReady (node : Node PKey) : Attempt PKey :=
  if node.state ≠ .checkEncryption then ⟨node, none, [], none⟩
  else ⟨{ node with state := .connected }, none, [], none⟩

/-- The `switch` of `_process_packet` on a known node. -/
def attempt (myId : UInt64) (keys : KeyPair PKey) (node : Node PKey) (pkt : Packet)
    (draw : Draw PKey) : Attempt PKey :=
  match pkt.type with
  | some .ping => ⟨node, none, [], none⟩
  | some .publicKeyRequest => tryPublicKeyRequest ssl myId keys node draw
  | some .publicKeyReply => tryPublicKeyReply ssl myId node pkt draw
  | some .encryptionContext => tryEncryptionContext ssl myId keys node pkt draw
  | some .ready => tryReady node
  | some .discovery => ⟨node, none, [], none⟩
  | none => ⟨node, none, [], none⟩

/-- What the receive loop sees of an attempt: a failure that throws, or the record and what was
sent. -/
def Attempt.outcome (attempt : Attempt PKey) : Except String (Node PKey × List Sent) :=
  match attempt.failure with
  | some (.writePublicKey what) => .error what
  | some (.readPublicKey what) => .error what
  | _ => .ok (attempt.node, attempt.sent)

variable {ssl}

/-! ### The handling of the receive loop -/

@[simp] theorem sendReply_node (node : Node PKey) (reply : Packet) (draw : Draw PKey) :
    (sendReply ssl node reply draw).node = node := rfl

@[simp] theorem sendReply_handed (node : Node PKey) (reply : Packet) (draw : Draw PKey) :
    (sendReply ssl node reply draw).handed = some reply := rfl

/-- Sending fails when `_send` returns false. -/
theorem sendReply_failure (node : Node PKey) (reply : Packet) (draw : Draw PKey) :
    (sendReply ssl node reply draw).failure ≠ none ↔
      (send ssl (some node) reply node.addr draw).ok = false := by
  simp only [sendReply]
  cases (send ssl (some node) reply node.addr draw).ok <;> simp

/-- Nobody looks at what `_send` returns. -/
theorem sendReply_outcome (node : Node PKey) (reply : Packet) (draw : Draw PKey) :
    (sendReply ssl node reply draw).outcome =
      .ok (node, (send ssl (some node) reply node.addr draw).sent) := by
  simp only [sendReply, Attempt.outcome]
  cases (send ssl (some node) reply node.addr draw).ok <;> rfl

/-- A `PublicKeyRequest` in the receive loop. -/
theorem onPublicKeyRequest_eq (myId : UInt64) (keys : KeyPair PKey) (node : Node PKey)
    (draw : Draw PKey) : onPublicKeyRequest ssl myId keys node draw =
      (tryPublicKeyRequest ssl myId keys node draw).outcome := by
  unfold onPublicKeyRequest tryPublicKeyRequest
  cases (Packet.construct draw.reply .publicKeyReply myId node.id).writePublicKey ssl keys with
  | error what => rfl
  | ok reply => exact (sendReply_outcome _ _ _).symm

/-- A `PublicKeyReply` in the receive loop. -/
theorem onPublicKeyReply_eq (myId : UInt64) (node : Node PKey) (pkt : Packet) (draw : Draw PKey) :
    onPublicKeyReply ssl myId node pkt draw =
      (tryPublicKeyReply ssl myId node pkt draw).outcome := by
  unfold onPublicKeyReply tryPublicKeyReply
  by_cases hstate : node.state = .keyExchange
  · rw [if_neg (not_not.mpr hstate), if_neg (not_not.mpr hstate)]
    unfold Packet.readPublicKey
    cases ssl.d2iPublicKey pkt.data with
    | none => rfl
    | some key =>
      dsimp only
      cases encryptAesContext ssl draw.sessionKey (some key) kapuaMaxDataSize draw.padding with
      | none => rfl
      | some encrypted => exact (sendReply_outcome _ _ _).symm
  · rw [if_pos hstate, if_pos hstate]
    rfl

/-- An `EncryptionContext` in the receive loop. -/
theorem onEncryptionContext_eq (myId : UInt64) (keys : KeyPair PKey) (node : Node PKey)
    (pkt : Packet) (draw : Draw PKey) : onEncryptionContext ssl myId keys node pkt draw =
      (tryEncryptionContext ssl myId keys node pkt draw).outcome := by
  unfold onEncryptionContext tryEncryptionContext
  by_cases hstate : node.state = .handshake
  · rw [if_neg (not_not.mpr hstate), if_neg (not_not.mpr hstate)]
    dsimp only
    cases (decryptAesContext ssl keys.privateKey pkt.data draw.len).ok with
    | false => rfl
    | true => exact (sendReply_outcome _ _ _).symm
  · rw [if_pos hstate, if_pos hstate]
    rfl

/-- A `Ready` in the receive loop. -/
theorem onReady_eq (node : Node PKey) : onReady node = (tryReady node).outcome := by
  unfold onReady tryReady
  split_ifs <;> rfl

/-- The receive loop handles packets as `attempt` does. -/
theorem dispatch_eq_attempt (myId : UInt64) (keys : KeyPair PKey) (node : Node PKey)
    (pkt : Packet) (draw : Draw PKey) :
    dispatch ssl myId keys node pkt draw = (attempt ssl myId keys node pkt draw).outcome := by
  unfold dispatch attempt
  cases pkt.type with
  | none => rfl
  | some type =>
    cases type with
    | ping => rfl
    | publicKeyRequest => exact onPublicKeyRequest_eq myId keys node draw
    | publicKeyReply => exact onPublicKeyReply_eq myId node pkt draw
    | encryptionContext => exact onEncryptionContext_eq myId keys node pkt draw
    | ready => exact onReady_eq node
    | discovery => rfl

/-! ### Failures that leave the record -/

/-- If a step of the attempt failed, it left the record. -/
def Attempt.Leaves (attempt : Attempt PKey) (node : Node PKey) : Prop :=
  attempt.failure ≠ none → attempt.node = node

variable (ssl)

/-- The packet of `_process_packet` that answers with some data. -/
def filledReply (draw : Draw PKey) (type : PacketType) (myId toId : UInt64) (data : Bytes) :
    Packet :=
  ((Packet.construct draw.reply type myId toId).writeData data).setLength data.length

/-- `sendto` takes the bytes and reports the size that the packet has without encryption. -/
def TakesAs (draw : Draw PKey) (pkt : Packet) (bytes : Bytes) : Prop :=
  draw.sendto bytes = kapuaHeaderSize + pkt.length

/-- A `PublicKeyRequest` leaves the record if it fails: the own public key cannot be encoded or does
not fit a packet; or `sendto` takes the reply with it; or the record is in `keyExchange` already. -/
def RequestLeaves (myId : UInt64) (keys : KeyPair PKey) (node : Node PKey) (draw : Draw PKey) :
    Prop :=
  ∀ key encoded, keys.publicKey = some key → ssl.i2dPublicKey key = some encoded →
    0 < encoded.length → encoded.length ≤ kapuaMaxDataSize →
      TakesAs draw (filledReply draw .publicKeyReply myId node.id encoded)
          (filledReply draw .publicKeyReply myId node.id encoded).datagram ∨
        node.state = .keyExchange

/-- What a `PublicKeyReply` with a key of the peer needs to leave the record if it fails. Where the
session key cannot be encrypted for the key, the record has this key, and has drawn this session key
before; otherwise `sendto` takes the encrypted session key. -/
structure KeyLeaves (myId : UInt64) (node : Node PKey) (key : PKey) (draw : Draw PKey) : Prop where
  unsealed : kapuaMaxDataSize < ssl.evpPkeySize key ∨
    ssl.evpPkeyEncrypt key draw.padding draw.sessionKey.bytes = none →
      node.keys.publicKey = some key ∧ node.aesContextTx = draw.sessionKey
  taken : ∀ encrypted, ssl.evpPkeySize key ≤ kapuaMaxDataSize →
    ssl.evpPkeyEncrypt key draw.padding draw.sessionKey.bytes = some encrypted →
      TakesAs draw (filledReply draw .encryptionContext myId node.id encrypted)
        (filledReply draw .encryptionContext myId node.id encrypted).datagram

/-- A `PublicKeyReply` leaves the record if it fails: the record is not in `keyExchange`; or there
is no key in the packet and none in the record; or the key in the packet is one of `KeyLeaves`. -/
def ReplyLeaves (myId : UInt64) (node : Node PKey) (pkt : Packet) (draw : Draw PKey) : Prop :=
  node.state = .keyExchange →
    match ssl.d2iPublicKey pkt.data with
    | none => node.keys.publicKey = none
    | some key => KeyLeaves ssl myId node key draw

/-- What an `EncryptionContext` with a plaintext needs to leave the record if it fails. A plaintext
of another size than a session key, as far as it fits the slot, is what the slot begins with; after
a session key, the `Ready` is encrypted, and `sendto` reports the size of a bare header for it. -/
structure PlaintextLeaves (myId : UInt64) (node : Node PKey) (plaintext : Bytes)
    (draw : Draw PKey) : Prop where
  mismatch : plaintext.length ≠ 32 → plaintext.take 32 <+: node.aesContextRx.bytes
  taken : plaintext.length = 32 → ∃ ciphertext,
    ssl.aes256CbcEncrypt node.aesContextTx (draw.iv.toList.take 16)
      (filledReply draw .ready myId node.id []).datagram = some ciphertext ∧
    TakesAs draw (filledReply draw .ready myId node.id []) (draw.iv.toList ++ ciphertext)

/-- An `EncryptionContext` leaves the record if it fails: the record is not in `handshake`; or
`EVP_PKEY_decrypt` fails; or the plaintext is one of `PlaintextLeaves`. -/
def ContextLeaves (myId : UInt64) (keys : KeyPair PKey) (node : Node PKey) (pkt : Packet)
    (draw : Draw PKey) : Prop :=
  node.state = .handshake → ∀ key plaintext, keys.privateKey = some key →
    ssl.evpPkeyDecrypt key draw.len pkt.data = some plaintext →
      PlaintextLeaves ssl myId node plaintext draw

/-- The packets that leave the record if their handling fails. -/
def FailureLeaves (myId : UInt64) (keys : KeyPair PKey) (node : Node PKey) (pkt : Packet)
    (draw : Draw PKey) : Prop :=
  match pkt.type with
  | some .publicKeyRequest => RequestLeaves ssl myId keys node draw
  | some .publicKeyReply => ReplyLeaves ssl myId node pkt draw
  | some .encryptionContext => ContextLeaves ssl myId keys node pkt draw
  | _ => True

variable {ssl}

/-- What `_send` returns for a record before `checkEncryption`. -/
theorem send_ok_of_plain {node : Node PKey} (hstate : ¬ NodeState.checkEncryption ≤ node.state)
    (pkt : Packet) (addr : Sockaddr) (draw : Draw PKey) :
    (send ssl (some node) pkt addr draw).ok = true ↔ TakesAs draw pkt pkt.datagram := by
  simp [send, hstate, TakesAs]

/-- What `_send` returns for a record that encrypts. -/
theorem send_ok_of_sealed {node : Node PKey} (hstate : NodeState.checkEncryption ≤ node.state)
    (pkt : Packet) (addr : Sockaddr) (draw : Draw PKey) :
    (send ssl (some node) pkt addr draw).ok = true ↔ ∃ ciphertext,
      ssl.aes256CbcEncrypt node.aesContextTx (draw.iv.toList.take 16) pkt.datagram =
        some ciphertext ∧ TakesAs draw pkt (draw.iv.toList ++ ciphertext) := by
  unfold send aesEncrypt TakesAs
  dsimp only
  rw [if_pos hstate]
  cases ssl.aes256CbcEncrypt node.aesContextTx (draw.iv.toList.take 16) pkt.datagram with
  | none => simp
  | some ciphertext => simp

/-- The reply without data is the packet as it was constructed. -/
theorem filledReply_nil (draw : Draw PKey) (type : PacketType) (myId toId : UInt64) :
    filledReply draw type myId toId [] =
      (Packet.construct draw.reply type myId toId).setLength 0 := by
  unfold filledReply Packet.writeData
  rw [Memory.write_nil]
  rfl

/-- An attempt without a failure leaves nothing to show. -/
theorem leaves_of_success {attempt : Attempt PKey} (h : attempt.failure = none)
    (node : Node PKey) : attempt.Leaves node :=
  fun hfail ↦ absurd h hfail

/-- A failure other than `_send`'s leaves the record when the record is the same. -/
theorem leaves_failure_iff {after node : Node PKey} {failure : Failure} :
    (⟨after, none, [], some failure⟩ : Attempt PKey).Leaves node ↔ after = node :=
  ⟨fun h ↦ h (Option.some_ne_none _), fun h _ ↦ h⟩

/-- A reply leaves the record when `_send` sends it or the record is the same. -/
theorem sendReply_leaves_iff {after node : Node PKey} {reply : Packet} {draw : Draw PKey} :
    (sendReply ssl after reply draw).Leaves node ↔
      (send ssl (some after) reply after.addr draw).ok = true ∨ after = node := by
  rw [Attempt.Leaves, sendReply_failure, sendReply_node]
  cases (send ssl (some after) reply after.addr draw).ok <;> simp

/-- The record after some of its session was assigned is the same record when that is what was
there. -/
theorem node_eq_iff {node : Node PKey} {key : Option PKey} {tx rx : AESKey} :
    { node with keys := { node.keys with publicKey := key }, aesContextTx := tx,
                aesContextRx := rx } = node ↔
      node.keys.publicKey = key ∧ node.aesContextTx = tx ∧ node.aesContextRx = rx := by
  constructor
  · intro h
    exact ⟨(congrArg (fun after ↦ after.keys.publicKey) h).symm,
      (congrArg Node.aesContextTx h).symm, (congrArg Node.aesContextRx h).symm⟩
  · rintro ⟨rfl, rfl, rfl⟩
    rfl

/-- A record in another state is another record. -/
theorem node_ne_of_state {after node : Node PKey} (h : after.state ≠ node.state) : after ≠ node :=
  fun heq ↦ h (congrArg Node.state heq)

section Leaves

variable (myId : UInt64) (keys : KeyPair PKey) (node : Node PKey) (pkt : Packet) (draw : Draw PKey)

theorem request_leaves_iff : (tryPublicKeyRequest ssl myId keys node draw).Leaves node ↔
    RequestLeaves ssl myId keys node draw := by
  unfold tryPublicKeyRequest RequestLeaves
  cases hwrite : (Packet.construct draw.reply .publicKeyReply myId node.id).writePublicKey ssl
      keys with
  | error what =>
    refine iff_of_true (leaves_failure_iff.mpr rfl) fun key encoded hkey hencoded hpos hfits ↦ ?_
    obtain ⟨reply, hreply⟩ := writePublicKey_of_writable ⟨key, encoded, hkey, hencoded, hpos, hfits⟩
      (Packet.construct draw.reply .publicKeyReply myId node.id)
    cases hwrite.symm.trans hreply
  | ok reply =>
    obtain ⟨key, encoded, hkey, hencoded, hpos, hfits, rfl⟩ := writePublicKey_eq_ok hwrite
    have hsame : { node with state := .keyExchange } = node ↔ node.state = .keyExchange :=
      ⟨fun h ↦ (congrArg Node.state h).symm, fun h ↦ by rw [← h]⟩
    have hplain : ¬ NodeState.checkEncryption ≤ NodeState.keyExchange := by decide
    dsimp only
    rw [sendReply_leaves_iff, hsame, send_ok_of_plain hplain]
    constructor
    · intro h key' encoded' hkey' hencoded' _ _
      obtain rfl := Option.some.inj (hkey.symm.trans hkey')
      obtain rfl := Option.some.inj (hencoded.symm.trans hencoded')
      exact h
    · exact fun h ↦ h key encoded hkey hencoded hpos hfits

/-- A `PublicKeyReply` with a key, for a record in `keyExchange`. -/
theorem key_leaves_iff (key : PKey) (hstate : node.state = .keyExchange)
    (hkey : ssl.d2iPublicKey pkt.data = some key) :
    (tryPublicKeyReply ssl myId node pkt draw).Leaves node ↔ KeyLeaves ssl myId node key draw := by
  have hread : pkt.readPublicKey ssl = .ok key := by rw [Packet.readPublicKey, hkey]
  unfold tryPublicKeyReply
  rw [if_neg (not_not.mpr hstate), hread, hkey]
  dsimp only
  rw [encryptAesContext]
  by_cases hlarge : kapuaMaxDataSize < ssl.evpPkeySize key
  · rw [if_pos hlarge]
    dsimp only
    rw [leaves_failure_iff, node_eq_iff]
    constructor
    · rintro ⟨hpublic, htx, -⟩
      exact ⟨fun _ ↦ ⟨hpublic, htx⟩, fun _ hsmall ↦ absurd hsmall (not_le.mpr hlarge)⟩
    · rintro ⟨hunsealed, -⟩
      obtain ⟨hpublic, htx⟩ := hunsealed (Or.inl hlarge)
      exact ⟨hpublic, htx, rfl⟩
  · rw [if_neg hlarge]
    cases hseal : ssl.evpPkeyEncrypt key draw.padding draw.sessionKey.bytes with
    | none =>
      dsimp only
      rw [leaves_failure_iff, node_eq_iff]
      constructor
      · rintro ⟨hpublic, htx, -⟩
        exact ⟨fun _ ↦ ⟨hpublic, htx⟩, fun _ _ hsealed ↦ by cases hseal.symm.trans hsealed⟩
      · rintro ⟨hunsealed, -⟩
        obtain ⟨hpublic, htx⟩ := hunsealed (Or.inr hseal)
        exact ⟨hpublic, htx, rfl⟩
    | some encrypted =>
      -- a record in `keyExchange` that is sent a reply is left in `handshake`
      have hplain : ¬ NodeState.checkEncryption ≤ NodeState.handshake := by decide
      have hchanged : NodeState.handshake ≠ node.state := by simp [hstate]
      dsimp only
      rw [sendReply_leaves_iff, or_iff_left (node_ne_of_state hchanged), send_ok_of_plain hplain]
      constructor
      · intro htaken
        refine ⟨?_, fun other _ hsealed ↦ ?_⟩
        · rintro (hlarge' | hnone)
          · exact absurd hlarge' hlarge
          · cases hseal.symm.trans hnone
        · obtain rfl := Option.some.inj (hseal.symm.trans hsealed)
          exact htaken
      · exact fun h ↦ h.taken encrypted (not_lt.mp hlarge) hseal

theorem reply_leaves_iff : (tryPublicKeyReply ssl myId node pkt draw).Leaves node ↔
    ReplyLeaves ssl myId node pkt draw := by
  unfold ReplyLeaves
  by_cases hstate : node.state = .keyExchange
  · rw [imp_iff_right hstate]
    cases hkey : ssl.d2iPublicKey pkt.data with
    | none =>
      have hread : pkt.readPublicKey ssl = .error "Failed to deserialize the public key" := by
        rw [Packet.readPublicKey, hkey]
      unfold tryPublicKeyReply
      rw [if_neg (not_not.mpr hstate), hread, hkey]
      dsimp only
      rw [leaves_failure_iff, node_eq_iff]
      exact and_iff_left ⟨rfl, rfl⟩
    | some key => exact key_leaves_iff myId node pkt draw key hstate hkey
  · unfold tryPublicKeyReply
    rw [if_pos hstate]
    exact iff_of_true (leaves_of_success rfl node) fun h ↦ absurd h hstate

/-- An `EncryptionContext` with a plaintext, for a record in `handshake`. -/
theorem plaintext_leaves_iff {key : PKey} {plaintext : Bytes} (hstate : node.state = .handshake)
    (hkey : keys.privateKey = some key)
    (hopen : ssl.evpPkeyDecrypt key draw.len pkt.data = some plaintext) :
    (tryEncryptionContext ssl myId keys node pkt draw).Leaves node ↔
      PlaintextLeaves ssl myId node plaintext draw := by
  have hdecrypt : decryptAesContext ssl keys.privateKey pkt.data draw.len =
      ⟨plaintext.length == 32, plaintext⟩ := by
    simp only [decryptAesContext, hkey, hopen]
  unfold tryEncryptionContext
  rw [if_neg (not_not.mpr hstate), hdecrypt]
  dsimp only
  by_cases hsize : plaintext.length = 32
  · -- a record in `handshake` that is sent a `Ready` is left in `checkEncryption`
    have hchanged : NodeState.checkEncryption ≠ node.state := by simp [hstate]
    have hencrypts : NodeState.checkEncryption ≤ NodeState.checkEncryption := by decide
    rw [if_neg (by simp [hsize]), sendReply_leaves_iff, or_iff_left (node_ne_of_state hchanged),
      send_ok_of_sealed hencrypts, ← filledReply_nil]
    exact ⟨fun htaken ↦ ⟨fun hother ↦ absurd hsize hother, fun _ ↦ htaken⟩, fun h ↦ h.taken hsize⟩
  · rw [if_pos (by simp [hsize]), leaves_failure_iff,
      show { node with aesContextRx := node.aesContextRx.overwrite plaintext } = node ↔
        node.aesContextRx.overwrite plaintext = node.aesContextRx from
          node_eq_iff.trans ⟨fun h ↦ h.2.2.symm, fun h ↦ ⟨rfl, rfl, h.symm⟩⟩,
      AESKey.overwrite_eq_self_iff]
    exact ⟨fun hprefix ↦ ⟨fun _ ↦ hprefix, fun hwhole ↦ absurd hwhole hsize⟩,
      fun h ↦ h.mismatch hsize⟩

theorem context_leaves_iff : (tryEncryptionContext ssl myId keys node pkt draw).Leaves node ↔
    ContextLeaves ssl myId keys node pkt draw := by
  unfold ContextLeaves
  by_cases hstate : node.state = .handshake
  · rw [imp_iff_right hstate]
    -- where nothing is recovered, nothing is written
    have hnothing (hfail : decryptAesContext ssl keys.privateKey pkt.data draw.len = ⟨false, []⟩) :
        (tryEncryptionContext ssl myId keys node pkt draw).Leaves node := by
      unfold tryEncryptionContext
      rw [if_neg (not_not.mpr hstate), hfail]
      simp [leaves_failure_iff]
    cases hkey : keys.privateKey with
    | none =>
      exact iff_of_true (hnothing (by simp [decryptAesContext, hkey])) fun _ _ h ↦ by cases h
    | some key =>
      cases hopen : ssl.evpPkeyDecrypt key draw.len pkt.data with
      | none =>
        refine iff_of_true (hnothing (by simp [decryptAesContext, hkey, hopen])) ?_
        rintro other plaintext ⟨⟩ hother
        cases hopen.symm.trans hother
      | some plaintext =>
        rw [plaintext_leaves_iff myId keys node pkt draw hstate hkey hopen]
        constructor
        · rintro h other plaintext' ⟨⟩ hother
          obtain rfl := Option.some.inj (hopen.symm.trans hother)
          exact h
        · exact fun h ↦ h key plaintext rfl hopen
  · unfold tryEncryptionContext
    rw [if_pos hstate]
    exact iff_of_true (leaves_of_success rfl node) fun h ↦ absurd h hstate

end Leaves

variable (ssl) in
/-- If a step of `_process_packet`'s handling fails, the record is the one from before the packet,
but for the time of the last contact. -/
def LeavesRecord (myId : UInt64) (keys : KeyPair PKey) (node : Node PKey) (pkt : Packet)
    (draw : Draw PKey) : Prop :=
  (attempt ssl myId keys (node.updateLastContact draw.now) pkt draw).failure ≠ none →
    (attempt ssl myId keys (node.updateLastContact draw.now) pkt draw).node =
      node.updateLastContact draw.now

/-- A failure leaves the record exactly when the packet is one of those that `FailureLeaves`
describes. -/
theorem leaves_record_iff (myId : UInt64) (keys : KeyPair PKey) (node : Node PKey) (pkt : Packet)
    (draw : Draw PKey) : LeavesRecord ssl myId keys node pkt draw ↔
      FailureLeaves ssl myId keys (node.updateLastContact draw.now) pkt draw := by
  show (attempt ssl myId keys (node.updateLastContact draw.now) pkt draw).Leaves
    (node.updateLastContact draw.now) ↔ _
  unfold attempt FailureLeaves
  cases pkt.type with
  | none => exact iff_of_true (leaves_of_success rfl _) trivial
  | some type =>
    cases type with
    | publicKeyRequest => exact request_leaves_iff myId keys _ draw
    | publicKeyReply => exact reply_leaves_iff myId _ pkt draw
    | encryptionContext => exact context_leaves_iff myId keys _ pkt draw
    | ready =>
      refine iff_of_true (leaves_of_success ?_ _) trivial
      unfold tryReady
      split_ifs <;> rfl
    | ping => exact iff_of_true (leaves_of_success rfl _) trivial
    | discovery => exact iff_of_true (leaves_of_success rfl _) trivial

/-- A `PublicKeyReply` without data replaces the key that a record in `keyExchange` holds by null
before the handling fails. -/
theorem not_leaves_record : ¬ LeavesRecord tagged 5 ⟨some 1, some 1⟩
    { taggedNode with state := .keyExchange, keys := ⟨some 2, none⟩ }
    (Packet.construct (fun _ ↦ 0) .publicKeyReply 7 5) (taggedDraw 9) := by
  intro hleaves
  have hnode := hleaves (by decide +kernel)
  have hkey := congrArg (fun node ↦ node.keys.publicKey) hnode
  exact absurd hkey (by decide +kernel)

end Kapua
