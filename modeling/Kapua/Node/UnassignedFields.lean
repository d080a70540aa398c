import Kapua.Node.FailedHandling

/-!
# Header fields that are never assigned

A packet is built in storage that `make_shared` returns, and its constructors assign some of the
header: `packet_id` is assigned by none of them, `request_id` by one that no sender uses. `_send`
hands all of the header to `sendto` or to the cipher, so the sixteen bytes of these two fields leave
the process as they were found.

`Sending` are the places that build a packet and send it, `Sending.handed` is the packet they hand
to `_send`, and `sent_plaintext_iff` compares the plaintext for two contents of the storage: it is
the same exactly when the contents agree on the two fields.
-/

set_option autoImplicit false
set_option relaxedAutoImplicit false

namespace Kapua

/-- The offsets of `packet_id` and of `request_id`. -/
def Unassigned (i : ℕ) : Prop := 10 ≤ i ∧ i < 18 ∨ 36 ≤ i ∧ i < 44

/-- Two contents of the storage of a packet that agree on the fields no sender assigns. -/
def SameUnassigned (first second : Memory) : Prop := ∀ i, Unassigned i → first i = second i

namespace Packet

/-- The ways senders build packets: the constructor with three arguments, and data with its length
after that. -/
inductive Assembled : (Memory → Packet) → Prop
  | bare (type : PacketType) (fromId toId : UInt64) :
      Assembled fun storage ↦ construct storage type fromId toId
  | filled (type : PacketType) (fromId toId : UInt64) (bytes : Bytes) :
      Assembled fun storage ↦
        ((construct storage type fromId toId).writeData bytes).setLength bytes.length

/-- What the constructor with three arguments assigns. -/
theorem fills_construct (type : PacketType) (fromId toId : UInt64) :
    Memory.Fills (fun storage ↦ construct storage type fromId toId)
      fun i ↦ i < kapuaHeaderSize ∧ ¬ Unassigned i := by
  refine (((((((((Memory.fills_id.write 34 _).write 44 _).write 0 _).write 5 _).write 44 _).write 8
    _).write 18 _).write 26 _).write 26 _).congr fun i ↦ ?_
  simp only [length_leBytes, kapuaMagicNumber, List.length_cons, List.length_nil, Unassigned,
    kapuaHeaderSize, false_or]
  omega

/-- The length that `setLength` assigns is read back, reduced to 16 bits. -/
theorem length_setLength (pkt : Packet) (len : ℕ) : (pkt.setLength len).length = len % 256 ^ 2 := by
  have hslice := Memory.slice_write_self pkt 44 (leBytes 2 len)
  rw [length_leBytes] at hslice
  rw [Packet.length, setLength, hslice, leNat_leBytes]

/-- The plaintext of an assembled packet depends on the unassigned fields and on nothing else of the
storage. -/
theorem Assembled.datagram_eq_iff {build : Memory → Packet} (h : Assembled build)
    (first second : Memory) :
    (build first).datagram = (build second).datagram ↔ SameUnassigned first second := by
  obtain ⟨len, Assigned, hfills, hlength, hassigned⟩ : ∃ len Assigned,
      Memory.Fills build Assigned ∧ (∀ storage, (build storage).length = len) ∧
        ∀ i, i < kapuaHeaderSize + len → (¬ Assigned i ↔ Unassigned i) := by
    cases h with
    | bare type fromId toId =>
      refine ⟨0, _, fills_construct type fromId toId,
        fun storage ↦ (isHeader_construct storage type fromId toId).length, fun i hi ↦ ?_⟩
      simp only [Unassigned, kapuaHeaderSize] at hi ⊢
      omega
    | filled type fromId toId bytes =>
      refine ⟨bytes.length % 256 ^ 2, _,
        ((fills_construct type fromId toId).write kapuaHeaderSize bytes).write 44
          (leBytes 2 bytes.length), fun storage ↦ length_setLength _ _, fun i hi ↦ ?_⟩
      simp only [Unassigned, kapuaHeaderSize, length_leBytes] at hi ⊢
      have hle := Nat.mod_le bytes.length (256 ^ 2)
      omega
  rw [datagram, datagram, hlength, hlength, hfills.slice_eq_iff]
  constructor
  · intro hsame i hi
    have hheader : i < kapuaHeaderSize + len := by
      simp only [Unassigned, kapuaHeaderSize] at hi ⊢
      omega
    exact hsame i (Nat.zero_le i) (by omega) ((hassigned i hheader).mpr hi)
  · intro hsame i _ hlt hi
    exact hsame i ((hassigned i (by omega)).mp hi)

end Packet

variable {PKey : Type}

/-- A draw with other contents in the storage of the packets. -/
def Draw.withStorage (draw : Draw PKey) (pkt rpkPkt reply : Memory) : Draw PKey :=
  { draw with pkt := pkt, rpkPkt := rpkPkt, reply := reply }

/-- The places that build a packet and hand it to `_send`: `_broadcast`, `_receive` when something
arrived, and `_process_packet` on a packet for a known node. -/
inductive Sending (PKey : Type)
  | broadcast (core : Core PKey)
  | receive (s : LoopState PKey) (arrival : Arrival)
  | process (core : Core PKey) (node : Option NodePtr) (pkt : Packet)

namespace Sending

variable (ssl : OpenSSL PKey)

/-- The packet handed to `_send`, if any. -/
def handed (sending : Sending PKey) (draw : Draw PKey) : Option Packet :=
  match sending with
  | broadcast core =>
    some (Packet.construct draw.pkt .discovery core.myId kapuaIdBroadcast)
  | receive s arrival =>
    (recvfrom s arrival draw).bind fun arrived ↦
      if (screened ssl s arrived).accepted && (s.core.findNode arrived.fromAddr).isNone then
        some (Packet.construct draw.rpkPkt .publicKeyRequest s.core.myId
          (screened ssl s arrived).pkt.fromId)
      else none
  | process core node pkt =>
    node.bind fun ptr ↦ (attempt ssl core.myId core.keys
      ((core.heap ptr).updateLastContact draw.now) pkt draw).handed

/-- What these places hand to `sendto`. -/
def sent (sending : Sending PKey) (port : UInt16) (draw : Draw PKey) : List Sent :=
  match sending with
  | broadcast core => Kapua.broadcast ssl core port draw
  | receive s arrival => (Kapua.receive ssl s arrival draw).sent
  | process core node pkt =>
    match processPacket ssl core node pkt draw with
    | .error _ => []
    | .ok (_, sent) => sent

/-- The storage the packet is built in. -/
def storage (sending : Sending PKey) (draw : Draw PKey) : Memory :=
  match sending with
  | broadcast _ => draw.pkt
  | receive _ _ => draw.rpkPkt
  | process _ _ _ => draw.reply

variable {ssl}

/-- A reply that is sent was handed to `_send`. -/
theorem handed_of_mem_sendReply {node : Node PKey} {reply : Packet} {draw : Draw PKey} {out : Sent}
    (h : out ∈ (sendReply ssl node reply draw).sent) :
    (sendReply ssl node reply draw).handed = some out.packet :=
  congrArg some (packet_of_mem_sent h).1.symm

/-- Handling ends in the same place whatever the storage of the packets holds: nothing is sent, or a
reply that is always assembled in the same way. -/
def EndsAlike (ssl : OpenSSL PKey) (run : Draw PKey → Attempt PKey) (draw : Draw PKey) : Prop :=
  (∀ first second third, (run (draw.withStorage first second third)).handed = none ∧
    (run (draw.withStorage first second third)).sent = []) ∨
  ∃ after build, Packet.Assembled build ∧ ∀ first second third,
    run (draw.withStorage first second third) =
      sendReply ssl after (build third) (draw.withStorage first second third)

/-- Whether the own key can be written does not depend on the packet it is written to. -/
theorem writePublicKey_eq_error {keys : KeyPair PKey} {pkt pkt' : Packet} {what : String}
    (h : pkt.writePublicKey ssl keys = .error what) :
    pkt'.writePublicKey ssl keys = .error what := by
  unfold Packet.writePublicKey at h ⊢
  cases hkey : keys.publicKey with
  | none => simpa [hkey] using h
  | some key =>
    cases hencoded : ssl.i2dPublicKey key with
    | none => simpa [hkey, hencoded] using h
    | some encoded =>
      simp only [hkey, hencoded] at h ⊢
      split_ifs at h ⊢ <;> exact h

section Ends

variable (ssl) (myId : UInt64) (keys : KeyPair PKey) (node : Node PKey) (pkt : Packet)
  (draw : Draw PKey)

theorem request_endsAlike : EndsAlike ssl (tryPublicKeyRequest ssl myId keys node) draw := by
  cases hwritten : (Packet.construct draw.reply .publicKeyReply myId node.id).writePublicKey ssl
      keys with
  | error what =>
    refine .inl fun _ _ _ ↦ ?_
    rw [tryPublicKeyRequest, writePublicKey_eq_error hwritten]
    exact ⟨rfl, rfl⟩
  | ok reply =>
    obtain ⟨key, encoded, hkey, hencoded, hpos, hfits, -⟩ := writePublicKey_eq_ok hwritten
    refine .inr ⟨{ node with state := .keyExchange }, _,
      .filled .publicKeyReply myId node.id encoded, fun _ _ _ ↦ ?_⟩
    simp only [tryPublicKeyRequest, Packet.writePublicKey, hkey, hencoded, if_neg hpos.ne',
      if_neg (not_lt.mpr hfits)]
    rfl

theorem reply_endsAlike : EndsAlike ssl (tryPublicKeyReply ssl myId node pkt) draw := by
  by_cases hstate : node.state = .keyExchange
  · cases hkey : ssl.d2iPublicKey pkt.data with
    | none =>
      refine .inl fun _ _ _ ↦ ?_
      rw [tryPublicKeyReply, if_neg (not_not.mpr hstate)]
      simp only [Packet.readPublicKey, hkey, and_self]
    | some key =>
      cases hencrypted : encryptAesContext ssl draw.sessionKey (some key) kapuaMaxDataSize
          draw.padding with
      | none =>
        refine .inl fun _ _ _ ↦ ?_
        rw [tryPublicKeyReply, if_neg (not_not.mpr hstate)]
        simp only [Packet.readPublicKey, hkey, Draw.withStorage, hencrypted, and_self]
      | some encrypted =>
        refine .inr ⟨{ node with
          keys := { node.keys with publicKey := some key }
          aesContextTx := draw.sessionKey
          state := .handshake }, _, .filled .encryptionContext myId node.id encrypted,
          fun _ _ _ ↦ ?_⟩
        rw [tryPublicKeyReply, if_neg (not_not.mpr hstate)]
        simp only [Packet.readPublicKey, hkey, Draw.withStorage, hencrypted]
  · refine .inl fun _ _ _ ↦ ?_
    rw [tryPublicKeyReply, if_pos hstate]
    exact ⟨rfl, rfl⟩

theorem context_endsAlike : EndsAlike ssl (tryEncryptionContext ssl myId keys node pkt) draw := by
  by_cases hstate : node.state = .handshake
  · cases hopen : (decryptAesContext ssl keys.privateKey pkt.data draw.len).ok with
    | false =>
      refine .inl fun _ _ _ ↦ ?_
      rw [tryEncryptionContext, if_neg (not_not.mpr hstate)]
      simp [Draw.withStorage, hopen]
    | true =>
      refine .inr ⟨{ node with
        aesContextRx := node.aesContextRx.overwrite
          (decryptAesContext ssl keys.privateKey pkt.data draw.len).written
        state := .checkEncryption }, _, .filled .ready myId node.id [], fun _ _ _ ↦ ?_⟩
      rw [tryEncryptionContext, if_neg (not_not.mpr hstate)]
      simp only [Draw.withStorage, hopen, Packet.writeData, Memory.write_nil]
      rfl
  · refine .inl fun _ _ _ ↦ ?_
    rw [tryEncryptionContext, if_pos hstate]
    exact ⟨rfl, rfl⟩

theorem attempt_endsAlike : EndsAlike ssl (attempt ssl myId keys node pkt) draw := by
  unfold attempt
  cases pkt.type with
  | none => exact .inl fun _ _ _ ↦ ⟨rfl, rfl⟩
  | some type =>
    cases type with
    | ping => exact .inl fun _ _ _ ↦ ⟨rfl, rfl⟩
    | discovery => exact .inl fun _ _ _ ↦ ⟨rfl, rfl⟩
    | ready =>
      refine .inl fun _ _ _ ↦ ?_
      unfold tryReady
      split_ifs <;> exact ⟨rfl, rfl⟩
    | publicKeyRequest => exact request_endsAlike ssl myId keys node draw
    | publicKeyReply => exact reply_endsAlike ssl myId node pkt draw
    | encryptionContext => exact context_endsAlike ssl myId keys node pkt draw

end Ends

/-- What handling a packet sends was handed to `_send`. -/
theorem handed_of_mem_attempt {myId : UInt64} {keys : KeyPair PKey} {node : Node PKey}
    {pkt : Packet} {draw : Draw PKey} {out : Sent}
    (h : out ∈ (attempt ssl myId keys node pkt draw).sent) :
    (attempt ssl myId keys node pkt draw).handed = some out.packet := by
  rcases attempt_endsAlike ssl myId keys node pkt draw with
    hquiet | ⟨after, build, -, hends⟩
  · have hsent : (attempt ssl myId keys node pkt draw).sent = [] :=
      (hquiet draw.pkt draw.rpkPkt draw.reply).2
    rw [hsent] at h
    cases h
  · have hreply : attempt ssl myId keys node pkt draw =
        sendReply ssl after (build draw.reply) draw := hends draw.pkt draw.rpkPkt draw.reply
    rw [hreply] at h ⊢
    exact handed_of_mem_sendReply h

/-- An attempt that does not throw shows what it sent. -/
theorem Attempt.sent_of_outcome {done : Attempt PKey} {node : Node PKey} {sent : List Sent}
    (h : done.outcome = .ok (node, sent)) : sent = done.sent := by
  unfold Attempt.outcome at h
  split at h
  · cases h
  · cases h
  · exact (Prod.mk.inj (Except.ok.inj h)).2.symm

/-- Whatever is handed to `sendto` was handed to `_send`. -/
theorem handed_of_mem_sent {sending : Sending PKey} {port : UInt16} {draw : Draw PKey} {out : Sent}
    (h : out ∈ sending.sent ssl port draw) : sending.handed ssl draw = some out.packet := by
  cases sending with
  | broadcast core => exact congrArg some (packet_of_mem_sent h).1.symm
  | receive s arrival =>
    simp only [sent] at h
    cases hrecv : recvfrom s arrival draw with
    | none => simp [Kapua.receive, hrecv] at h
    | some arrived =>
      rw [receive_of_arrived hrecv] at h
      simp only [handed, hrecv, Option.bind_some]
      cases haccepted : (screened ssl s arrived).accepted with
      | false => simp [haccepted] at h
      | true =>
        cases hfind : s.core.findNode arrived.fromAddr with
        | some ptr => simp [haccepted, hfind] at h
        | none =>
          simp only [haccepted, hfind, if_true, List.mem_singleton] at h
          simp [h, firstRequest]
  | process core node pkt =>
    simp only [sent, processPacket] at h
    cases node with
    | none => simp at h
    | some ptr =>
      simp only [dispatch_eq_attempt] at h
      simp only [handed, Option.bind_some]
      cases houtcome : (attempt ssl core.myId core.keys
          ((core.heap ptr).updateLastContact draw.now) pkt draw).outcome with
      | error what => simp [houtcome] at h
      | ok result =>
        simp only [houtcome] at h
        rw [Attempt.sent_of_outcome houtcome] at h
        exact handed_of_mem_attempt h

/-- Handling a packet builds its reply in the same way whatever the storage of the packets held. -/
theorem exists_assembled_attempt {myId : UInt64} {keys : KeyPair PKey} {node : Node PKey}
    {pkt reply : Packet} {draw : Draw PKey}
    (h : (attempt ssl myId keys node pkt draw).handed = some reply) :
    ∃ build, Packet.Assembled build ∧ ∀ first second third,
      (attempt ssl myId keys node pkt (draw.withStorage first second third)).handed =
        some (build third) := by
  rcases attempt_endsAlike ssl myId keys node pkt draw with
    hquiet | ⟨after, build, hbuild, hends⟩
  · have hhanded : (attempt ssl myId keys node pkt draw).handed = none :=
      (hquiet draw.pkt draw.rpkPkt draw.reply).1
    rw [hhanded] at h
    cases h
  · refine ⟨build, hbuild, fun first second third ↦ ?_⟩
    rw [hends, sendReply_handed]

/-- A packet that is handed to `_send` is built in the same way whatever the storage held. -/
theorem exists_assembled {sending : Sending PKey} {draw : Draw PKey} {pkt : Packet}
    (h : sending.handed ssl draw = some pkt) :
    ∃ build, Packet.Assembled build ∧ ∀ first second third,
      sending.handed ssl (draw.withStorage first second third) =
        some (build (sending.storage (draw.withStorage first second third))) := by
  cases sending with
  | broadcast core =>
    exact ⟨_, .bare .discovery core.myId kapuaIdBroadcast, fun _ _ _ ↦ rfl⟩
  | receive s arrival =>
    cases hrecv : recvfrom s arrival draw with
    | none => simp [handed, hrecv] at h
    | some arrived =>
      have hrecv' (first second third : Memory) :
          recvfrom s arrival (draw.withStorage first second third) = some arrived := hrecv
      simp only [handed, hrecv, Option.bind_some] at h
      split_ifs at h with hnew
      refine ⟨_, .bare .publicKeyRequest s.core.myId (screened ssl s arrived).pkt.fromId,
        fun first second third ↦ ?_⟩
      simp only [handed, hrecv', Option.bind_some, if_pos hnew]
      rfl
  | process core node pkt =>
    cases node with
    | none => simp [handed] at h
    | some ptr =>
      simp only [handed, Option.bind_some] at h ⊢
      exact exists_assembled_attempt h

end Sending

/-- For a packet that is built and handed to `_send`, the plaintext is the same whatever the storage
of the packets held exactly when it agrees on the fields that are never assigned. -/
theorem sent_plaintext_iff {ssl : OpenSSL PKey} {sending : Sending PKey} {draw : Draw PKey}
    {pkt : Packet} (hhanded : sending.handed ssl draw = some pkt) (first second third : Memory) :
    (sending.handed ssl (draw.withStorage first second third)).map Packet.datagram =
        some pkt.datagram ↔
      SameUnassigned (sending.storage (draw.withStorage first second third))
        (sending.storage draw) := by
  obtain ⟨build, hbuild, hsame⟩ := Sending.exists_assembled hhanded
  have hpkt : pkt = build (sending.storage draw) :=
    Option.some.inj (hhanded.symm.trans (hsame draw.pkt draw.rpkPkt draw.reply))
  rw [hsame, Option.map_some, Option.some.injEq, hpkt]
  exact hbuild.datagram_eq_iff _ _

/-- `sent_plaintext_iff` for a broadcast. -/
theorem sent_plaintext_iff_broadcast :
    ((Sending.broadcast (taggedStart 5 1).core).handed tagged
        ((taggedDraw 9).withStorage (fun _ ↦ 1) (fun _ ↦ 1) fun _ ↦ 1)).map Packet.datagram =
        some (Packet.construct (fun _ ↦ 0) .discovery 5 kapuaIdBroadcast).datagram ↔
      SameUnassigned (fun _ ↦ 1) fun _ ↦ 0 :=
  sent_plaintext_iff rfl (fun _ ↦ 1) (fun _ ↦ 1) fun _ ↦ 1

/-- A broadcast shows what its storage held at the offset of `packet_id`. -/
theorem broadcast_differs :
    ((Sending.broadcast (taggedStart 5 1).core).handed tagged (taggedDraw 9)).map
        Packet.datagram ≠
      ((Sending.broadcast (taggedStart 5 1).core).handed tagged
        ((taggedDraw 9).withStorage (fun _ ↦ 1) (fun _ ↦ 1) fun _ ↦ 1)).map Packet.datagram := by
  intro h
  have hbyte := congrArg (fun bytes : Option Bytes ↦ bytes.bind (·[10]?)) h
  exact absurd hbyte (by decide +kernel)

end Kapua
