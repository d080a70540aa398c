import Kapua.Node.ReceiveLoop
import Kapua.Node.TaggedCipher

/-!
# What a record's state says about the past

A trace lists the passes of the loop from the first on. `Requested`, `Replied` and `Keyed` cut
it at the packets that make up the current exchange with a peer: the most recent `PublicKeyRequest`,
the `PublicKeyReply` that followed it, and the `EncryptionContext` that followed that. `Exchanged`
says which of them a record's state promises, and that the record's keys are the ones they brought.
It holds of every record after every trace, whatever arrived (`exchanged_of_trace`), because a pass
that leaves a record alone extends the trace behind all cuts, and each pass that changes one makes
the cut its new state promises.

Since only records from `checkEncryption` on encrypt or decrypt, every session key that `_send`
encrypts with was generated in the current exchange, and every one that `_receive` decrypts with was
received in it.
-/

set_option autoImplicit false
set_option relaxedAutoImplicit false

namespace Kapua

variable {PKey : Type}

/-- One pass of the loop: what it started from and took, and what it left and sent. -/
structure PassEvent (PKey : Type) where
  before : LoopState PKey
  arrival : Arrival
  draw : Draw PKey
  after : LoopState PKey
  sent : List Sent

variable (ssl : OpenSSL PKey)

/-- The passes of the loop from `start`, none of which threw, and the state they lead to. -/
inductive Trace (start : LoopState PKey) : List (PassEvent PKey) → LoopState PKey → Prop
  | nil : Trace start [] start
  | snoc {events : List (PassEvent PKey)} {s after : LoopState PKey} {arrival : Arrival}
      {draw : Draw PKey} {sent : List Sent} (htrace : Trace start events s)
      (hpass : pass ssl s arrival draw = .ok (after, sent)) :
      Trace start (events ++ [⟨s, arrival, draw, after, sent⟩]) after

/-! ### Processed packets -/

/-- The pass handed `pkt` to `_process_packet`, with the record of `addr`. -/
def Processed (addr : Sockaddr) (pkt : Packet) (event : PassEvent PKey) : Prop :=
  ∃ arrived, recvfrom event.before event.arrival event.draw = some arrived ∧
    arrived.fromAddr = addr ∧ (screened ssl event.before arrived).accepted = true ∧
    (screened ssl event.before arrived).pkt = pkt

/-- A `PublicKeyRequest` was processed for `addr`. -/
def ProcessedRequest (addr : Sockaddr) (event : PassEvent PKey) : Prop :=
  ∃ pkt, Processed ssl addr pkt event ∧ pkt.type = some .publicKeyRequest

/-- A `PublicKeyReply` that carried `key` was processed for `addr`: the session key `context` was
generated, and an `EncryptionContext` with its encryption under `key` was sent in reply. -/
def ProcessedReply (addr : Sockaddr) (key : PKey) (context : AESKey) (event : PassEvent PKey) :
    Prop :=
  ∃ pkt, Processed ssl addr pkt event ∧ pkt.type = some .publicKeyReply ∧
    pkt.readPublicKey ssl = .ok key ∧ context = event.draw.sessionKey ∧
    ∃ out ∈ event.sent, out.addr = addr ∧ out.bytes = out.packet.datagram ∧
      out.packet.type = some .encryptionContext ∧
      ssl.evpPkeyEncrypt key event.draw.padding context.bytes = some out.packet.data

/-- An `EncryptionContext` was processed for `addr` and decrypted with the own private key to the
session key `context`. -/
def ProcessedContext (addr : Sockaddr) (context : AESKey) (event : PassEvent PKey) : Prop :=
  ∃ pkt, Processed ssl addr pkt event ∧ pkt.type = some .encryptionContext ∧
    decryptAesContext ssl event.before.core.keys.privateKey pkt.data event.draw.len =
      ⟨true, context.bytes⟩

/-- A `Ready` was processed for `addr`. -/
def ProcessedReady (addr : Sockaddr) (event : PassEvent PKey) : Prop :=
  ∃ pkt, Processed ssl addr pkt event ∧ pkt.type = some .ready

/-! ### The current exchange -/

/-- `later` are the passes since the most recent `PublicKeyRequest` for `addr`. -/
def Requested (addr : Sockaddr) (events later : List (PassEvent PKey)) : Prop :=
  ∃ earlier request, events = earlier ++ request :: later ∧ ProcessedRequest ssl addr request ∧
    ∀ event ∈ later, ¬ ProcessedRequest ssl addr event

/-- `later` are the passes since a `PublicKeyReply` that followed the most recent
`PublicKeyRequest`. -/
def Replied (addr : Sockaddr) (key : PKey) (tx : AESKey) (events later : List (PassEvent PKey)) :
    Prop :=
  ∃ since earlier reply, Requested ssl addr events since ∧ since = earlier ++ reply :: later ∧
    ProcessedReply ssl addr key tx reply

/-- `later` are the passes since an `EncryptionContext` that followed such a `PublicKeyReply`. -/
def Keyed (addr : Sockaddr) (key : PKey) (tx rx : AESKey)
    (events later : List (PassEvent PKey)) : Prop :=
  ∃ since earlier context, Replied ssl addr key tx events since ∧
    since = earlier ++ context :: later ∧ ProcessedContext ssl addr rx context

/-- What the state of the record for `addr` says about the passes so far. -/
structure Exchanged (addr : Sockaddr) (node : Node PKey) (events : List (PassEvent PKey)) :
    Prop where
  keyExchange : NodeState.keyExchange ≤ node.state → ∃ later, Requested ssl addr events later
  handshake : NodeState.handshake ≤ node.state → ∃ key later, node.keys.publicKey = some key ∧
    Replied ssl addr key node.aesContextTx events later
  checkEncryption : NodeState.checkEncryption ≤ node.state → ∃ key later,
    node.keys.publicKey = some key ∧
      Keyed ssl addr key node.aesContextTx node.aesContextRx events later
  connected : node.state = .connected → ∃ key later ready, node.keys.publicKey = some key ∧
    Keyed ssl addr key node.aesContextTx node.aesContextRx events later ∧ ready ∈ later ∧
      ProcessedReady ssl addr ready

variable {ssl}

section Snoc

variable {addr : Sockaddr} {key : PKey} {tx rx : AESKey} {events later : List (PassEvent PKey)}
  {event : PassEvent PKey} (hevent : ¬ ProcessedRequest ssl addr event)

include hevent

/-- A pass without a `PublicKeyRequest` for `addr` extends the passes since the last one. -/
theorem Requested.snoc (h : Requested ssl addr events later) :
    Requested ssl addr (events ++ [event]) (later ++ [event]) := by
  obtain ⟨earlier, request, rfl, hrequest, hlater⟩ := h
  refine ⟨earlier, request, by simp, hrequest, fun other hother ↦ ?_⟩
  rcases List.mem_append.mp hother with hold | hnew
  · exact hlater other hold
  · rwa [List.mem_singleton.mp hnew]

theorem Replied.snoc (h : Replied ssl addr key tx events later) :
    Replied ssl addr key tx (events ++ [event]) (later ++ [event]) := by
  obtain ⟨since, earlier, reply, hrequested, rfl, hreply⟩ := h
  exact ⟨_, earlier, reply, hrequested.snoc hevent, by simp, hreply⟩

theorem Keyed.snoc (h : Keyed ssl addr key tx rx events later) :
    Keyed ssl addr key tx rx (events ++ [event]) (later ++ [event]) := by
  obtain ⟨since, earlier, context, hreplied, rfl, hcontext⟩ := h
  exact ⟨_, earlier, context, hreplied.snoc hevent, by simp, hcontext⟩

/-- A pass without a `PublicKeyRequest` for `addr` that leaves the record keeps what its state
says. -/
theorem Exchanged.snoc {node : Node PKey} (h : Exchanged ssl addr node events) :
    Exchanged ssl addr node (events ++ [event]) where
  keyExchange := fun hstate ↦ by
    obtain ⟨later, hrequested⟩ := h.keyExchange hstate
    exact ⟨_, hrequested.snoc hevent⟩
  handshake := fun hstate ↦ by
    obtain ⟨key, later, hkey, hreplied⟩ := h.handshake hstate
    exact ⟨key, _, hkey, hreplied.snoc hevent⟩
  checkEncryption := fun hstate ↦ by
    obtain ⟨key, later, hkey, hkeyed⟩ := h.checkEncryption hstate
    exact ⟨key, _, hkey, hkeyed.snoc hevent⟩
  connected := fun hstate ↦ by
    obtain ⟨key, later, ready, hkey, hkeyed, hmem, hready⟩ := h.connected hstate
    exact ⟨key, _, ready, hkey, hkeyed.snoc hevent, List.mem_append_left _ hmem, hready⟩

end Snoc

/-! ### What each state asks for -/

section States

variable {addr : Sockaddr} {node : Node PKey} {events later : List (PassEvent PKey)}

/-- A record that was just created has no past. -/
theorem exchanged_of_initialised (hstate : node.state = .initialised) :
    Exchanged ssl addr node events where
  keyExchange := fun hle ↦ by simp [hstate] at hle
  handshake := fun hle ↦ by simp [hstate] at hle
  checkEncryption := fun hle ↦ by simp [hstate] at hle
  connected := fun hle ↦ by simp [hstate] at hle

theorem exchanged_of_requested (hstate : node.state = .keyExchange)
    (h : Requested ssl addr events later) : Exchanged ssl addr node events where
  keyExchange := fun _ ↦ ⟨later, h⟩
  handshake := fun hle ↦ by simp [hstate] at hle
  checkEncryption := fun hle ↦ by simp [hstate] at hle
  connected := fun hle ↦ by simp [hstate] at hle

theorem exchanged_of_replied {key : PKey} (hstate : node.state = .handshake)
    (hkey : node.keys.publicKey = some key)
    (h : Replied ssl addr key node.aesContextTx events later) :
    Exchanged ssl addr node events where
  keyExchange := fun _ ↦ by
    obtain ⟨since, -, -, hrequested, -⟩ := h
    exact ⟨since, hrequested⟩
  handshake := fun _ ↦ ⟨key, later, hkey, h⟩
  checkEncryption := fun hle ↦ by simp [hstate] at hle
  connected := fun hle ↦ by simp [hstate] at hle

theorem exchanged_of_keyed {key : PKey} (hstate : node.state = .checkEncryption)
    (hkey : node.keys.publicKey = some key)
    (h : Keyed ssl addr key node.aesContextTx node.aesContextRx events later) :
    Exchanged ssl addr node events where
  keyExchange := fun _ ↦ by
    obtain ⟨_, -, -, ⟨since, -, -, hrequested, -⟩, -⟩ := h
    exact ⟨since, hrequested⟩
  handshake := fun _ ↦ by
    obtain ⟨since, -, -, hreplied, -⟩ := h
    exact ⟨key, since, hkey, hreplied⟩
  checkEncryption := fun _ ↦ ⟨key, later, hkey, h⟩
  connected := fun hle ↦ by simp [hstate] at hle

end States

/-! ### One pass -/

/-- A pass hands on one packet at most. -/
theorem Processed.unique {addr : Sockaddr} {pkt pkt' : Packet} {event : PassEvent PKey}
    (h : Processed ssl addr pkt event) (h' : Processed ssl addr pkt' event) : pkt = pkt' := by
  obtain ⟨arrived, hrecv, -, -, rfl⟩ := h
  obtain ⟨arrived', hrecv', -, -, rfl⟩ := h'
  obtain rfl := Option.some.inj (hrecv.symm.trans hrecv')
  rfl

/-- The context packet that is sent in reply has the encrypted session key as its data. -/
theorem isHeader_context (storage : Memory) (myId id : UInt64) {encrypted : Bytes}
    (hlength : encrypted.length < 65536) :
    Packet.IsHeader (((Packet.construct storage .encryptionContext myId id).writeData
      encrypted).setLength encrypted.length) .encryptionContext myId encrypted.length :=
  (Packet.isHeader_construct storage .encryptionContext myId id).withData hlength

/-- Handling a packet for a record makes the cut that the record's new state promises. Assumes:
`EVP_PKEY_encrypt` writes no more bytes than the modulus has. -/
theorem exchanged_of_handling
    (hbounds : ∀ {key padding message ciphertext},
      ssl.evpPkeyEncrypt key padding message = some ciphertext →
        ciphertext.length ≤ ssl.evpPkeySize key)
    {addr : Sockaddr} {event : PassEvent PKey} {events : List (PassEvent PKey)} {pkt : Packet}
    {node after : Node PKey} {out : List Sent} (hprocessed : Processed ssl addr pkt event)
    (haddr : node.addr = addr) (hnode : Exchanged ssl addr node events)
    (hout : ∀ datagram ∈ out, datagram ∈ event.sent)
    (hhandled : Handling ssl event.before.core.myId event.before.core.keys node pkt event.draw
      after out) : Exchanged ssl addr after (events ++ [event]) := by
  have hother : pkt.type ≠ some .publicKeyRequest → ¬ ProcessedRequest ssl addr event := by
    rintro hne ⟨pkt', hprocessed', htype⟩
    rw [hprocessed.unique hprocessed'] at hne
    exact hne htype
  cases hhandled with
  | ignored hrequest => exact hnode.snoc (hother hrequest)
  | request htype =>
    have hrequested : Requested ssl addr (events ++ [event]) [] :=
      ⟨events, event, rfl, ⟨pkt, hprocessed, htype⟩, by simp⟩
    exact exchanged_of_requested rfl hrequested
  | unsealedReply htype hexchange =>
    obtain ⟨later, hrequested⟩ := hnode.keyExchange (by simp [hexchange])
    exact exchanged_of_requested hexchange (hrequested.snoc (hother (by simp [htype])))
  | @reply key encrypted context htype hexchange hkey hseal hpacket =>
    obtain ⟨later, hrequested⟩ := hnode.keyExchange (by simp [hexchange])
    have hencrypt : ssl.evpPkeyEncrypt key event.draw.padding event.draw.sessionKey.bytes =
        some encrypted ∧ encrypted.length < 65536 := by
      simp only [encryptAesContext] at hseal
      split_ifs at hseal with hsize
      have hlength := hbounds hseal
      simp only [kapuaMaxDataSize, kapuaMaxPacketSize, kapuaHeaderSize] at hsize
      exact ⟨hseal, by omega⟩
    have hreply : ProcessedReply ssl addr key event.draw.sessionKey event := by
      refine ⟨pkt, hprocessed, htype, hkey, rfl, _, hout _ (List.mem_singleton.mpr rfl), haddr, rfl,
        ?_, ?_⟩
      · rw [hpacket]
        exact (isHeader_context _ _ _ hencrypt.2).type
      · rw [hpacket, Packet.data_withData _ hencrypt.2]
        exact hencrypt.1
    have hreplied : Replied ssl addr key event.draw.sessionKey (events ++ [event]) [] :=
      ⟨_, later, event, hrequested.snoc (hother (by simp [htype])), rfl, hreply⟩
    exact exchanged_of_replied rfl rfl hreplied
  | refusedContext htype hhandshake =>
    obtain ⟨key, later, hkey, hreplied⟩ := hnode.handshake (by simp [hhandshake])
    exact exchanged_of_replied hhandshake hkey (hreplied.snoc (hother (by simp [htype])))
  | context htype hhandshake hopen hafter =>
    obtain ⟨key, later, hkey, hreplied⟩ := hnode.handshake (by simp [hhandshake])
    obtain ⟨received, hreceived⟩ := exists_context_of_decrypted hopen
    have hkeyed : Keyed ssl addr key node.aesContextTx received (events ++ [event]) [] :=
      ⟨_, later, event, hreplied.snoc (hother (by simp [htype])), rfl,
        ⟨pkt, hprocessed, htype, hreceived⟩⟩
    have hafterKeyed : Keyed ssl addr key after.aesContextTx after.aesContextRx
        (events ++ [event]) [] := by
      rw [hafter]
      simpa [hreceived] using hkeyed
    exact exchanged_of_keyed (by rw [hafter]) (by rw [hafter]; exact hkey) hafterKeyed
  | ready htype hcheck =>
    have hsnoc := hnode.snoc (hother (by simp [htype]))
    obtain ⟨key, later, hkey, hkeyed⟩ := hnode.checkEncryption (by simp [hcheck])
    refine ⟨fun _ ↦ hsnoc.keyExchange (by simp [hcheck]), fun _ ↦ hsnoc.handshake
      (by simp [hcheck]), fun _ ↦ hsnoc.checkEncryption (by simp [hcheck]), fun _ ↦ ?_⟩
    exact ⟨key, _, event, hkey, hkeyed.snoc (hother (by simp [htype])),
      List.mem_append_right _ (List.mem_singleton.mpr rfl), ⟨pkt, hprocessed, htype⟩⟩

/-- What the state of a record says, it also says with another time of last contact. -/
theorem Exchanged.updateLastContact {addr : Sockaddr} {node : Node PKey}
    {events : List (PassEvent PKey)} (h : Exchanged ssl addr node events) (now : ℕ) :
    Exchanged ssl addr (node.updateLastContact now) events :=
  ⟨h.keyExchange, h.handshake, h.checkEncryption, h.connected⟩

/-- The record a packet is handled for carries the sender's address, and its state says what
happened; if it was just created, it says nothing. -/
theorem exchanged_of_handledNode {s : LoopState PKey} {events : List (PassEvent PKey)}
    (hs : s.core.WellFormed)
    (hevents : ∀ {addr node}, s.core.peer addr = some node → Exchanged ssl addr node events)
    (arrived : Arrived) (draw : Draw PKey) :
    ((handledNode ssl s arrived draw).updateLastContact draw.now).addr = arrived.fromAddr ∧
      Exchanged ssl arrived.fromAddr
        ((handledNode ssl s arrived draw).updateLastContact draw.now) events := by
  cases hpeer : s.core.peer arrived.fromAddr with
  | none =>
    simp only [handledNode, hpeer, Option.getD_none]
    exact ⟨rfl, exchanged_of_initialised rfl⟩
  | some node =>
    simp only [handledNode, hpeer, Option.getD_some]
    have haddr : node.addr = arrived.fromAddr := hs.addr_of_peer hpeer
    exact ⟨haddr, (hevents hpeer).updateLastContact draw.now⟩

/-- One pass keeps what the states of all records say. Assumes: `EVP_PKEY_encrypt` writes no more
bytes than the modulus has. -/
theorem exchanged_of_passing
    (hbounds : ∀ {key padding message ciphertext},
      ssl.evpPkeyEncrypt key padding message = some ciphertext →
        ciphertext.length ≤ ssl.evpPkeySize key)
    {s after : LoopState PKey} {arrival : Arrival} {draw : Draw PKey} {sent : List Sent}
    {events : List (PassEvent PKey)} (hs : s.core.WellFormed)
    (hevents : ∀ {addr node}, s.core.peer addr = some node → Exchanged ssl addr node events)
    (hpassing : Passing ssl s arrival draw after sent) {addr : Sockaddr} {node : Node PKey}
    (hpeer : after.core.peer addr = some node) :
    Exchanged ssl addr node (events ++ [⟨s, arrival, draw, after, sent⟩]) := by
  cases hrecv : recvfrom s arrival draw with
  | none =>
    have hsame : after.core = s.core := by
      cases hpassing with
      | idle => rfl
      | rejected hrecv' => exact absurd (hrecv.symm.trans hrecv') (by simp)
      | known hrecv' => exact absurd (hrecv.symm.trans hrecv') (by simp)
      | new hrecv' => exact absurd (hrecv.symm.trans hrecv') (by simp)
    rw [hsame] at hpeer
    refine (hevents hpeer).snoc ?_
    rintro ⟨_, ⟨arrived, hrecv', -⟩, -⟩
    exact absurd (hrecv.symm.trans hrecv') (by simp)
  | some arrived =>
    cases hscreen : (screened ssl s arrived).accepted with
    | false =>
      rw [(hpassing.refused hrecv hscreen).1] at hpeer
      refine (hevents hpeer).snoc ?_
      rintro ⟨_, ⟨arrived', hrecv', -, hscreen', -⟩, -⟩
      obtain rfl := Option.some.inj (hrecv.symm.trans hrecv')
      exact absurd (hscreen.symm.trans hscreen') (by simp)
    | true =>
      by_cases haddr : addr = arrived.fromAddr
      · subst haddr
        obtain ⟨node', out, hhandled, hpeer', hsent⟩ := hpassing.handled hrecv hscreen
        obtain rfl := Option.some.inj (hpeer.symm.trans hpeer')
        obtain ⟨hbefore, hpast⟩ := exchanged_of_handledNode hs hevents arrived draw
        refine exchanged_of_handling hbounds ⟨arrived, hrecv, rfl, hscreen, rfl⟩ hbefore hpast
          (fun datagram hmem ↦ ?_) hhandled
        rw [hsent]
        exact List.mem_append_right _ hmem
      · rw [hpassing.peer_of_ne hs hrecv haddr] at hpeer
        refine (hevents hpeer).snoc ?_
        rintro ⟨_, ⟨arrived', hrecv', haddr', -⟩, -⟩
        obtain rfl := Option.some.inj (hrecv.symm.trans hrecv')
        exact haddr haddr'.symm

/-! ### Traces -/

/-- Every table reached by a trace from an empty one is well-formed, and every record's state says
what happened. Assumes: `EVP_PKEY_encrypt` writes no more bytes than the modulus has. -/
theorem exchanged_of_trace
    (hbounds : ∀ {key padding message ciphertext},
      ssl.evpPkeyEncrypt key padding message = some ciphertext →
        ciphertext.length ≤ ssl.evpPkeySize key)
    {start s : LoopState PKey} (hstart : start.core.Empty) {events : List (PassEvent PKey)}
    (htrace : Trace ssl start events s) : s.core.WellFormed ∧
      ∀ {addr node}, s.core.peer addr = some node → Exchanged ssl addr node events := by
  induction htrace with
  | nil =>
    refine ⟨hstart.wellFormed, fun {addr node} hpeer ↦ ?_⟩
    rw [hstart.peer] at hpeer
    cases hpeer
  | snoc _ hpass ih =>
    obtain ⟨hwell, hevents⟩ := ih
    have hpassing := passing_of_pass hpass
    exact ⟨hpassing.wellFormed hwell, exchanged_of_passing hbounds hwell hevents hpassing⟩

/-- `_send` encrypts with the session key of the record the datagram goes to. -/
theorem key_of_mem_send {node : Node PKey} {pkt : Packet} {addr : Sockaddr} {draw : Draw PKey}
    {out : Sent} {key : AESKey} (h : out ∈ (send ssl (some node) pkt addr draw).sent)
    (hkey : out.key = some key) :
    NodeState.checkEncryption ≤ node.state ∧ node.aesContextTx = key := by
  simp only [send] at h
  split_ifs at h with hstate
  · refine ⟨hstate, ?_⟩
    cases hseal : aesEncrypt ssl node.aesContextTx draw.iv pkt.datagram with
    | none => simp [hseal] at h
    | some buffer =>
      simp only [hseal, List.mem_singleton] at h
      simpa [h] using hkey
  · simp only [List.mem_singleton] at h
    simp [h] at hkey

/-- What is encrypted while a packet is handled goes to the record's address and is encrypted with
the record's session key, in a state that encrypts. -/
theorem Handling.key_of_mem {myId : UInt64} {keys : KeyPair PKey} {node after : Node PKey}
    {pkt : Packet} {draw : Draw PKey} {sent : List Sent}
    (h : Handling ssl myId keys node pkt draw after sent) {out : Sent} {key : AESKey}
    (hmem : out ∈ sent) (hkey : out.key = some key) :
    out.addr = node.addr ∧ NodeState.checkEncryption ≤ after.state ∧ after.aesContextTx = key := by
  cases h with
  | context _ _ _ _ =>
    exact ⟨(packet_of_mem_sent hmem).2, key_of_mem_send hmem hkey⟩
  | request _ _ =>
    rw [List.mem_singleton.mp hmem] at hkey
    cases hkey
  | reply _ _ _ _ _ =>
    rw [List.mem_singleton.mp hmem] at hkey
    cases hkey
  | _ => cases hmem

/-- What a pass encrypts is encrypted with the session key of the record of the address it goes to,
which is in a state that encrypts. -/
theorem Passing.key_of_mem {s after : LoopState PKey} {arrival : Arrival} {draw : Draw PKey}
    {sent : List Sent} (h : Passing ssl s arrival draw after sent) (hs : s.core.WellFormed)
    {out : Sent} {key : AESKey} (hmem : out ∈ sent) (hkey : out.key = some key) :
    ∃ node, after.core.peer out.addr = some node ∧ NodeState.checkEncryption ≤ node.state ∧
      node.aesContextTx = key := by
  cases h with
  | idle => cases hmem
  | rejected => cases hmem
  | @known _ ptr _ _ hrecv hscreen hfind hhandled =>
    obtain ⟨haddr, hstate, htx⟩ := hhandled.key_of_mem hmem hkey
    have hfound : s.core.findNode out.addr = some ptr := by
      rw [haddr, ← hfind]
      exact congrArg s.core.findNode (hs.addr_of_find hfind).2
    exact ⟨_, Core.peer_setNode_self hfound _, hstate, htx⟩
  | new hrecv hscreen hfind hcore hhandled =>
    rcases List.mem_cons.mp hmem with rfl | hmem
    · cases hkey
    · obtain ⟨haddr, hstate, htx⟩ := hhandled.key_of_mem hmem hkey
      subst hcore
      refine ⟨_, Core.peer_setNode_self ?_ _, hstate, htx⟩
      rw [haddr, Core.addNode_findNode hfind]
      exact if_pos rfl

/-- `_receive` decrypts only with the session key of the sender's record, in a state that
encrypts. -/
theorem receive_key {s : LoopState PKey} {arrival : Arrival} {draw : Draw PKey} {key : AESKey}
    (h : (receive ssl s arrival draw).key = some key) :
    ∃ node, s.core.peer (receive ssl s arrival draw).loop.fromAddr = some node ∧
      NodeState.checkEncryption ≤ node.state ∧ node.aesContextRx = key := by
  cases hrecv : recvfrom s arrival draw with
  | none => simp [receive, hrecv] at h
  | some arrived =>
    obtain ⟨haddr, hscreened⟩ :=
      (receive_fromAddr_key hrecv : _ ∧ (receive ssl s arrival draw).key = _)
    rw [haddr]
    exact key_of_screen (hscreened.symm.trans h)

/-- After every trace from an empty node table, every record's state says what happened in the
current exchange; and the next pass encrypts only with session keys generated in the current
exchange with the peer, and decrypts only with session keys received in it. Assumes:
`EVP_PKEY_encrypt` writes no more bytes than the modulus has. -/
theorem exchange_history
    (hbounds : ∀ {key padding message ciphertext},
      ssl.evpPkeyEncrypt key padding message = some ciphertext →
        ciphertext.length ≤ ssl.evpPkeySize key)
    {start s : LoopState PKey} (hstart : start.core.Empty) {events : List (PassEvent PKey)}
    (htrace : Trace ssl start events s) :
    (∀ ptr, ptr < s.core.next →
      Exchanged ssl (s.core.heap ptr).addr (s.core.heap ptr) events) ∧
    (∀ arrival draw after sent, pass ssl s arrival draw = .ok (after, sent) →
      ∀ out ∈ sent, ∀ key, out.key = some key → ∃ publicKey later,
        Replied ssl out.addr publicKey key (events ++ [⟨s, arrival, draw, after, sent⟩]) later) ∧
    ∀ arrival draw key, (receive ssl s arrival draw).key = some key → ∃ publicKey tx later,
      Keyed ssl (receive ssl s arrival draw).loop.fromAddr publicKey tx key events later := by
  obtain ⟨hwell, hevents⟩ := exchanged_of_trace hbounds hstart htrace
  refine ⟨fun ptr hptr ↦ hevents (Core.peer_of_find (hwell.find_addr hptr)), ?_, ?_⟩
  · intro arrival draw after sent hpass out hmem key hkey
    have hpassing := passing_of_pass hpass
    obtain ⟨node, hpeer, hstate, rfl⟩ := hpassing.key_of_mem hwell hmem hkey
    have hnode := exchanged_of_passing hbounds hwell hevents hpassing hpeer
    obtain ⟨publicKey, later, -, hreplied⟩ := hnode.handshake (by
      rcases NodeState.checkEncryption_le.mp hstate with hcheck | hconnected
      · simp [hcheck]
      · simp [hconnected])
    exact ⟨publicKey, later, hreplied⟩
  · intro arrival draw key hkey
    obtain ⟨node, hpeer, hstate, rfl⟩ := receive_key hkey
    obtain ⟨publicKey, later, -, hkeyed⟩ := (hevents hpeer).checkEncryption hstate
    exact ⟨publicKey, _, later, hkeyed⟩

/-- Every run of the loop has a trace. -/
theorem Trace.append_runLoop {start s final : LoopState PKey} {events : List (PassEvent PKey)}
    (htrace : Trace ssl start events s) {inputs : List (Arrival × Draw PKey)}
    (hrun : runLoop ssl s inputs = .ok final) : ∃ events, Trace ssl start events final :=
  (run_of_runLoop hrun).invariant (fun s ↦ ∃ events, Trace ssl start events s)
    (fun ⟨_, htrace⟩ ⟨_, hpass⟩ ↦ ⟨_, htrace.snoc hpass⟩) ⟨events, htrace⟩

/-- `exchange_history` after a whole handshake, for the connected record. -/
theorem exchange_history_tagged : ∃ start events s, start.core.Empty ∧
    Trace tagged start events s ∧ (s.core.heap 0).state = .connected ∧
      Exchanged tagged (s.core.heap 0).addr (s.core.heap 0) events := by
  obtain ⟨s, ⟨start, inputs, hstart, hrun⟩, hfind, hstate, -⟩ := exists_connected
  obtain ⟨events, htrace⟩ := (Trace.nil : Trace tagged start [] start).append_runLoop hrun
  have hreach : Reachable tagged s := ⟨start, inputs, hstart, hrun⟩
  have hptr : 0 < s.core.next := (hreach.wellFormed.addr_of_find hfind).1
  exact ⟨start, events, s, hstart, htrace, hstate,
    (exchange_history tagged_roundTrips.rsa_length hstart htrace).1 0 hptr⟩

end Kapua
