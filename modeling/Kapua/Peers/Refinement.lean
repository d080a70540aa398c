import Kapua.Peers.Datagrams

/-!
# The receive loops of two peers refine the handshake

`pass_simulated` shows that a pass over a datagram of the peer does to the loop state what receiving
the message does to the endpoint, and sends datagrams that encode what it sends; with it
`simulation` holds for every network. `Started.related` starts the two off together, and
`Started.exists_related` is the refinement as the properties of whole runs use it.

An encrypted session key must not be decrypted to another one. That is so because decryption under
another key fails, or because the calls succeed and no other key comes into play.
-/

set_option autoImplicit false
set_option relaxedAutoImplicit false

namespace Kapua

open Handshake (Message Session Choice progress)

variable {PKey : Type}

namespace Setup

variable {ssl : OpenSSL PKey} {Matches : PKey → PKey → Prop} {setup : Setup PKey} {peers : Peers}

/-! ### Handling -/

/-- What the environment decides in a pass with this draw. -/
def choiceOf (draw : Draw PKey) (encrypts decrypts seals : Bool) : Choice AESKey :=
  ⟨draw.sessionKey, draw.node.aesContextTx, draw.node.aesContextRx, encrypts, decrypts, seals⟩

section Handling

variable {side : Side} {draw : Draw PKey} {data : Bytes} {context : AESKey}

/-- With calls that succeed it is decrypted. -/
theorem SealedFor.succeeds (htrips : ssl.RoundTrips Matches)
    (h : SealedFor ssl (setup.keys side) context data)
    (hsucceeds : setup.Succeeds ssl Matches side draw) :
    decryptAesContext ssl (setup.keys side).privateKey data draw.len = ⟨true, context.bytes⟩ := by
  obtain ⟨encoded, received, padding, ⟨publicKey, hkey, hencoded⟩, hreceived, hencrypt⟩ := h
  obtain ⟨hservice, hroom⟩ := hsucceeds
  obtain ⟨privateKey, received', hprivate, hreceived', hmatch, -, -⟩ :=
    hservice.serves side publicKey encoded hkey hencoded
  obtain rfl := Option.some.inj (hreceived.symm.trans hreceived')
  rw [hprivate]
  exact decryptAesContext_of_matches htrips hmatch hencrypt (hroom privateKey hprivate)

/-- An encrypted session key is decrypted to itself or not at all. -/
theorem SealedFor.decrypted (htrips : ssl.RoundTrips Matches)
    (h : SealedFor ssl (setup.keys side) context data)
    (hdecrypts : ssl.OtherKeysFail Matches ∨ setup.Succeeds ssl Matches side draw) :
    decryptAesContext ssl (setup.keys side).privateKey data draw.len = ⟨false, []⟩ ∨
      decryptAesContext ssl (setup.keys side).privateKey data draw.len = ⟨true, context.bytes⟩ := by
  rcases hdecrypts with hothers | hsucceeds
  · obtain ⟨encoded, received, padding, -, -, hencrypt⟩ := h
    exact decryptAesContext_of_encrypted htrips hothers hencrypt _ _
  · exact Or.inr (h.succeeds htrips hsucceeds)

/-- With calls that succeed a session key can be encrypted for the owner of an encoded key. -/
theorem EncodesKey.succeeds (h : EncodesKey ssl (setup.keys side.other) data)
    (hsucceeds : setup.Succeeds ssl Matches side draw) {key : PKey}
    (hkey : ssl.d2iPublicKey data = some key) :
    encryptAesContext ssl context (some key) kapuaMaxDataSize draw.padding ≠ none := by
  obtain ⟨publicKey, hpublic, hencoded⟩ := h
  obtain ⟨privateKey, received, -, hreceived, -, hsize, hencrypts⟩ :=
    hsucceeds.1.serves side.other publicKey data hpublic hencoded
  obtain rfl := Option.some.inj (hkey.symm.trans hreceived)
  have hencrypt := hencrypts draw.padding context
  rw [encryptAesContext, if_neg (not_lt.mpr hsize)]
  exact Option.isSome_iff_ne_none.mp hencrypt

omit setup in
/-- A public key that was read is the one its encoding is decoded to. -/
theorem d2i_of_readPublicKey {pkt : Packet} {key : PKey} (h : pkt.readPublicKey ssl = .ok key) :
    ssl.d2iPublicKey pkt.data = some key := by
  unfold Packet.readPublicKey at h
  split at h
  · cases h
  · rename_i read hread
    rw [hread, Except.ok.inj h]

variable {myId : UInt64} {base node : Node PKey} {pkt : Packet} {sent : List Sent}
  {message : Message AESKey}

/-- Handling a packet of the peer does to the session what the handshake does with the message.
Assumes: an encrypted message was decrypted with the record's session key. -/
theorem handling_simulated (htrips : ssl.RoundTrips Matches)
    (h : Handling ssl myId (setup.keys side) base pkt draw node sent) (hid : setup.ids side myId)
    (hleads : setup.leads draw.iv) (hholds : setup.Holds ssl side.other pkt message)
    (hready : ∀ key, message = .ready key → key = base.aesContextRx)
    (hdecrypts : ssl.OtherKeysFail Matches ∨ setup.Succeeds ssl Matches side draw) :
    ∃ encrypts decrypts seals messages,
      Handshake.handle base.toSession message (choiceOf draw encrypts decrypts seals) =
        (node.toSession, messages) ∧
      List.Forall₂ (setup.Encodes ssl side) sent messages ∧
      (setup.Succeeds ssl Matches side draw →
        (choiceOf draw encrypts decrypts seals).Works) := by
  have htype := hholds.type
  cases h with
  | ignored hrequest hreply hcontext hnoready =>
    refine ⟨true, true, true, [], ?_, .nil, fun _ ↦ ⟨rfl, rfl, rfl⟩⟩
    cases message with
    | discovery => rfl
    | request => exact absurd htype hrequest
    | reply => exact if_neg (hreply htype)
    | context key => exact if_neg fun hboth ↦ hcontext htype hboth.1
    | ready key => exact if_neg fun hboth ↦ hnoready htype hboth.1
  | request hrequest hreply =>
    obtain rfl : message = .request := by
      cases message <;> simp [hrequest, packetType] at htype ⊢
    exact ⟨true, true, true, [.reply], rfl, .cons (encodes_reply hid hreply) .nil,
      fun _ ↦ ⟨rfl, rfl, rfl⟩⟩
  | @unsealedReply key hreply hstate hkey hfail =>
    obtain rfl : message = .reply := by
      cases message <;> simp [hreply, packetType] at htype ⊢
    refine ⟨false, true, true, [], ?_, .nil, fun hsucceeds ↦ ?_⟩
    · simp [Handshake.handle, Node.toSession, hstate, choiceOf]
    · exact absurd hfail ((hholds.reply rfl).succeeds hsucceeds (d2i_of_readPublicKey hkey))
  | @reply key encrypted context hreply hstate hkey hseal hpacket =>
    obtain rfl : message = .reply := by
      cases message <;> simp [hreply, packetType] at htype ⊢
    refine ⟨true, true, true, [.context draw.sessionKey], ?_, .cons ?_ .nil,
      fun _ ↦ ⟨rfl, rfl, rfl⟩⟩
    · simp [Handshake.handle, Node.toSession, hstate, choiceOf]
    · exact encodes_context hid htrips (hholds.reply rfl) (d2i_of_readPublicKey hkey) hseal hpacket
  | refusedContext hcontext hstate hfail =>
    obtain ⟨key, rfl⟩ : ∃ key, message = .context key := by
      cases message <;> simp [hcontext, packetType] at htype ⊢
    have hsealed := hholds.context key rfl
    rw [Side.other_other] at hsealed
    refine ⟨true, false, true, [], ?_, .nil, fun hsucceeds ↦ ?_⟩
    · rcases hsealed.decrypted htrips hdecrypts with hnone | hall
      · simp [Handshake.handle, Node.toSession, hstate, choiceOf, hnone]
      · simp [hall] at hfail
    · simp [hsealed.succeeds htrips hsucceeds] at hfail
  | context hcontext hstate hopen hafter =>
    obtain ⟨key, rfl⟩ : ∃ key, message = .context key := by
      cases message <;> simp [hcontext, packetType] at htype ⊢
    have hsealed := hholds.context key rfl
    rw [Side.other_other] at hsealed
    have hcheck : node.state = .checkEncryption := by rw [hafter]
    refine ⟨true, true, (aesEncrypt ssl node.aesContextTx draw.iv
      ((Packet.construct draw.reply .ready myId base.id).setLength 0).datagram).isSome, _, ?_,
      encodes_ready hid hleads hcheck base.id base.addr, fun hsucceeds ↦ ⟨rfl, rfl, ?_⟩⟩
    · rcases hsealed.decrypted htrips hdecrypts with hnone | hall
      · simp [hnone] at hopen
      · simp [Handshake.handle, Node.toSession, hstate, choiceOf, hafter, hall]
    · have hseals := hsucceeds.1.seals node.aesContextTx (draw.iv.toList.take 16)
        ((Packet.construct draw.reply .ready myId base.id).setLength 0).datagram
      simpa [choiceOf, aesEncrypt] using hseals
  | ready hcontext hstate =>
    obtain ⟨key, rfl⟩ : ∃ key, message = .ready key := by
      cases message <;> simp [hcontext, packetType] at htype ⊢
    refine ⟨true, true, true, [], ?_, .nil, fun _ ↦ ⟨rfl, rfl, rfl⟩⟩
    simp [Handshake.handle, Node.toSession, hstate, hready key rfl]

end Handling

/-! ### A pass -/

section Pass

variable {side : Side} {s next : LoopState PKey} {endpoint : Option (Session AESKey)} {out : Sent}
  {message : Message AESKey} {draw : Draw PKey} {sent : List Sent}

/-- A datagram of the peer is refused because it is not understood, or accepted. -/
theorem Encodes.arrives (draw : Draw PKey) (htrips : ssl.RoundTrips Matches)
    (hmarked : ∀ iv, setup.leads iv → Unmarked iv) (h : setup.Encodes ssl side.other out message)
    (hs : setup.Fits peers side s endpoint)
    (hunderstood : setup.Understood ssl Matches endpoint message) :
    ((screened ssl s (arrivedDatagram s (peers.addr side.other) out.bytes draw)).accepted = false ∧
      ∃ key, message = .ready key ∧
        (progress endpoint < 4 ∨ Handshake.rx endpoint ≠ some key)) ∨
    ((screened ssl s (arrivedDatagram s (peers.addr side.other) out.bytes draw)).accepted = true ∧
      setup.Holds ssl side.other
        (screened ssl s (arrivedDatagram s (peers.addr side.other) out.bytes draw)).pkt message ∧
      ∀ key, message = .ready key → Handshake.rx endpoint = some key) := by
  by_cases hplain : ∀ key, message ≠ .ready key
  · obtain ⟨haccepted, hholds⟩ := h.plain_accepted draw hs hplain
    exact Or.inr ⟨haccepted, hholds, fun key heq ↦ absurd heq (hplain key)⟩
  · simp only [ne_eq, not_forall, not_not] at hplain
    obtain ⟨key, rfl⟩ := hplain
    rcases h.sealed_cases draw htrips hmarked hs hunderstood with ⟨hrefused, hwhy⟩ |
      ⟨haccepted, hrx, hholds⟩
    · exact Or.inl ⟨hrefused, key, rfl, hwhy⟩
    · refine Or.inr ⟨haccepted, hholds, fun other heq ↦ ?_⟩
      obtain rfl : key = other := by simpa using heq
      exact hrx

/-- A loop state after a pass that did not touch the table. -/
theorem Fits.of_core_eq (hs : setup.Fits peers side s endpoint) (hcore : next.core = s.core) :
    setup.Fits peers side next endpoint := by
  have hrecord : peers.record side next = peers.record side s := by
    rw [Peers.record, Peers.record, hcore]
  exact ⟨hcore ▸ hs.wellFormed, hcore ▸ hs.id, hcore ▸ hs.keys, hrecord ▸ hs.record⟩

/-- The record a packet of the peer is handled for amounts to the endpoint's session, or to a new
one. -/
theorem Fits.handled (hs : setup.Fits peers side s endpoint) (draw : Draw PKey) {arrived : Arrived}
    (hfrom : arrived.fromAddr = peers.addr side.other) :
    (handledNode ssl s arrived draw).toSession =
        endpoint.getD ⟨.initialised, draw.node.aesContextTx, draw.node.aesContextRx⟩ ∧
      (handledNode ssl s arrived draw).addr = peers.addr side.other := by
  have hrecord := hs.record
  rw [Peers.record, ← hfrom] at hrecord
  rw [handledNode, ← hrecord]
  cases hpeer : s.core.peer arrived.fromAddr with
  | none => exact ⟨rfl, hfrom⟩
  | some record => exact ⟨rfl, (hs.wellFormed.addr_of_peer hpeer).trans hfrom⟩

/-- What `_receive` sends to a new sender encodes a request. -/
theorem Fits.requests (hs : setup.Fits peers side s endpoint) (draw : Draw PKey)
    {arrived : Arrived} (hfrom : arrived.fromAddr = peers.addr side.other) :
    List.Forall₂ (setup.Encodes ssl side) (requests ssl s arrived draw)
        (if endpoint = none then [.request] else []) ∧
      ∀ reply ∈ requests ssl s arrived draw, reply.addr = peers.addr side.other := by
  have hrecord := hs.record
  rw [Peers.record, ← hfrom] at hrecord
  rw [Kapua.requests, ← hrecord]
  cases hpeer : s.core.peer arrived.fromAddr with
  | none =>
    refine ⟨.cons ?_ .nil, ?_⟩
    · exact encodes_construct hs.id draw.rpkPkt _ arrived.fromAddr .request (Or.inr rfl)
    · intro reply hreply
      rw [List.mem_singleton.mp hreply]
      exact hfrom
  | some record => exact ⟨.nil, by simp⟩

/-- A pass over a datagram of the peer does what receiving the message does. -/
theorem pass_simulated (htrips : ssl.RoundTrips Matches)
    (hmarked : ∀ iv, setup.leads iv → Unmarked iv) (hs : setup.Fits peers side s endpoint)
    (hout : setup.Encodes ssl side.other out message)
    (hunderstood : setup.Understood ssl Matches endpoint message)
    (hdecrypts : ssl.OtherKeysFail Matches ∨ setup.Succeeds ssl Matches side draw)
    (hleads : setup.leads draw.iv)
    (hpass : pass ssl s (.datagram (peers.addr side.other) out.bytes) draw = .ok (next, sent)) :
    ∃ choice, setup.Fits peers side next (Handshake.receive endpoint message choice).1 ∧
      List.Forall₂ (setup.Encodes ssl side) sent (Handshake.receive endpoint message choice).2 ∧
      (∀ reply ∈ sent, reply.addr = peers.addr side.other) ∧
      (setup.Succeeds ssl Matches side draw → choice.Works) := by
  have hpassing := passing_of_pass hpass
  have hrecv := recvfrom_datagram s (peers.addr side.other) out.bytes draw
  rcases hout.arrives draw htrips hmarked hs hunderstood with
    ⟨hrefused, key, rfl, hwhy⟩ | ⟨haccepted, hholds, hready⟩
  · obtain ⟨hcore, rfl⟩ := hpassing.refused hrecv hrefused
    refine ⟨choiceOf draw true true true, ?_, ?_, by simp, fun _ ↦ ⟨rfl, rfl, rfl⟩⟩
    · rw [Handshake.receive_refused hwhy]
      exact hs.of_core_eq hcore
    · rw [Handshake.receive_refused hwhy]
      exact .nil
  · obtain ⟨node, replies, hhandled, hpeer, rfl⟩ := hpassing.handled hrecv haccepted
    rw [hs.keys] at hhandled
    have hfrom : (arrivedDatagram s (peers.addr side.other) out.bytes draw).fromAddr =
        peers.addr side.other := rfl
    generalize arrivedDatagram s (peers.addr side.other) out.bytes draw = arrived at *
    obtain ⟨hbase, haddr⟩ := hs.handled draw hfrom
    obtain ⟨hrequests, hto⟩ := hs.requests draw hfrom
    have hrx : ∀ key, message = .ready key →
        key = ((handledNode ssl s arrived draw).updateLastContact draw.now).aesContextRx := by
      intro key heq
      obtain ⟨session, rfl, rfl⟩ := Option.map_eq_some_iff.mp (hready key heq)
      exact (congrArg Session.rx hbase).symm
    have hknown : (∀ key, message ≠ .ready key) ∨ endpoint ≠ none := by
      refine or_iff_not_imp_right.mpr fun hnone key heq ↦ ?_
      have hkey := hready key heq
      rw [not_not.mp hnone] at hkey
      cases hkey
    obtain ⟨encrypts, decrypts, seals, messages, hhandle, hencodes, hworks⟩ :=
      handling_simulated htrips hhandled hs.id hleads hholds hrx hdecrypts
    have hresult : Handshake.receive endpoint message (choiceOf draw encrypts decrypts seals) =
        (some node.toSession, (if endpoint = none then [.request] else []) ++ messages) := by
      have hsession :
          Handshake.handle (endpoint.getD (choiceOf draw encrypts decrypts seals).session)
          message (choiceOf draw encrypts decrypts seals) = (node.toSession, messages) := by
        rw [← hhandle]
        exact congrArg (fun session ↦ Handshake.handle session message _) hbase.symm
      rw [Handshake.receive_handled hknown, hsession]
    refine ⟨choiceOf draw encrypts decrypts seals, ?_, ?_, ?_, hworks⟩
    · rw [hresult]
      refine ⟨hpassing.wellFormed hs.wellFormed, hpassing.myId_eq ▸ hs.id,
        hpassing.keys_eq.trans hs.keys, ?_⟩
      rw [Peers.record, ← hfrom, hpeer]
      rfl
    · rw [hresult]
      exact List.rel_append hrequests hencodes
    · intro reply hreply
      rcases List.mem_append.mp hreply with hfirst | hlater
      · exact hto reply hfirst
      · exact (hhandled.addr_of_mem hlater).trans haddr

/-- A pass over a datagram of the peer is in bounds: an `EncryptionContext` of the peer holds a
session key. -/
theorem Encodes.inBounds (htrips : ssl.RoundTrips Matches)
    (hmarked : ∀ iv, setup.leads iv → Unmarked iv) (hout : setup.Encodes ssl side.other out message)
    (hs : setup.Fits peers side s endpoint)
    (hunderstood : setup.Understood ssl Matches endpoint message)
    (hdecrypts : ssl.OtherKeysFail Matches ∨ setup.Succeeds ssl Matches side draw) :
    InBounds ssl s (.datagram (peers.addr side.other) out.bytes, draw) := by
  refine inBounds_iff.mpr fun arrived node hrecv haccepted _ htype _ ↦ ?_
  obtain rfl := Option.some.inj ((recvfrom_datagram s _ out.bytes draw).symm.trans hrecv)
  obtain ⟨hrefused, -⟩ | ⟨-, hholds, -⟩ := hout.arrives draw htrips hmarked hs hunderstood
  · exact absurd (haccepted.symm.trans hrefused) (by simp)
  · obtain ⟨key, rfl⟩ : ∃ key, message = .context key := by
      have hpacket := hholds.type.symm.trans htype
      cases message <;> simp [packetType] at hpacket ⊢
    have hsealed := hholds.context key rfl
    rw [Side.other_other] at hsealed
    rw [hs.keys]
    obtain hnone | hwhole := hsealed.decrypted htrips hdecrypts
    · simp [hnone]
    · simp [hwhole]

/-- A node refuses what it broadcast itself. -/
theorem broadcast_refused (addr : Sockaddr) (toId : UInt64)
    (hpass : pass ssl s (.datagram addr
      (Packet.construct draw.pkt .discovery s.core.myId toId).datagram) draw = .ok (next, sent)) :
    next.core = s.core := by
  have hheader := Packet.isHeader_construct draw.pkt .discovery s.core.myId toId
  have hfits : kapuaHeaderSize + (Packet.construct draw.pkt .discovery s.core.myId toId).length ≤
      kapuaMaxPacketSize := by
    rw [hheader.length]
    decide
  obtain ⟨hsize, hfront⟩ := sameFront_datagram s addr draw hfits
  have hlong := Nat.le_add_right kapuaHeaderSize
    (Packet.construct draw.pkt .discovery s.core.myId toId).length
  refine ((passing_of_pass hpass).refused (recvfrom_datagram s addr _ draw) ?_).1
  rw [screened, screen_plain ssl _ (Or.inl ((hfront.checkMagicValid_eq hlong).trans hheader.magic)),
    hsize, hfront.passesHeader_eq hlong]
  simp [passesHeader, hheader.fromId]

end Pass

/-- The receive loops of two peers refine the handshake. Assumes: the draws have the leading bytes
of the setup, and either decryption under other keys fails or the calls succeed; the choices the
abstract environment may make include those of a pass. -/
theorem simulation (htrips : ssl.RoundTrips Matches) (hmarked : ∀ iv, setup.leads iv → Unmarked iv)
    {Good : Side → Draw PKey → Prop} {Good' : Side → Choice AESKey → Prop}
    {Enabled : Option (Session AESKey) → Message AESKey → Prop}
    (hgood : ∀ {side draw}, Good side draw → setup.leads draw.iv ∧
      (ssl.OtherKeysFail Matches ∨ setup.Succeeds ssl Matches side draw))
    (hchoice : ∀ {side draw choice}, Good side draw →
      (setup.Succeeds ssl Matches side draw → choice.Works) → Good' side choice)
    (henabled : ∀ {endpoint message}, Enabled endpoint message →
      setup.Understood ssl Matches endpoint message) :
    Simulation (peers.program ssl) Handshake.protocol Good Good' (setup.Fits peers)
      (setup.Encodes ssl) Enabled where
  announce := by
    intro side s endpoint draw hs hdraw
    refine ⟨choiceOf draw true true true, hchoice hdraw fun _ ↦ ⟨rfl, rfl, rfl⟩, .cons ?_ .nil⟩
    exact encodes_construct hs.id draw.pkt _ _ .discovery (Or.inl rfl)
  internal := by
    intro side s endpoint draw next hs hdraw hinternal
    refine ⟨choiceOf draw true true true, endpoint, hchoice hdraw fun _ ↦ ⟨rfl, rfl, rfl⟩, rfl, ?_⟩
    rw [Peers.internal_eq] at hinternal
    obtain ⟨⟨after, sent⟩, hpass, rfl⟩ := Option.map_eq_some_iff.mp hinternal
    have hok := eq_ok_of_toOption hpass
    exact hs.of_core_eq (broadcast_refused (peers.addr side) kapuaIdBroadcast hok)
  receive := by
    intro side s endpoint out message draw next replies hs hout hmessage hdraw hreceive
    obtain ⟨hleads, hdecrypts⟩ := hgood hdraw
    obtain ⟨⟨after, sent⟩, hpass, hresult⟩ := Option.map_eq_some_iff.mp hreceive
    obtain ⟨rfl, rfl⟩ := Prod.mk.inj hresult
    have hok := eq_ok_of_toOption hpass
    obtain ⟨choice, hnext, hsent, hto, hworks⟩ := pass_simulated htrips hmarked hs hout
      (henabled hmessage) hdecrypts hleads hok
    refine ⟨choice, _, _, hchoice hdraw hworks, rfl, hnext, ?_⟩
    rw [List.filter_eq_self.mpr fun reply hreply ↦ decide_eq_true (hto reply hreply)]
    exact hsent

/-! ### Reading a related state -/

section Reading

variable {side : Side} {s : LoopState PKey} {endpoint : Option (Session AESKey)} {out : Sent}
  {message : Message AESKey}

/-- An endpoint that knows its peer is the session of a record. -/
theorem Fits.exists_record (hs : setup.Fits peers side s endpoint)
    (hknown : 1 ≤ progress endpoint) :
    ∃ node, peers.record side s = some node ∧ endpoint = some node.toSession := by
  cases hrecord : peers.record side s with
  | some node => exact ⟨node, rfl, by rw [← hs.record, hrecord]; rfl⟩
  | none =>
    rw [← hs.record, hrecord] at hknown
    simp at hknown

/-- The record of a node is the session of its endpoint. -/
theorem Fits.endpoint_eq (hs : setup.Fits peers side s endpoint) {node : Node PKey}
    (hrecord : peers.record side s = some node) : endpoint = some node.toSession := by
  rw [← hs.record, hrecord]
  rfl

/-- A record is in a state exactly when its endpoint is at the place of that state. -/
theorem Fits.progress_iff (hs : setup.Fits peers side s endpoint) (state : NodeState) :
    progress endpoint = state.rank + 1 ↔ peers.InState side s state := by
  constructor
  · intro hplace
    obtain ⟨node, hrecord, rfl⟩ := hs.exists_record (by omega)
    exact ⟨node, hrecord, (Handshake.progress_eq_iff node.toSession state).mp hplace⟩
  · rintro ⟨node, hrecord, hstate⟩
    rw [hs.endpoint_eq hrecord]
    exact (Handshake.progress_eq_iff node.toSession state).mpr hstate

/-- A datagram is of the type of the message it encodes, and types tell messages apart. -/
theorem Encodes.message_eq (h : setup.Encodes ssl side out message) :
    (out.packet.type = some .discovery → message = .discovery) ∧
    (out.packet.type = some .publicKeyRequest → message = .request) ∧
    (out.packet.type = some .publicKeyReply → message = .reply) ∧
    (out.packet.type = some .encryptionContext → ∃ key, message = .context key) ∧
    (out.packet.type = some .ready → ∃ key, message = .ready key) := by
  rw [h.holds.type]
  cases message <;> simp [packetType]

end Reading

end Setup

/-! ### The start -/

/-- Two nodes that have just started, and what is known of the leading bytes. -/
def Started.setup {network : Network (LoopState PKey) Sent} (h : Started network)
    (leads : Vector UInt8 32 → Prop) : Setup PKey where
  ids := fun side id ↦ id = (network side).party.core.myId
  keys := fun side ↦ (network side).party.core.keys
  leads := leads
  disjoint := by
    rintro side id other rfl rfl
    exact h.id_ne side

/-- Nodes with empty tables and nothing in flight are hosts that have not heard of each other. -/
theorem Started.related {network : Network (LoopState PKey) Sent} (h : Started network)
    (ssl : OpenSSL PKey) (peers : Peers) {setup : Setup PKey}
    (hids : ∀ side, setup.ids side (network side).party.core.myId)
    (hkeys : ∀ side, (network side).party.core.keys = setup.keys side) :
    Simulation.Related (setup.Fits peers) (setup.Encodes ssl) network
      fun _ ↦ Handshake.fresh := by
  intro side
  refine ⟨⟨(h.empty side).wellFormed, hids side, hkeys side, ?_⟩, ?_, ?_⟩
  · rw [Peers.record, (h.empty side).peer]
    rfl
  · rw [h.inbox side]
    exact .nil
  · rw [h.log side]
    exact .nil

/-- Two nodes over a network keep the invariants that the handshake has over the same network.
Assumes: decryption under other keys fails. -/
theorem Started.exists_related {ssl : OpenSSL PKey} {Matches : PKey → PKey → Prop} {peers : Peers}
    {start final : Network (LoopState PKey) Sent} {actions : List (Action (Draw PKey))}
    (hstart : Started start) (htrips : ssl.RoundTrips Matches)
    (hothers : ssl.OtherKeysFail Matches) (setup : Setup PKey) (hleads : setup.leads = Opaque)
    (hids : ∀ side, setup.ids side (start side).party.core.myId)
    (hkeys : ∀ side, (start side).party.core.keys = setup.keys side) {allows : Action Unit → Prop}
    (hrun : Run (Network.Allowed (peers.program ssl) allows fun _ draw ↦ Opaque draw.iv) start
      actions final)
    {Invariant : Host (Option (Session AESKey)) (Message AESKey) →
      Host (Option (Session AESKey)) (Message AESKey) → Prop}
    (hpreserved : Preserved Handshake.protocol allows (fun _ _ ↦ True) Invariant)
    (hbegin : Invariant Handshake.fresh Handshake.fresh) :
    ∃ final' : Network (Option (Session AESKey)) (Message AESKey),
      Simulation.Related (setup.Fits peers) (setup.Encodes ssl) final final' ∧
        ∀ side, Invariant (final' side) (final' side.other) := by
  have hsimulation : Simulation (peers.program ssl) Handshake.protocol
      (fun _ draw ↦ Opaque draw.iv) (fun _ _ ↦ True) (setup.Fits peers) (setup.Encodes ssl)
      (fun _ _ ↦ True) :=
    Setup.simulation htrips (fun iv h ↦ (hleads ▸ h : Opaque iv).1)
      (fun h ↦ ⟨hleads ▸ h, Or.inl hothers⟩) (fun _ _ ↦ trivial)
      (fun _ ↦ ⟨fun _ _ _ iv h ↦ (hleads ▸ h : Opaque iv).2, fun _ _ _ ↦ Or.inr hothers⟩)
  exact hsimulation.run_preserved hpreserved (fun _ _ _ ↦ trivial) hrun
    (hstart.related ssl peers hids hkeys) (fun _ ↦ hbegin)

end Kapua
