import Kapua.Handshake.Restart
import Kapua.Peers.Completion

/-!
# A peer that restarts

One of two nodes restarts with an empty node table and a new id while the other keeps its table.
Whatever network they were connected by until then, from the restart on it delivers every datagram
once and in order. `joined_after_restart` says of the state right after the restart when the two
come together again: when the node that stays has no record of the one that restarted, or its
`PublicKeyRequest` is still on its way and nothing further is. `_receive` sends a request only to an
address it has no record of, so a node with an old record never asks again, and the one that
restarted drops everything it answers.
-/

set_option autoImplicit false
set_option relaxedAutoImplicit false

namespace Kapua

open Handshake (Message Session Choice progress)

variable {PKey : Type} {ssl : OpenSSL PKey} {Matches : PKey → PKey → Prop} {peers : Peers}
  {start before after final : Network (LoopState PKey) Sent}
  {actions later : List (Action (Draw PKey))} {side : Side}

/-- The node on `side` restarts: an empty node table, a new id, the same key files. What is in
flight stays in flight, and the logs begin again. -/
structure Restarts (side : Side) (before after : Network (LoopState PKey) Sent) : Prop where
  empty : (after side).party.core.Empty
  keys : (after side).party.core.keys = (before side).party.core.keys
  id_ne : (before side.other).party.core.myId ≠ (after side).party.core.myId
  inbox : (after side).inbox = (before side).inbox
  log : (after side).log = []
  stays : after side.other = { before side.other with log := [] }

/-- The peer of the node on `side` has no record of it. -/
def Peers.Unmet (peers : Peers) (side : Side) (network : Network (LoopState PKey) Sent) : Prop :=
  peers.record side.other (network side.other).party = none

/-- A request of its peer is in flight to the node on `side`. -/
def Asked (side : Side) (network : Network (LoopState PKey) Sent) : Prop :=
  ∃ out ∈ (network side).inbox, out.packet.type = some .publicKeyRequest

instance (side : Side) (network : Network (LoopState PKey) Sent) : Decidable (Asked side network) :=
  inferInstanceAs (Decidable (∃ out ∈ (network side).inbox,
    out.packet.type = some .publicKeyRequest))

/-- Nothing of the handshake is in flight to the peer of the node on `side` but requests, nor to the
node but requests and replies, and the record the peer has of the node is in `initialised` or
`keyExchange`. -/
def Peers.OnlyAsked (peers : Peers) (side : Side) (network : Network (LoopState PKey) Sent) :
    Prop :=
  (∀ out ∈ (network side.other).inbox, out.OfHandshake →
    out.packet.type = some .publicKeyRequest) ∧
  (∀ out ∈ (network side).inbox, out.OfHandshake →
    out.packet.type = some .publicKeyRequest ∨ out.packet.type = some .publicKeyReply) ∧
  ∀ node ∈ peers.record side.other (network side.other).party,
    node.state = .initialised ∨ node.state = .keyExchange

instance (side : Side) (network : Network (LoopState PKey) Sent) :
    Decidable (peers.OnlyAsked side network) :=
  inferInstanceAs (Decidable ((∀ out ∈ (network side.other).inbox, out.OfHandshake →
      out.packet.type = some .publicKeyRequest) ∧
    (∀ out ∈ (network side).inbox, out.OfHandshake →
      out.packet.type = some .publicKeyRequest ∨ out.packet.type = some .publicKeyReply) ∧
    ∀ node ∈ peers.record side.other (network side.other).party,
      node.state = .initialised ∨ node.state = .keyExchange))

/-- Both records are connected, and the session keys match in both directions. -/
def Peers.Joined (peers : Peers) (side : Side) (network : Network (LoopState PKey) Sent) : Prop :=
  ∃ node ∈ peers.record side (network side).party,
    ∃ peer ∈ peers.record side.other (network side.other).party,
      node.state = .connected ∧ peer.state = .connected ∧ node.KeysMatch peer

section Related

variable {setup : Setup PKey} {network : Network (LoopState PKey) Sent}
  {network' : Network (Option (Session AESKey)) (Message AESKey)}
  (hrelated : Simulation.Related (setup.Fits peers) (setup.Encodes ssl) network network')

include hrelated

theorem unmet_iff : peers.Unmet side network ↔ progress (network' side.other).party = 0 := by
  have hpeer := (hrelated side.other).party
  rw [Peers.Unmet, ← hpeer.record]
  cases peers.record side.other (network side.other).party <;> simp

theorem asked_iff : Asked side network ↔ .request ∈ (network' side).inbox := by
  have hinbox := (hrelated side).inbox
  constructor
  · rintro ⟨out, hout, htype⟩
    obtain ⟨message, hmessage, hencodes⟩ := exists_mem_of_forall₂ hinbox.flip hout
    exact hencodes.message_eq.2.1 htype ▸ hmessage
  · intro hrequest
    obtain ⟨out, hout, hencodes⟩ := exists_mem_of_forall₂ hinbox hrequest
    exact ⟨out, hout, hencodes.holds.type⟩

omit hrelated in
/-- The datagrams of the handshake in flight are of some types exactly when the messages are of the
stages of these types. -/
theorem stages_iff {inbox : List Sent} {messages : List (Message AESKey)} {position : Side}
    (hinbox : List.Forall₂ (setup.Encodes ssl position) inbox messages)
    (types : Option PacketType → Prop) (last : ℕ) (htypes : ∀ (message : Message AESKey) stage,
      message.stage? = some stage → (types (some (Setup.packetType message)) ↔ stage ≤ last)) :
    (∀ out ∈ inbox, out.OfHandshake → types out.packet.type) ↔
      ∀ stage ∈ Handshake.stages messages, stage ≤ last := by
  constructor
  · intro h stage hstage
    obtain ⟨message, hmessage, hplace⟩ := List.mem_filterMap.mp hstage
    obtain ⟨out, hout, hencodes⟩ := exists_mem_of_forall₂ hinbox hmessage
    have htype := h out hout
    rw [Sent.OfHandshake, hencodes.holds.type, htypes message stage hplace] at htype
    refine htype ?_
    cases message <;> simp [Message.stage?, Setup.packetType] at hplace ⊢
  · intro h out hout hhandshake
    obtain ⟨message, hmessage, hencodes⟩ := exists_mem_of_forall₂ hinbox.flip hout
    rw [Sent.OfHandshake, hencodes.holds.type] at hhandshake
    rw [hencodes.holds.type]
    cases hplace : message.stage? with
    | none => cases message <;> simp [Message.stage?, Setup.packetType] at hplace hhandshake
    | some stage =>
      exact (htypes message stage hplace).mpr (h stage (Handshake.mem_stages hmessage hplace))

theorem onlyAsked_iff : peers.OnlyAsked side network ↔
    Handshake.OnlyAsked (network' side) (network' side.other) := by
  have htoPeer := stages_iff (hrelated side.other).inbox (fun type ↦ type = some .publicKeyRequest)
    0 fun message stage hstage ↦ by
      cases message <;> simp [Message.stage?, Setup.packetType] at hstage ⊢ <;> omega
  have htoHost := stages_iff (hrelated side).inbox
    (fun type ↦ type = some .publicKeyRequest ∨ type = some .publicKeyReply) 1
    fun message stage hstage ↦ by
      cases message <;> simp [Message.stage?, Setup.packetType] at hstage ⊢ <;> omega
  have hplace : (∀ node ∈ peers.record side.other (network side.other).party,
      node.state = .initialised ∨ node.state = .keyExchange) ↔
        progress (network' side.other).party ≤ 2 := by
    rw [← (hrelated side.other).party.record]
    cases peers.record side.other (network side.other).party with
    | none => simp
    | some node =>
      simp only [Option.mem_some_iff, forall_eq', Option.map_some, Handshake.progress_some]
      show _ ↔ node.state.rank + 1 ≤ 2
      cases node.state <;> simp [NodeState.rank]
  rw [Peers.OnlyAsked, htoPeer, htoHost, hplace]
  constructor
  · rintro ⟨hpeer, hhost, hle⟩
    exact ⟨fun stage hstage ↦ Nat.le_zero.mp (hpeer stage hstage), hhost, hle⟩
  · intro h
    exact ⟨fun stage hstage ↦ (h.toPeer stage hstage).le, h.toHost, h.place⟩

/-- Two records are joined exactly when both endpoints are connected with the same session keys. -/
theorem joined_iff : peers.Joined side network ↔
    progress (network' side).party = 5 ∧ progress (network' side.other).party = 5 ∧
      Handshake.rx (network' side.other).party = Handshake.tx (network' side).party ∧
      Handshake.rx (network' side).party = Handshake.tx (network' side.other).party := by
  have hhost := (hrelated side).party
  have hpeer := (hrelated side.other).party
  have hplace : progress (network' side).party = 5 ↔ _ := hhost.progress_iff .connected
  have hpeerPlace : progress (network' side.other).party = 5 ↔ _ := hpeer.progress_iff .connected
  rw [hplace, hpeerPlace]
  constructor
  · rintro ⟨node, hnode, peer, hpeerNode, hstate, hpeerState, hkey, hpeerKey⟩
    rw [hhost.endpoint_eq hnode, hpeer.endpoint_eq hpeerNode]
    exact ⟨⟨node, hnode, hstate⟩, ⟨peer, hpeerNode, hpeerState⟩, congrArg some hkey.symm,
      congrArg some hpeerKey.symm⟩
  · rintro ⟨⟨node, hnode, hstate⟩, ⟨peer, hpeerNode, hpeerState⟩, hkey, hpeerKey⟩
    rw [hhost.endpoint_eq hnode, hpeer.endpoint_eq hpeerNode] at hkey hpeerKey
    exact ⟨node, hnode, peer, hpeerNode, hstate, hpeerState, (Option.some.inj hkey).symm,
      (Option.some.inj hpeerKey).symm⟩

end Related

/-! ### From the restart on -/

/-- No node changes its id. -/
theorem Started.myId_eq (hstart : Started start) (htrips : ssl.RoundTrips Matches)
    (hothers : ssl.OtherKeysFail Matches) {allows : Action Unit → Prop}
    (hrun : Run (Network.Allowed (peers.program ssl) allows fun _ draw ↦ Opaque draw.iv) start
      actions before) (position : Side) :
    (before position).party.core.myId = (start position).party.core.myId := by
  obtain ⟨before', hrelated, -⟩ := hstart.exists_related htrips hothers (hstart.setup Opaque) rfl
    (fun _ ↦ rfl) (fun _ ↦ rfl) hrun (Handshake.beginning_preserved _ _) Handshake.beginning_fresh
  exact (hrelated position).party.id

namespace Restarts

/-- Two nodes, one of which restarts and goes by two ids. -/
def setup (hrestart : Restarts side before after) (hstart : Started start)
    (hid : (before side.other).party.core.myId = (start side.other).party.core.myId) :
    Setup PKey where
  ids := fun position id ↦ id = (start position).party.core.myId ∨
    position = side ∧ id = (after side).party.core.myId
  keys := fun position ↦ (start position).party.core.keys
  leads := Opaque
  disjoint := by
    rintro position id other (rfl | ⟨rfl, rfl⟩) (rfl | ⟨hposition, rfl⟩)
    · exact hstart.id_ne position
    · obtain rfl : position = side.other := by rw [← hposition, Side.other_other]
      exact fun heq ↦ hrestart.id_ne (hid.trans heq.symm)
    · exact fun heq ↦ hrestart.id_ne (hid.trans heq)
    · exact absurd hposition (Side.other_ne position)

/-- The handshake right after the restart. -/
def restarted (side : Side) (before' : Network (Option (Session AESKey)) (Message AESKey)) :
    Network (Option (Session AESKey)) (Message AESKey) :=
  .pair side ⟨none, (before' side).inbox, []⟩
    ⟨(before' side.other).party, (before' side.other).inbox, []⟩

/-- A node that restarts is an endpoint that has not heard of its peer. -/
theorem related (hrestart : Restarts side before after) {setup : Setup PKey}
    (hid : setup.ids side (after side).party.core.myId)
    {before' : Network (Option (Session AESKey)) (Message AESKey)}
    (hrelated : Simulation.Related (setup.Fits peers) (setup.Encodes ssl) before before') :
    Simulation.Related (setup.Fits peers) (setup.Encodes ssl) after (restarted side before') := by
  have hafter : after = .pair side (after side) (after side.other) := by
    funext position
    rcases Side.eq_or_eq_other position side with rfl | rfl
    · simp
    · simp
  have hkeys := hrestart.keys.trans (hrelated side).party.keys
  have hpeer := hrelated side.other
  rw [Side.other_other] at hpeer
  rw [hafter]
  refine Simulation.related_pair ⟨⟨hrestart.empty.wellFormed, hid, hkeys, ?_⟩, ?_, ?_⟩ ?_
  · rw [Peers.record, hrestart.empty.peer]
    rfl
  · rw [hrestart.inbox]
    exact (hrelated side).inbox
  · rw [hrestart.log]
    exact .nil
  · rw [hrestart.stays]
    exact ⟨hpeer.party, hpeer.inbox, .nil⟩

/-- What the handshake was before the restart, and that the nodes refine it from the restart on. -/
theorem exists_restarted (hrestart : Restarts side before after) (htrips : ssl.RoundTrips Matches)
    (hothers : ssl.OtherKeysFail Matches) (hstart : Started start)
    (hservice : Serviceable ssl Matches fun position ↦ (start position).party.core.keys)
    {allows : Action Unit → Prop}
    (hrun : Run (Network.Allowed (peers.program ssl) allows fun _ draw ↦ Opaque draw.iv) start
      actions before) :
    ∃ (setup : Setup PKey) (before' : Network (Option (Session AESKey)) (Message AESKey)),
      (Simulation (peers.program ssl) Handshake.protocol (fun position draw ↦ Opaque draw.iv ∧
          draw.Roomy ssl (start position).party.core.keys) (fun _ choice ↦ choice.Works)
        (setup.Fits peers) (setup.Encodes ssl) fun _ _ ↦ True) ∧
      Simulation.Related (setup.Fits peers) (setup.Encodes ssl) before before' ∧
      Simulation.Related (setup.Fits peers) (setup.Encodes ssl) after (restarted side before') ∧
      ∀ position, Handshake.Beginning (before' position) (before' position.other) := by
  have hid := hstart.myId_eq htrips hothers hrun side.other
  obtain ⟨before', hrelated, hbeginning⟩ := hstart.exists_related htrips hothers
    (hrestart.setup hstart hid) rfl (fun _ ↦ Or.inl rfl) (fun _ ↦ rfl) hrun
    (Handshake.beginning_preserved _ _) Handshake.beginning_fresh
  refine ⟨hrestart.setup hstart hid, before', ?_, hrelated,
    hrestart.related (Or.inr ⟨rfl, rfl⟩) hrelated, hbeginning⟩
  exact Setup.simulation htrips (fun _ (h : Opaque _) ↦ h.1)
    (fun h ↦ ⟨h.1, Or.inr ⟨hservice, h.2⟩⟩) (fun h hworks ↦ hworks ⟨hservice, h.2⟩)
    (fun _ ↦ ⟨fun _ _ _ _ (h : Opaque _) ↦ h.2, fun _ _ _ ↦ Or.inr hothers⟩)

section Later

variable (hrestart : Restarts side before after) (htrips : ssl.RoundTrips Matches)
  (hothers : ssl.OtherKeysFail Matches) (hstart : Started start)
  (hservice : Serviceable ssl Matches fun position ↦ (start position).party.core.keys)
  {allows : Action Unit → Prop}
  (hrun : Run (Network.Allowed (peers.program ssl) allows fun _ draw ↦ Opaque draw.iv) start
    actions before)
  (hlater : Run (Network.Allowed (peers.program ssl) Action.Ordered fun position draw ↦
    Opaque draw.iv ∧ draw.Roomy ssl (start position).party.core.keys) after later final)

include hrestart htrips hothers hstart hservice hrun hlater

/-- A node that its peer has no record of, or to which its peer's request is in flight and nothing
further, comes back. -/
theorem joined (hreturns : peers.Unmet side after ∨ Asked side after ∧ peers.OnlyAsked side after)
    (hquiet : ∀ position, ∀ out ∈ (final position).inbox, ¬ out.OfHandshake)
    (hdiscovered : ∃ entry ∈ (final side).log, entry.2.packet.type = some .discovery) :
    peers.Joined side final := by
  obtain ⟨setup, before', hsimulation, hbefore, hafter, hbeginning⟩ :=
    hrestart.exists_restarted htrips hothers hstart hservice hrun
  rw [unmet_iff hafter, asked_iff hafter, onlyAsked_iff hafter] at hreturns
  have hreturns' : progress (before' side.other).party = 0 ∨ .request ∈ (before' side).inbox ∧
      Handshake.OnlyAsked (before' side) (before' side.other) := by
    simp only [restarted, Network.pair_self, Network.pair_other] at hreturns
    exact hreturns.imp_right fun ⟨hasked, honly⟩ ↦
      ⟨hasked, honly.toPeer, honly.toHost, honly.place⟩
  obtain ⟨old, again, hrejoins⟩ := (hbeginning side).1.rejoins hreturns' [] []
  have hpreserved := Handshake.recovering_preserved.and
    (Handshake.discovers_preserved Action.Ordered fun _ (choice : Choice AESKey) ↦ choice.Works)
  obtain ⟨final', hfinal, hinv⟩ := hsimulation.run_preserved hpreserved (fun _ _ _ ↦ trivial)
    hlater hafter (hpreserved.pair ⟨Or.inl ⟨old, 0, again, hrejoins⟩, by simp, by simp⟩)
  obtain ⟨hrecovering, hdiscovers⟩ := hinv side
  rw [joined_iff hfinal]
  exact hrecovering.connected (quiet_of_forall (hfinal side).inbox (hquiet side))
    (quiet_of_forall (hfinal side.other).inbox (hquiet side.other))
    (Or.inl (hdiscovers.1 (exists_discovery (hfinal side) hdiscovered)))

/-- A node comes back only when its peer has no record of it, or has a request in flight to it. -/
theorem unmet_or_asked (hjoined : peers.Joined side final) :
    peers.Unmet side after ∨ Asked side after := by
  obtain ⟨setup, before', hsimulation, hbefore, hafter, -⟩ :=
    hrestart.exists_restarted htrips hothers hstart hservice hrun
  rw [unmet_iff hafter, asked_iff hafter]
  by_contra hnever
  simp only [restarted, Network.pair_self, Network.pair_other, not_or] at hnever
  have hpreserved := Handshake.split_preserved Action.Ordered
    fun _ (choice : Choice AESKey) ↦ choice.Works
  obtain ⟨final', hfinal, hsplit⟩ := hsimulation.run_preserved hpreserved (fun _ _ _ ↦ trivial)
    hlater hafter (hpreserved.pair
      (Or.inl ⟨Nat.pos_of_ne_zero hnever.1, hnever.2, Nat.zero_le _⟩))
  obtain ⟨hplace, hpeerPlace, -⟩ := (joined_iff hfinal).mp hjoined
  exact (hsplit side).not_connected ⟨hplace, hpeerPlace⟩

end Later

end Restarts

/-- From any state, one node restarts, and from then on the network delivers every datagram once and
in order. If right after the restart the other node has no record of it, or if its request is in
flight and nothing that goes further, both records are connected and the session keys match as soon
as nothing of the handshake is in flight and each has received a discovery. If there is neither such
a node nor such a request, they never are. -/
theorem joined_after_restart (htrips : ssl.RoundTrips Matches)
    (hothers : ssl.OtherKeysFail Matches) (hstart : Started start)
    (hservice : Serviceable ssl Matches fun position ↦ (start position).party.core.keys)
    (hrun : Run (Network.Allowed (peers.program ssl) (fun _ ↦ True) fun _ draw ↦ Opaque draw.iv)
      start actions before)
    (hrestart : Restarts side before after)
    (hlater : Run (Network.Allowed (peers.program ssl) Action.Ordered fun position draw ↦
      Opaque draw.iv ∧ draw.Roomy ssl (start position).party.core.keys) after later final) :
    (peers.Unmet side after ∨ Asked side after ∧ peers.OnlyAsked side after →
      (∀ position, ∀ out ∈ (final position).inbox, ¬ out.OfHandshake) →
      (∀ position, ∃ entry ∈ (final position).log, entry.2.packet.type = some .discovery) →
      peers.Joined side final) ∧
    (peers.Joined side final → peers.Unmet side after ∨ Asked side after) :=
  ⟨fun hreturns hquiet hdiscovered ↦ hrestart.joined htrips hothers hstart hservice hrun hlater
    hreturns hquiet (hdiscovered side),
    hrestart.unmet_or_asked htrips hothers hstart hservice hrun hlater⟩

/-- While a request of the peer is in flight to the node, nothing further is. Assumes: the network
does not duplicate. -/
theorem onlyAsked_of_asked (htrips : ssl.RoundTrips Matches) (hothers : ssl.OtherKeysFail Matches)
    (hstart : Started start)
    (hrun : Run (Network.Allowed (peers.program ssl) Action.AtMostOnce fun _ draw ↦
      Opaque draw.iv) start actions before) (hasked : Asked side before) :
    peers.OnlyAsked side before := by
  obtain ⟨before', hrelated, hinv⟩ := hstart.exists_related htrips hothers
    (hstart.setup Opaque) rfl (fun _ ↦ rfl) (fun _ ↦ rfl) hrun
    ((Handshake.agreed_preserved _).and (Handshake.beginning_preserved _ _))
    ⟨Handshake.agreed_fresh, Handshake.beginning_fresh⟩
  obtain ⟨hagreed, hbeginning⟩ := hinv side
  rw [onlyAsked_iff hrelated]
  exact hbeginning.1.onlyAsked
    (hagreed.progress_le_one (List.count_pos_iff.mpr ((asked_iff hrelated).mp hasked)))

/-- The peer and what is in flight are after the restart what they were before. -/
theorem Restarts.returns_iff (hrestart : Restarts side before after) :
    (peers.Unmet side after ↔ peers.Unmet side before) ∧
    (Asked side after ↔ Asked side before) ∧
    (peers.OnlyAsked side after ↔ peers.OnlyAsked side before) := by
  simp only [Peers.Unmet, Asked, Peers.OnlyAsked, hrestart.stays, hrestart.inbox, iff_self,
    and_self]

/-- Where the network did not duplicate before the restart, the two nodes come together again
exactly when the one that stays has no record of the other or its request is in flight to it. -/
theorem joined_iff_unmet_or_asked (htrips : ssl.RoundTrips Matches)
    (hothers : ssl.OtherKeysFail Matches) (hstart : Started start)
    (hservice : Serviceable ssl Matches fun position ↦ (start position).party.core.keys)
    (hrun : Run (Network.Allowed (peers.program ssl) Action.AtMostOnce fun _ draw ↦
      Opaque draw.iv) start actions before)
    (hrestart : Restarts side before after)
    (hlater : Run (Network.Allowed (peers.program ssl) Action.Ordered fun position draw ↦
      Opaque draw.iv ∧ draw.Roomy ssl (start position).party.core.keys) after later final)
    (hquiet : ∀ position, ∀ out ∈ (final position).inbox, ¬ out.OfHandshake)
    (hdiscovered : ∀ position, ∃ entry ∈ (final position).log,
      entry.2.packet.type = some .discovery) :
    peers.Joined side final ↔ peers.Unmet side after ∨ Asked side after := by
  obtain ⟨-, hasked, (honly : peers.OnlyAsked side after ↔ _)⟩ := hrestart.returns_iff
  constructor
  · exact hrestart.unmet_or_asked htrips hothers hstart hservice hrun hlater
  · intro hreturns
    refine hrestart.joined htrips hothers hstart hservice hrun hlater ?_ hquiet (hdiscovered side)
    exact hreturns.imp_right fun hflight ↦ ⟨hflight,
      honly.mpr (onlyAsked_of_asked htrips hothers hstart hrun (hasked.mp hflight))⟩

/-! ### Two restarts with the concrete cipher -/

/-- The first node restarts with a new id. -/
def restartedAs (id : UInt64) (network : Network (LoopState UInt8) Sent) :
    Network (LoopState UInt8) Sent :=
  .pair .first ⟨taggedStart id 1, (network .first).inbox, []⟩ { network .second with log := [] }

/-- The first node has its keys and the second another id. -/
def restartable (id : UInt64) (network : Network (LoopState UInt8) Sent) : Bool :=
  (network .first).party.core.keys.publicKey == some 1 &&
    (network .first).party.core.keys.privateKey == some 1 &&
    decide ((network .second).party.core.myId ≠ id)

theorem restarts_of_restartable {id : UInt64} {network : Network (LoopState UInt8) Sent}
    (h : restartable id network = true) : Restarts .first network (restartedAs id network) := by
  simp only [restartable, Bool.and_eq_true, beq_iff_eq, decide_eq_true_eq] at h
  obtain ⟨⟨hpublic, hprivate⟩, hid⟩ := h
  refine ⟨empty_taggedStart id 1, ?_, hid, rfl, rfl, rfl⟩
  show (⟨some 1, some 1⟩ : KeyPair UInt8) =
    ⟨(network .first).party.core.keys.publicKey, (network .first).party.core.keys.privateKey⟩
  rw [hpublic, hprivate]

/-- A script that can be played before a restart of the first node and one that can be played after
it are two runs. -/
theorem Script.exists_restart (script follow : Script) (id : UInt64)
    (check check' : Network (LoopState UInt8) Sent → Bool)
    (hfollow : ∀ action ∈ follow, Action.Ordered action.shape)
    (h : ((script.play taggedNetwork).any fun before ↦ restartable id before &&
      check (restartedAs id before) && (follow.play (restartedAs id before)).any check') = true) :
    ∃ actions before later final, Run (Network.Allowed (taggedPeers.program tagged) (fun _ ↦ True)
        fun _ draw ↦ Opaque draw.iv) taggedNetwork actions before ∧
      Restarts .first before (restartedAs id before) ∧ check (restartedAs id before) = true ∧
      Run (Network.Allowed (taggedPeers.program tagged) Action.Ordered fun position draw ↦
        Opaque draw.iv ∧ draw.Roomy tagged (taggedNetwork position).party.core.keys)
        (restartedAs id before) later final ∧ check' final = true := by
  obtain ⟨actions, before, hrun, hcheck⟩ := script.exists_run taggedNetwork (fun _ ↦ True)
    (fun _ draw ↦ Opaque draw.iv) (fun _ _ ↦ trivial) (fun _ ↦ opaque_taggedDraw) _ h
  simp only [Bool.and_eq_true] at hcheck
  obtain ⟨⟨hrestartable, hafter⟩, hplayed⟩ := hcheck
  obtain ⟨later, final, hlater, hfinal⟩ := follow.exists_run (restartedAs id before)
    Action.Ordered (fun position draw ↦
      Opaque draw.iv ∧ draw.Roomy tagged (taggedNetwork position).party.core.keys) hfollow
    (fun _ byte ↦ ⟨opaque_taggedDraw byte, roomy_taggedDraw _ byte⟩) check' hplayed
  exact ⟨actions, before, later, final, hrun, restarts_of_restartable hrestartable, hafter, hlater,
    hfinal⟩

/-- Each node received a discovery. -/
def discovered (network : Network (LoopState UInt8) Sent) : Bool :=
  (network .first).log.any (fun entry ↦ entry.2.packet.type = some .discovery) &&
    (network .second).log.any fun entry ↦ entry.2.packet.type = some .discovery

theorem exists_of_discovered {network : Network (LoopState UInt8) Sent}
    (h : discovered network = true) (side : Side) :
    ∃ entry ∈ (network side).log, entry.2.packet.type = some .discovery := by
  simp only [discovered, Bool.and_eq_true, List.any_eq_true, decide_eq_true_eq] at h
  cases side with
  | first => exact h.1
  | second => exact h.2

/-- The first node restarts before the request of the second reaches it. -/
theorem joined_after_restart_tagged : ∃ final : Network (LoopState UInt8) Sent,
    (∀ side, ∃ entry ∈ (final side).log, entry.2.packet.type = some .discovery) ∧
      taggedPeers.Joined .first final := by
  obtain ⟨actions, before, later, final, hrun, hrestart, hafter, hlater, hfinal⟩ :=
    Script.exists_restart [.announce .first 0, next .second 0]
      [.announce .first 0, .announce .second 0, next .first 0, next .second 0, next .second 0,
        next .second 8, next .first 7, next .first 0, next .first 0, next .second 0, next .second 0,
        next .first 0] 9
      (fun after ↦ decide (Asked .first after) && decide (taggedPeers.OnlyAsked .first after))
      (fun final ↦ settled final && discovered final)
      (by simp [next, Action.shape, Action.Ordered]) (by decide +kernel)
  simp only [Bool.and_eq_true, decide_eq_true_eq] at hafter hfinal
  obtain ⟨hsettled, hdiscovered⟩ := hfinal
  exact ⟨final, exists_of_discovered hdiscovered, (joined_after_restart tagged_roundTrips
    tagged_otherKeysFail started_taggedNetwork serviceable_taggedNetwork hrun hrestart hlater).1
    (Or.inr hafter) (quiet_of_settled hsettled) (exists_of_discovered hdiscovered)⟩

/-- The first node restarts after a full handshake. It asks for a key, and drops the reply. -/
theorem not_joined_after_restart : ∃ actions before after later final,
    Run (Network.Allowed (taggedPeers.program tagged) (fun _ ↦ True) fun _ draw ↦ Opaque draw.iv)
      taggedNetwork actions before ∧ Restarts .first before after ∧
    Run (Network.Allowed (taggedPeers.program tagged) Action.Ordered fun position draw ↦
      Opaque draw.iv ∧ draw.Roomy tagged (taggedNetwork position).party.core.keys) after later
      final ∧
    (∀ side, ∀ out ∈ (final side).inbox, ¬ out.OfHandshake) ∧
    (∀ side, ∃ entry ∈ (final side).log, entry.2.packet.type = some .discovery) ∧
    ¬ taggedPeers.Joined .first final := by
  obtain ⟨actions, before, later, final, hrun, hrestart, -, hlater, hfinal⟩ :=
    fullHandshake.exists_restart [.announce .first 0, .announce .second 0, next .first 0,
      next .second 0, next .second 0, next .first 0] 9 (fun _ ↦ true)
      (fun final ↦ settled final && discovered final && recordIn .first .initialised final)
      (by simp [next, Action.shape, Action.Ordered]) (by decide +kernel)
  simp only [Bool.and_eq_true] at hfinal
  obtain ⟨⟨hsettled, hdiscovered⟩, hstays⟩ := hfinal
  refine ⟨actions, before, _, later, final, hrun, hrestart, hlater, quiet_of_settled hsettled,
    exists_of_discovered hdiscovered, ?_⟩
  rintro ⟨node, hnode, -, -, hconnected, -⟩
  exact not_inState_of_recordIn hstays (by decide) ⟨node, hnode, hconnected⟩

end Kapua
