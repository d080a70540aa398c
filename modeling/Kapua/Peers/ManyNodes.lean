import Kapua.Foundation.Mesh
import Kapua.Handshake.Agreement
import Kapua.Peers.KeyAgreement

/-!
# Many nodes

Any number of nodes that run the receive loop towards each other, among other hosts that send them
whatever they like. A broadcast reaches every node, and comes back to the one that sent it. What
comes from elsewhere is a `Stray`: an outsider can send any bytes at any time, but not from the
socket address of a node.

Towards each of its peers a node runs the handshake of two peers, as a pass over a datagram of
anyone else leaves its record of the peer (`Setup.Fits.of_other`). So the receive loops of any two
of the nodes refine the handshake whatever the others send them (`Nodes.simulation`), and
`keys_agree_between` is what they inherit from it.

The one thing outsiders may not do is make a node write behind the session key of a record
(`Nodes.StrayInBounds`). What the nodes send each other never does (`Nodes.Started.inBounds`).
-/

set_option autoImplicit false
set_option relaxedAutoImplicit false

namespace Kapua

open Handshake (Message Session Choice progress)

variable {PKey Name : Type}

/-- Nodes behind different socket addresses that broadcast on `port`. -/
structure Nodes (Name : Type) where
  addr : Name → Sockaddr
  port : UInt16
  addr_inj : Function.Injective addr

namespace Nodes

/-- What a node takes in that is not from one of the nodes: `select` reports nothing, or a datagram
arrives from an address that none of them is behind. -/
inductive Stray (nodes : Nodes Name)
  | nothing
  | datagram (addr : Sockaddr) (bytes : Bytes) (haddr : ∀ name, addr ≠ nodes.addr name)

/-- The outcome of `select` and `recvfrom`. -/
def Stray.arrival {nodes : Nodes Name} : nodes.Stray → Arrival
  | .nothing => .nothing
  | .datagram addr bytes _ => .datagram addr bytes

variable (ssl : OpenSSL PKey) (nodes : Nodes Name)

/-- The receive loop of a node. Of what a pass sends, the sender of the datagram is handed what was
sent to its address. -/
def program : MeshProgram Name (LoopState PKey) Sent nodes.Stray (Draw PKey) where
  announce := fun _ s draw ↦ broadcast ssl s.core nodes.port draw
  receive := fun _ sender s out draw ↦
    (pass ssl s (.datagram (nodes.addr sender) out.bytes) draw).toOption.map fun result ↦
      (result.1, result.2.filter fun reply ↦ reply.addr = nodes.addr sender)
  outside := fun _ s stray draw ↦ (pass ssl s stray.arrival draw).toOption.map Prod.fst

/-- A node that takes in something from elsewhere writes no memory but its own. -/
def StrayInBounds (mesh : Mesh Name (LoopState PKey) Sent) :
    MeshAction Name nodes.Stray (Draw PKey) → Prop
  | .outside name stray draw => InBounds ssl (mesh.party name) (stray.arrival, draw)
  | .announce _ _ | .deliver _ _ _ _ _ | .lose _ _ _ => True

/-- The steps that the network allows, with draws that the nodes may make, in bounds as far as
something from elsewhere is taken in. -/
def Allowed [DecidableEq Name] (allows : Action Unit → Prop) (Good : Name → Draw PKey → Prop)
    (mesh : Mesh Name (LoopState PKey) Sent) (action : MeshAction Name nodes.Stray (Draw PKey))
    (next : Mesh Name (LoopState PKey) Sent) : Prop :=
  Mesh.Allowed (nodes.program ssl) allows Good mesh action next ∧
    nodes.StrayInBounds ssl mesh action

/-- Two of the nodes. -/
def peers (pairing : Pairing Name) : Peers where
  addr := fun side ↦ nodes.addr (pairing.name side)
  port := nodes.port
  addr_ne := fun side haddr ↦ pairing.name_ne side (nodes.addr_inj haddr)

/-- Nodes with empty node tables and different ids, and nothing in flight. -/
structure Started (mesh : Mesh Name (LoopState PKey) Sent) : Prop where
  empty : ∀ name, (mesh.party name).core.Empty
  inbox : ∀ receiver sender, mesh.inbox receiver sender = []
  log : ∀ receiver sender, mesh.log receiver sender = []
  id_inj : Function.Injective fun name ↦ (mesh.party name).core.myId

/-- Two of the nodes at the start. -/
theorem Started.between {mesh : Mesh Name (LoopState PKey) Sent} (h : Started mesh)
    (pairing : Pairing Name) : Kapua.Started (mesh.between pairing) where
  empty := fun side ↦ h.empty (pairing.name side)
  inbox := fun side ↦ h.inbox (pairing.name side) (pairing.name side.other)
  log := fun side ↦ h.log (pairing.name side) (pairing.name side.other)
  id_ne := fun side hid ↦ pairing.name_ne side (h.id_inj hid)

end Nodes

/-! ### What is not from the peer -/

/-- A node refuses its own broadcast. -/
theorem pass_own_broadcast (ssl : OpenSSL PKey) (s : LoopState PKey) (addr : Sockaddr)
    (storage : Memory) (toId : UInt64) (draw : Draw PKey) : ∃ next, pass ssl s (.datagram addr
      (Packet.construct storage .discovery s.core.myId toId).datagram) draw = .ok (next, []) ∧
      next.core = s.core := by
  have hheader := Packet.isHeader_construct storage .discovery s.core.myId toId
  have hfits : kapuaHeaderSize + (Packet.construct storage .discovery s.core.myId toId).length ≤
      kapuaMaxPacketSize := by
    rw [hheader.length]
    decide
  obtain ⟨hsize, hfront⟩ := sameFront_datagram s addr draw hfits
  have hlong := Nat.le_add_right kapuaHeaderSize
    (Packet.construct storage .discovery s.core.myId toId).length
  refine ⟨_, pass_of_rejected (recvfrom_datagram s addr _ draw) ?_, rfl⟩
  rw [screened, screen_plain ssl _ (Or.inl ((hfront.checkMagicValid_eq hlong).trans hheader.magic)),
    hsize, hfront.passesHeader_eq hlong]
  simp [passesHeader, hheader.fromId]

section Other

variable {ssl : OpenSSL PKey} {Matches : PKey → PKey → Prop} {setup : Setup PKey} {peers : Peers}
  {side : Side} {s next : LoopState PKey} {endpoint : Option (Session AESKey)} {draw : Draw PKey}
  {sent : List Sent}

/-- A pass over nothing, or over a datagram that is not from the peer, leaves the record of the
peer. -/
theorem Setup.Fits.of_other (hs : setup.Fits peers side s endpoint) {arrival : Arrival}
    (harrival : arrival = .nothing ∨ ∃ addr bytes, arrival = .datagram addr bytes ∧
      addr ≠ peers.addr side.other)
    (hpass : pass ssl s arrival draw = .ok (next, sent)) : setup.Fits peers side next endpoint := by
  have hpassing := passing_of_pass hpass
  obtain rfl | ⟨addr, bytes, rfl, hne⟩ := harrival
  · cases hpassing with
    | idle => exact hs
    | rejected hrecv => cases hrecv
    | known hrecv => cases hrecv
    | new hrecv => cases hrecv
  · have hrecord : peers.record side next = peers.record side s :=
      hpassing.peer_of_ne hs.wellFormed (recvfrom_datagram s addr bytes draw) (Ne.symm hne)
    exact ⟨hpassing.wellFormed hs.wellFormed, hpassing.myId_eq ▸ hs.id,
      hpassing.keys_eq.trans hs.keys, hrecord ▸ hs.record⟩

end Other

namespace Nodes

/-! ### What stays as it is -/

section Kept

variable {ssl : OpenSSL PKey} {nodes : Nodes Name} [DecidableEq Name]

/-- A node that has kept its id and its keys. -/
structure Keeps (start s : LoopState PKey) : Prop where
  wellFormed : s.core.WellFormed
  myId : s.core.myId = start.core.myId
  keys : s.core.keys = start.core.keys

omit [DecidableEq Name] in
/-- A pass leaves the id and the keys. -/
theorem Keeps.pass {start s next : LoopState PKey} (h : Keeps start s) {arrival : Arrival}
    {draw : Draw PKey} {sent : List Sent} (hpass : pass ssl s arrival draw = .ok (next, sent)) :
    Keeps start next where
  wellFormed := (passing_of_pass hpass).wellFormed h.wellFormed
  myId := (passing_of_pass hpass).myId_eq.trans h.myId
  keys := (passing_of_pass hpass).keys_eq.trans h.keys

/-- The nodes keep their ids and keys, and what is in flight from a node to itself is what it has
broadcast. -/
structure Kept (start mesh : Mesh Name (LoopState PKey) Sent) : Prop where
  party : ∀ name, Keeps (start.party name) (mesh.party name)
  own : ∀ name, ∀ out ∈ mesh.inbox name name, ∃ storage,
    out.bytes = (Packet.construct storage .discovery (start.party name).core.myId
      kapuaIdBroadcast).datagram

variable {start mesh next : Mesh Name (LoopState PKey) Sent} {Good : Name → Draw PKey → Prop}

variable (ssl nodes) in
omit [DecidableEq Name] in
/-- A node receives its own broadcast without an effect. -/
theorem Kept.receive_own (h : Kept start mesh) {name : Name} {out : Sent}
    (hout : out ∈ mesh.inbox name name) (draw : Draw PKey) : ∃ party,
      (nodes.program ssl).receive name name (mesh.party name) out draw = some (party, []) ∧
      party.core = (mesh.party name).core := by
  obtain ⟨storage, hbytes⟩ := h.own name out hout
  rw [← (h.party name).myId] at hbytes
  obtain ⟨party, hpass, hcore⟩ := pass_own_broadcast ssl (mesh.party name) (nodes.addr name)
    storage kapuaIdBroadcast draw
  refine ⟨party, ?_, hcore⟩
  simp [program, hbytes, hpass, Except.toOption]

variable (ssl) in
omit [DecidableEq Name] in
/-- A pass over a node's own broadcast is in bounds. -/
theorem Kept.inBounds_own (h : Kept start mesh) {name : Name} {out : Sent}
    (hout : out ∈ mesh.inbox name name) (s : LoopState PKey) (addr : Sockaddr) (draw : Draw PKey) :
    InBounds ssl s (.datagram addr out.bytes, draw) := by
  obtain ⟨storage, hbytes⟩ := h.own name out hout
  have hheader := Packet.isHeader_construct storage .discovery
    (start.party name).core.myId kapuaIdBroadcast
  rw [hbytes]
  refine inBounds_datagram ssl s addr draw ?_ (by simp [hheader.type])
  rw [hheader.length]
  decide

/-- One node makes a pass. -/
theorem Kept.update (h : Kept start mesh) {name : Name} {party : LoopState PKey}
    (hkeeps : Keeps (start.party name) party)
    (hparty : next.party = Function.update mesh.party name party)
    (hown : ∀ name, ∀ out ∈ next.inbox name name, out ∈ mesh.inbox name name) :
    Kept start next where
  party other := by
    rw [hparty]
    by_cases hother : other = name
    · subst hother
      rwa [Function.update_self]
    · rw [Function.update_of_ne hother]
      exact h.party other
  own name out hout := h.own name out (hown name out hout)

/-- Every step keeps the ids and the keys. -/
theorem Kept.step (h : Kept start mesh) {action : MeshAction Name nodes.Stray (Draw PKey)}
    (hstep : mesh.step (nodes.program ssl) action = some next) : Kept start next := by
  cases action with
  | announce name draw =>
    obtain rfl := Option.some.inj hstep
    refine ⟨h.party, fun other out hout ↦ ?_⟩
    obtain hold | hnew := List.mem_append.mp hout
    · exact h.own other out hold
    · split at hnew
      · rename_i hother
        subst hother
        obtain rfl := List.mem_singleton.mp hnew
        exact ⟨draw.pkt, by rw [← (h.party other).myId]⟩
      · cases hnew
  | deliver receiver sender index keep draw =>
    obtain ⟨out, party, replies, hout, hreceive, rfl⟩ := Mesh.exists_of_step_deliver hstep
    obtain ⟨⟨after, sent⟩, hpass, hresult⟩ := Option.map_eq_some_iff.mp hreceive
    obtain ⟨rfl, hreplies⟩ := Prod.mk.inj hresult
    refine h.update ((h.party receiver).pass (eq_ok_of_toOption hpass)) rfl fun name other hin ↦ ?_
    obtain hold | hnew := List.mem_append.mp hin
    · split at hold
      · rename_i hpair
        obtain ⟨rfl, rfl⟩ := hpair
        exact Host.mem_of_mem_remaining hold
      · exact hold
    · split at hnew
      · rename_i hpair
        obtain ⟨rfl, rfl⟩ := hpair
        -- nothing is sent for the node's own broadcast
        obtain ⟨party, hown, -⟩ := h.receive_own ssl nodes (List.mem_of_getElem? hout) draw
        cases hreceive.symm.trans hown
        cases hnew
      · cases hnew
  | outside name stray draw =>
    obtain ⟨party, hparty, hstep⟩ := Option.bind_eq_some_iff.mp hstep
    obtain rfl := Option.some.inj hstep
    obtain ⟨⟨after, sent⟩, hpass, rfl⟩ := Option.map_eq_some_iff.mp hparty
    exact h.update ((h.party name).pass (eq_ok_of_toOption hpass)) rfl fun _ _ hin ↦ hin
  | lose receiver sender index =>
    obtain ⟨-, hstep⟩ := Option.ite_none_right_eq_some.mp hstep
    obtain rfl := Option.some.inj hstep
    refine ⟨h.party, fun name out hin ↦ h.own name out ?_⟩
    dsimp only at hin
    split at hin
    · rename_i hpair
      obtain ⟨rfl, rfl⟩ := hpair
      exact List.mem_of_mem_eraseIdx hin
    · exact hin

/-- A run keeps the ids and the keys. -/
theorem Started.kept (hstart : Started start) {allows : Action Unit → Prop}
    {actions : List (MeshAction Name nodes.Stray (Draw PKey))}
    (hrun : Run (Mesh.Allowed (nodes.program ssl) allows Good) start actions mesh) :
    Kept start mesh := by
  refine hrun.invariant (Kept start) (fun h hstep ↦ h.step hstep.2.2)
    ⟨fun name ↦ ?_, fun name ↦ ?_⟩
  · exact ⟨(hstart.empty name).wellFormed, rfl, rfl⟩
  · simp [hstart.inbox]

end Kept

end Nodes

/-! ### Two of the nodes -/

namespace Nodes

variable {ssl : OpenSSL PKey} {Matches : PKey → PKey → Prop} {nodes : Nodes Name}

/-- The receive loops of two of the nodes refine the handshake, whatever they receive from others.
Assumes: those of two peers do, for choices among which are those under which every call
succeeds. -/
theorem simulation {setup : Setup PKey} (pairing : Pairing Name) {Good : Name → Draw PKey → Prop}
    {Good' : Side → Choice AESKey → Prop}
    {Enabled : Option (Session AESKey) → Message AESKey → Prop}
    (hpeers : Simulation ((nodes.peers pairing).program ssl) Handshake.protocol
      (fun side draw ↦ Good (pairing.name side) draw) Good' (setup.Fits (nodes.peers pairing))
      (setup.Encodes ssl) Enabled)
    (hworks : ∀ {side} {choice : Choice AESKey}, choice.Works → Good' side choice) :
    Simulation ((nodes.program ssl).between pairing) Handshake.protocol (pairing.Fits Good) Good'
      (setup.Fits (nodes.peers pairing)) (setup.Encodes ssl) Enabled := by
  constructor
  · intro side s endpoint draw hs hdraw
    exact hpeers.announce hs hdraw.1
  · rintro side s endpoint ⟨draw, interruption⟩ next hs ⟨-, hinterruption⟩ hinternal
    refine ⟨Setup.choiceOf draw true true true, endpoint, hworks ⟨rfl, rfl, rfl⟩, rfl, ?_⟩
    cases interruption with
    | none => cases hinternal
    | some interruption =>
      cases interruption with
      | message sender out =>
        have hsender : sender ≠ pairing.name side.other := hinterruption sender out rfl
        obtain ⟨result, hreceive, rfl⟩ := Option.map_eq_some_iff.mp hinternal
        obtain ⟨⟨after, sent⟩, hpass, rfl⟩ := Option.map_eq_some_iff.mp hreceive
        exact hs.of_other (.inr ⟨_, _, rfl, nodes.addr_inj.ne hsender⟩) (eq_ok_of_toOption hpass)
      | outside stray =>
        obtain ⟨⟨after, sent⟩, hpass, rfl⟩ := Option.map_eq_some_iff.mp hinternal
        refine hs.of_other ?_ (eq_ok_of_toOption hpass)
        cases stray with
        | nothing => exact .inl rfl
        | datagram addr bytes haddr => exact .inr ⟨addr, bytes, rfl, haddr _⟩
  · intro side s endpoint out message draw next replies hs hout hmessage hdraw hreceive
    exact hpeers.receive hs hout hmessage hdraw.1 hreceive

variable [DecidableEq Name] {start final : Mesh Name (LoopState PKey) Sent}
  {actions : List (MeshAction Name nodes.Stray (Draw PKey))}

/-- Actions that are possible one after another are a run. Assumes: the network allows each, and
what comes from elsewhere is in bounds whenever it comes. -/
theorem run_of_foldlM {allows : Action Unit → Prop} {Good : Name → Draw PKey → Prop}
    (hplay : actions.foldlM (Mesh.step (nodes.program ssl)) start = some final)
    (hallowed : ∀ action ∈ actions, action.Fits allows ∧ action.FitsDraws Good)
    (hbounds : ∀ action ∈ actions, ∀ mesh, nodes.StrayInBounds ssl mesh action) :
    Run (nodes.Allowed ssl allows Good) start actions final := by
  refine ((Mesh.run_of_foldlM hplay hallowed).restrict hbounds).mono ?_
  rintro mesh action next ⟨hstray, hstep⟩
  exact ⟨hstep, hstray mesh⟩

/-- Two of the nodes keep the invariants that the handshake has over a network that allows as much.
Assumes: decryption under other keys fails, and the leading bytes of encrypted datagrams are not
taken for a header. -/
theorem Started.exists_related (hstart : Started start) (htrips : ssl.RoundTrips Matches)
    (hothers : ssl.OtherKeysFail Matches) {allows : Action Unit → Prop}
    (hinternal : ∀ side, allows (.internal side ()))
    (hrun : Run (Mesh.Allowed (nodes.program ssl) allows fun _ draw ↦ Opaque draw.iv) start actions
      final) (pairing : Pairing Name)
    {Invariant : Host (Option (Session AESKey)) (Message AESKey) →
      Host (Option (Session AESKey)) (Message AESKey) → Prop}
    (hpreserved : Preserved Handshake.protocol allows (fun _ _ ↦ True) Invariant)
    (hbegin : Invariant Handshake.fresh Handshake.fresh) :
    ∃ final' : Network (Option (Session AESKey)) (Message AESKey),
      Simulation.Related (((hstart.between pairing).setup Opaque).Fits (nodes.peers pairing))
        (((hstart.between pairing).setup Opaque).Encodes ssl) (final.between pairing) final' ∧
        ∀ side, Invariant (final' side) (final' side.other) := by
  obtain ⟨actions', hrun'⟩ := between_run pairing hinternal hrun
  have hrelated : Simulation.Related
      (((hstart.between pairing).setup Opaque).Fits (nodes.peers pairing))
      (((hstart.between pairing).setup Opaque).Encodes ssl) (start.between pairing)
      fun _ ↦ Handshake.fresh :=
    (hstart.between pairing).related ssl (nodes.peers pairing) (fun _ ↦ rfl) fun _ ↦ rfl
  have hpeers : Simulation ((nodes.peers pairing).program ssl) Handshake.protocol
      (fun _ draw ↦ Opaque draw.iv) (fun _ _ ↦ True)
      (((hstart.between pairing).setup Opaque).Fits (nodes.peers pairing))
      (((hstart.between pairing).setup Opaque).Encodes ssl) (fun _ _ ↦ True) :=
    Setup.simulation htrips (fun _ (h : Opaque _) ↦ h.1) (fun h ↦ ⟨h, Or.inl hothers⟩)
      (fun _ _ ↦ trivial)
      (fun _ ↦ ⟨fun _ _ _ _ (h : Opaque _) ↦ h.2, fun _ _ _ ↦ Or.inr hothers⟩)
  exact (simulation pairing hpeers fun _ ↦ trivial).run_preserved hpreserved
    (fun _ _ _ ↦ trivial) hrun' hrelated fun _ ↦ hbegin

/-- What the nodes send each other is handled in bounds, whenever it arrives. -/
theorem Started.inBounds (hstart : Started start) (htrips : ssl.RoundTrips Matches)
    (hothers : ssl.OtherKeysFail Matches) {allows : Action Unit → Prop}
    (hinternal : ∀ side, allows (.internal side ()))
    (hrun : Run (Mesh.Allowed (nodes.program ssl) allows fun _ draw ↦ Opaque draw.iv) start actions
      final) {receiver sender : Name} {out : Sent} (hout : out ∈ final.inbox receiver sender)
    (draw : Draw PKey) :
    InBounds ssl (final.party receiver) (.datagram (nodes.addr sender) out.bytes, draw) := by
  by_cases hne : sender = receiver
  · subst hne
    exact (hstart.kept hrun).inBounds_own ssl hout _ _ draw
  · obtain ⟨final', hrelated, -⟩ := hstart.exists_related htrips hothers hinternal hrun
      (.ofNe hne) (preserved_true _ allows _) trivial
    have hin : out ∈ (final.between (.ofNe hne) .first).inbox := hout
    obtain ⟨message, -, hencodes⟩ := exists_mem_of_forall₂ (hrelated .first).inbox.flip hin
    exact hencodes.inBounds htrips (fun _ (h : Opaque _) ↦ h.1) (hrelated .first).party
      ⟨fun _ _ _ _ (h : Opaque _) ↦ h.2, fun _ _ _ ↦ Or.inr hothers⟩ (Or.inl hothers)

/-- Key agreement among many nodes: in every run in which no datagram from one node to another is
duplicated, and outsiders send whatever they like in bounds, a record that a node has of another is
connected only when the other has a record of the node that is in `checkEncryption` or connected,
and the session keys match in both directions. -/
theorem keys_agree_between (htrips : ssl.RoundTrips Matches) (hothers : ssl.OtherKeysFail Matches)
    (hstart : Started start)
    (hrun : Run (nodes.Allowed ssl Action.AtMostOnce fun _ draw ↦ Opaque draw.iv) start actions
      final) {name other : Name} (hne : other ≠ name) {node : Node PKey}
    (hnode : (final.party name).core.peer (nodes.addr other) = some node)
    (hconnected : node.state = .connected) :
    ∃ peer, (final.party other).core.peer (nodes.addr name) = some peer ∧
      (peer.state = .checkEncryption ∨ peer.state = .connected) ∧ node.KeysMatch peer := by
  let pairing : Pairing Name := .ofNe hne
  obtain ⟨final', hrelated, hagreed⟩ := hstart.exists_related htrips hothers (fun _ ↦ trivial)
    (hrun.mono And.left) pairing (Handshake.agreed_preserved _) Handshake.agreed_fresh
  have hfits := (hrelated .first).party
  have hpeerFits := (hrelated .second).party
  have hrecord : (nodes.peers pairing).record .first (final.party name) = some node := hnode
  have hplace : progress (final' .first).party = 5 :=
    (hfits.progress_iff .connected).mpr ⟨node, hrecord, hconnected⟩
  obtain ⟨hpeerPlace, hpeerKey, hkey⟩ := Handshake.agreed_keys (hagreed .first) hplace
  obtain ⟨peer, hpeer, hendpoint⟩ := hpeerFits.exists_record (by
    have hlate : 4 ≤ progress (final' .second).party := hpeerPlace
    omega)
  have hpeerPlace' : 4 ≤ progress (some peer.toSession) := hendpoint ▸ hpeerPlace
  refine ⟨peer, hpeer, encrypts_of_progress hpeerPlace', keysMatch_of_agree ?_ ?_⟩
  · rw [← hendpoint, ← hfits.endpoint_eq hrecord]
    exact hpeerKey
  · rw [← hendpoint, ← hfits.endpoint_eq hrecord]
    exact hkey

end Nodes

/-! ### Three nodes with the concrete cipher -/

/-- Nodes at the addresses 1:1, 2:2 and 3:3. -/
def taggedNodes : Nodes (Fin 3) where
  addr := fun name ↦ ⟨name.val.toUInt16 + 1, name.val.toUInt32 + 1⟩
  port := 0
  addr_inj := by
    unfold Function.Injective
    decide

/-- The nodes 5, 6 and 7, which hold the keys named 1, 2 and 3. -/
def taggedMesh : Mesh (Fin 3) (LoopState UInt8) Sent where
  party := fun name ↦ taggedStart (name.val.toUInt64 + 5) (name.val.toUInt8 + 1)
  inbox := fun _ _ ↦ []
  log := fun _ _ ↦ []

theorem started_taggedMesh : Nodes.Started taggedMesh where
  empty := fun _ ↦ empty_taggedStart _ _
  inbox := fun _ _ ↦ rfl
  log := fun _ _ ↦ rfl
  id_inj := by
    show ∀ name other : Fin 3, name.val.toUInt64 + 5 = other.val.toUInt64 + 5 → name = other
    decide

/-- A handshake of the first two nodes, while the third one begins one with either of them and an
outsider sends a request under the id of the second node. -/
def busyHandshake : List (MeshAction (Fin 3) taggedNodes.Stray (Draw UInt8)) :=
  let next (receiver sender : Fin 3) (byte : UInt8) :
      MeshAction (Fin 3) taggedNodes.Stray (Draw UInt8) :=
    .deliver receiver sender 0 false (taggedDraw byte)
  [.announce 0 (taggedDraw 0), .announce 2 (taggedDraw 0), next 1 2 0, next 0 2 0, next 1 0 0,
    .outside 0 (.datagram ⟨9, 9⟩ (taggedDatagram .publicKeyRequest 6 []) (by decide))
      (taggedDraw 0),
    next 0 1 0, next 1 0 0, next 2 1 0, next 1 0 8, next 0 1 7, next 0 1 0, next 1 0 0,
    next 1 2 0, next 1 0 0, next 0 1 0]

theorem busyHandshake_allowed : ∀ action ∈ busyHandshake, action.Fits Action.AtMostOnce ∧
    action.FitsDraws fun _ draw ↦ Opaque draw.iv := by
  simp [busyHandshake, MeshAction.Fits, MeshAction.FitsDraws, Action.AtMostOnce, opaque_taggedDraw]

/-- The request from outside makes no node write anything. -/
theorem busyHandshake_inBounds : ∀ action ∈ busyHandshake, ∀ mesh,
    taggedNodes.StrayInBounds tagged mesh action := by
  have hrequest : ∀ s draw, InBounds tagged s
      (.datagram ⟨9, 9⟩ (taggedDatagram .publicKeyRequest 6 []), draw) := by
    intro s draw
    let pkt : Packet := ((Packet.construct (fun _ ↦ 0) .publicKeyRequest 6
      kapuaIdBroadcast).writeData []).setLength 0
    have hpkt : kapuaHeaderSize + pkt.length ≤ kapuaMaxPacketSize ∧
        pkt.type = some .publicKeyRequest ∧
        taggedDatagram .publicKeyRequest 6 [] = pkt.datagram := by
      decide +kernel
    obtain ⟨hfits, htype, hbytes⟩ := hpkt
    rw [hbytes]
    exact inBounds_datagram tagged s _ draw hfits (by simp [htype])
  simp [busyHandshake, Nodes.StrayInBounds, Nodes.Stray.arrival, hrequest]

/-- `keys_agree_between` for the first two nodes. -/
theorem keys_agree_between_tagged : ∃ (final : Mesh (Fin 3) (LoopState UInt8) Sent)
    (node peer : Node UInt8), (final.party 0).core.peer (taggedNodes.addr 1) = some node ∧
    node.state = .connected ∧ (final.party 1).core.peer (taggedNodes.addr 0) = some peer ∧
    node.KeysMatch peer := by
  have hplayed : (busyHandshake.foldlM (Mesh.step (taggedNodes.program tagged)) taggedMesh).any
      (fun final ↦ ((final.party 0).core.peer (taggedNodes.addr 1)).any
        fun node ↦ decide (node.state = .connected)) = true := by
    decide +kernel
  obtain ⟨final, hplay, hcheck⟩ := (Option.any_eq_true _ _).mp hplayed
  obtain ⟨node, hnode, hconnected⟩ := (Option.any_eq_true _ _).mp hcheck
  have hrun := Nodes.run_of_foldlM hplay busyHandshake_allowed busyHandshake_inBounds
  obtain ⟨peer, hpeer, -, hkeys⟩ := Nodes.keys_agree_between tagged_roundTrips tagged_otherKeysFail
    started_taggedMesh hrun (by decide) hnode (of_decide_eq_true hconnected)
  exact ⟨final, node, peer, hnode, of_decide_eq_true hconnected, hpeer, hkeys⟩

end Kapua
