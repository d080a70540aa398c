import Kapua.Peers.Settling

/-!
# What the handshakes of many nodes reach lasts

Any number of nodes over links that deliver every datagram once and in order, while outsiders send
them whatever they like in bounds. A request takes the record of its sender back to `keyExchange`,
whatever its state is, and the handshake that follows replaces the session keys. But a node requests
the public key of another one only when it has no record of it, and over such links the request
arrives before anything that could take the other's record further (`Handshake.goesOn_of_run`). So
whatever is broadcast, delivered and sent from outside after some moment of a run, no record falls
back behind the state it is in at that moment, or loses the session keys of that state.
-/

set_option autoImplicit false
set_option relaxedAutoImplicit false

namespace Kapua

variable {PKey Name : Type}

/-- A later record of the same node: it has not fallen back, and has the session keys of the earlier
state. -/
structure Node.GoesOn (node later : Node PKey) : Prop where
  state : node.state ≤ later.state
  sends : .handshake ≤ node.state → later.aesContextTx = node.aesContextTx
  receives : .checkEncryption ≤ node.state → later.aesContextRx = node.aesContextRx

/-- A record goes on when its session does. -/
theorem Node.goesOn_of_session {node later : Node PKey}
    (h : Handshake.GoesOn (some node.toSession) (some later.toSession)) : node.GoesOn later where
  state := Nat.le_of_succ_le_succ h.place
  sends := fun hstate ↦ Option.some.inj (h.sends (Nat.succ_le_succ hstate))
  receives := fun hstate ↦ Option.some.inj (h.receives (Nat.succ_le_succ hstate))

/-- A connected record stays connected. -/
theorem Node.GoesOn.connected {node later : Node PKey} (h : node.GoesOn later)
    (hconnected : node.state = .connected) : later.state = .connected ∧
      later.aesContextTx = node.aesContextTx ∧ later.aesContextRx = node.aesContextRx := by
  have hstate : NodeState.connected ≤ later.state := hconnected ▸ h.state
  exact ⟨NodeState.connected_le.mp hstate, h.sends (by simp [hconnected]),
    h.receives (by simp [hconnected])⟩

namespace Nodes

variable {ssl : OpenSSL PKey} {Matches : PKey → PKey → Prop} {nodes : Nodes Name}
  [DecidableEq Name] {start mesh final : Mesh Name (LoopState PKey) Sent}
  {actions later : List (MeshAction Name nodes.Stray (Draw PKey))}

/-- The record that a node has of another one goes on. -/
theorem Started.goesOn (htrips : ssl.RoundTrips Matches) (hstart : Started start)
    (hservice : Serviceable ssl Matches start)
    (hrun : Run (Mesh.Allowed (nodes.program ssl) Action.Ordered (Draws ssl start)) start actions
      mesh)
    (hlater : Run (Mesh.Allowed (nodes.program ssl) Action.Ordered (Draws ssl start)) mesh later
      final) {name other : Name} (hne : other ≠ name) {node : Node PKey}
    (hnode : (mesh.party name).core.peer (nodes.addr other) = some node) :
    ∃ record, (final.party name).core.peer (nodes.addr other) = some record ∧
      node.GoesOn record := by
  obtain ⟨network, hrelated, hinv⟩ := hstart.exists_orderly htrips hservice (.ofNe hne) hrun
  obtain ⟨between, hbetween⟩ := between_run (.ofNe hne) (fun _ ↦ trivial) hlater
  -- the handshake goes on from where it is related to the nodes
  obtain ⟨sequel, network', hsequel, hrelated', -⟩ :=
    (hstart.simulation_ordered htrips hservice (.ofNe hne)).run
      (fun network ↦ ∀ side, Handshake.Orderly (network side) (network side.other))
      (fun horderly hstep ↦ Handshake.orderly_preserved.step hstep horderly)
      (fun horderly hallows hmessage ↦ understood_of_orderly (horderly _) hallows hmessage)
      hbetween hrelated fun side ↦ (hinv side).1
  have hgoesOn : Handshake.GoesOn (network .first).party (network' .first).party :=
    Handshake.goesOn_of_run (fun side ↦ (hinv side).1) hsequel .first
  have hendpoint : (network .first).party = some node.toSession :=
    (hrelated .first).party.endpoint_eq hnode
  have hknown : 1 ≤ Handshake.progress (network' .first).party := by
    have hplace := hgoesOn.place
    rw [hendpoint, Handshake.progress_some] at hplace
    omega
  obtain ⟨record, hrecord, hendpoint'⟩ := (hrelated' .first).party.exists_record hknown
  rw [hendpoint, hendpoint'] at hgoesOn
  exact ⟨record, hrecord, Node.goesOn_of_session hgoesOn⟩

/-- Sessions last. Over links that deliver every datagram once and in order, and whatever outsiders
send in bounds, let any moment of a run be followed by any other broadcasts, deliveries and
datagrams from outside: a record that a node has of another one does not fall back behind its state
at that moment, the session key it sends with stays from `handshake` on, and the one it receives
with from `checkEncryption` on. So nodes that are connected with matching session keys stay so. -/
theorem sessions_last (htrips : ssl.RoundTrips Matches) (hstart : Started start)
    (hservice : Serviceable ssl Matches start)
    (hrun : Run (nodes.Allowed ssl Action.Ordered (Draws ssl start)) start actions mesh)
    (hlater : Run (nodes.Allowed ssl Action.Ordered (Draws ssl start)) mesh later final)
    {name other : Name} (hne : other ≠ name) :
    (∀ node, (mesh.party name).core.peer (nodes.addr other) = some node →
      ∃ record, (final.party name).core.peer (nodes.addr other) = some record ∧
        node.GoesOn record) ∧
    (nodes.Joined mesh name other → nodes.Joined final name other) := by
  have hbefore := hrun.mono And.left
  have hafter := hlater.mono And.left
  refine ⟨fun node hnode ↦ hstart.goesOn htrips hservice hbefore hafter hne hnode, ?_⟩
  rintro ⟨node, peer, hnode, hstate, hpeer, hstate', hmatch⟩
  obtain ⟨record, hrecord, hgoesOn⟩ := hstart.goesOn htrips hservice hbefore hafter hne hnode
  obtain ⟨record', hrecord', hgoesOn'⟩ :=
    hstart.goesOn htrips hservice hbefore hafter hne.symm hpeer
  obtain ⟨hconnected, htx, hrx⟩ := hgoesOn.connected hstate
  obtain ⟨hconnected', htx', hrx'⟩ := hgoesOn'.connected hstate'
  refine ⟨record, record', hrecord, hconnected, hrecord', hconnected', ?_, ?_⟩
  · rw [htx, hrx', hmatch.1]
  · rw [htx', hrx, hmatch.2]

end Nodes

/-- Two nodes of `taggedMesh` have connected records of each other, with keys that match. -/
def joinedIn (mesh : Mesh (Fin 3) (LoopState UInt8) Sent) (name other : Fin 3) : Bool :=
  ((mesh.party name).core.peer (taggedNodes.addr other)).any fun node ↦
    ((mesh.party other).core.peer (taggedNodes.addr name)).any fun peer ↦
      decide (node.state = .connected ∧ peer.state = .connected ∧
        node.aesContextTx = peer.aesContextRx ∧ peer.aesContextTx = node.aesContextRx)

theorem joined_of_joinedIn {mesh : Mesh (Fin 3) (LoopState UInt8) Sent} {name other : Fin 3}
    (h : joinedIn mesh name other = true) : taggedNodes.Joined mesh name other := by
  obtain ⟨node, hnode, hrest⟩ := (Option.any_eq_true _ _).mp h
  obtain ⟨peer, hpeer, hboth⟩ := (Option.any_eq_true _ _).mp hrest
  obtain ⟨hstate, hstate', hmatch⟩ := of_decide_eq_true hboth
  exact ⟨node, peer, hnode, hstate, hpeer, hstate', hmatch⟩

/-- `sessions_last` for the first two nodes, which are connected after `busyHandshake`, when the
first steps of it are made once more: two broadcasts, and a request under the id of the second node
from outside. -/
theorem sessions_last_tagged : ∃ mesh final : Mesh (Fin 3) (LoopState UInt8) Sent,
    busyHandshake.foldlM (Mesh.step (taggedNodes.program tagged)) taggedMesh = some mesh ∧
    (busyHandshake.take 6).foldlM (Mesh.step (taggedNodes.program tagged)) mesh = some final ∧
    taggedNodes.Joined final 0 1 := by
  have hplayed : (busyHandshake.foldlM (Mesh.step (taggedNodes.program tagged)) taggedMesh).any
      (fun mesh ↦ joinedIn mesh 0 1 && ((busyHandshake.take 6).foldlM
        (Mesh.step (taggedNodes.program tagged)) mesh).isSome) = true := by
    decide +kernel
  obtain ⟨mesh, hplay, hcheck⟩ := (Option.any_eq_true _ _).mp hplayed
  obtain ⟨hjoined, hsequel⟩ := (Bool.and_eq_true _ _).mp hcheck
  obtain ⟨final, hlater⟩ := Option.isSome_iff_exists.mp hsequel
  have hrun := Nodes.run_of_foldlM hplay busyHandshake_ordered busyHandshake_inBounds
  have hlaterRun := Nodes.run_of_foldlM hlater
    (fun action h ↦ busyHandshake_ordered action (List.mem_of_mem_take h))
    fun action h ↦ busyHandshake_inBounds action (List.mem_of_mem_take h)
  obtain ⟨-, hlasts⟩ := Nodes.sessions_last tagged_roundTrips started_taggedMesh
    serviceable_taggedMesh hrun hlaterRun (show (1 : Fin 3) ≠ 0 by decide)
  exact ⟨mesh, final, hplay, hlater, hlasts (joined_of_joinedIn hjoined)⟩

end Kapua
