import Kapua.Node.LoopExceptions
import Kapua.Peers.Completion
import Kapua.Peers.ManyNodes

/-!
# How the handshakes of many nodes end

Any number of nodes over links that deliver every datagram once and in order, while outsiders send
them whatever they like in bounds. Whatever has happened, the datagrams in flight between the nodes
can be handed over one after another, in any order of the links, and only so many times (`settles`):
no pass over one of them throws (`Setup.Encodes.returns`), and each leaves less to do for the two
nodes (`work_lt`). When nothing is in flight any more, every two nodes of which one has sent a
discovery to the other are connected, with session keys that match.
-/

set_option autoImplicit false
set_option relaxedAutoImplicit false

namespace Kapua

open Handshake (Message Session Choice progress)

variable {PKey Name : Type} {ssl : OpenSSL PKey} {Matches : PKey → PKey → Prop}

/-! ### What nodes send each other -/

section Passes

variable {setup : Setup PKey} {peers : Peers} {side : Side} {s : LoopState PKey}
  {endpoint : Option (Session AESKey)} {out : Sent} {message : Message AESKey}

/-- A pass over a datagram of the peer returns. Assumes: the calls succeed, and the own public key
can be sent. -/
theorem Setup.Encodes.returns (htrips : ssl.RoundTrips Matches)
    (hmarked : ∀ iv, setup.leads iv → Unmarked iv)
    (hservice : Serviceable ssl Matches setup.keys) (hwritable : (setup.keys side).Writable ssl)
    (hout : setup.Encodes ssl side.other out message) (hs : setup.Fits peers side s endpoint)
    (hunderstood : setup.Understood ssl Matches endpoint message) (draw : Draw PKey) :
    ∃ after, pass ssl s (.datagram (peers.addr side.other) out.bytes) draw = .ok after := by
  cases hpass : pass ssl s (.datagram (peers.addr side.other) out.bytes) draw with
  | ok after => exact ⟨after, rfl⟩
  | error what =>
    obtain ⟨node, hpeer, hstate, hpasses, htype, hkey⟩ :=
      (pass_error_iff (hs.keys ▸ hwritable) _ _ _).mp ⟨what, hpass⟩
    have hplain := screened_of_unsealed ssl
      (arrivedDatagram s (peers.addr side.other) out.bytes draw) hpeer (by simp [hstate])
    obtain ⟨hrefused, -⟩ | ⟨-, hholds, -⟩ := hout.arrives draw htrips hmarked hs hunderstood
    · rw [hplain] at hrefused
      exact absurd (hpasses.symm.trans hrefused) (by simp)
    · rw [hplain] at hholds
      -- a reply of the peer carries its public key, which every node can decode
      have hreply : message = .reply := by
        have hpacket := hholds.type.symm.trans htype
        cases message <;> simp [Setup.packetType] at hpacket ⊢
      obtain ⟨publicKey, hpublic, hencoded⟩ := hholds.reply hreply
      obtain ⟨-, received, -, hreceived, -⟩ :=
        hservice.serves side.other publicKey _ hpublic hencoded
      exact absurd (hreceived.symm.trans hkey) (by simp)

end Passes

namespace Nodes

variable {nodes : Nodes Name}

/-- The cryptographic calls of the nodes succeed, and their public keys can be sent. -/
structure Serviceable (ssl : OpenSSL PKey) (Matches : PKey → PKey → Prop)
    (mesh : Mesh Name (LoopState PKey) Sent) : Prop where
  serves : ∀ name, (mesh.party name).core.keys.Serves ssl Matches
  writable : ∀ name, (mesh.party name).core.keys.Writable ssl
  seals : ∀ key iv plaintext, (ssl.aes256CbcEncrypt key iv plaintext).isSome

/-- The leading bytes are not taken for a header, and there is room for what is decrypted with the
key pair of the node. -/
def Draws (ssl : OpenSSL PKey) (start : Mesh Name (LoopState PKey) Sent) (name : Name)
    (draw : Draw PKey) : Prop :=
  Opaque draw.iv ∧ draw.Roomy ssl (start.party name).core.keys

/-- The place of the handshake that the record of a node has reached. -/
def rank (nodes : Nodes Name) (mesh : Mesh Name (LoopState PKey) Sent) (name peer : Name) : ℕ :=
  progress (((mesh.party name).core.peer (nodes.addr peer)).map Node.toSession)

/-- What two nodes have left to do: the datagrams in flight between them to be received, and the
places of the handshake to be reached, at each of which two more may be sent. -/
def work (nodes : Nodes Name) (mesh : Mesh Name (LoopState PKey) Sent) (name peer : Name) : ℕ :=
  (mesh.inbox name peer).length + (mesh.inbox peer name).length +
    3 * ((5 - nodes.rank mesh name peer) + (5 - nodes.rank mesh peer name))

/-- Two nodes have connected records of each other, with session keys that match in both
directions. -/
def Joined (nodes : Nodes Name) (mesh : Mesh Name (LoopState PKey) Sent) (name other : Name) :
    Prop :=
  ∃ node peer, (mesh.party name).core.peer (nodes.addr other) = some node ∧
    node.state = .connected ∧ (mesh.party other).core.peer (nodes.addr name) = some peer ∧
    peer.state = .connected ∧ node.KeysMatch peer

theorem work_comm (mesh : Mesh Name (LoopState PKey) Sent) (name peer : Name) :
    nodes.work mesh name peer = nodes.work mesh peer name := by
  simp only [work]
  omega

/-- What two nodes have left to do is what their endpoints have. -/
theorem work_eq {setup : Setup PKey} {mesh : Mesh Name (LoopState PKey) Sent}
    {pairing : Pairing Name} {network : Network (Option (Session AESKey)) (Message AESKey)}
    (hrelated : Simulation.Related (setup.Fits (nodes.peers pairing)) (setup.Encodes ssl)
      (mesh.between pairing) network) :
    nodes.work mesh (pairing.name .first) (pairing.name .second) =
      Handshake.work (network .first) (network .second) := by
  have hinbox : (mesh.inbox (pairing.name .first) (pairing.name .second)).length =
      (network .first).inbox.length := (hrelated .first).inbox.length_eq
  have hinbox' : (mesh.inbox (pairing.name .second) (pairing.name .first)).length =
      (network .second).inbox.length := (hrelated .second).inbox.length_eq
  have hrank : nodes.rank mesh (pairing.name .first) (pairing.name .second) =
      progress (network .first).party := congrArg progress (hrelated .first).party.record
  have hrank' : nodes.rank mesh (pairing.name .second) (pairing.name .first) =
      progress (network .second).party := congrArg progress (hrelated .second).party.record
  rw [work, Handshake.work, hinbox, hinbox', hrank, hrank']

variable [DecidableEq Name] {start mesh next : Mesh Name (LoopState PKey) Sent}

/-! ### Two of the nodes over ordered links -/

section Between

variable (htrips : ssl.RoundTrips Matches) (hstart : Started start)
  (hservice : Serviceable ssl Matches start) (pairing : Pairing Name)

include htrips hstart hservice

omit [DecidableEq Name] in
/-- The receive loops of two of the nodes refine the handshake over ordered links. -/
theorem Started.simulation_ordered :
    Simulation ((nodes.program ssl).between pairing) Handshake.protocol
      (pairing.Fits (Draws ssl start)) (fun _ choice ↦ choice.Works)
      (((hstart.between pairing).setup Opaque).Fits (nodes.peers pairing))
      (((hstart.between pairing).setup Opaque).Encodes ssl)
      (((hstart.between pairing).setup Opaque).Understood ssl Matches) := by
  have hcalls : Kapua.Serviceable ssl Matches ((hstart.between pairing).setup Opaque).keys :=
    ⟨fun side ↦ hservice.serves (pairing.name side), hservice.seals⟩
  have hpeers : Simulation ((nodes.peers pairing).program ssl) Handshake.protocol
      (fun side draw ↦ Draws ssl start (pairing.name side) draw) (fun _ choice ↦ choice.Works)
      (((hstart.between pairing).setup Opaque).Fits (nodes.peers pairing))
      (((hstart.between pairing).setup Opaque).Encodes ssl)
      (((hstart.between pairing).setup Opaque).Understood ssl Matches) :=
    Setup.simulation htrips (fun _ (h : Opaque _) ↦ h.1)
      (fun h ↦ ⟨h.1, Or.inr ⟨hcalls, h.2⟩⟩) (fun h hworks ↦ hworks ⟨hcalls, h.2⟩) fun h ↦ h
  exact simulation pairing hpeers fun hworks ↦ hworks

variable {actions : List (MeshAction Name nodes.Stray (Draw PKey))}
  (hrun : Run (Mesh.Allowed (nodes.program ssl) Action.Ordered (Draws ssl start)) start actions
    mesh)

include hrun

/-- Two of the nodes keep the order of the handshake. -/
theorem Started.exists_orderly :
    ∃ network : Network (Option (Session AESKey)) (Message AESKey),
      Simulation.Related (((hstart.between pairing).setup Opaque).Fits (nodes.peers pairing))
        (((hstart.between pairing).setup Opaque).Encodes ssl) (mesh.between pairing) network ∧
      ∀ side, Handshake.Orderly (network side) (network side.other) ∧
        Handshake.Discovers (network side) (network side.other) := by
  obtain ⟨actions', hrun'⟩ := between_run pairing (fun _ ↦ trivial) hrun
  have hrelated : Simulation.Related
      (((hstart.between pairing).setup Opaque).Fits (nodes.peers pairing))
      (((hstart.between pairing).setup Opaque).Encodes ssl) (start.between pairing)
      fun _ ↦ Handshake.fresh :=
    (hstart.between pairing).related ssl (nodes.peers pairing) (fun _ ↦ rfl) fun _ ↦ rfl
  exact (hstart.simulation_ordered htrips hservice pairing).run_preserved
    (Handshake.orderly_preserved.and (Handshake.discovers_preserved _ _))
    (fun h hallows hmessage ↦ understood_of_orderly h.1 hallows hmessage) hrun' hrelated
    fun _ ↦ ⟨Handshake.orderly_fresh, Handshake.discovers_fresh⟩

/-- The next datagram of another node encodes a message that the node understands. -/
theorem Started.next_understood {receiver sender : Name} (hne : sender ≠ receiver) {out : Sent}
    {rest : List Sent} (hinbox : mesh.inbox receiver sender = out :: rest) :
    ∃ endpoint message, ((hstart.between (.ofNe hne)).setup Opaque).Fits (nodes.peers (.ofNe hne))
        .first (mesh.party receiver) endpoint ∧
      ((hstart.between (.ofNe hne)).setup Opaque).Encodes ssl .second out message ∧
      ((hstart.between (.ofNe hne)).setup Opaque).Understood ssl Matches endpoint message := by
  obtain ⟨network, hrelated, hinv⟩ := hstart.exists_orderly htrips hservice (.ofNe hne) hrun
  have hhead : (mesh.between (.ofNe hne) .first).inbox[0]? = some out := by
    show (mesh.inbox receiver sender)[0]? = some out
    rw [hinbox]
    rfl
  obtain ⟨message, hmessage, hencodes⟩ := exists_of_forall₂ (hrelated .first).inbox hhead
  have hordered : Action.Ordered (.deliver .first 0 false ()) := ⟨rfl, rfl⟩
  exact ⟨_, message, (hrelated .first).party, hencodes,
    understood_of_orderly (hinv .first).1 hordered hmessage⟩

/-- A node receives the next datagram of another one. -/
theorem Started.receives {receiver sender : Name} (hne : sender ≠ receiver) {out : Sent}
    {rest : List Sent} (hinbox : mesh.inbox receiver sender = out :: rest) (draw : Draw PKey) :
    ∃ result, (nodes.program ssl).receive receiver sender (mesh.party receiver) out draw =
      some result := by
  obtain ⟨endpoint, message, hfits, hencodes, hunderstood⟩ :=
    hstart.next_understood htrips hservice hrun hne hinbox
  obtain ⟨after, hpass⟩ := hencodes.returns htrips (fun _ (h : Opaque _) ↦ h.1)
    ⟨fun side ↦ hservice.serves (Pairing.name (.ofNe hne) side), hservice.seals⟩
    (hservice.writable receiver) hfits hunderstood draw
  have hpass' : pass ssl (mesh.party receiver) (.datagram (nodes.addr sender) out.bytes) draw =
      .ok after := hpass
  simp [program, hpass', Except.toOption]

/-- A node receives the next datagram of another one in bounds. -/
theorem Started.inBounds_next {receiver sender : Name} (hne : sender ≠ receiver) {out : Sent}
    {rest : List Sent} (hinbox : mesh.inbox receiver sender = out :: rest) {draw : Draw PKey}
    (hdraw : Draws ssl start receiver draw) :
    InBounds ssl (mesh.party receiver) (.datagram (nodes.addr sender) out.bytes, draw) := by
  obtain ⟨endpoint, message, hfits, hencodes, hunderstood⟩ :=
    hstart.next_understood htrips hservice hrun hne hinbox
  exact hencodes.inBounds htrips (fun _ (h : Opaque _) ↦ h.1) hfits hunderstood
    (Or.inr ⟨⟨fun side ↦ hservice.serves (Pairing.name (.ofNe hne) side), hservice.seals⟩, hdraw.2⟩)

/-- Receiving the next datagram leaves less to do for the two nodes. -/
theorem Started.work_lt {receiver sender : Name} (hne : sender ≠ receiver) {draw : Draw PKey}
    (hdraw : Draws ssl start receiver draw)
    (hstep : mesh.step (nodes.program ssl) (.deliver receiver sender 0 false draw) = some next) :
    nodes.work next receiver sender < nodes.work mesh receiver sender := by
  obtain ⟨network, hrelated, hinv⟩ := hstart.exists_orderly htrips hservice (.ofNe hne) hrun
  have hfirst : Network.step ((nodes.program ssl).between (.ofNe hne)) (mesh.between (.ofNe hne))
      (.deliver .first 0 false (draw, none)) = some (next.between (.ofNe hne)) :=
    between_deliver (.ofNe hne) hstep
  let choice : Draw PKey × Option (Interruption Name Sent nodes.Stray) := (draw, none)
  have hgood : (Action.deliver .first 0 false choice).FitsDraws
      (Pairing.Fits (.ofNe hne) (Draws ssl start)) := ⟨hdraw, by simp [choice]⟩
  obtain ⟨action', network', hshape, -, hstep', hrelated'⟩ :=
    (hstart.simulation_ordered htrips hservice (.ofNe hne)).step hgood hfirst hrelated
      fun hdeliver hmessage ↦ by
        obtain ⟨rfl, rfl, rfl, -⟩ := Action.deliver.inj hdeliver
        have hordered : Action.Ordered (.deliver .first 0 false ()) := ⟨rfl, rfl⟩
        exact understood_of_orderly (hinv .first).1 hordered hmessage
  have hbefore : nodes.work mesh receiver sender =
      Handshake.work (network .first) (network .second) := work_eq hrelated
  have hafter : nodes.work next receiver sender =
      Handshake.work (network' .first) (network' .second) := work_eq hrelated'
  rw [hbefore, hafter]
  cases action' with
  | deliver side index keep choice =>
    obtain ⟨rfl, rfl, rfl, -⟩ := Action.deliver.inj hshape
    obtain ⟨side, draw, heq, -⟩ | ⟨side, draw, party, heq, -⟩ |
      ⟨side, index, keep, choice', message, party, replies, heq, hmessage, hreceive, rfl⟩ |
      ⟨side, index, heq, -⟩ := Network.step_cases hstep'
    · cases heq
    · cases heq
    · cases heq
      obtain ⟨rfl, rfl⟩ := Prod.mk.inj (Option.some.inj hreceive)
      exact (hinv .first).1.work_deliver hmessage choice
    · cases heq
  | announce _ _ | internal _ _ | lose _ _ => cases hshape

/-- The handshake of two nodes is complete when nothing is in flight between them. Assumes: one of
them has received a discovery of the other. -/
theorem Started.connected {name other : Name} (hne : other ≠ name)
    (hinbox : mesh.inbox name other = []) (hinbox' : mesh.inbox other name = [])
    (hdiscovered : ∃ entry ∈ mesh.log name other, entry.2.packet.type = some .discovery) :
    nodes.Joined mesh name other := by
  obtain ⟨network, hrelated, hinv⟩ := hstart.exists_orderly htrips hservice (.ofNe hne) hrun
  have hquiet : Handshake.Quiet (network .first).inbox :=
    quiet_of_forall (hrelated .first).inbox fun out hout ↦ by
      have hmem : out ∈ mesh.inbox name other := hout
      simp [hinbox] at hmem
  have hquiet' : Handshake.Quiet (network .second).inbox :=
    quiet_of_forall (hrelated .second).inbox fun out hout ↦ by
      have hmem : out ∈ mesh.inbox other name := hout
      simp [hinbox'] at hmem
  obtain ⟨horderly, hdiscovers⟩ := hinv .first
  have hknown := hdiscovers.1 (exists_discovery (hrelated .first) hdiscovered)
  obtain ⟨hplace, hplace'⟩ := horderly.connected hquiet hquiet' (Or.inl hknown)
  obtain ⟨node, hnode, hstate⟩ := ((hrelated .first).party.progress_iff .connected).mp hplace
  obtain ⟨peer, hpeer, hstate'⟩ := ((hrelated .second).party.progress_iff .connected).mp hplace'
  obtain ⟨-, hpeerKey, hkey⟩ := Handshake.agreed_keys horderly.1 hplace
  refine ⟨node, peer, hnode, hstate, hpeer, hstate', keysMatch_of_agree ?_ ?_⟩
  · rw [← (hrelated .second).party.endpoint_eq hpeer, ← (hrelated .first).party.endpoint_eq hnode]
    exact hpeerKey
  · rw [← (hrelated .second).party.endpoint_eq hpeer, ← (hrelated .first).party.endpoint_eq hnode]
    exact hkey

end Between

/-! ### The other nodes -/

section Others

variable {receiver sender : Name} {draw : Draw PKey}
  (hstep : mesh.step (nodes.program ssl) (.deliver receiver sender 0 false draw) = some next)

include hstep

/-- A datagram that is received leaves all records but that of its sender. -/
theorem rank_of_others (hwellFormed : (mesh.party receiver).core.WellFormed) {name peer : Name}
    (hpair : ¬ (name = receiver ∧ peer = sender)) :
    nodes.rank next name peer = nodes.rank mesh name peer := by
  obtain ⟨out, rest, party, replies, -, hreceive, rfl⟩ := Mesh.exists_of_deliver hstep
  obtain ⟨⟨after, sent⟩, hpass, hresult⟩ := Option.map_eq_some_iff.mp hreceive
  obtain ⟨rfl, -⟩ := Prod.mk.inj hresult
  by_cases hname : name = receiver
  · subst hname
    have hne : nodes.addr peer ≠ nodes.addr sender :=
      nodes.addr_inj.ne fun hpeer ↦ hpair ⟨rfl, hpeer⟩
    have hpeer := (passing_of_pass (eq_ok_of_toOption hpass)).peer_of_ne hwellFormed
      (recvfrom_datagram _ _ _ _) hne
    simp only [rank, Mesh.deliver, Function.update_self, hpeer]
  · simp only [rank, Mesh.deliver, Function.update_of_ne hname]

omit hstep in
/-- What is in flight between others is left. -/
theorem inbox_of_others {index : ℕ} {keep : Bool} {out : Sent} {party : LoopState PKey}
    {replies : List Sent} {name peer : Name} (hpair : ¬ (name = receiver ∧ peer = sender))
    (hpair' : ¬ (name = sender ∧ peer = receiver)) :
    (mesh.deliver receiver sender index keep out party replies).inbox name peer =
      mesh.inbox name peer := by
  simp [Mesh.deliver, hpair, hpair']

/-- What other nodes have left to do with each other is left. -/
theorem work_of_others (hwellFormed : (mesh.party receiver).core.WellFormed) {name peer : Name}
    (hpair : ¬ (name = receiver ∧ peer = sender)) (hpair' : ¬ (name = sender ∧ peer = receiver)) :
    nodes.work next name peer = nodes.work mesh name peer := by
  have hrank := rank_of_others hstep hwellFormed hpair
  have hrank' : nodes.rank next peer name = nodes.rank mesh peer name :=
    rank_of_others hstep hwellFormed fun ⟨hpeer, hname⟩ ↦ hpair' ⟨hname, hpeer⟩
  obtain ⟨out, rest, party, replies, -, -, rfl⟩ := Mesh.exists_of_deliver hstep
  rw [work, work, hrank, hrank', inbox_of_others hpair hpair',
    inbox_of_others (fun ⟨hpeer, hname⟩ ↦ hpair' ⟨hname, hpeer⟩)
      fun ⟨hpeer, hname⟩ ↦ hpair ⟨hname, hpeer⟩]

end Others

/-- A node that receives its own broadcast has less to do with itself. -/
theorem Kept.work_lt_own (h : Kept start mesh) {name : Name} {draw : Draw PKey}
    (hstep : mesh.step (nodes.program ssl) (.deliver name name 0 false draw) = some next) :
    nodes.work next name name < nodes.work mesh name name := by
  obtain ⟨out, rest, party, replies, hinbox, hreceive, rfl⟩ := Mesh.exists_of_deliver hstep
  obtain ⟨party, hown, hcore⟩ := h.receive_own ssl nodes (hinbox ▸ List.mem_cons_self ..) draw
  cases hreceive.symm.trans hown
  have hrank : nodes.rank (mesh.deliver name name 0 false out party []) name name =
      nodes.rank mesh name name := by
    simp only [rank, Mesh.deliver, Function.update_self, hcore]
  have hlength : ((mesh.deliver name name 0 false out party []).inbox name name).length + 1 =
      (mesh.inbox name name).length := by
    simp [Mesh.deliver, Mesh.host, Host.remaining, hinbox]
  rw [work, work, hrank]
  omega

/-! ### The end of the handshakes -/

/-- Nodes over ordered links settle. -/
def settling (htrips : ssl.RoundTrips Matches) (hstart : Started start)
    (hservice : Serviceable ssl Matches start) :
    Settling (nodes.program ssl) (Draws ssl start) where
  Reachable mesh := ∃ actions, Run (Mesh.Allowed (nodes.program ssl) Action.Ordered
    (Draws ssl start)) start actions mesh
  work mesh name peer := nodes.work mesh name peer
  step := by
    rintro mesh next action ⟨actions, hrun⟩ hstep
    exact ⟨actions ++ [action], hrun.append (.cons hstep (.nil next))⟩
  receives := by
    rintro mesh receiver sender out rest draw ⟨actions, hrun⟩ hinbox -
    by_cases hne : sender = receiver
    · subst hne
      obtain ⟨party, hown, -⟩ :=
        (hstart.kept hrun).receive_own ssl nodes (hinbox ▸ List.mem_cons_self ..) draw
      exact ⟨_, hown⟩
    · exact hstart.receives htrips hservice hrun hne hinbox draw
  decreases := by
    rintro mesh next receiver sender draw ⟨actions, hrun⟩ hdraw hstep
    have hkept : Kept start mesh := hstart.kept hrun
    have hless : nodes.work next receiver sender < nodes.work mesh receiver sender := by
      by_cases hne : sender = receiver
      · subst hne
        exact hkept.work_lt_own hstep
      · exact hstart.work_lt htrips hservice hrun hne hdraw hstep
    refine ⟨hless, fun name peer ↦ ?_⟩
    by_cases hpair : name = receiver ∧ peer = sender
    · obtain ⟨rfl, rfl⟩ := hpair
      exact hless.le
    · by_cases hpair' : name = sender ∧ peer = receiver
      · obtain ⟨rfl, rfl⟩ := hpair'
        rw [work_comm next, work_comm mesh]
        exact hless.le
      · exact (work_of_others hstep (hkept.party receiver).wellFormed hpair hpair').le

/-- Random bytes that are all ones, and storage that is all zeros. -/
def plainDraw (len : ℕ) : Draw PKey where
  sessionKey := ⟨Vector.replicate 32 1⟩
  iv := Vector.replicate 32 1
  padding := 0
  len := len
  now := 0
  node := ⟨⟨0, 0⟩, 0, .initialised, ⟨none, none⟩, ⟨Vector.replicate 32 0⟩,
    ⟨Vector.replicate 32 0⟩, 0⟩
  pkt := fun _ ↦ 0
  rpkPkt := fun _ ↦ 0
  reply := fun _ ↦ 0
  behind := fun _ ↦ 0
  sendto := fun bytes ↦ bytes.length

omit [DecidableEq Name] in
/-- Every node has a draw that it may make. -/
theorem exists_draws (ssl : OpenSSL PKey) (start : Mesh Name (LoopState PKey) Sent) (name : Name) :
    ∃ draw, Draws ssl start name draw := by
  have hopaque : Opaque (Vector.replicate 32 1) := by
    unfold Opaque Unmarked Unversioned
    decide
  cases hprivate : (start.party name).core.keys.privateKey with
  | none => exact ⟨plainDraw 0, hopaque, by simp [Draw.Roomy, hprivate]⟩
  | some key =>
    exact ⟨plainDraw (ssl.evpPkeySize key), hopaque, by simp [Draw.Roomy, hprivate, plainDraw]⟩

/-- The handshakes of many nodes end, and end well. Over links that deliver every datagram once and
in order, after any broadcasts, deliveries and datagrams from outside that are handled in bounds,
the datagrams in flight can be handed over until there is none. In whatever order this is done, it
takes at most as many steps as there is work left, it never gets stuck or out of bounds, and when
nothing is in flight any more, every two nodes of which one had sent a discovery to the other are
connected, with session keys that match. -/
theorem settles [Fintype Name] {actions : List (MeshAction Name nodes.Stray (Draw PKey))}
    (htrips : ssl.RoundTrips Matches) (hstart : Started start)
    (hservice : Serviceable ssl Matches start)
    (hrun : Run (nodes.Allowed ssl Action.Ordered (Draws ssl start)) start actions mesh) :
    (∃ later final, Run (Mesh.Allowed (nodes.program ssl) Action.Ordered (Draws ssl start)) mesh
      later final ∧ (∀ action ∈ later, action.IsDelivery) ∧ final.Settled) ∧
    ∀ later final, Run (Mesh.Allowed (nodes.program ssl) Action.Ordered (Draws ssl start)) mesh
      later final → (∀ action ∈ later, action.IsDelivery) →
      later.length ≤ ∑ pair : Name × Name, nodes.work mesh pair.1 pair.2 ∧
      (∀ receiver sender out rest draw, final.inbox receiver sender = out :: rest →
        Draws ssl start receiver draw →
        InBounds ssl (final.party receiver) (.datagram (nodes.addr sender) out.bytes, draw) ∧
        ∃ next, final.step (nodes.program ssl) (.deliver receiver sender 0 false draw) =
          some next) ∧
      (final.Settled → ∀ name other, other ≠ name →
        (∃ out ∈ mesh.sent name other, out.packet.type = some .discovery) →
        nodes.Joined final name other) := by
  let settling : Settling (nodes.program ssl) (Draws ssl start) :=
    Nodes.settling htrips hstart hservice
  have hplain := hrun.mono And.left
  have hreached : settling.Reachable mesh := ⟨actions, hplain⟩
  refine ⟨?_, fun later final hlater hdeliveries ↦ ⟨?_, ?_, ?_⟩⟩
  · choose draw hdraw using exists_draws ssl start
    exact settling.exists_settled draw hdraw hreached
  · have hlength : later.length + settling.total final ≤ settling.total mesh :=
      settling.length_le hreached hlater hdeliveries
    exact (Nat.le_add_right _ _).trans hlength
  · intro receiver sender out rest draw hinbox hdraw
    constructor
    · by_cases hne : sender = receiver
      · subst hne
        exact (hstart.kept (hplain.append hlater)).inBounds_own ssl
          (hinbox ▸ List.mem_cons_self ..) _ _ draw
      · exact hstart.inBounds_next htrips hservice (hplain.append hlater) hne hinbox hdraw
    · obtain ⟨⟨party, replies⟩, hreceive⟩ :=
        settling.receives ⟨actions ++ later, hplain.append hlater⟩ hinbox hdraw
      exact ⟨_, by simp [Mesh.step, hinbox, hreceive]; rfl⟩
  · rintro hsettled name other hne ⟨out, hout, htype⟩
    obtain ⟨entry, hentry, rfl⟩ : ∃ entry ∈ final.log name other, entry.2 = out := by
      have hsent := (Mesh.sent_isPrefix_of_run hlater name other).subset hout
      simpa [Mesh.sent, hsettled name other] using hsent
    exact hstart.connected htrips hservice (hplain.append hlater) hne (hsettled name other)
      (hsettled other name) ⟨entry, hentry, htype⟩

end Nodes

/-- The nodes of `taggedMesh` have key pairs that the others can use. -/
theorem serviceable_taggedMesh : Nodes.Serviceable tagged Eq taggedMesh where
  serves _ := serves_tagged _
  writable _ := writable_tagged _ _
  seals _ _ _ := rfl

/-- A node has sent a discovery to another. -/
def sentDiscovery (mesh : Mesh (Fin 3) (LoopState UInt8) Sent) (pair : Fin 3 × Fin 3) : Bool :=
  (mesh.sent pair.1 pair.2).any fun out ↦ out.packet.type = some .discovery

theorem busyHandshake_ordered : ∀ action ∈ busyHandshake, action.Fits Action.Ordered ∧
    action.FitsDraws (Nodes.Draws tagged taggedMesh) := by
  simp [busyHandshake, MeshAction.Fits, MeshAction.FitsDraws, Action.Ordered, Nodes.Draws,
    opaque_taggedDraw, roomy_taggedDraw]

/-- `settles` after two nodes have broadcast and one of the broadcasts has arrived: in the end all
three nodes are connected. -/
theorem settles_tagged : ∃ final : Mesh (Fin 3) (LoopState UInt8) Sent, final.Settled ∧
    taggedNodes.Joined final 1 0 ∧ taggedNodes.Joined final 2 0 ∧ taggedNodes.Joined final 1 2 := by
  have hplayed : ((busyHandshake.take 3).foldlM (Mesh.step (taggedNodes.program tagged))
      taggedMesh).any (fun mesh ↦ [(1, 0), (2, 0), (1, 2)].all (sentDiscovery mesh)) = true := by
    decide +kernel
  obtain ⟨mesh, hplay, hcheck⟩ := (Option.any_eq_true _ _).mp hplayed
  have hrun := Nodes.run_of_foldlM hplay
    (fun action h ↦ busyHandshake_ordered action (List.mem_of_mem_take h))
    fun action h ↦ busyHandshake_inBounds action (List.mem_of_mem_take h)
  obtain ⟨⟨later, final, hlater, hdeliveries, hsettled⟩, hends⟩ := Nodes.settles tagged_roundTrips
    started_taggedMesh serviceable_taggedMesh hrun
  obtain ⟨-, -, hjoined⟩ := hends later final hlater hdeliveries
  have hdiscovery : ∀ pair ∈ [(1, 0), (2, 0), (1, 2)],
      ∃ out ∈ mesh.sent pair.1 pair.2, out.packet.type = some .discovery := fun pair hpair ↦ by
    have hsent : sentDiscovery mesh pair = true := List.all_eq_true.mp hcheck pair hpair
    simpa [sentDiscovery] using hsent
  exact ⟨final, hsettled, hjoined hsettled 1 0 (by decide) (hdiscovery (1, 0) (by simp)),
    hjoined hsettled 2 0 (by decide) (hdiscovery (2, 0) (by simp)),
    hjoined hsettled 1 2 (by decide) (hdiscovery (1, 2) (by simp))⟩

end Kapua
