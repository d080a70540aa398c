import Kapua.Handshake.ArrivalOrder
import Kapua.Handshake.OrderedLinks
import Kapua.Peers.Refinement
import Kapua.Peers.TaggedPeers

/-!
# Whether the handshake of two peers completes

Two results for networks that deliver every datagram once. If each direction also keeps the order,
the next datagram is always one that the record's state waits for (`next_awaited`), so no state
check of `_process_packet` ever drops one. In any other order a datagram can come too early and is
dropped for good. `connected_iff_inTime` says that this is all that can go wrong: with nothing in
flight, both records are connected exactly when every datagram came in time.
-/

set_option autoImplicit false
set_option relaxedAutoImplicit false

namespace Kapua

open Handshake (Message Session Choice progress)

variable {PKey : Type} {ssl : OpenSSL PKey} {Matches : PKey → PKey → Prop} {peers : Peers}
  {start final : Network (LoopState PKey) Sent} {actions : List (Action (Draw PKey))}

/-! ### Ordered links -/

/-- The state checks of `_process_packet` let the datagram through, and a record that waits for an
encrypted one can decrypt it. -/
structure Peers.Awaits (ssl : OpenSSL PKey) (peers : Peers) (side : Side) (s : LoopState PKey)
    (out : Sent) : Prop where
  reply : out.packet.type = some .publicKeyReply → peers.InState side s .keyExchange
  context : out.packet.type = some .encryptionContext → peers.InState side s .handshake
  ready : out.packet.type = some .ready → ∃ node ∈ peers.record side s,
    node.state = .checkEncryption ∧
      aesDecrypt ssl node.aesContextRx out.bytes = some out.packet.datagram

/-- An encrypted datagram is decrypted with the session key it was encrypted with. -/
theorem Setup.Encodes.decrypted {setup : Setup PKey} (htrips : ssl.RoundTrips Matches) {side : Side}
    {out : Sent} {key : AESKey} (h : setup.Encodes ssl side.other out (.ready key)) :
    aesDecrypt ssl key out.bytes = some out.packet.datagram := by
  obtain ⟨iv, ciphertext, -, -, hbytes, hencrypt, -, -⟩ := h.sealed htrips
  rw [aesDecrypt, hbytes, List.take_append_of_le_length (by simp),
    List.drop_append_of_le_length (by simp), List.drop_of_length_le (by simp), List.nil_append]
  exact htrips.aes_undo hencrypt

/-- The next message of an ordered link is understood. -/
theorem understood_of_orderly {setup : Setup PKey} {side : Side} {index : ℕ} {keep : Bool}
    {host peer : Host (Option (Session AESKey)) (Message AESKey)} {message : Message AESKey}
    (h : Handshake.Orderly host peer) (hallows : Action.Ordered (.deliver side index keep ()))
    (hmessage : host.inbox[index]? = some message) :
    setup.Understood ssl Matches host.party message := by
  obtain ⟨rfl, -⟩ : index = 0 ∧ keep = false := hallows
  obtain ⟨rest, hinbox⟩ := Handshake.exists_inbox_of_head hmessage
  obtain ⟨-, -, -, hready⟩ := h.awaited hinbox
  exact ⟨fun key heq hearly ↦ absurd (hready key heq).1 hearly.ne,
    fun key heq _ ↦ Or.inl (hready key heq).2⟩

/-- Over ordered links, in every run, the next datagram is one the receiver waits for. -/
theorem next_awaited (htrips : ssl.RoundTrips Matches) (hstart : Started start)
    (hservice : Serviceable ssl Matches fun side ↦ (start side).party.core.keys)
    (hrun : Run (Network.Allowed (peers.program ssl) Action.Ordered fun side draw ↦
      Unmarked draw.iv ∧ draw.Roomy ssl (start side).party.core.keys) start actions final)
    (side : Side) {out : Sent} {rest : List Sent} (hinbox : (final side).inbox = out :: rest) :
    peers.Awaits ssl side (final side).party out := by
  have hsimulation : Simulation (peers.program ssl) Handshake.protocol
      (fun side draw ↦ Unmarked draw.iv ∧ draw.Roomy ssl (start side).party.core.keys)
      (fun _ choice ↦ choice.Works) ((hstart.setup Unmarked).Fits peers)
      ((hstart.setup Unmarked).Encodes ssl)
      ((hstart.setup Unmarked).Understood ssl Matches) :=
    Setup.simulation htrips (fun _ h ↦ h) (fun h ↦ ⟨h.1, Or.inr ⟨hservice, h.2⟩⟩)
      (fun h hworks ↦ hworks ⟨hservice, h.2⟩) (fun h ↦ h)
  obtain ⟨final', hrelated, horderly⟩ := hsimulation.run_preserved Handshake.orderly_preserved
    (fun h hallows hmessage ↦ understood_of_orderly h hallows hmessage) hrun
    (hstart.related ssl peers (fun _ ↦ rfl) (fun _ ↦ rfl)) (fun _ ↦ Handshake.orderly_fresh)
  have hfits := (hrelated side).party
  have hmessages := (hrelated side).inbox
  rw [hinbox] at hmessages
  obtain ⟨message, rest', hencodes, -, hinbox'⟩ := List.forall₂_cons_left_iff.mp hmessages
  obtain ⟨-, hreply, hcontext, hready⟩ := (horderly side).awaited hinbox'
  obtain ⟨-, -, htypeReply, htypeContext, htypeReady⟩ := hencodes.message_eq
  refine ⟨fun htype ↦ ?_, fun htype ↦ ?_, fun htype ↦ ?_⟩
  · exact (hfits.progress_iff .keyExchange).mp (hreply (htypeReply htype))
  · obtain ⟨key, rfl⟩ := htypeContext htype
    exact (hfits.progress_iff .handshake).mp (hcontext key rfl)
  · obtain ⟨key, rfl⟩ := htypeReady htype
    obtain ⟨hplace, hrx⟩ := hready key rfl
    obtain ⟨node, hnode, hstate⟩ := (hfits.progress_iff .checkEncryption).mp hplace
    refine ⟨node, hnode, hstate, ?_⟩
    rw [hfits.endpoint_eq hnode] at hrx
    rw [show node.aesContextRx = key from Option.some.inj hrx]
    exact hencodes.decrypted htrips

/-- In the full handshake the last datagram finds a record that can decrypt it. -/
theorem next_awaited_tagged : ∃ (final : Network (LoopState UInt8) Sent) (out : Sent)
    (rest : List Sent), (final .first).inbox = out :: rest ∧ out.packet.type = some .ready ∧
      taggedPeers.Awaits tagged .first (final .first).party out := by
  obtain ⟨actions, final, hrun, hcheck⟩ := Script.exists_run (fullHandshake.take 9) taggedNetwork
    Action.Ordered (fun side draw ↦
      Unmarked draw.iv ∧ draw.Roomy tagged (taggedNetwork side).party.core.keys)
    (by simp [fullHandshake, next, Action.shape, Action.Ordered])
    (fun _ byte ↦ ⟨(opaque_taggedDraw byte).1, roomy_taggedDraw _ byte⟩)
    (fun final ↦ (final .first).inbox.head?.any fun out ↦ out.packet.type = some .ready)
    (by decide +kernel)
  obtain ⟨out, hhead, htype⟩ := (Option.any_eq_true _ _).mp hcheck
  obtain ⟨rest, hinbox⟩ := List.head?_eq_some_iff.mp hhead
  exact ⟨final, out, rest, hinbox, of_decide_eq_true htype, next_awaited tagged_roundTrips
    started_taggedNetwork serviceable_taggedNetwork hrun .first hinbox⟩

/-! ### Any order of arrival -/

/-- A datagram of the handshake. -/
def Sent.OfHandshake (out : Sent) : Prop :=
  out.packet.type = some .publicKeyRequest ∨ out.packet.type = some .publicKeyReply ∨
    out.packet.type = some .encryptionContext ∨ out.packet.type = some .ready

instance (out : Sent) : Decidable out.OfHandshake :=
  inferInstanceAs (Decidable (_ ∨ _ ∨ _ ∨ _))

/-- The datagram came when the record was in the state its case of `_process_packet` asks for. -/
def Peers.InTime (peers : Peers) (side : Side) (s : LoopState PKey) (out : Sent) : Prop :=
  (out.packet.type = some .publicKeyReply → peers.InState side s .keyExchange) ∧
  (out.packet.type = some .encryptionContext → peers.InState side s .handshake) ∧
  (out.packet.type = some .ready → peers.InState side s .checkEncryption)

instance (side : Side) (s : LoopState PKey) (out : Sent) : Decidable (peers.InTime side s out) :=
  inferInstanceAs (Decidable ((_ → _) ∧ (_ → _) ∧ (_ → _)))

section Related

variable {setup : Setup PKey} {side : Side} {s : LoopState PKey}
  {endpoint : Option (Session AESKey)} {out : Sent} {message : Message AESKey}

/-- A datagram is in time exactly when the message it encodes is. -/
theorem Setup.Fits.inTime_iff (hs : setup.Fits peers side s endpoint)
    (hout : setup.Encodes ssl side.other out message) :
    peers.InTime side s out ↔ Handshake.InTime endpoint message := by
  have hkeyExchange : progress endpoint = 2 ↔ _ := hs.progress_iff .keyExchange
  have hhandshake : progress endpoint = 3 ↔ _ := hs.progress_iff .handshake
  have hcheckEncryption : progress endpoint = 4 ↔ _ := hs.progress_iff .checkEncryption
  rw [Peers.InTime, hout.holds.type]
  cases message with
  | discovery => simp [Setup.packetType, Handshake.InTime]
  | request => simp [Setup.packetType, Handshake.InTime]
  | reply => simp [Setup.packetType, Handshake.InTime, hkeyExchange]
  | context key => simp [Setup.packetType, Handshake.InTime, hhandshake]
  | ready key => simp [Setup.packetType, Handshake.InTime, hcheckEncryption]

/-- Where no datagram of the handshake is in flight no message of it is. -/
theorem quiet_of_forall {inbox : List Sent} {messages : List (Message AESKey)}
    (h : List.Forall₂ (setup.Encodes ssl side) inbox messages)
    (hquiet : ∀ out ∈ inbox, ¬ out.OfHandshake) : Handshake.Quiet messages := by
  intro message hmessage
  obtain ⟨out, hout, hencodes⟩ := exists_mem_of_forall₂ h hmessage
  have hnot := hquiet out hout
  rw [Sent.OfHandshake, hencodes.holds.type] at hnot
  cases message with
  | discovery => rfl
  | _ => simp [Setup.packetType] at hnot

variable {host : Host (LoopState PKey) Sent}
  {host' : Host (Option (Session AESKey)) (Message AESKey)}
  (hrelated : HostRelated (setup.Fits peers side) (setup.Encodes ssl side.other) host host')

include hrelated

/-- Every datagram came in time exactly when every message did. -/
theorem timely_iff : (∀ entry ∈ host.log, peers.InTime side entry.1 entry.2) ↔
    Handshake.Timely host' := by
  constructor
  · intro h entry' hentry'
    obtain ⟨entry, hentry, hfits, hencodes⟩ := exists_mem_of_forall₂ hrelated.log hentry'
    exact (hfits.inTime_iff hencodes).mp (h entry hentry)
  · intro h entry hentry
    obtain ⟨entry', hentry', hfits, hencodes⟩ := exists_mem_of_forall₂ hrelated.log.flip hentry
    exact (hfits.inTime_iff hencodes).mpr (h entry' hentry')

/-- A discovery that was received is one in the handshake. -/
theorem exists_discovery
    (h : ∃ entry ∈ host.log, entry.2.packet.type = some .discovery) :
    ∃ entry' ∈ host'.log, entry'.2 = .discovery := by
  obtain ⟨entry, hentry, htype⟩ := h
  obtain ⟨entry', hentry', -, hencodes⟩ := exists_mem_of_forall₂ hrelated.log.flip hentry
  exact ⟨entry', hentry', hencodes.message_eq.1 htype⟩

end Related

/-- A message in flight is understood: a session key that came was the sender's, and the sender
encrypts with it. -/
theorem understood_of_agreed {setup : Setup PKey} (hversion : ∀ iv, setup.leads iv → Unversioned iv)
    {index : ℕ} {host peer : Host (Option (Session AESKey)) (Message AESKey)}
    {message : Message AESKey} (h : Handshake.Agreed host peer)
    (hmessage : host.inbox[index]? = some message) :
    setup.Understood ssl Matches host.party message := by
  refine ⟨fun _ _ _ iv hiv ↦ hversion iv hiv, ?_⟩
  rintro key rfl hplace
  have hmem : key ∈ Handshake.readys host.inbox :=
    List.mem_filterMap.mpr ⟨_, List.mem_of_getElem? hmessage, rfl⟩
  exact Or.inl ((h.2.keyed hplace).trans (h.2.ready key hmem))

/-- Over a network that delivers every datagram once in any order: in every run after which nothing
of the handshake is in flight and some discovery was processed, both records are connected if and
only if every datagram came in time. -/
theorem connected_iff_inTime (htrips : ssl.RoundTrips Matches) (hstart : Started start)
    (hservice : Serviceable ssl Matches fun side ↦ (start side).party.core.keys)
    (hrun : Run (Network.Allowed (peers.program ssl) Action.ExactlyOnce fun side draw ↦
      Opaque draw.iv ∧ draw.Roomy ssl (start side).party.core.keys) start actions final)
    (hquiet : ∀ side, ∀ out ∈ (final side).inbox, ¬ out.OfHandshake)
    (hdiscovered : ∃ side, ∃ entry ∈ (final side).log, entry.2.packet.type = some .discovery) :
    (∀ side, peers.InState side (final side).party .connected) ↔
      ∀ side, ∀ entry ∈ (final side).log, peers.InTime side entry.1 entry.2 := by
  have hsimulation : Simulation (peers.program ssl) Handshake.protocol
      (fun side draw ↦ Opaque draw.iv ∧ draw.Roomy ssl (start side).party.core.keys)
      (fun _ choice ↦ choice.Works) ((hstart.setup Opaque).Fits peers)
      ((hstart.setup Opaque).Encodes ssl)
      ((hstart.setup Opaque).Understood ssl Matches) :=
    Setup.simulation htrips (fun _ (h : Opaque _) ↦ h.1)
      (fun h ↦ ⟨h.1, Or.inr ⟨hservice, h.2⟩⟩) (fun h hworks ↦ hworks ⟨hservice, h.2⟩) (fun h ↦ h)
  obtain ⟨final', hrelated, hinv⟩ := hsimulation.run_preserved
    (Handshake.accounted_preserved.and (Handshake.discovers_preserved _ _))
    (fun h _ hmessage ↦ understood_of_agreed (fun _ (h : Opaque _) ↦ h.2) h.1.agreed hmessage) hrun
    (hstart.related ssl peers (fun _ ↦ rfl) (fun _ ↦ rfl))
    (fun _ ↦ ⟨Handshake.accounted_fresh, Handshake.discovers_fresh⟩)
  obtain ⟨side, hentry⟩ := hdiscovered
  obtain ⟨haccounted, hdiscovers⟩ := hinv side
  have hknown := hdiscovers.1 (exists_discovery (hrelated side) hentry)
  have hiff := haccounted.connected_iff_timely (quiet_of_forall (hrelated side).inbox (hquiet side))
    (quiet_of_forall (hrelated side.other).inbox (hquiet side.other)) (Or.inl hknown)
  rw [Side.forall_iff side, Side.forall_iff side, timely_iff (hrelated side),
    timely_iff (hrelated side.other), ← hiff]
  exact and_congr ((hrelated side).party.progress_iff .connected).symm
    ((hrelated side.other).party.progress_iff .connected).symm

/-- Nothing of the handshake is in flight, and the second node processed a discovery. -/
def settled (network : Network (LoopState UInt8) Sent) : Bool :=
  (network .first).inbox.all (fun out ↦ ¬ out.OfHandshake) &&
    (network .second).inbox.all (fun out ↦ ¬ out.OfHandshake) &&
    (network .second).log.any fun entry ↦ entry.2.packet.type = some .discovery

theorem quiet_of_settled {network : Network (LoopState UInt8) Sent} (h : settled network = true) :
    ∀ side, ∀ out ∈ (network side).inbox, ¬ out.OfHandshake := by
  simp only [settled, Bool.and_eq_true, List.all_eq_true, decide_eq_true_eq] at h
  intro side
  cases side with
  | first => exact h.1.1
  | second => exact h.1.2

theorem discovered_of_settled {network : Network (LoopState UInt8) Sent}
    (h : settled network = true) :
    ∃ side, ∃ entry ∈ (network side).log, entry.2.packet.type = some .discovery := by
  simp only [settled, Bool.and_eq_true, List.any_eq_true, decide_eq_true_eq] at h
  exact ⟨.second, h.2⟩

/-- The full handshake is such a run, and both records are connected. -/
theorem connected_iff_inTime_tagged : ∃ final : Network (LoopState UInt8) Sent,
    (∀ side, taggedPeers.InState side (final side).party .connected) ∧
      ∀ side, ∀ entry ∈ (final side).log, taggedPeers.InTime side entry.1 entry.2 := by
  obtain ⟨actions, final, hrun, hcheck⟩ := fullHandshake.exists_run taggedNetwork
    Action.ExactlyOnce (fun side draw ↦
      Opaque draw.iv ∧ draw.Roomy tagged (taggedNetwork side).party.core.keys)
    (by simp [fullHandshake, next, Action.shape, Action.ExactlyOnce])
    (fun _ byte ↦ ⟨opaque_taggedDraw byte, roomy_taggedDraw _ byte⟩)
    (fun final ↦ settled final && recordIn .first .connected final &&
      recordIn .second .connected final) (by decide +kernel)
  simp only [Bool.and_eq_true] at hcheck
  obtain ⟨⟨hsettled, hfirst⟩, hsecond⟩ := hcheck
  have hconnected : ∀ side, taggedPeers.InState side (final side).party .connected := by
    intro side
    cases side with
    | first => exact exists_record_of_recordIn hfirst
    | second => exact exists_record_of_recordIn hsecond
  exact ⟨final, hconnected, (connected_iff_inTime tagged_roundTrips started_taggedNetwork
    serviceable_taggedNetwork hrun (quiet_of_settled hsettled)
    (discovered_of_settled hsettled)).mp hconnected⟩

/-- The reply of the second node reaches the first before the request sent ahead of it. -/
def overtaken : Script :=
  [.announce .first 0, .announce .second 0, next .second 0, next .first 0, next .second 0,
    .deliver .first 1 false 0, next .first 0, next .second 8, next .first 0]

/-- Nothing is in flight, and neither record is connected. -/
theorem not_connected_of_overtaken : ∃ actions final,
    Run (Network.Allowed (taggedPeers.program tagged) Action.ExactlyOnce fun side draw ↦
      Opaque draw.iv ∧ draw.Roomy tagged (taggedNetwork side).party.core.keys) taggedNetwork actions
      final ∧
    (∀ side, ∀ out ∈ (final side).inbox, ¬ out.OfHandshake) ∧
    (∃ side, ∃ entry ∈ (final side).log, entry.2.packet.type = some .discovery) ∧
    ∀ side, ¬ taggedPeers.InState side (final side).party .connected := by
  obtain ⟨actions, final, hrun, hcheck⟩ := overtaken.exists_run taggedNetwork
    Action.ExactlyOnce (fun side draw ↦
      Opaque draw.iv ∧ draw.Roomy tagged (taggedNetwork side).party.core.keys)
    (by simp [overtaken, next, Action.shape, Action.ExactlyOnce])
    (fun _ byte ↦ ⟨opaque_taggedDraw byte, roomy_taggedDraw _ byte⟩)
    (fun final ↦ settled final && recordIn .first .keyExchange final &&
      recordIn .second .handshake final) (by decide +kernel)
  simp only [Bool.and_eq_true] at hcheck
  obtain ⟨⟨hsettled, hfirst⟩, hsecond⟩ := hcheck
  refine ⟨actions, final, hrun, quiet_of_settled hsettled, discovered_of_settled hsettled, ?_⟩
  intro side
  cases side with
  | first => exact not_inState_of_recordIn hfirst (by decide)
  | second => exact not_inState_of_recordIn hsecond (by decide)

end Kapua
