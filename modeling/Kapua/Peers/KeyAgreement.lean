import Kapua.Handshake.Agreement
import Kapua.Handshake.Duplication
import Kapua.Peers.Refinement
import Kapua.Peers.TaggedPeers

/-!
# The session keys of two peers

What the receive loops inherit from the handshake about their session keys. Over a network that
does not duplicate, a record is connected only when the peer's record has both session keys, and
they are the same ones (`keys_agree`). Over a network that duplicates too, this is so as long as no
`PublicKeyRequest` is handled for a record that encrypts already (`keys_match_of_guarded`): such a
packet takes the record back to the start of the handshake with a peer that does not follow.
-/

set_option autoImplicit false
set_option relaxedAutoImplicit false

namespace Kapua

open Handshake (Message Session Choice progress)

variable {PKey : Type} {ssl : OpenSSL PKey} {Matches : PKey → PKey → Prop} {peers : Peers}
  {start final : Network (LoopState PKey) Sent} {actions : List (Action (Draw PKey))}

/-- Session keys that two endpoints agree on match in the records. -/
theorem keysMatch_of_agree {node peer : Node PKey}
    (hpeer : Handshake.rx (some peer.toSession) = Handshake.tx (some node.toSession))
    (hnode : Handshake.rx (some node.toSession) = Handshake.tx (some peer.toSession)) :
    node.KeysMatch peer :=
  ⟨(Option.some.inj hpeer).symm, (Option.some.inj hnode).symm⟩

/-- A record at a late place encrypts. -/
theorem encrypts_of_progress {node : Node PKey} (h : 4 ≤ progress (some node.toSession)) :
    node.state = .checkEncryption ∨ node.state = .connected := by
  have hle : NodeState.checkEncryption ≤ node.state := by
    show 3 ≤ node.state.rank
    rw [Handshake.progress_some] at h
    exact Nat.le_of_succ_le_succ h
  simpa using hle

/-- Key agreement without duplicates: in every run, a record is connected only when the peer's
record is in `checkEncryption` or connected and the session keys match in both directions. -/
theorem keys_agree (htrips : ssl.RoundTrips Matches) (hothers : ssl.OtherKeysFail Matches)
    (hstart : Started start)
    (hrun : Run (Network.Allowed (peers.program ssl) Action.AtMostOnce fun _ draw ↦
      Opaque draw.iv) start actions final) (side : Side) {node : Node PKey}
    (hnode : peers.record side (final side).party = some node)
    (hconnected : node.state = .connected) :
    ∃ peer, peers.record side.other (final side.other).party = some peer ∧
      (peer.state = .checkEncryption ∨ peer.state = .connected) ∧ node.KeysMatch peer := by
  obtain ⟨final', hrelated, hagreed⟩ := hstart.exists_related htrips hothers
    (hstart.setup Opaque) rfl (fun _ ↦ rfl) (fun _ ↦ rfl) hrun (Handshake.agreed_preserved _)
    Handshake.agreed_fresh
  have hfits := (hrelated side).party
  have hpeerFits := (hrelated side.other).party
  have hplace : progress (final' side).party = 5 :=
    (hfits.progress_iff .connected).mpr ⟨node, hnode, hconnected⟩
  obtain ⟨hpeerPlace, hpeerKey, hkey⟩ := Handshake.agreed_keys (hagreed side) hplace
  obtain ⟨peer, hpeer, hendpoint⟩ := hpeerFits.exists_record (by omega)
  rw [hendpoint] at hpeerPlace hpeerKey hkey
  rw [hfits.endpoint_eq hnode] at hpeerKey hkey
  exact ⟨peer, hpeer, encrypts_of_progress hpeerPlace, keysMatch_of_agree hpeerKey hkey⟩

/-- With the concrete cipher and nothing lost, the full handshake is such a run. -/
theorem keys_agree_tagged : ∃ (final : Network (LoopState UInt8) Sent) (node peer : Node UInt8),
    taggedPeers.record .first (final .first).party = some node ∧ node.state = .connected ∧
    taggedPeers.record .second (final .second).party = some peer ∧ node.KeysMatch peer := by
  obtain ⟨actions, final, hrun, hcheck⟩ := fullHandshake.exists_run taggedNetwork
    Action.AtMostOnce (fun _ draw ↦ Opaque draw.iv)
    (by simp [fullHandshake, next, Action.shape, Action.AtMostOnce])
    (fun _ ↦ opaque_taggedDraw) (recordIn .first .connected) (by decide +kernel)
  obtain ⟨node, hnode, hconnected⟩ := exists_record_of_recordIn hcheck
  obtain ⟨peer, hpeer, -, hkeys⟩ := keys_agree tagged_roundTrips tagged_otherKeysFail
    started_taggedNetwork hrun .first hnode hconnected
  exact ⟨final, node, peer, hnode, hconnected, hpeer, hkeys⟩

/-! ### With duplicates -/

/-- No `PublicKeyRequest` was received by a node whose record of the peer encrypts. -/
def Peers.Guarded (peers : Peers) (side : Side) (host : Host (LoopState PKey) Sent) : Prop :=
  ∀ entry ∈ host.log, entry.2.packet.type = some .publicKeyRequest →
    ∀ node ∈ peers.record side entry.1, ¬ NodeState.checkEncryption ≤ node.state

instance (side : Side) (host : Host (LoopState PKey) Sent) :
    Decidable (peers.Guarded side host) :=
  inferInstanceAs (Decidable (∀ entry ∈ host.log, entry.2.packet.type = some .publicKeyRequest →
    ∀ node ∈ peers.record side entry.1, ¬ NodeState.checkEncryption ≤ node.state))

/-- What is guarded in the nodes is guarded in the handshake. -/
theorem Peers.Guarded.related {setup : Setup PKey} {side : Side} {host : Host (LoopState PKey) Sent}
    {host' : Host (Option (Session AESKey)) (Message AESKey)} (h : peers.Guarded side host)
    (hrelated : HostRelated (setup.Fits peers side) (setup.Encodes ssl side.other) host host') :
    Handshake.Guarded host' := by
  intro entry' hentry' hrequest
  obtain ⟨entry, hentry, hfits, hencodes⟩ := exists_mem_of_forall₂ hrelated.log hentry'
  have htype : entry.2.packet.type = some .publicKeyRequest := by
    rw [hencodes.holds.type, hrequest]
    rfl
  by_contra hlate
  obtain ⟨node, hrecord, hendpoint⟩ := hfits.exists_record (by omega)
  rw [hendpoint] at hlate
  have hencrypts := encrypts_of_progress (not_le.mp hlate)
  exact h entry hentry htype node hrecord (NodeState.checkEncryption_le.mpr hencrypts)

/-- Key agreement with duplicates: in every run in which no `PublicKeyRequest` is received by a node
whose record encrypts, the session keys of two connected records match. -/
theorem keys_match_of_guarded (htrips : ssl.RoundTrips Matches)
    (hothers : ssl.OtherKeysFail Matches) (hstart : Started start)
    (hrun : Run (Network.Allowed (peers.program ssl) (fun _ ↦ True) fun _ draw ↦ Opaque draw.iv)
      start actions final) (hguarded : ∀ side, peers.Guarded side (final side)) (side : Side)
    {node peer : Node PKey} (hnode : peers.record side (final side).party = some node)
    (hpeer : peers.record side.other (final side.other).party = some peer)
    (hconnected : node.state = .connected) (hpeerConnected : peer.state = .connected) :
    node.KeysMatch peer := by
  obtain ⟨final', hrelated, hsecured⟩ := hstart.exists_related htrips hothers
    (hstart.setup Opaque) rfl (fun _ ↦ rfl) (fun _ ↦ rfl) hrun (Handshake.secured_preserved _ _)
    Handshake.secured_fresh
  have hfits := (hrelated side).party
  have hpeerFits := (hrelated side.other).party
  have hplace := (hfits.progress_iff .connected).mpr ⟨node, hnode, hconnected⟩
  have hpeerPlace := (hpeerFits.progress_iff .connected).mpr ⟨peer, hpeer, hpeerConnected⟩
  obtain ⟨hpeerKey, hkey⟩ := Handshake.secured_keys (hsecured side)
    ((hguarded side).related (hrelated side)) ((hguarded side.other).related (hrelated side.other))
    hplace hpeerPlace
  rw [hfits.endpoint_eq hnode, hpeerFits.endpoint_eq hpeer] at hpeerKey hkey
  exact keysMatch_of_agree hpeerKey hkey

/-- The full handshake is such a run. -/
theorem keys_match_of_guarded_tagged : ∃ (final : Network (LoopState UInt8) Sent)
    (node peer : Node UInt8), taggedPeers.record .first (final .first).party = some node ∧
    taggedPeers.record .second (final .second).party = some peer ∧ node.KeysMatch peer := by
  obtain ⟨actions, final, hrun, hcheck⟩ := fullHandshake.exists_run taggedNetwork (fun _ ↦ True)
    (fun _ draw ↦ Opaque draw.iv) (fun _ _ ↦ trivial) (fun _ ↦ opaque_taggedDraw)
    (fun final ↦ recordIn .first .connected final && recordIn .second .connected final &&
      decide (taggedPeers.Guarded .first (final .first)) &&
      decide (taggedPeers.Guarded .second (final .second))) (by decide +kernel)
  simp only [Bool.and_eq_true, decide_eq_true_eq] at hcheck
  obtain ⟨⟨⟨hfirst, hsecond⟩, hguarded⟩, hpeerGuarded⟩ := hcheck
  obtain ⟨node, hnode, hconnected⟩ := exists_record_of_recordIn hfirst
  obtain ⟨peer, hpeer, hpeerConnected⟩ := exists_record_of_recordIn hsecond
  have hboth : ∀ side, taggedPeers.Guarded side (final side) := by
    intro side
    cases side with
    | first => exact hguarded
    | second => exact hpeerGuarded
  exact ⟨final, node, peer, hnode, hpeer, keys_match_of_guarded tagged_roundTrips
    tagged_otherKeysFail started_taggedNetwork hrun hboth .first hnode hpeer hconnected
    hpeerConnected⟩

/-- The next datagram at `index` arrives, and will arrive again. -/
def copy (side : Side) (index : ℕ) (byte : UInt8) : Action UInt8 := .deliver side index true byte

/-- A full handshake, after which the first node gets all four datagrams of its peer again. -/
def replayed : Script :=
  [.announce .first 0, next .second 0, copy .first 0 0, next .second 0, next .second 8,
    copy .first 1 7, copy .first 2 0, next .second 0, next .second 0, copy .first 3 0,
    copy .first 0 0, copy .first 1 9, copy .first 2 0, copy .first 3 0]

/-- The session keys of two records do not match. -/
def mismatch (network : Network (LoopState UInt8) Sent) : Bool :=
  (taggedPeers.record .first (network .first).party).any fun node ↦
    (taggedPeers.record .second (network .second).party).any fun peer ↦
      node.state = .connected && peer.state = .connected && node.aesContextTx ≠ peer.aesContextRx

/-- Two connected records whose session keys do not match. -/
theorem not_keys_match : ∃ actions final, Run (Network.Allowed (taggedPeers.program tagged)
      (fun _ ↦ True) fun _ draw ↦ Opaque draw.iv) taggedNetwork actions final ∧
    ∃ node peer, taggedPeers.record .first (final .first).party = some node ∧
      taggedPeers.record .second (final .second).party = some peer ∧ node.state = .connected ∧
      peer.state = .connected ∧ ¬ node.KeysMatch peer := by
  obtain ⟨actions, final, hrun, hcheck⟩ := replayed.exists_run taggedNetwork
    (fun _ ↦ True) (fun _ draw ↦ Opaque draw.iv) (fun _ _ ↦ trivial)
    (fun _ ↦ opaque_taggedDraw) mismatch (by decide +kernel)
  obtain ⟨node, hnode, hrest⟩ := (Option.any_eq_true _ _).mp hcheck
  obtain ⟨peer, hpeer, hstates⟩ := (Option.any_eq_true _ _).mp hrest
  simp only [Bool.and_eq_true, decide_eq_true_eq] at hstates
  obtain ⟨⟨hconnected, hpeerConnected⟩, hkeys⟩ := hstates
  exact ⟨actions, final, hrun, node, peer, hnode, hpeer, hconnected, hpeerConnected,
    fun hmatch ↦ hkeys hmatch.1⟩

end Kapua
