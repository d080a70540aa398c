import Kapua.Node.SenderFrame

/-!
# Which packets act on a record

The record a packet is handled for is the one of the sender's address. Beside the check that a
packet does not come from the own id, nothing in the loop compares the ids in the packet, neither
`from_id` with the id of the record nor `to_id` with the own id. So the type of the packet and the
state of the record decide alone whether the packet acts (`Handling.respondsTo_of_ne`). A packet
acts for the address it comes from, and for the identities it carries as far as the senders label
their packets so (`labelled_of_not_mislabelled`).
-/

set_option autoImplicit false
set_option relaxedAutoImplicit false

namespace Kapua

variable {PKey : Type} {ssl : OpenSSL PKey}

/-- The state and all keys of a record. -/
def Node.keying (node : Node PKey) : NodeState × KeyPair PKey × AESKey × AESKey :=
  (node.state, node.keys, node.aesContextTx, node.aesContextRx)

/-- The types of packets that a record in a given state responds to. -/
def RespondsTo (state : NodeState) (type : Option PacketType) : Prop :=
  (type = some .publicKeyRequest ∧ state ≠ .keyExchange) ∨
    (type = some .publicKeyReply ∧ state = .keyExchange) ∨
    (type = some .encryptionContext ∧ state = .handshake) ∨
    (type = some .ready ∧ state = .checkEncryption)

/-- The packet is from the node of the record, for the node with the own id or for all. -/
def LabelledFor (myId : UInt64) (node : Node PKey) (pkt : Packet) : Prop :=
  pkt.fromId = node.id ∧ (pkt.toId = myId ∨ pkt.toId = kapuaIdBroadcast)

variable (ssl) in
/-- The RSA operation that the packet asks for fails: the encryption of the session key for the key
in a reply, or the decryption of an encryption context. -/
def RsaFails (keys : KeyPair PKey) (pkt : Packet) (draw : Draw PKey) : Prop :=
  (pkt.type = some .publicKeyReply ∧ ∃ key, pkt.readPublicKey ssl = .ok key ∧
    encryptAesContext ssl draw.sessionKey (some key) kapuaMaxDataSize draw.padding = none) ∨
  (pkt.type = some .encryptionContext ∧
    (decryptAesContext ssl keys.privateKey pkt.data draw.len).ok = false)

namespace Handling

variable {myId : UInt64} {keys : KeyPair PKey} {node after : Node PKey} {pkt : Packet}
  {draw : Draw PKey} {sent : List Sent}

/-- A packet changes the state or the keys of a record only if its type is one that the record
responds to. -/
theorem respondsTo_of_ne (h : Handling ssl myId keys node pkt draw after sent)
    (hne : after.keying ≠ node.keying) : RespondsTo node.state pkt.type := by
  cases h with
  | ignored => exact absurd rfl hne
  | request htype _ =>
    refine Or.inl ⟨htype, fun hexchange ↦ hne ?_⟩
    simp [Node.keying, hexchange]
  | unsealedReply htype hstate => exact Or.inr (Or.inl ⟨htype, hstate⟩)
  | reply htype hstate => exact Or.inr (Or.inl ⟨htype, hstate⟩)
  | refusedContext htype hstate => exact Or.inr (Or.inr (Or.inl ⟨htype, hstate⟩))
  | context htype hstate => exact Or.inr (Or.inr (Or.inl ⟨htype, hstate⟩))
  | ready htype hstate => exact Or.inr (Or.inr (Or.inr ⟨htype, hstate⟩))

/-- A packet of a type that the record responds to moves the record to another state, unless the RSA
operation it asks for fails. -/
theorem state_ne_of_respondsTo (h : Handling ssl myId keys node pkt draw after sent)
    (hresponds : RespondsTo node.state pkt.type) (hrsa : ¬ RsaFails ssl keys pkt draw) :
    after.state ≠ node.state := by
  cases h with
  | ignored hrequest hreply hcontext hready =>
    obtain ⟨htype, -⟩ | ⟨htype, hstate⟩ | ⟨htype, hstate⟩ | ⟨htype, hstate⟩ := hresponds
    · exact absurd htype hrequest
    · exact absurd hstate (hreply htype)
    · exact absurd hstate (hcontext htype)
    · exact absurd hstate (hready htype)
  | request htype =>
    obtain ⟨-, hstate⟩ | ⟨hother, -⟩ | ⟨hother, -⟩ | ⟨hother, -⟩ := hresponds
    · exact hstate.symm
    all_goals
      rw [htype] at hother
      cases hother
  | unsealedReply htype _ hkey hfail => exact absurd (Or.inl ⟨htype, _, hkey, hfail⟩) hrsa
  | reply _ hstate => simp [hstate]
  | refusedContext htype _ hfail => exact absurd (Or.inr ⟨htype, hfail⟩) hrsa
  | context _ hstate _ hafter => simp [hafter, hstate]
  | ready _ hstate => simp [hstate]

end Handling

variable (ssl) in
/-- An accepted packet that the record of its sender responds to and that is not labelled for that
record. -/
def Mislabelled (s : LoopState PKey) (input : Arrival × Draw PKey) : Prop :=
  ∃ arrived ptr, recvfrom s input.1 input.2 = some arrived ∧
    (screened ssl s arrived).accepted = true ∧ s.core.findNode arrived.fromAddr = some ptr ∧
    RespondsTo (s.core.heap ptr).state (screened ssl s arrived).pkt.type ∧
    ¬ LabelledFor s.core.myId (s.core.heap ptr) (screened ssl s arrived).pkt

/-- Every record that was there and whose state or keys the pass changed is one that the packet of
the pass is labelled for. -/
def ActsAsLabelled (s after : LoopState PKey) : Prop :=
  ∀ ptr, ptr < s.core.next → (after.core.heap ptr).keying ≠ (s.core.heap ptr).keying →
    LabelledFor s.core.myId (s.core.heap ptr) after.pkt

/-- Every record that was there and whose state or keys the pass changed is the one of the address
the datagram came from, in a state that responds to the type of the packet. -/
def ActsForSender (s after : LoopState PKey) : Prop :=
  ∀ ptr, ptr < s.core.next → (after.core.heap ptr).keying ≠ (s.core.heap ptr).keying →
    s.core.findNode after.fromAddr = some ptr ∧
      RespondsTo (s.core.heap ptr).state after.pkt.type

/-- Whatever the ids in its packet, a pass acts for the address the datagram came from. -/
theorem Passing.actsForSender {s after : LoopState PKey} {arrival : Arrival} {draw : Draw PKey}
    {sent : List Sent} (h : Passing ssl s arrival draw after sent) : ActsForSender s after := by
  intro ptr hptr hne
  cases h with
  | idle => exact absurd rfl hne
  | rejected => exact absurd rfl hne
  | @known arrived target node sent hrecv hscreen hfind hhandled =>
    have htarget : ptr = target := by
      by_contra hother
      rw [Core.setNode_heap_of_ne _ _ hother] at hne
      exact hne rfl
    subst htarget
    rw [Core.setNode_heap_self] at hne
    exact ⟨hfind, hhandled.respondsTo_of_ne hne⟩
  | new hrecv hscreen hfind hcore hhandled =>
    -- the record that is handled was not there before
    subst hcore
    rw [Core.setNode_heap_of_ne _ _ hptr.ne, Core.addNode_heap_of_ne _ _ hptr.ne] at hne
    exact absurd rfl hne

/-- A pass whose packet is not mislabelled acts as the packet is labelled. -/
theorem Passing.actsAsLabelled {s after : LoopState PKey} {arrival : Arrival} {draw : Draw PKey}
    {sent : List Sent} (h : Passing ssl s arrival draw after sent)
    (hlabelled : ¬ Mislabelled ssl s (arrival, draw)) : ActsAsLabelled s after := by
  intro ptr hptr hne
  obtain ⟨hsender, hresponds⟩ := h.actsForSender ptr hptr hne
  cases h with
  | idle => exact absurd rfl hne
  | rejected => exact absurd rfl hne
  | known hrecv hscreen =>
    by_contra hmismatch
    exact hlabelled ⟨_, ptr, hrecv, hscreen, hsender, hresponds, hmismatch⟩
  | new hrecv hscreen =>
    by_contra hmismatch
    exact hlabelled ⟨_, ptr, hrecv, hscreen, hsender, hresponds, hmismatch⟩

/-- A pass whose packet is mislabelled does not act as it is labelled, unless the RSA operation it
asks for fails. Assumes: a well-formed table. -/
theorem Passing.not_actsAsLabelled {s after : LoopState PKey} {arrival : Arrival}
    {draw : Draw PKey} {sent : List Sent} (h : Passing ssl s arrival draw after sent)
    (hs : s.core.WellFormed) (hmislabelled : Mislabelled ssl s (arrival, draw))
    (hrsa : ¬ RsaFails ssl s.core.keys after.pkt draw) : ¬ ActsAsLabelled s after := by
  obtain ⟨arrived, ptr, hrecv, hscreen, hfind, hresponds, hmismatch⟩ := hmislabelled
  intro hacts
  cases h with
  | idle hrecv' =>
    rw [hrecv] at hrecv'
    cases hrecv'
  | rejected hrecv' hscreen' =>
    obtain rfl := Option.some.inj (hrecv.symm.trans hrecv')
    rw [hscreen] at hscreen'
    cases hscreen'
  | known hrecv' _ hfind' hhandled =>
    obtain rfl := Option.some.inj (hrecv.symm.trans hrecv')
    obtain rfl := Option.some.inj (hfind.symm.trans hfind')
    refine hmismatch (hacts ptr (hs.addr_of_find hfind).1 fun hsame ↦ ?_)
    rw [Core.setNode_heap_self] at hsame
    exact hhandled.state_ne_of_respondsTo hresponds hrsa (congrArg Prod.fst hsame)
  | new hrecv' _ hfind' =>
    obtain rfl := Option.some.inj (hrecv.symm.trans hrecv')
    rw [hfind] at hfind'
    cases hfind'

/-- Every pass of a run acts for the address the datagram came from, and, unless its packet is
mislabelled, as the packet is labelled. Assumes: the passes return and are in bounds. -/
theorem labelled_of_not_mislabelled {start final : LoopState PKey}
    {inputs : List (Arrival × Draw PKey)} (hrun : Run (BoundedPass ssl) start inputs final) :
    Run (fun s input t ↦ BoundedPass ssl s input t ∧ ActsForSender s t ∧
      (¬ Mislabelled ssl s input → ActsAsLabelled s t)) start inputs final := by
  refine hrun.mono ?_
  rintro s input t ⟨⟨sent, hpass⟩, hbounds⟩
  have hpassing := passing_of_pass hpass
  exact ⟨⟨⟨sent, hpass⟩, hbounds⟩, hpassing.actsForSender, hpassing.actsAsLabelled⟩

/-- A `Ping` and then a `PublicKeyRequest` of the node 7, with ids that fit. -/
theorem labelled_of_not_mislabelled_request : ∃ final,
    Run (fun s input t ↦ BoundedPass tagged s input t ∧ ActsForSender s t ∧
        (¬ Mislabelled tagged s input → ActsAsLabelled s t)) (taggedStart 5 1)
      [(.datagram ⟨1, 1⟩ (taggedDatagram .ping 7 []), taggedDraw 9),
        (.datagram ⟨1, 1⟩ (taggedDatagram .publicKeyRequest 7 []), taggedDraw 9)] final ∧
    (final.core.heap 0).state = .keyExchange := by
  have hany : (pass tagged (taggedStart 5 1)
      (.datagram ⟨1, 1⟩ (taggedDatagram .ping 7 [])) (taggedDraw 9)).toOption.any
        (fun (result : LoopState UInt8 × List Sent) ↦
          decide ((arrivedDatagram result.1 ⟨1, 1⟩ (taggedDatagram .publicKeyRequest 7 [])
            (taggedDraw 9)).pkt.type = some .publicKeyRequest) &&
          (pass tagged result.1 (.datagram ⟨1, 1⟩ (taggedDatagram .publicKeyRequest 7 []))
            (taggedDraw 9)).toOption.any fun (second : LoopState UInt8 × List Sent) ↦
              decide ((second.1.core.heap 0).state = .keyExchange)) = true := by
    decide +kernel
  obtain ⟨⟨middle, sent⟩, hfirst, hcheck⟩ := exists_of_any hany
  simp only [Bool.and_eq_true, decide_eq_true_eq] at hcheck
  obtain ⟨htype, hsecond⟩ := hcheck
  obtain ⟨⟨final, sent'⟩, hsecond, hstate⟩ := exists_of_any hsecond
  refine ⟨final, labelled_of_not_mislabelled (.cons ⟨⟨sent, hfirst⟩, ?_⟩
    (.cons ⟨⟨sent', hsecond⟩, ?_⟩ (.nil final))), of_decide_eq_true hstate⟩
  · exact inBounds_of_unknown ((empty_taggedStart 5 1).2.2 _) _ _
  · exact inBounds_of_type (recvfrom_datagram ..) (by rw [htype]; simp)

/-- A request from the node 8 to the node 99. -/
def requestForOther : Bytes :=
  (Packet.construct (fun _ ↦ 0) .publicKeyRequest 8 99).slice 0 kapuaHeaderSize

/-- The record of the node 7 is moved to the key exchange by a packet that the node 8 sent to the
node 99, in the node 5. -/
theorem acts_on_mislabelled : ∃ s after sent, Reachable tagged s ∧
    pass tagged s (.datagram ⟨1, 1⟩ requestForOther) (taggedDraw 9) = .ok (after, sent) ∧
    ¬ ActsAsLabelled s after := by
  obtain ⟨s, hreach, hcheck⟩ := exists_reachable tagged (empty_taggedStart 5 1)
    [(.datagram ⟨1, 1⟩ (taggedDatagram .ping 7 []), taggedDraw 9)]
    (fun s ↦ s.core.next == 1 && (s.core.heap 0).id == 7 &&
      decide ((s.core.heap 0).state = .initialised) &&
      (pass tagged s (.datagram ⟨1, 1⟩ requestForOther) (taggedDraw 9)).toOption.any
        fun (result : LoopState UInt8 × List Sent) ↦
          decide ((result.1.core.heap 0).state = .keyExchange) && result.1.pkt.fromId == 8)
    (by decide +kernel)
  simp only [Bool.and_eq_true, beq_iff_eq, decide_eq_true_eq] at hcheck
  obtain ⟨⟨⟨hnext, hid⟩, hbefore⟩, hpasses⟩ := hcheck
  obtain ⟨⟨after, sent⟩, hpass, hchanged⟩ := exists_of_any hpasses
  simp only [Bool.and_eq_true, beq_iff_eq, decide_eq_true_eq] at hchanged
  obtain ⟨hafter, hfrom⟩ := hchanged
  refine ⟨s, after, sent, hreach, hpass, fun hacts ↦ ?_⟩
  have hlabel := (hacts 0 (by rw [hnext]; decide) fun hsame ↦ ?_).1
  · rw [hid, hfrom] at hlabel
    exact absurd hlabel (by decide)
  · have hstate : (after.core.heap 0).state = (s.core.heap 0).state := congrArg Prod.fst hsame
    rw [hbefore, hafter] at hstate
    cases hstate

end Kapua
