import Kapua.Node.TaggedCipher

/-!
# Plaintext packets against an established session

A record that has reached `checkEncryption` expects encrypted packets. `_receive` logs a warning
when such a peer sends anything but a Discovery in the clear, and processes it all the same; the
cases of `_process_packet` then decide for themselves. The `PublicKeyRequest` case checks no state
and puts the record back to `keyExchange`, and the `Ready` case accepts in `checkEncryption`, the
state that waits for proof that the peer can encrypt.

`undisturbed_iff` says that these are the only two: a plaintext datagram from the address of an
established record leaves the session of that record as it was exactly when it is not `Disturbing`.
-/

set_option autoImplicit false
set_option relaxedAutoImplicit false

namespace Kapua

variable {PKey : Type} (ssl : OpenSSL PKey)

/-- A pass over the datagram from the record's address leaves the record's session. -/
def Undisturbed (s : LoopState PKey) (ptr : NodePtr) (bytes : Bytes) (draw : Draw PKey) : Prop :=
  ∀ after sent, pass ssl s (.datagram (s.core.heap ptr).addr bytes) draw = .ok (after, sent) →
    (after.core.heap ptr).session = (s.core.heap ptr).session

/-- The packets that disturb an established session: they pass the header checks, and are a
`PublicKeyRequest`, when the own public key can be sent in reply, or a `Ready` while the record is
in `checkEncryption`. -/
def Disturbing (s : LoopState PKey) (ptr : NodePtr) (arrived : Arrived) : Prop :=
  passesHeader s.core.myId arrived.pkt arrived.size = true ∧
    (arrived.pkt.type = some .publicKeyRequest ∧ s.core.keys.Writable ssl ∨
      arrived.pkt.type = some .ready ∧ (s.core.heap ptr).state = .checkEncryption)

variable {ssl}

/-- A datagram that begins with the magic number has it in the packet buffer. -/
theorem checkMagicValid_arrivedDatagram (s : LoopState PKey) (addr : Sockaddr) {bytes : Bytes}
    (draw : Draw PKey) (hmagic : bytes.take 5 = kapuaMagicNumber) :
    (arrivedDatagram s addr bytes draw).pkt.checkMagicValid = true := by
  have hlength : (bytes.take 5).length = 5 := by rw [hmagic]; rfl
  rw [List.length_take] at hlength
  have hslice : (arrivedDatagram s addr bytes draw).pkt.slice 0 5 = bytes.take 5 := by
    rw [arrivedDatagram, Memory.slice_write_inside _ le_rfl (by simp; omega)]
    simp [List.take_take]
  simp [Packet.checkMagicValid, Packet.magic, hslice, hmagic]

/-- Handling a packet for an established record leaves its session, unless the packet is a
`PublicKeyRequest` and the own public key can be sent, or a `Ready` in `checkEncryption`. -/
theorem Handling.session_eq {myId : UInt64} {keys : KeyPair PKey} {node after : Node PKey}
    {pkt : Packet} {draw : Draw PKey} {sent : List Sent}
    (h : Handling ssl myId keys node pkt draw after sent)
    (hstate : NodeState.checkEncryption ≤ node.state)
    (hrequest : ¬ (pkt.type = some .publicKeyRequest ∧ keys.Writable ssl))
    (hready : ¬ (pkt.type = some .ready ∧ node.state = .checkEncryption)) :
    after.session = node.session := by
  rw [NodeState.checkEncryption_le] at hstate
  cases h with
  | ignored => rfl
  | request htype hreply => exact absurd ⟨htype, writable_of_writePublicKey hreply⟩ hrequest
  | ready htype hcheck => exact absurd ⟨htype, hcheck⟩ hready
  | unsealedReply _ hexchange => simp [hexchange] at hstate
  | reply _ hexchange => simp [hexchange] at hstate
  | refusedContext _ hhandshake => simp [hhandshake] at hstate
  | context _ hhandshake => simp [hhandshake] at hstate

/-- A `PublicKeyRequest`, when the own public key can be sent, and a `Ready` in `checkEncryption`
change the state of an established record. -/
theorem dispatch_changes_state (myId : UInt64) {keys : KeyPair PKey} (node : Node PKey)
    {pkt : Packet} (hstate : NodeState.checkEncryption ≤ node.state)
    (h : pkt.type = some .publicKeyRequest ∧ keys.Writable ssl ∨
      pkt.type = some .ready ∧ node.state = .checkEncryption) (draw : Draw PKey) :
    ∃ after sent, dispatch ssl myId keys node pkt draw = .ok (after, sent) ∧
      after.state ≠ node.state := by
  rw [NodeState.checkEncryption_le] at hstate
  rcases h with ⟨htype, hkeys⟩ | ⟨htype, hcheck⟩
  · obtain ⟨reply, hreply⟩ := writePublicKey_of_writable hkeys
      (Packet.construct draw.reply .publicKeyReply myId node.id)
    refine ⟨_, _, (Handling.request htype hreply).dispatch_eq, ?_⟩
    rcases hstate with hcheck | hconnected
    · simp [hcheck]
    · simp [hconnected]
  · exact ⟨_, _, (Handling.ready htype hcheck).dispatch_eq, by simp [hcheck]⟩

/-- A plaintext datagram from the address of an established record leaves the session of the record
exactly when it is not disturbing. Assumes: a reachable state, a record that has reached
`checkEncryption`, and a datagram that begins with the magic number. -/
theorem undisturbed_iff {s : LoopState PKey} (hreach : Reachable ssl s) {ptr : NodePtr}
    (hptr : ptr < s.core.next) (hstate : NodeState.checkEncryption ≤ (s.core.heap ptr).state)
    {bytes : Bytes} (hmagic : bytes.take 5 = kapuaMagicNumber) (draw : Draw PKey) :
    Undisturbed ssl s ptr bytes draw ↔
      ¬ Disturbing ssl s ptr (arrivedDatagram s (s.core.heap ptr).addr bytes draw) := by
  have hrecv := recvfrom_datagram s (s.core.heap ptr).addr bytes draw
  have hfind : s.core.findNode (s.core.heap ptr).addr = some ptr :=
    hreach.wellFormed.find_addr hptr
  have hplain : screened ssl s (arrivedDatagram s (s.core.heap ptr).addr bytes draw) = _ :=
    screen_plain ssl s.core.myId (Or.inl (checkMagicValid_arrivedDatagram s _ draw hmagic)) _
  constructor
  · intro hundisturbed hdisturbing
    obtain ⟨hpasses, hkind⟩ := hdisturbing
    obtain ⟨node, sent, hdispatch, hchanged⟩ := dispatch_changes_state s.core.myId
      ((s.core.heap ptr).updateLastContact draw.now) hstate hkind draw
    have hscreen : (screened ssl s
        (arrivedDatagram s (s.core.heap ptr).addr bytes draw)).accepted = true := by
      rw [hplain]
      exact hpasses
    have hpass := pass_of_known hrecv hscreen hfind
    simp only [hplain, hdispatch] at hpass
    have hsession := hundisturbed _ _ hpass
    rw [Core.setNode_heap_self] at hsession
    exact hchanged (congrArg Prod.fst hsession)
  · intro hnot after sent hpass
    cases passing_of_pass hpass with
    | idle => rfl
    | rejected => rfl
    | new hrecv' _ hfind' =>
      obtain rfl := Option.some.inj (hrecv.symm.trans hrecv')
      exact absurd (hfind.symm.trans hfind') (by simp)
    | known hrecv' hscreen hfind' hhandled =>
      obtain rfl := Option.some.inj (hrecv.symm.trans hrecv')
      obtain rfl := Option.some.inj (hfind.symm.trans hfind')
      rw [hplain] at hscreen hhandled
      rw [Core.setNode_heap_self]
      exact hhandled.session_eq hstate (fun h ↦ hnot ⟨hscreen, Or.inl h⟩)
        (fun h ↦ hnot ⟨hscreen, Or.inr h⟩)

/-- `undisturbed_iff` for a connected record and a plaintext `Ping`. -/
theorem undisturbed_iff_tagged : ∃ s, Reachable tagged s ∧ (s.core.heap 0).state = .connected ∧
    (Undisturbed tagged s 0 (taggedDatagram .ping 7 []) (taggedDraw 9) ↔
      ¬ Disturbing tagged s 0 (arrivedDatagram s (s.core.heap 0).addr (taggedDatagram .ping 7 [])
        (taggedDraw 9))) := by
  obtain ⟨s, hreach, hfind, hstate, -, -⟩ := exists_connected
  have hptr : 0 < s.core.next := (hreach.wellFormed.addr_of_find hfind).1
  exact ⟨s, hreach, hstate,
    undisturbed_iff hreach hptr (by simp [hstate]) (by decide +kernel) (taggedDraw 9)⟩

/-- A plaintext `PublicKeyRequest` resets a connected record: it is in `connected`, and after the
pass it is in `keyExchange`. -/
theorem not_undisturbed : ∃ s, Reachable tagged s ∧ 0 < s.core.next ∧
    (s.core.heap 0).state = .connected ∧
    (taggedDatagram .publicKeyRequest 7 []).take 5 = kapuaMagicNumber ∧
    ¬ Undisturbed tagged s 0 (taggedDatagram .publicKeyRequest 7 []) (taggedDraw 9) := by
  obtain ⟨s, hreach, hcheck⟩ := exists_reachable tagged (empty_taggedStart 5 1) taggedHandshake
    (fun s ↦ s.core.findNode ⟨1, 1⟩ == some 0 && decide ((s.core.heap 0).state = .connected) &&
      (pass tagged s (.datagram (s.core.heap 0).addr (taggedDatagram .publicKeyRequest 7 []))
        (taggedDraw 9)).toOption.any
        fun result : LoopState UInt8 × List Sent ↦
          decide ((result.1.core.heap 0).state = .keyExchange)) (by decide +kernel)
  simp only [Bool.and_eq_true, beq_iff_eq, decide_eq_true_eq] at hcheck
  obtain ⟨⟨hfind, hstate⟩, hafter⟩ := hcheck
  refine ⟨s, hreach, (hreach.wellFormed.addr_of_find hfind).1, hstate, by decide +kernel, ?_⟩
  intro hundisturbed
  obtain ⟨result, hpass, hreset⟩ := exists_of_any hafter
  have hsession := congrArg Prod.fst (hundisturbed result.1 result.2 hpass)
  change (result.1.core.heap 0).state = (s.core.heap 0).state at hsession
  rw [of_decide_eq_true hreset, hstate] at hsession
  cases hsession

end Kapua
