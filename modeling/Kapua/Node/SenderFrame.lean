import Kapua.Node.TaggedCipher

/-!
# What a datagram touches

The frame of a pass over a datagram. Of the node table it changes the record of the sender's address
and nothing else: a record under another address stays the same, an id that is registered stays
registered for the same record, and a record that is created is filed under the sender's address.
What is sent goes to the sender, and there are at most two datagrams of it, the request to a new
sender and the reply to its packet.
-/

set_option autoImplicit false
set_option relaxedAutoImplicit false

namespace Kapua

variable {PKey : Type} {ssl : OpenSSL PKey}

/-- `_send` hands at most one datagram to `sendto`. -/
theorem length_send_le (ssl : OpenSSL PKey) (node : Option (Node PKey)) (pkt : Packet)
    (addr : Sockaddr) (draw : Draw PKey) : (send ssl node pkt addr draw).sent.length ≤ 1 := by
  cases node with
  | none => exact le_refl 1
  | some node =>
    unfold send
    dsimp only
    split_ifs
    · cases aesEncrypt ssl node.aesContextTx draw.iv pkt.datagram with
      | none => exact Nat.zero_le 1
      | some buffer => exact le_refl 1
    · exact le_refl 1

/-- Handling a packet sends at most one datagram. -/
theorem Handling.length_le {myId : UInt64} {keys : KeyPair PKey} {node after : Node PKey}
    {pkt : Packet} {draw : Draw PKey} {sent : List Sent}
    (h : Handling ssl myId keys node pkt draw after sent) : sent.length ≤ 1 := by
  cases h with
  | request => exact le_refl 1
  | reply => exact le_refl 1
  | context => exact length_send_le ssl _ _ _ _
  | _ => exact Nat.zero_le 1

/-- Handling a packet does not change the id of the record. -/
theorem Handling.id {myId : UInt64} {keys : KeyPair PKey} {node after : Node PKey}
    {pkt : Packet} {draw : Draw PKey} {sent : List Sent}
    (h : Handling ssl myId keys node pkt draw after sent) : after.id = node.id := by
  cases h with
  | context _ _ _ hafter => rw [hafter]
  | _ => rfl

namespace Passing

variable {s after : LoopState PKey} {arrival : Arrival} {draw : Draw PKey} {sent : List Sent}

/-- An id that is registered stays registered for the same record. -/
theorem findNodeById_of_some (h : Passing ssl s arrival draw after sent) {id : UInt64}
    {ptr : NodePtr} (hid : s.core.findNodeById id = some ptr) :
    after.core.findNodeById id = some ptr := by
  cases h with
  | idle => exact hid
  | rejected => exact hid
  | known => exact hid
  | new _ _ _ hcore _ =>
    subst hcore
    rw [Core.setNode_findNodeById, Core.addNode_findNodeById, if_neg, hid]
    rintro ⟨rfl, hnone⟩
    rw [hid] at hnone
    cases hnone

section Arrived

variable {arrived : Arrived} (hrecv : recvfrom s arrival draw = some arrived)

include hrecv

/-- A pass leaves the record that another address finds. -/
theorem findNode_of_ne (h : Passing ssl s arrival draw after sent) {addr : Sockaddr}
    (hne : addr ≠ arrived.fromAddr) : after.core.findNode addr = s.core.findNode addr := by
  cases h with
  | idle => rfl
  | rejected => rfl
  | known => rfl
  | new hrecv' _ hfind hcore _ =>
    obtain rfl := Option.some.inj (hrecv.symm.trans hrecv')
    subst hcore
    rw [Core.setNode_findNode, Core.addNode_findNode hfind, if_neg hne]

/-- A pass creates no record, or one for the sender's address. -/
theorem next_eq (h : Passing ssl s arrival draw after sent) : after.core.next = s.core.next ∨
    (after.core.next = s.core.next + 1 ∧
      (after.core.heap s.core.next).addr = arrived.fromAddr) := by
  cases h with
  | idle => exact Or.inl rfl
  | rejected => exact Or.inl rfl
  | known => exact Or.inl rfl
  | new hrecv' _ hfind hcore hhandled =>
    obtain rfl := Option.some.inj (hrecv.symm.trans hrecv')
    subst hcore
    refine Or.inr ⟨rfl, ?_⟩
    rw [Core.setNode_heap_self]
    exact hhandled.addr

/-- What a pass sends goes to the sender. -/
theorem addr_of_mem (h : Passing ssl s arrival draw after sent) (hs : s.core.WellFormed)
    {out : Sent} (hout : out ∈ sent) : out.addr = arrived.fromAddr := by
  cases h with
  | idle => cases hout
  | rejected => cases hout
  | known hrecv' _ hfind hhandled =>
    obtain rfl := Option.some.inj (hrecv.symm.trans hrecv')
    rw [hhandled.addr_of_mem hout]
    exact (hs.addr_of_find hfind).2
  | new hrecv' _ _ _ hhandled =>
    obtain rfl := Option.some.inj (hrecv.symm.trans hrecv')
    obtain rfl | hout := List.mem_cons.mp hout
    · rfl
    · exact hhandled.addr_of_mem hout

end Arrived

/-- A pass sends at most two datagrams. -/
theorem length_le (h : Passing ssl s arrival draw after sent) : sent.length ≤ 2 := by
  cases h with
  | idle => exact Nat.zero_le 2
  | rejected => exact Nat.zero_le 2
  | known _ _ _ hhandled => exact hhandled.length_le.trans (Nat.le_succ 1)
  | new _ _ _ _ hhandled => exact Nat.succ_le_succ hhandled.length_le

end Passing

/-- Handling a datagram touches only its sender. The record of every other address stays the same,
every registered id keeps its record, and the own key pair is unchanged. At most one record is
created, for the sender's address, at most two datagrams are sent, to that address, and nothing
happens at all if `_receive` returns false. Assumes: a reachable node table and a pass without an
exception. -/
theorem touches_only_sender {s after : LoopState PKey} (hs : Reachable ssl s) {sender : Sockaddr}
    {bytes : Bytes} {draw : Draw PKey} {sent : List Sent}
    (h : pass ssl s (.datagram sender bytes) draw = .ok (after, sent)) :
    (∀ addr, addr ≠ sender → after.core.findNode addr = s.core.findNode addr ∧
      after.core.peer addr = s.core.peer addr) ∧
    (∀ id ptr, s.core.findNodeById id = some ptr → after.core.findNodeById id = some ptr) ∧
    after.core.keys = s.core.keys ∧
    (after.core.next = s.core.next ∨ (after.core.next = s.core.next + 1 ∧
      (after.core.heap s.core.next).addr = sender)) ∧
    (sent.length ≤ 2 ∧ ∀ out ∈ sent, out.addr = sender) ∧
    ((receive ssl s (.datagram sender bytes) draw).accepted = false →
      after.core = s.core ∧ sent = []) := by
  have hrecv := recvfrom_datagram s sender bytes draw
  have hpassing := passing_of_pass h
  refine ⟨fun addr hne ↦ ?_, fun id ptr ↦ hpassing.findNodeById_of_some, hpassing.keys_eq, ?_,
    ⟨hpassing.length_le, fun out ↦ ?_⟩, fun hrefused ↦ ?_⟩
  · exact ⟨hpassing.findNode_of_ne hrecv hne, hpassing.peer_of_ne hs.wellFormed hrecv hne⟩
  · exact hpassing.next_eq hrecv
  · exact hpassing.addr_of_mem hrecv hs.wellFormed
  · rw [receive_accepted hrecv] at hrefused
    exact hpassing.refused hrecv hrefused

/-- `touches_only_sender` for the first datagram of a new sender, a `PublicKeyRequest` that is
answered at once. -/
theorem touches_only_sender_request : ∃ after sent,
    pass tagged (taggedStart 5 1) (.datagram ⟨1, 1⟩ (taggedDatagram .publicKeyRequest 7 []))
      (taggedDraw 9) = .ok (after, sent) ∧
    after.core.peer ⟨2, 2⟩ = none ∧ sent.length ≤ 2 ∧ ∀ out ∈ sent, out.addr = ⟨1, 1⟩ := by
  obtain ⟨⟨after, sent⟩, hpass⟩ : ∃ result, pass tagged (taggedStart 5 1)
      (.datagram ⟨1, 1⟩ (taggedDatagram .publicKeyRequest 7 [])) (taggedDraw 9) = .ok result :=
    exists_of_isOk (by decide +kernel)
  obtain ⟨hothers, -, -, -, hsent, -⟩ :=
    touches_only_sender ⟨_, [], empty_taggedStart 5 1, rfl⟩ hpass
  refine ⟨after, sent, hpass, ?_, hsent⟩
  rw [(hothers ⟨2, 2⟩ (by decide)).2]
  exact (empty_taggedStart 5 1).peer _

end Kapua
