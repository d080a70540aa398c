import Kapua.Node.ReceiveLoop
import Kapua.Node.TaggedCipher

/-!
# Datagrams that end the receive loop

`_main_loop` has no handler, so a `runtime_error` thrown below it ends its thread. With an own
public key that can be sent, the only throwing call a datagram can reach is the one in
`read_public_key`: the reader throws on bytes that are not an encoded key, one level below a case
that otherwise reports failure by leaving the switch.

`pass_returns_iff` is the exact condition. A pass over a datagram fails to return if and only if
the datagram is an `UndecodableReply`: a `PublicKeyReply` with a good version and a foreign sender
id, from an address whose record is in `keyExchange`, whose data `d2i_PublicKey` refuses. The
record can be brought there by one `PublicKeyRequest`, and no magic number is needed, so two short
datagrams from anywhere end the loop (`pass_error_undecodableReply`).
-/

set_option autoImplicit false
set_option relaxedAutoImplicit false

namespace Kapua

variable {PKey : Type} {ssl : OpenSSL PKey}

/-- Handling a packet throws exactly when it is a `PublicKeyReply` for a record in `keyExchange`
whose data is not an encoded key. Assumes: an own key pair that can be sent. -/
theorem dispatch_error_iff {keys : KeyPair PKey} (hkeys : keys.Writable ssl) (myId : UInt64)
    (node : Node PKey) (pkt : Packet) (draw : Draw PKey) :
    (∃ what, dispatch ssl myId keys node pkt draw = .error what) ↔
      pkt.type = some .publicKeyReply ∧ node.state = .keyExchange ∧
        ssl.d2iPublicKey pkt.data = none := by
  cases htype : pkt.type with
  | none => simp [dispatch, htype]
  | some type =>
    cases type with
    | ping => simp [dispatch, htype]
    | publicKeyRequest =>
      obtain ⟨reply, hreply⟩ := writePublicKey_of_writable hkeys
        (Packet.construct draw.reply .publicKeyReply myId node.id)
      simp [dispatch, htype, onPublicKeyRequest, hreply]
    | publicKeyReply =>
      by_cases hstate : node.state = .keyExchange
      · cases hkey : ssl.d2iPublicKey pkt.data with
        | none => simp [dispatch, htype, onPublicKeyReply, hstate, Packet.readPublicKey, hkey]
        | some key =>
          simp only [dispatch, htype, onPublicKeyReply, hstate, Packet.readPublicKey, hkey]
          cases encryptAesContext ssl draw.sessionKey (some key) kapuaMaxDataSize draw.padding <;>
            simp
      · simp [dispatch, htype, onPublicKeyReply, hstate]
    | encryptionContext =>
      simp only [dispatch, htype, onEncryptionContext]
      split_ifs <;> simp
    | ready =>
      simp only [dispatch, htype, onReady]
      split_ifs <;> simp
    | discovery => simp [dispatch, htype]

variable (ssl) in
/-- The datagrams that end the loop: accepted `PublicKeyReply` packets from an address whose record
is in `keyExchange`, with data that is not an encoded key. -/
def UndecodableReply (s : LoopState PKey) (addr : Sockaddr) (bytes : Bytes) (draw : Draw PKey) :
    Prop :=
  ∃ node, s.core.peer addr = some node ∧ node.state = .keyExchange ∧
    passesHeader s.core.myId (arrivedDatagram s addr bytes draw).pkt
      (arrivedDatagram s addr bytes draw).size = true ∧
    (arrivedDatagram s addr bytes draw).pkt.type = some .publicKeyReply ∧
    ssl.d2iPublicKey (arrivedDatagram s addr bytes draw).pkt.data = none

/-- A pass over a datagram throws exactly when the datagram is an `UndecodableReply`. Assumes: an
own key pair that can be sent. -/
theorem pass_error_iff {s : LoopState PKey} (hkeys : s.core.keys.Writable ssl) (addr : Sockaddr)
    (bytes : Bytes) (draw : Draw PKey) :
    (∃ what, pass ssl s (.datagram addr bytes) draw = .error what) ↔
      UndecodableReply ssl s addr bytes draw := by
  have hrecv := recvfrom_datagram s addr bytes draw
  constructor
  · rintro ⟨what, herror⟩
    cases hscreen : (screened ssl s (arrivedDatagram s addr bytes draw)).accepted with
    | false =>
      rw [pass_of_rejected hrecv hscreen] at herror
      cases herror
    | true =>
      cases hfind : s.core.findNode addr with
      | none =>
        -- a record that was just created is `initialised`, so nothing is read from the packet
        rw [pass_of_new hrecv hscreen hfind] at herror
        split at herror
        · rename_i what' hdispatch
          obtain ⟨-, hstate, -⟩ := (dispatch_error_iff hkeys _ _ _ _).mp ⟨what', hdispatch⟩
          cases hstate
        · cases herror
      | some ptr =>
        rw [pass_of_known hrecv hscreen hfind] at herror
        split at herror
        · rename_i what' hdispatch
          obtain ⟨htype, hstate, hkey⟩ := (dispatch_error_iff hkeys _ _ _ _).mp ⟨what', hdispatch⟩
          have hpeer : s.core.peer addr = some (s.core.heap ptr) := Core.peer_of_find hfind
          have hexchange : (s.core.heap ptr).state = .keyExchange := hstate
          have hplain := screened_of_unsealed ssl (arrivedDatagram s addr bytes draw) hpeer
            (by simp [hexchange])
          rw [hplain] at hscreen htype hkey
          exact ⟨_, hpeer, hexchange, hscreen, htype, hkey⟩
        · cases herror
  · rintro ⟨node, hpeer, hstate, hpasses, htype, hkey⟩
    have hplain := screened_of_unsealed ssl (arrivedDatagram s addr bytes draw) hpeer
      (by simp [hstate])
    have hscreen : (screened ssl s (arrivedDatagram s addr bytes draw)).accepted = true := by
      rw [hplain]
      exact hpasses
    obtain ⟨ptr, hfind, rfl⟩ := Option.map_eq_some_iff.mp hpeer
    rw [pass_of_known hrecv hscreen hfind]
    obtain ⟨what, hdispatch⟩ := (dispatch_error_iff hkeys s.core.myId
      ((s.core.heap ptr).updateLastContact draw.now)
      (screened ssl s (arrivedDatagram s addr bytes draw)).pkt draw).mpr
        ⟨by rw [hplain]; exact htype, hstate, by rw [hplain]; exact hkey⟩
    exact ⟨what, by rw [hdispatch]⟩

/-- A pass over a datagram returns exactly when the datagram is no `UndecodableReply`. Assumes: an
own key pair that can be sent. -/
theorem pass_returns_iff (s : LoopState PKey) (hkeys : s.core.keys.Writable ssl)
    (addr : Sockaddr) (bytes : Bytes) (draw : Draw PKey) :
    (∃ after, pass ssl s (.datagram addr bytes) draw = .ok after) ↔
      ¬ UndecodableReply ssl s addr bytes draw := by
  rw [← pass_error_iff hkeys]
  cases pass ssl s (.datagram addr bytes) draw <;> simp

/-- The node of `taggedStart` has a public key that can be sent. -/
theorem writable_tagged (key : UInt8) (privateKey : Option UInt8) :
    KeyPair.Writable tagged ⟨some key, privateKey⟩ :=
  ⟨key, [0x30, key], rfl, rfl, by simp, by simp⟩

/-- `pass_returns_iff` for a `PublicKeyRequest` from a new sender. -/
theorem pass_returns_iff_tagged :
    (∃ after, pass tagged (taggedStart 5 1)
        (.datagram ⟨1, 1⟩ (taggedDatagram .publicKeyRequest 7 [])) (taggedDraw 9) = .ok after) ↔
      ¬ UndecodableReply tagged (taggedStart 5 1) ⟨1, 1⟩ (taggedDatagram .publicKeyRequest 7 [])
        (taggedDraw 9) :=
  pass_returns_iff (taggedStart 5 1) (writable_tagged 1 (some 1)) _ _ _

/-- After one `PublicKeyRequest`, a `PublicKeyReply` without data ends the loop: a reachable state,
an own key pair that can be sent, and a datagram of header size whose handling throws. -/
theorem pass_error_undecodableReply : ∃ s, Reachable tagged s ∧ s.core.keys.Writable tagged ∧
    (taggedDatagram .publicKeyReply 7 []).length ≤ kapuaMaxPacketSize ∧
    ∃ what, pass tagged s (.datagram ⟨1, 1⟩ (taggedDatagram .publicKeyReply 7 []))
      (taggedDraw 9) = .error what := by
  obtain ⟨s, hreach, hcheck⟩ := exists_reachable tagged (empty_taggedStart 5 1)
    [(.datagram ⟨1, 1⟩ (taggedDatagram .publicKeyRequest 7 []), taggedDraw 9)]
    (fun s ↦ s.core.keys.publicKey == some 1 && !(pass tagged s
      (.datagram ⟨1, 1⟩ (taggedDatagram .publicKeyReply 7 [])) (taggedDraw 9)).isOk)
    (by decide +kernel)
  simp only [Bool.and_eq_true, beq_iff_eq, Bool.not_eq_true'] at hcheck
  refine ⟨s, hreach, ⟨1, [0x30, 1], hcheck.1, rfl, by decide, by decide⟩, by decide, ?_⟩
  cases hpass : pass tagged s (.datagram ⟨1, 1⟩ (taggedDatagram .publicKeyReply 7 []))
      (taggedDraw 9) with
  | error what => exact ⟨what, rfl⟩
  | ok after =>
    rw [hpass] at hcheck
    exact absurd hcheck.2 (by simp [Except.isOk, Except.toBool])

end Kapua
