import Kapua.Node.TaggedCipher

/-!
# Only Kapua packets

The magic number is what tells a Kapua packet from anything else that arrives at the port.
`_receive` checks it first, and when it is missing tries to decrypt, which it can only do for a
sender whose record has reached `checkEncryption`. For any other sender the check leads nowhere:
there is no branch that refuses the datagram, and it goes on to the version check as if it had
passed. `only_kapua_iff` says that these datagrams are the only ones that get through unchecked.
-/

set_option autoImplicit false
set_option relaxedAutoImplicit false

namespace Kapua

variable {PKey : Type} (ssl : OpenSSL PKey)

/-- `_receive` acts on the datagram: it returns true, creates a record or sends something. -/
def ActsOn (s : LoopState PKey) (addr : Sockaddr) (bytes : Bytes) (draw : Draw PKey) : Prop :=
  (receive ssl s (.datagram addr bytes) draw).accepted = true ∨
    (receive ssl s (.datagram addr bytes) draw).loop.core.next ≠ s.core.next ∨
    (receive ssl s (.datagram addr bytes) draw).sent ≠ []

/-- The packet what arrived decrypts to under the session key of the sender's record, for a record
that has reached `checkEncryption`. -/
def DecryptsTo (s : LoopState PKey) (arrived : Arrived) (pkt : Packet) : Prop :=
  ∃ record plaintext, s.core.peer arrived.fromAddr = some record ∧
    NodeState.checkEncryption ≤ record.state ∧
    aesDecrypt ssl record.aesContextRx (arrived.pkt.slice 0 arrived.size) = some plaintext ∧
    pkt = arrived.pkt.write 0 plaintext

/-- Only Kapua packets are accepted.
* `magic`: whatever `_receive` acts on, the packet it hands on begins with the magic number, as
  received or after decryption.
* `rejected`: a datagram that is neither valid plaintext nor can be decrypted is not accepted. -/
structure OnlyKapua (s : LoopState PKey) (addr : Sockaddr) (bytes : Bytes) (draw : Draw PKey) :
    Prop where
  magic : ActsOn ssl s addr bytes draw →
    (receive ssl s (.datagram addr bytes) draw).loop.pkt.checkMagicValid = true ∧
      ((receive ssl s (.datagram addr bytes) draw).loop.pkt =
          (arrivedDatagram s addr bytes draw).pkt ∨
        DecryptsTo ssl s (arrivedDatagram s addr bytes draw)
          (receive ssl s (.datagram addr bytes) draw).loop.pkt)
  rejected : (arrivedDatagram s addr bytes draw).pkt.checkMagicValid = false →
    (¬ ∃ pkt, DecryptsTo ssl s (arrivedDatagram s addr bytes draw) pkt) →
      (receive ssl s (.datagram addr bytes) draw).accepted = false

/-- The datagrams that are accepted without a magic number: nothing can be decrypted for their
sender, and they pass the checks of the size, the version and the sender's id. -/
def Unchecked (s : LoopState PKey) (arrived : Arrived) : Prop :=
  arrived.pkt.checkMagicValid = false ∧
    (∀ record, s.core.peer arrived.fromAddr = some record →
      ¬ NodeState.checkEncryption ≤ record.state) ∧
    passesHeader s.core.myId arrived.pkt arrived.size = true

variable {ssl}

/-- `_receive` acts on a datagram exactly when it accepts it. -/
theorem actsOn_iff (s : LoopState PKey) (addr : Sockaddr) (bytes : Bytes) (draw : Draw PKey) :
    ActsOn ssl s addr bytes draw ↔
      (screened ssl s (arrivedDatagram s addr bytes draw)).accepted = true := by
  have hrecv := recvfrom_datagram s addr bytes draw
  unfold ActsOn
  rw [receive_accepted hrecv, receive_of_arrived hrecv]
  cases (screened ssl s (arrivedDatagram s addr bytes draw)).accepted with
  | false => simp
  | true => simp

/-- A datagram is accepted without a magic number, or the packet handed on begins with it. -/
theorem magic_of_accepted {s : LoopState PKey} {arrived : Arrived}
    (haccepted : (screened ssl s arrived).accepted = true) (hchecked : ¬ Unchecked s arrived) :
    (screened ssl s arrived).pkt.checkMagicValid = true ∧
      ((screened ssl s arrived).pkt = arrived.pkt ∨
        DecryptsTo ssl s arrived (screened ssl s arrived).pkt) := by
  obtain ⟨meaningful, hacceptance⟩ := acceptance_of_accepted haccepted
  generalize (screened ssl s arrived).pkt = pkt at hacceptance
  cases hacceptance with
  | plain hplain hpasses =>
    refine ⟨?_, Or.inl rfl⟩
    by_contra hmagic
    rw [Bool.not_eq_true] at hmagic
    have hstate := hplain.resolve_left (by simp [hmagic])
    exact hchecked ⟨hmagic, hstate, hpasses⟩
  | decrypted _ hpeer hstate hopen hpkt hvalid =>
    exact ⟨hvalid, Or.inr ⟨_, _, hpeer, hstate, hopen, hpkt⟩⟩

/-- Only Kapua packets are accepted, unless the datagram is one of those that get through
unchecked. -/
theorem only_kapua_iff (s : LoopState PKey) (addr : Sockaddr) (bytes : Bytes) (draw : Draw PKey) :
    OnlyKapua ssl s addr bytes draw ↔ ¬ Unchecked s (arrivedDatagram s addr bytes draw) := by
  have hrecv := recvfrom_datagram s addr bytes draw
  constructor
  · rintro honly ⟨hmagic, hstate, hpasses⟩
    have hacceptance : Acceptance ssl s (arrivedDatagram s addr bytes draw) _ _ :=
      .plain (Or.inr hstate) hpasses
    have hrejected := honly.rejected hmagic fun ⟨_, record, _, hpeer, hreached, _⟩ ↦
      hstate record hpeer hreached
    rw [receive_accepted hrecv, hacceptance.screened_eq.1] at hrejected
    cases hrejected
  · intro hchecked
    constructor
    · intro hacts
      rw [receive_pkt hrecv]
      exact magic_of_accepted ((actsOn_iff s addr bytes draw).mp hacts) hchecked
    · intro hmagic hundecryptable
      rw [receive_accepted hrecv]
      by_contra haccepted
      rw [Bool.not_eq_false] at haccepted
      obtain ⟨hvalid, hplain | hdecrypts⟩ := magic_of_accepted haccepted hchecked
      · rw [hplain, hmagic] at hvalid
        cases hvalid
      · exact hundecryptable ⟨_, hdecrypts⟩

/-- A header of zero bytes from an unknown sender is accepted: the magic number is missing, and
`_receive` returns true, creates a record and sends a `PublicKeyRequest`. -/
theorem not_only_kapua : (List.replicate kapuaHeaderSize (0 : UInt8)).take 5 ≠ kapuaMagicNumber ∧
    (receive tagged (taggedStart 5 1) (.datagram ⟨1, 1⟩ (List.replicate kapuaHeaderSize 0))
      (taggedDraw 9)).accepted = true ∧
    ¬ OnlyKapua tagged (taggedStart 5 1) ⟨1, 1⟩ (List.replicate kapuaHeaderSize 0)
      (taggedDraw 9) := by
  have haccepted : (receive tagged (taggedStart 5 1) (.datagram ⟨1, 1⟩
      (List.replicate kapuaHeaderSize 0)) (taggedDraw 9)).accepted = true := by decide +kernel
  have hmagic : (receive tagged (taggedStart 5 1) (.datagram ⟨1, 1⟩
      (List.replicate kapuaHeaderSize 0)) (taggedDraw 9)).loop.pkt.checkMagicValid = false := by
    decide +kernel
  refine ⟨by decide, haccepted, fun honly ↦ ?_⟩
  have hvalid := (honly.magic (Or.inl haccepted)).1
  rw [hmagic] at hvalid
  cases hvalid

end Kapua
