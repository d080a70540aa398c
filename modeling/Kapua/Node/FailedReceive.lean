import Kapua.Node.ReceiveLoop
import Kapua.Node.TaggedCipher

/-!
# When `recvfrom` fails

`_receive` keeps the result of `recvfrom` in a `uint16_t`, so that the minus one of a failure is the
size 65535, which passes both checks of the size. It goes on with what earlier datagrams left in the
packet buffer and the address variable. The size it parses with is the number of bytes received
exactly if `recvfrom` did not fail (`receive_sound_iff`), and a failed call is without effect
exactly if what is left is not a packet that `_receive` lets through (`failed_harmless_iff`).
-/

set_option autoImplicit false
set_option relaxedAutoImplicit false

namespace Kapua

variable {PKey : Type} (ssl : OpenSSL PKey)

/-- A failed `recvfrom` has no effect: `_receive` returns false, and the pass of the loop changes no
record and sends nothing. -/
def FailedHarmless (s : LoopState PKey) (draw : Draw PKey) : Prop :=
  (receive ssl s .failed draw).accepted = false ∧
    ∃ loop, pass ssl s .failed draw = .ok (loop, []) ∧ loop.core = s.core

/-- A failed `recvfrom` has no effect, and whenever the size passes its checks it is the number of
bytes that were received. -/
def ReceiveSound (s : LoopState PKey) (arrival : Arrival) (draw : Draw PKey) : Prop :=
  (arrival = .failed → FailedHarmless ssl s draw) ∧
    ∀ arrived, recvfrom s arrival draw = some arrived → kapuaHeaderSize ≤ arrived.size →
      arrived.size ≤ kapuaMaxPacketSize ∧ ∃ addr bytes, arrival = .datagram addr bytes ∧
        arrived.size = min bytes.length kapuaMaxPacketSize

/-- What `_receive` goes on with after a failed `recvfrom`. -/
def staleArrived (s : LoopState PKey) (draw : Draw PKey) : Arrived :=
  ⟨fun i ↦ if i < kapuaMaxPacketSize then s.pkt i else draw.behind i, s.fromAddr, 65535⟩

theorem recvfrom_failed (s : LoopState PKey) (draw : Draw PKey) :
    recvfrom s .failed draw = some (staleArrived s draw) := rfl

/-- A failed `recvfrom` is without effect exactly if the packet buffer and the address variable hold
no packet that the checks of `_receive` let through. -/
theorem failed_harmless_iff (s : LoopState PKey) (draw : Draw PKey) :
    FailedHarmless ssl s draw ↔
      ¬ ∃ pkt meaningful, Acceptance ssl s (staleArrived s draw) pkt meaningful := by
  have hrecv := recvfrom_failed s draw
  unfold FailedHarmless
  rw [receive_accepted hrecv]
  constructor
  · rintro ⟨hrejected, -⟩ ⟨pkt, meaningful, hacceptance⟩
    exact absurd hacceptance.screened_eq.1 (by simp [hrejected])
  · intro hnone
    have hrejected : (screened ssl s (staleArrived s draw)).accepted = false := by
      by_contra haccepted
      rw [Bool.not_eq_false] at haccepted
      obtain ⟨meaningful, hacceptance⟩ := acceptance_of_accepted haccepted
      exact hnone ⟨_, meaningful, hacceptance⟩
    exact ⟨hrejected, _, pass_of_rejected hrecv hrejected, rfl⟩

/-- `_receive` handles the outcome of `recvfrom` soundly exactly if it is not a failure. -/
theorem receive_sound_iff (s : LoopState PKey) (arrival : Arrival) (draw : Draw PKey) :
    ReceiveSound ssl s arrival draw ↔ arrival ≠ .failed := by
  constructor
  · rintro ⟨-, hsize⟩ rfl
    have hpasses : kapuaHeaderSize ≤ (staleArrived s draw).size := by simp [staleArrived]
    obtain ⟨-, addr, bytes, harrival, -⟩ := hsize _ (recvfrom_failed s draw) hpasses
    exact absurd harrival (by simp)
  · intro hreceived
    refine ⟨fun hfailed ↦ absurd hfailed hreceived, fun arrived hrecv _ ↦ ?_⟩
    cases arrival with
    | nothing => exact absurd hrecv (by simp [recvfrom])
    | failed => exact absurd rfl hreceived
    | datagram addr bytes =>
      rw [recvfrom_datagram] at hrecv
      obtain rfl := Option.some.inj hrecv
      have hlength : (arrivedDatagram s addr bytes draw).size =
          min bytes.length kapuaMaxPacketSize := by
        simp [arrivedDatagram, Nat.min_comm]
      exact ⟨hlength ▸ Nat.min_le_right _ _, addr, bytes, rfl, hlength⟩

/-- After a request has arrived, a failed `recvfrom` makes `_receive` take it for a second one. -/
theorem failed_receive_replays : ¬ ∀ s arrival draw, Reachable tagged s →
    ReceiveSound tagged s arrival draw := by
  intro hsound
  obtain ⟨s, hreachable, haccepted⟩ := exists_reachable tagged (empty_taggedStart 5 1)
    [(.datagram ⟨1, 1⟩ (taggedDatagram .publicKeyRequest 7 []), taggedDraw 9)]
    (fun s ↦ (receive tagged s .failed (taggedDraw 9)).accepted) (by decide +kernel)
  have hrejected := ((hsound s .failed (taggedDraw 9) hreachable).1 rfl).1
  rw [haccepted] at hrejected
  exact absurd hrejected (by decide)

end Kapua
