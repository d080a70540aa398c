import Kapua.Node.ReceiveLoop

/-!
# The front of the packet buffer

`SameFront` relates two packet buffers that hold the same bytes up to some size and may differ
behind it. Every field of the header is read from the front, and so is the data as far as `length`
says that it reaches. `recvfrom` overwrites only the front of the buffer, so what it delivers has
the front of the packet that was sent (`sameFront_datagram`), and a decrypted packet has the front
of its plaintext (`sameFront_write`).
-/

set_option autoImplicit false
set_option relaxedAutoImplicit false

namespace Kapua

variable {PKey : Type}

/-- Two packet buffers whose first `size` bytes are the same. -/
def SameFront (size : ℕ) (pkt pkt' : Packet) : Prop := ∀ i, i < size → pkt i = pkt' i

/-- The same front, as a slice. -/
theorem sameFront_iff {size : ℕ} {pkt pkt' : Packet} :
    SameFront size pkt pkt' ↔ pkt.slice 0 size = pkt'.slice 0 size := by
  constructor
  · intro h
    exact Memory.slice_congr fun i _ hi ↦ h i (by omega)
  · intro h i hi
    have hbyte := congrArg (fun bytes : Bytes ↦ bytes[i]?) h
    simpa only [Memory.getElem?_slice, if_pos hi, Nat.zero_add, Option.some.injEq] using hbyte

namespace SameFront

variable {size : ℕ} {pkt pkt' : Packet} (h : SameFront size pkt pkt')

include h

theorem slice_eq {start count : ℕ} (hend : start + count ≤ size) :
    pkt.slice start count = pkt'.slice start count :=
  Memory.slice_congr fun i _ hi ↦ h i (by omega)

theorem write (bytes : Bytes) : SameFront size (pkt.write 0 bytes) (pkt'.write 0 bytes) := by
  intro i hi
  simp [Memory.write, h i hi]

variable (hsize : kapuaHeaderSize ≤ size)

include hsize

theorem checkMagicValid_eq : pkt.checkMagicValid = pkt'.checkMagicValid := by
  have hmagic : pkt.magic = pkt'.magic := h.slice_eq (le_trans (by decide) hsize)
  rw [Packet.checkMagicValid, Packet.checkMagicValid, hmagic]

theorem type_eq : pkt.type = pkt'.type := by
  have hcode : pkt.slice 8 2 = pkt'.slice 8 2 := h.slice_eq (le_trans (by decide) hsize)
  rw [Packet.type, Packet.type, hcode]

theorem length_eq : pkt.length = pkt'.length := by
  have hfield : pkt.slice 44 2 = pkt'.slice 44 2 := h.slice_eq hsize
  rw [Packet.length, Packet.length, hfield]

theorem passesHeader_eq (myId : UInt64) :
    passesHeader myId pkt size = passesHeader myId pkt' size := by
  have hmajor : pkt 5 = pkt' 5 := h 5 (lt_of_lt_of_le (by decide) hsize)
  have hfrom : pkt.slice 18 8 = pkt'.slice 18 8 := h.slice_eq (le_trans (by decide) hsize)
  simp only [passesHeader, Packet.checkVersionValid, Packet.version, hmajor, Packet.fromId, hfrom]

/-- Data that lies within the front is the same. -/
theorem data_eq (hlength : kapuaHeaderSize + pkt.length ≤ size) : pkt.data = pkt'.data := by
  rw [Packet.data, Packet.data, ← h.length_eq hsize]
  exact h.slice_eq hlength

end SameFront

/-- What `recvfrom` delivers for a datagram has the same front whatever the buffer held. -/
theorem sameFront_arrivedDatagram (s s' : LoopState PKey) (addr : Sockaddr) (bytes : Bytes)
    (draw draw' : Draw PKey) : SameFront (arrivedDatagram s addr bytes draw).size
      (arrivedDatagram s addr bytes draw).pkt (arrivedDatagram s' addr bytes draw').pkt := by
  intro i hi
  have hmem : i - 0 < (bytes.take kapuaMaxPacketSize).length := hi
  simp only [arrivedDatagram]
  rw [Memory.write_of_mem _ (Nat.zero_le i) hmem, Memory.write_of_mem _ (Nat.zero_le i) hmem]

/-- A buffer that a packet was written over has the front of that packet. -/
theorem sameFront_write (buffer pkt : Packet) (size : ℕ) :
    SameFront size (buffer.write 0 (pkt.slice 0 size)) pkt := by
  intro i hi
  have hmem : i - 0 < (pkt.slice 0 size).length := by simpa using hi
  rw [Memory.write_of_mem _ (Nat.zero_le i) hmem]
  simp [Memory.slice]

/-- What `recvfrom` delivers for a packet that was sent as it is has the front of that packet.
Assumes: the packet fits a datagram. -/
theorem sameFront_datagram (s : LoopState PKey) (addr : Sockaddr) (draw : Draw PKey) {pkt : Packet}
    (hfits : kapuaHeaderSize + pkt.length ≤ kapuaMaxPacketSize) :
    (arrivedDatagram s addr pkt.datagram draw).size = kapuaHeaderSize + pkt.length ∧
      SameFront (kapuaHeaderSize + pkt.length)
        (arrivedDatagram s addr pkt.datagram draw).pkt pkt := by
  have hwhole : pkt.datagram.take kapuaMaxPacketSize = pkt.datagram :=
    List.take_of_length_le (by simpa [Packet.datagram] using hfits)
  simp only [arrivedDatagram, hwhole]
  exact ⟨by simp [Packet.datagram], sameFront_write _ pkt _⟩

/-- A pass over a packet that was sent as it is and is no `EncryptionContext` is in bounds. Assumes:
the packet fits a datagram. -/
theorem inBounds_datagram (ssl : OpenSSL PKey) (s : LoopState PKey) (addr : Sockaddr)
    (draw : Draw PKey) {pkt : Packet} (hfits : kapuaHeaderSize + pkt.length ≤ kapuaMaxPacketSize)
    (htype : pkt.type ≠ some .encryptionContext) :
    InBounds ssl s (.datagram addr pkt.datagram, draw) := by
  refine inBounds_of_type (recvfrom_datagram s addr pkt.datagram draw) ?_
  obtain ⟨-, hfront⟩ := sameFront_datagram s addr draw hfits
  rw [hfront.type_eq (Nat.le_add_right kapuaHeaderSize pkt.length)]
  exact htype

end Kapua
