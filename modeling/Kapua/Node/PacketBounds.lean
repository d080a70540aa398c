import Kapua.Node.ReceiveLoop
import Kapua.Node.TaggedCipher

/-!
# Which bytes a packet is made of

`_receive` checks that a datagram holds a header and never looks at the header's `length`, which
`read_public_key` and `decrypt_aes_context` then trust. `meaningfulBytes` are the bytes a packet
really consists of, the datagram itself or its decryption, and `OnlyReceivedBytes` says that an
accepted packet's header and data lie within them.

`onlyReceivedBytes_iff` is the exact condition: it holds of every datagram that is not `Overlong`,
and of no other. Whether a datagram is overlong is told by its bytes and the record of its sender:
it passes the checks of `_receive` and announces more data than it brought, either in the clear or
under the session key.
-/

set_option autoImplicit false
set_option relaxedAutoImplicit false

namespace Kapua

variable {PKey : Type} (ssl : OpenSSL PKey)

/-- The bytes that make up a packet of `size` bytes from the peer with the given record: those
received, or the plaintext when the packet is decrypted. -/
def meaningfulBytes (node : Option (Node PKey)) (pkt : Packet) (size : ℕ) : Bytes :=
  if pkt.checkMagicValid then pkt.slice 0 size
  else
    match node with
    | none => pkt.slice 0 size
    | some node =>
      if NodeState.checkEncryption ≤ node.state then
        (aesDecrypt ssl node.aesContextRx (pkt.slice 0 size)).getD []
      else pkt.slice 0 size

/-- If `_receive` accepts the datagram, the header and the `length` bytes of data lie within the
meaningful bytes and within a packet, and the data is read off the meaningful bytes. -/
def OnlyReceivedBytes (s : LoopState PKey) (addr : Sockaddr) (bytes : Bytes) (draw : Draw PKey) :
    Prop :=
  (receive ssl s (.datagram addr bytes) draw).accepted = true →
    kapuaHeaderSize + (receive ssl s (.datagram addr bytes) draw).loop.pkt.length ≤
      (meaningfulBytes ssl (s.core.peer addr) (arrivedDatagram s addr bytes draw).pkt
        (arrivedDatagram s addr bytes draw).size).length ∧
    kapuaHeaderSize + (receive ssl s (.datagram addr bytes) draw).loop.pkt.length ≤
      kapuaMaxPacketSize ∧
    (receive ssl s (.datagram addr bytes) draw).loop.pkt.data =
      ((meaningfulBytes ssl (s.core.peer addr) (arrivedDatagram s addr bytes draw).pkt
        (arrivedDatagram s addr bytes draw).size).drop kapuaHeaderSize).take
          (receive ssl s (.datagram addr bytes) draw).loop.pkt.length

/-! ### Overlong datagrams -/

/-- The bytes begin with the magic number. -/
def BeginsWithMagic (bytes : Bytes) : Prop := bytes.take 5 = kapuaMagicNumber

/-- The header in front of the bytes has our major version and a sender's id other than ours. -/
def FromAnother (myId : UInt64) (bytes : Bytes) : Prop :=
  (bytes.drop 5).take 1 = [kapuaVersion.major] ∧
    UInt64.ofNat (leNat ((bytes.drop 18).take 8)) ≠ myId

/-- The length of the data that the header in front of the bytes announces. -/
def announced (bytes : Bytes) : ℕ := leNat ((bytes.drop 44).take 2)

/-- The received bytes that announce more data than there is, from a sender as whose packet they
are taken.
* `plain`: in the clear, with the magic number or from a sender of whom nothing is decrypted.
* `sealed`: under the session key. A plaintext that is shorter than a header is read together with
  the received bytes behind it. -/
inductive Overlong (s : LoopState PKey) (addr : Sockaddr) (received : Bytes) : Prop
  | plain
      (hplain : BeginsWithMagic received ∨ ∀ record, s.core.peer addr = some record →
        ¬ NodeState.checkEncryption ≤ record.state)
      (hsize : kapuaHeaderSize ≤ received.length) (hfrom : FromAnother s.core.myId received)
      (hlong : received.length < kapuaHeaderSize + announced received)
  | sealed {record : Node PKey} {plaintext opened : Bytes} (hmagic : ¬ BeginsWithMagic received)
      (hsize : kapuaHeaderSize ≤ received.length) (hpeer : s.core.peer addr = some record)
      (hstate : NodeState.checkEncryption ≤ record.state)
      (hopen : aesDecrypt ssl record.aesContextRx received = some plaintext)
      (hopened : opened = plaintext ++ received.drop plaintext.length)
      (hvalid : BeginsWithMagic opened) (hfrom : FromAnother s.core.myId opened)
      (hlong : plaintext.length < kapuaHeaderSize + announced opened)

/-- A plaintext and the received bytes behind it are at least as many as were received. -/
theorem length_le_opened (received plaintext : Bytes) :
    received.length ≤ (plaintext ++ received.drop plaintext.length).length := by
  rw [List.length_append, List.length_drop]
  omega

section Front

variable {pkt : Packet} {bytes : Bytes} (hfront : pkt.slice 0 bytes.length = bytes)

include hfront

/-- A field of the packet is read off the bytes in its front. -/
theorem slice_of_front {offset count : ℕ} (hend : offset + count ≤ bytes.length) :
    pkt.slice offset count = (bytes.drop offset).take count := by
  calc pkt.slice offset count
      = ((pkt.slice 0 bytes.length).drop offset).take count := by
        rw [Memory.drop_slice, Memory.take_slice _ (by omega), Nat.zero_add]
    _ = (bytes.drop offset).take count := by rw [hfront]

/-- A plaintext is written over the front. -/
theorem front_write (plaintext : Bytes) :
    Memory.slice (pkt.write 0 plaintext) 0 (plaintext ++ bytes.drop plaintext.length).length =
      plaintext ++ bytes.drop plaintext.length := by
  refine List.ext_getElem? fun i ↦ ?_
  rw [Memory.getElem?_slice, Nat.zero_add]
  rcases Nat.lt_or_ge i plaintext.length with hinside | hbehind
  · have hlt : i < (plaintext ++ bytes.drop plaintext.length).length := by
      rw [List.length_append]
      omega
    rw [if_pos hlt, Memory.write_of_mem _ (Nat.zero_le i) hinside,
      List.getElem?_append_left hinside, List.getElem?_eq_getElem hinside]
    rfl
  · have hbyte : bytes[i]? = if i < bytes.length then some (pkt i) else none := by
      calc bytes[i]? = (pkt.slice 0 bytes.length)[i]? := by rw [hfront]
        _ = _ := by rw [Memory.getElem?_slice, Nat.zero_add]
    have hback : plaintext.length + (i - plaintext.length) = i := by omega
    rw [Memory.write_of_ge _ (by omega), List.getElem?_append_right hbehind, List.getElem?_drop,
      hback, hbyte, List.length_append, List.length_drop]
    split_ifs <;> first | rfl | omega

variable (hsize : kapuaHeaderSize ≤ bytes.length)

include hsize

theorem beginsWithMagic_of_front : pkt.checkMagicValid = true ↔ BeginsWithMagic bytes := by
  have hmagic : pkt.magic = (bytes.drop 0).take 5 :=
    slice_of_front hfront (le_trans (by decide) hsize)
  rw [Packet.checkMagicValid, hmagic, beq_iff_eq]
  rfl

theorem passesHeader_of_front {myId : UInt64} {size : ℕ} (hreceived : kapuaHeaderSize ≤ size) :
    passesHeader myId pkt size = true ↔ FromAnother myId bytes := by
  have hmajor : pkt.slice 5 1 = (bytes.drop 5).take 1 :=
    slice_of_front hfront (le_trans (by decide) hsize)
  have hbyte : pkt.slice 5 1 = [pkt 5] := rfl
  have hfrom : pkt.slice 18 8 = (bytes.drop 18).take 8 :=
    slice_of_front hfront (le_trans (by decide) hsize)
  rw [FromAnother, ← hmajor, hbyte, ← hfrom, List.singleton_inj]
  simp [passesHeader, hreceived, Packet.checkVersionValid, Packet.version, Packet.fromId]

theorem announced_of_front : announced bytes = pkt.length := by
  have hfield : pkt.slice 44 2 = (bytes.drop 44).take 2 := slice_of_front hfront hsize
  rw [announced, ← hfield]
  rfl

end Front

variable {ssl}

/-- The bytes an accepted packet consists of. -/
theorem Acceptance.meaningfulBytes_eq {s : LoopState PKey} {arrived : Arrived} {pkt : Packet}
    {meaningful : Bytes} (h : Acceptance ssl s arrived pkt meaningful) :
    meaningfulBytes ssl (s.core.peer arrived.fromAddr) arrived.pkt arrived.size = meaningful := by
  cases h with
  | plain hplain hpasses =>
    unfold meaningfulBytes
    rcases hplain with hmagic | hstate
    · rw [if_pos hmagic]
    · cases hpeer : s.core.peer arrived.fromAddr with
      | none => simp
      | some record => simp only [if_neg (hstate record hpeer), ite_self]
  | decrypted hmagic hpeer hstate hopen =>
    simp only [meaningfulBytes, hmagic, Bool.false_eq_true, if_false, hpeer, if_pos hstate, hopen,
      Option.getD_some]

/-- The front of an accepted packet is the bytes it consists of. -/
theorem Acceptance.slice_eq {s : LoopState PKey} {arrived : Arrived} {pkt : Packet}
    {meaningful : Bytes} (h : Acceptance ssl s arrived pkt meaningful) :
    pkt.slice 0 meaningful.length = meaningful := by
  cases h with
  | plain => rw [Memory.length_slice]
  | decrypted _ _ _ _ hpkt => rw [hpkt, Memory.slice_write_self]

/-- An accepted packet consists of no more bytes than a datagram has. Assumes: removing the padding
of a ciphertext does not lengthen it. -/
theorem Acceptance.length_le {s : LoopState PKey} {arrived : Arrived} {pkt : Packet}
    {meaningful : Bytes} (h : Acceptance ssl s arrived pkt meaningful)
    (hdecrypt : ∀ {key iv ciphertext plaintext},
      ssl.aes256CbcDecrypt key iv ciphertext = some plaintext →
        plaintext.length ≤ ciphertext.length) : meaningful.length ≤ arrived.size := by
  cases h with
  | plain => rw [Memory.length_slice]
  | decrypted _ _ _ hopen =>
    have hlength := hdecrypt hopen
    rw [List.length_drop, Memory.length_slice] at hlength
    omega

/-- Data that lies within a slice is read off the slice. -/
theorem data_eq_of_slice {pkt : Packet} {bytes : Bytes} (hslice : pkt.slice 0 bytes.length = bytes)
    (hlength : kapuaHeaderSize + pkt.length ≤ bytes.length) :
    pkt.data = (bytes.drop kapuaHeaderSize).take pkt.length := by
  calc pkt.data
      = ((pkt.slice 0 bytes.length).drop kapuaHeaderSize).take pkt.length := by
        rw [Memory.drop_slice, Memory.take_slice _ (by omega), Nat.zero_add]
        rfl
    _ = (bytes.drop kapuaHeaderSize).take pkt.length := by rw [hslice]

section Arrived

variable {s : LoopState PKey} {arrived : Arrived} {received : Bytes}
  (hsize : arrived.size = received.length)
  (hfront : arrived.pkt.slice 0 received.length = received)

include hsize hfront

/-- An overlong datagram is let through with more data announced than there is. -/
theorem Overlong.exists_acceptance (h : Overlong ssl s arrived.fromAddr received) :
    ∃ pkt meaningful, Acceptance ssl s arrived pkt meaningful ∧
      meaningful.length < kapuaHeaderSize + pkt.length := by
  obtain ⟨buffer, addr, size⟩ := arrived
  dsimp only at hsize hfront h ⊢
  subst hsize
  cases h with
  | plain hplain hheader hfrom hlong =>
    refine ⟨_, _, .plain ?_ ((passesHeader_of_front hfront hheader hheader).mpr hfrom), ?_⟩
    · exact hplain.imp_left (beginsWithMagic_of_front hfront hheader).mpr
    · rw [Memory.length_slice, ← announced_of_front hfront hheader]
      exact hlong
  | @sealed record plaintext opened hmagic hheader hpeer hstate hopen hwhole hvalid hfrom hlong =>
    subst hwhole
    have hfront' := front_write hfront plaintext
    have hheader' := hheader.trans (length_le_opened received plaintext)
    refine ⟨_, plaintext, .decrypted ?_ hpeer hstate ?_ rfl
      ((beginsWithMagic_of_front hfront' hheader').mpr hvalid)
      ((passesHeader_of_front hfront' hheader' hheader).mpr hfrom), ?_⟩
    · rw [← Bool.not_eq_true, beginsWithMagic_of_front hfront hheader]
      exact hmagic
    · rw [hfront]
      exact hopen
    · rw [← announced_of_front hfront' hheader']
      exact hlong

/-- A datagram that is let through with more data announced than there is is overlong. -/
theorem Acceptance.overlong {pkt : Packet} {meaningful : Bytes}
    (h : Acceptance ssl s arrived pkt meaningful)
    (hlong : meaningful.length < kapuaHeaderSize + pkt.length) :
    Overlong ssl s arrived.fromAddr received := by
  obtain ⟨buffer, addr, size⟩ := arrived
  dsimp only at hsize hfront h ⊢
  subst hsize
  cases h with
  | plain hplain hpasses =>
    have hheader : kapuaHeaderSize ≤ received.length := size_of_passesHeader hpasses
    rw [Memory.length_slice, ← announced_of_front hfront hheader] at hlong
    exact .plain (hplain.imp_left (beginsWithMagic_of_front hfront hheader).mp) hheader
      ((passesHeader_of_front hfront hheader hheader).mp hpasses) hlong
  | decrypted hmagic hpeer hstate hopen hpkt hvalid hpasses =>
    have hheader : kapuaHeaderSize ≤ received.length := size_of_passesHeader hpasses
    have hfront' := front_write hfront meaningful
    have hheader' := hheader.trans (length_le_opened received meaningful)
    rw [hfront] at hopen
    rw [hpkt] at hvalid hpasses hlong
    rw [← announced_of_front hfront' hheader'] at hlong
    rw [← Bool.not_eq_true, beginsWithMagic_of_front hfront hheader] at hmagic
    exact .sealed hmagic hheader hpeer hstate hopen rfl
      ((beginsWithMagic_of_front hfront' hheader').mp hvalid)
      ((passesHeader_of_front hfront' hheader' hheader).mp hpasses) hlong

/-- The overlong datagrams are those that are let through with more data announced than there is. -/
theorem overlong_iff : Overlong ssl s arrived.fromAddr received ↔
    ∃ pkt meaningful, Acceptance ssl s arrived pkt meaningful ∧
      meaningful.length < kapuaHeaderSize + pkt.length := by
  constructor
  · exact fun h ↦ h.exists_acceptance hsize hfront
  · rintro ⟨pkt, meaningful, hacceptance, hlong⟩
    exact hacceptance.overlong hsize hfront hlong

end Arrived

/-- A packet that `_receive` accepts is made of received bytes exactly when the datagram is not
overlong. Assumes: removing the padding of a ciphertext does not lengthen it. -/
theorem onlyReceivedBytes_iff (hdecrypt : ∀ {key iv ciphertext plaintext},
      ssl.aes256CbcDecrypt key iv ciphertext = some plaintext →
        plaintext.length ≤ ciphertext.length)
    (s : LoopState PKey) (addr : Sockaddr) (bytes : Bytes) (draw : Draw PKey) :
    OnlyReceivedBytes ssl s addr bytes draw ↔
      ¬ Overlong ssl s addr (bytes.take kapuaMaxPacketSize) := by
  have hrecv := recvfrom_datagram s addr bytes draw
  have hfront : (arrivedDatagram s addr bytes draw).pkt.slice 0
      (bytes.take kapuaMaxPacketSize).length = bytes.take kapuaMaxPacketSize :=
    Memory.slice_write_self _ 0 (bytes.take kapuaMaxPacketSize)
  have hoverlong : Overlong ssl s addr (bytes.take kapuaMaxPacketSize) ↔ ∃ pkt meaningful,
      Acceptance ssl s (arrivedDatagram s addr bytes draw) pkt meaningful ∧
        meaningful.length < kapuaHeaderSize + pkt.length :=
    overlong_iff rfl hfront
  rw [hoverlong]
  unfold OnlyReceivedBytes
  rw [receive_accepted hrecv, receive_pkt hrecv]
  constructor
  · rintro honly ⟨pkt, meaningful, hacceptance, hlong⟩
    obtain ⟨haccepted, hpkt⟩ := hacceptance.screened_eq
    obtain ⟨hwithin, -, -⟩ := honly haccepted
    have hbytes := hacceptance.meaningfulBytes_eq
    change meaningfulBytes ssl (s.core.peer addr) _ _ = meaningful at hbytes
    rw [hpkt, hbytes] at hwithin
    exact absurd hlong (not_lt.mpr hwithin)
  · intro hnot haccepted
    obtain ⟨meaningful, hacceptance⟩ := acceptance_of_accepted haccepted
    have hwithin : kapuaHeaderSize + (screened ssl s (arrivedDatagram s addr bytes draw)).pkt.length
        ≤ meaningful.length := by
      by_contra hlong
      exact hnot ⟨_, meaningful, hacceptance, not_le.mp hlong⟩
    have hbytes := hacceptance.meaningfulBytes_eq
    change meaningfulBytes ssl (s.core.peer addr) _ _ = meaningful at hbytes
    have hsize : (arrivedDatagram s addr bytes draw).size ≤ kapuaMaxPacketSize := by
      simp [arrivedDatagram]
    rw [hbytes]
    exact ⟨hwithin, (hwithin.trans (hacceptance.length_le hdecrypt)).trans hsize,
      data_eq_of_slice hacceptance.slice_eq hwithin⟩

/-- `onlyReceivedBytes_iff` for a datagram of a header alone. -/
theorem onlyReceivedBytes_iff_tagged :
    OnlyReceivedBytes tagged (taggedStart 5 1) ⟨1, 1⟩ (taggedDatagram .ping 7 []) (taggedDraw 9) ↔
      ¬ Overlong tagged (taggedStart 5 1) ⟨1, 1⟩
        ((taggedDatagram .ping 7 []).take kapuaMaxPacketSize) :=
  onlyReceivedBytes_iff (by
    intro key iv ciphertext plaintext hopen
    simp only [tagged, Option.ite_none_right_eq_some, Option.some.injEq] at hopen
    obtain ⟨-, rfl⟩ := hopen
    simp) _ _ _ _

/-- A datagram that is a header alone and announces 1000 bytes of data. -/
def headerAnnouncingData : Bytes :=
  ((Packet.construct (fun _ ↦ 0) .ping 7 kapuaIdBroadcast).setLength 1000).slice 0 kapuaHeaderSize

/-- A header alone that announces 1000 bytes of data is accepted: `_receive` hands on a packet whose
`length` reaches past the 46 bytes received. -/
theorem not_onlyReceivedBytes :
    ¬ OnlyReceivedBytes tagged (taggedStart 5 1) ⟨1, 1⟩ headerAnnouncingData (taggedDraw 9) := by
  intro honly
  obtain ⟨hwithin, -, -⟩ := honly (by decide +kernel)
  exact absurd hwithin (by decide +kernel)

end Kapua
