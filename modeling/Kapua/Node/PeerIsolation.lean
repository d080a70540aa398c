import Kapua.Node.PacketFront
import Kapua.Node.SenderFrame

/-!
# What other senders can do to a record

The loop receives every datagram into one packet buffer and never clears it, so what an earlier
sender left there lies behind a later sender's datagram. The checks of `_receive` read only the
front (`screen_sameFront`), and so does `_process_packet` except where it trusts `length`
(`session_eq_of_dispatch`); `ReadsBehind` are the datagrams that make it read further.

`isolated_of_contained` is the two-run property this leaves: runs in bounds that receive the same
datagrams from an address, none of which reads behind itself, over the same uninitialised memory,
leave the same session in the record of that address, whatever other senders sent in between. It is
an instance of `Unwinding`. The run that
`not_isolated` exhibits shows what is left out: the public key of one peer is taken from bytes that
another sender put into the buffer.
-/

set_option autoImplicit false
set_option relaxedAutoImplicit false

namespace Kapua

variable {PKey : Type} {ssl : OpenSSL PKey}

/-! ### Checks and handling on the same front -/

/-- Records with the same session agree on the state and on both session keys. -/
theorem Node.fields_of_session_eq {node node' : Node PKey} (h : node.session = node'.session) :
    node.state = node'.state ∧ node.keys.publicKey = node'.keys.publicKey ∧
      node.aesContextTx = node'.aesContextTx ∧ node.aesContextRx = node'.aesContextRx := by
  simpa [Node.session] using h

/-- The checks of `_receive` on the same front, for senders with the same session, have the same
outcome and leave the same front. -/
theorem screen_sameFront (ssl : OpenSSL PKey) {node node' : Option (Node PKey)} {size : ℕ}
    {pkt pkt' : Packet}
    (hnode : node.map Node.session = node'.map Node.session) (h : SameFront size pkt pkt')
    (myId : UInt64) :
    (screen ssl myId node pkt size).accepted = (screen ssl myId node' pkt' size).accepted ∧
      SameFront size (screen ssl myId node pkt size).pkt (screen ssl myId node' pkt' size).pkt := by
  rcases Nat.lt_or_ge size kapuaHeaderSize with hshort | hsize
  · rw [screen_short ssl _ _ _ hshort, screen_short ssl _ _ _ hshort]
    exact ⟨rfl, h⟩
  have hopened : (openPacket ssl node pkt size).accepted =
        (openPacket ssl node' pkt' size).accepted ∧
      SameFront size (openPacket ssl node pkt size).pkt (openPacket ssl node' pkt' size).pkt := by
    by_cases hplain : pkt.checkMagicValid = true ∨
        ∀ record, node = some record → ¬ NodeState.checkEncryption ≤ record.state
    · have hplain' : pkt'.checkMagicValid = true ∨
          ∀ record, node' = some record → ¬ NodeState.checkEncryption ≤ record.state := by
        rcases hplain with hmagic | hstate
        · exact Or.inl ((h.checkMagicValid_eq hsize).symm.trans hmagic)
        · refine Or.inr fun record' hrecord' ↦ ?_
          rw [hrecord', Option.map_some, Option.map_eq_some_iff] at hnode
          obtain ⟨record, hrecord, hsession⟩ := hnode
          rw [← (Node.fields_of_session_eq hsession).1]
          exact hstate record hrecord
      rw [openPacket_plain ssl hplain, openPacket_plain ssl hplain']
      exact ⟨rfl, h⟩
    · simp only [not_or, not_forall, Bool.not_eq_true, not_not] at hplain
      obtain ⟨hmagic, record, rfl, hstate⟩ := hplain
      obtain ⟨record', rfl, hsession⟩ := Option.map_eq_some_iff.mp hnode.symm
      obtain ⟨hstates, -, -, hrx⟩ := Node.fields_of_session_eq hsession
      have hmagic' : pkt'.checkMagicValid = false := (h.checkMagicValid_eq hsize).symm.trans hmagic
      have hstate' : NodeState.checkEncryption ≤ record'.state := by rwa [hstates]
      have hbytes : aesDecrypt ssl record'.aesContextRx (pkt'.slice 0 size) =
          aesDecrypt ssl record.aesContextRx (pkt.slice 0 size) := by
        rw [hrx, h.slice_eq (Nat.zero_add size).le]
      cases hopen : aesDecrypt ssl record.aesContextRx (pkt.slice 0 size) with
      | none =>
        rw [openPacket_undecrypted hmagic hstate hopen,
          openPacket_undecrypted hmagic' hstate' (hbytes.trans hopen)]
        exact ⟨rfl, h⟩
      | some plaintext =>
        rw [openPacket_decrypted hmagic hstate hopen,
          openPacket_decrypted hmagic' hstate' (hbytes.trans hopen)]
        exact ⟨(h.write plaintext).checkMagicValid_eq hsize, h.write plaintext⟩
  rw [screen_eq ssl _ _ _ hsize, screen_eq ssl _ _ _ hsize]
  refine ⟨?_, hopened.2⟩
  rw [hopened.1, hopened.2.passesHeader_eq hsize]

/-- Two draws with the same random session key and padding. -/
structure Draw.SameKeys (draw draw' : Draw PKey) : Prop where
  sessionKey : draw.sessionKey = draw'.sessionKey
  padding : draw.padding = draw'.padding

/-- Two draws in which the memory that `len` and the keys of a new record occupy holds the same:
neither is initialised. -/
structure Draw.SameMemory (draw draw' : Draw PKey) : Prop where
  len : draw.len = draw'.len
  publicKey : draw.node.keys.publicKey = draw'.node.keys.publicKey
  aesContextTx : draw.node.aesContextTx = draw'.node.aesContextTx
  aesContextRx : draw.node.aesContextRx = draw'.node.aesContextRx

/-- A packet whose data `_process_packet` reads for a record in the given state. -/
def ReadsData (state : NodeState) (pkt : Packet) : Prop :=
  pkt.type = some .publicKeyReply ∧ state = .keyExchange ∨
    pkt.type = some .encryptionContext ∧ state = .handshake

/-- Handling packets with the same front for records with the same session leaves the same session.
Assumes: data that is read lies within the front. -/
theorem session_eq_of_dispatch {myId : UInt64} {keys : KeyPair PKey}
    {node node' after after' : Node PKey} {size : ℕ} {pkt pkt' : Packet}
    {draw draw' : Draw PKey} {sent sent' : List Sent}
    (hsession : node.session = node'.session) (hfront : SameFront size pkt pkt')
    (hsize : kapuaHeaderSize ≤ size) (hdraw : draw.SameKeys draw')
    (hmemory : draw.SameMemory draw')
    (hdata : ReadsData node.state pkt → kapuaHeaderSize + pkt.length ≤ size)
    (h : dispatch ssl myId keys node pkt draw = .ok (after, sent))
    (h' : dispatch ssl myId keys node' pkt' draw' = .ok (after', sent')) :
    after.session = after'.session := by
  obtain ⟨hstate, hpublic, htx, hrx⟩ := Node.fields_of_session_eq hsession
  have htype := hfront.type_eq hsize
  have hfinish : ∀ {other sent''}, Handling ssl myId keys node' pkt' draw' other sent'' →
      after.session = other.session → after.session = after'.session := by
    intro other sent'' hhandled heq
    rw [hhandled.dispatch_eq] at h'
    rwa [← (Prod.mk.inj (Except.ok.inj h')).1]
  cases handling_of_dispatch h with
  | ignored hrequest hreply hcontext hready =>
    exact hfinish (.ignored (by rwa [← htype]) (by rwa [← htype, ← hstate])
      (by rwa [← htype, ← hstate]) (by rwa [← htype, ← hstate])) hsession
  | request hrequest hreply =>
    obtain ⟨reply', hreply'⟩ := writePublicKey_of_writable (writable_of_writePublicKey hreply)
      (Packet.construct draw'.reply .publicKeyReply myId node'.id)
    exact hfinish (.request (htype ▸ hrequest) hreply') (by simp [Node.session, hpublic, htx, hrx])
  | unsealedReply hreply hexchange hkey hfail =>
    have hbytes := hfront.data_eq hsize (hdata (Or.inl ⟨hreply, hexchange⟩))
    refine hfinish (.unsealedReply (htype ▸ hreply) (hstate ▸ hexchange)
      (by rwa [Packet.readPublicKey, ← hbytes]) (by rwa [← hdraw.sessionKey, ← hdraw.padding])) ?_
    simp [Node.session, hdraw.sessionKey, hrx, hstate]
  | reply hreply hexchange hkey hseal _ =>
    have hbytes := hfront.data_eq hsize (hdata (Or.inl ⟨hreply, hexchange⟩))
    refine hfinish (.reply (htype ▸ hreply) (hstate ▸ hexchange)
      (by rwa [Packet.readPublicKey, ← hbytes]) (by rwa [← hdraw.sessionKey, ← hdraw.padding])
      rfl) ?_
    simp [Node.session, hdraw.sessionKey, hrx]
  | refusedContext hcontext hhandshake hfail =>
    have hbytes := hfront.data_eq hsize (hdata (Or.inr ⟨hcontext, hhandshake⟩))
    refine hfinish (.refusedContext (htype ▸ hcontext) (hstate ▸ hhandshake)
      (by rwa [← hbytes, ← hmemory.len])) ?_
    simp [Node.session, hbytes, hmemory.len, hstate, hpublic, htx, hrx]
  | context hcontext hhandshake hopen hafter =>
    have hbytes := hfront.data_eq hsize (hdata (Or.inr ⟨hcontext, hhandshake⟩))
    refine hfinish (.context (htype ▸ hcontext) (hstate ▸ hhandshake)
      (by rwa [← hbytes, ← hmemory.len]) rfl) ?_
    simp [hafter, Node.session, hbytes, hmemory.len, hpublic, htx, hrx]
  | ready hready hcheck =>
    exact hfinish (.ready (htype ▸ hready) (hstate ▸ hcheck))
      (by simp [Node.session, hpublic, htx, hrx])

/-! ### The two-run property -/

/-- A datagram that makes `_process_packet` read data behind what was received. -/
def ReadsBehind (s : LoopState PKey) (addr : Sockaddr) (bytes : Bytes) (draw : Draw PKey) : Prop :=
  ∃ node, s.core.peer addr = some node ∧
    passesHeader s.core.myId (arrivedDatagram s addr bytes draw).pkt
      (arrivedDatagram s addr bytes draw).size = true ∧
    ReadsData node.state (arrivedDatagram s addr bytes draw).pkt ∧
    (arrivedDatagram s addr bytes draw).size <
      kapuaHeaderSize + (arrivedDatagram s addr bytes draw).pkt.length

variable (ssl) in
/-- The inputs of one pass that leave the memory of others alone: a datagram, or nothing, handled in
bounds whoever sent it, and if it comes from `addr` a datagram that does not read behind itself. -/
structure Contained (addr : Sockaddr) (s : LoopState PKey) (input : Arrival × Draw PKey) :
    Prop where
  arrived : input.1 ≠ .failed
  inBounds : InBounds ssl s input
  within : ∀ bytes, input.1 = .datagram addr bytes → ¬ ReadsBehind s addr bytes input.2

variable (ssl) in
/-- Every pass of a run is over a contained input. -/
def RunContained (addr : Sockaddr) : LoopState PKey → List (Arrival × Draw PKey) → Prop
  | _, [] => True
  | s, input :: rest => Contained ssl addr s input ∧
      ∀ next sent, pass ssl s input.1 input.2 = .ok (next, sent) → RunContained addr next rest

/-- The inputs that are datagrams from `addr`. -/
def IsFrom (addr : Sockaddr) (input : Arrival × Draw PKey) : Prop :=
  ∃ bytes, input.1 = .datagram addr bytes

instance (addr : Sockaddr) (input : Arrival × Draw PKey) : Decidable (IsFrom addr input) :=
  match harrival : input.1 with
  | .nothing => isFalse (by simp [IsFrom, harrival])
  | .failed => isFalse (by simp [IsFrom, harrival])
  | .datagram other bytes =>
    decidable_of_iff (other = addr) (by simp [IsFrom, harrival])

/-- The same datagram, handled with the same random key draws. -/
def SameInput (input input' : Arrival × Draw PKey) : Prop :=
  input.1 = input'.1 ∧ input.2.SameKeys input'.2

/-- Handled over the same contents of uninitialised memory. -/
def SameMemory (input input' : Arrival × Draw PKey) : Prop := input.2.SameMemory input'.2

theorem SameInput.refl (input : Arrival × Draw PKey) : SameInput input input := ⟨rfl, rfl, rfl⟩

theorem SameMemory.refl (input : Arrival × Draw PKey) : SameMemory input input :=
  ⟨rfl, rfl, rfl, rfl⟩

variable (ssl) in
/-- Two runs from `start` leave the same session in the record of `addr`. -/
def Isolated (start : LoopState PKey) (addr : Sockaddr)
    (inputs inputs' : List (Arrival × Draw PKey)) : Prop :=
  ∀ final final', runLoop ssl start inputs = .ok final → runLoop ssl start inputs' = .ok final' →
    (final.core.peer addr).map Node.session = (final'.core.peer addr).map Node.session

/-- What the passes over datagrams from `addr` depend on. -/
def SimilarFor (addr : Sockaddr) (s s' : LoopState PKey) : Prop :=
  s.core.myId = s'.core.myId ∧ s.core.keys = s'.core.keys ∧
    (s.core.peer addr).map Node.session = (s'.core.peer addr).map Node.session

variable (ssl) in
/-- A pass over a contained input. -/
def ContainedPass (addr : Sockaddr) (s : LoopState PKey) (input : Arrival × Draw PKey)
    (after : LoopState PKey) : Prop :=
  Contained ssl addr s input ∧ ∃ sent, pass ssl s input.1 input.2 = .ok (after, sent)

/-- A run over contained inputs consists of passes over contained inputs. -/
theorem RunContained.run {addr : Sockaddr} {s final : LoopState PKey}
    {inputs : List (Arrival × Draw PKey)} (hcontained : RunContained ssl addr s inputs)
    (hrun : Run (Passes ssl) s inputs final) : Run (ContainedPass ssl addr) s inputs final := by
  induction hrun with
  | nil s => exact .nil s
  | cons hstep _ ih =>
    obtain ⟨sent, hpass⟩ := hstep
    exact .cons ⟨hcontained.1, sent, hpass⟩ (ih (hcontained.2 _ sent hpass))

/-- Data that is read for a record lies within what was received. Assumes: the datagram does not
read behind itself. -/
theorem length_le_of_contained {s : LoopState PKey} {addr : Sockaddr} {bytes : Bytes}
    {draw : Draw PKey} (hcontained : ¬ ReadsBehind s addr bytes draw)
    (hscreen : (screened ssl s (arrivedDatagram s addr bytes draw)).accepted = true)
    (hreads : ReadsData (handledNode ssl s (arrivedDatagram s addr bytes draw) draw).state
      (screened ssl s (arrivedDatagram s addr bytes draw)).pkt) :
    kapuaHeaderSize + (screened ssl s (arrivedDatagram s addr bytes draw)).pkt.length ≤
      (arrivedDatagram s addr bytes draw).size := by
  have haddr : (arrivedDatagram s addr bytes draw).fromAddr = addr := rfl
  cases hpeer : s.core.peer addr with
  | none =>
    -- a record that was just created is `initialised`, and nothing is read for it
    simp [ReadsData, handledNode, haddr, hpeer, freshNode, Node.construct] at hreads
  | some node =>
    have hnode : handledNode ssl s (arrivedDatagram s addr bytes draw) draw = node := by
      simp [handledNode, haddr, hpeer]
    rw [hnode] at hreads
    have hstate : ¬ NodeState.checkEncryption ≤ node.state := by
      rcases hreads with ⟨-, hexchange⟩ | ⟨-, hhandshake⟩
      · simp [hexchange]
      · simp [hhandshake]
    rw [screened_of_unsealed ssl (arrivedDatagram s addr bytes draw) hpeer hstate]
      at hscreen hreads ⊢
    by_contra hlong
    exact hcontained ⟨node, hpeer, hscreen, hreads, not_le.mp hlong⟩

/-- The records that packets from the same sender are handled for have the same session. -/
theorem session_eq_of_handledNode {s s' : LoopState PKey} {arrived arrived' : Arrived}
    {draw draw' : Draw PKey} (haddr : arrived.fromAddr = arrived'.fromAddr)
    (hpeers : (s.core.peer arrived.fromAddr).map Node.session =
      (s'.core.peer arrived.fromAddr).map Node.session) (hmemory : draw.SameMemory draw') :
    (handledNode ssl s arrived draw).session = (handledNode ssl s' arrived' draw').session := by
  rw [handledNode, handledNode, ← haddr]
  cases hpeer : s.core.peer arrived.fromAddr with
  | none =>
    have hpeer' : s'.core.peer arrived.fromAddr = none := by
      simpa [hpeer, eq_comm] using hpeers
    simp [hpeer', Node.session, freshNode, Node.construct, hmemory.publicKey,
      hmemory.aesContextTx, hmemory.aesContextRx]
  | some node =>
    rw [hpeer, Option.map_some] at hpeers
    obtain ⟨node', hpeer', hsession⟩ := Option.map_eq_some_iff.mp hpeers.symm
    simp [hpeer', hsession]

/-- Passes over the same contained datagram from `addr`, with the same key draws over the same
uninitialised memory, leave the same session in the record of `addr`. -/
theorem session_eq_of_pass {addr : Sockaddr} {bytes : Bytes} {s s' after after' : LoopState PKey}
    {draw draw' : Draw PKey} {sent sent' : List Sent} (hsimilar : SimilarFor addr s s')
    (hdraw : draw.SameKeys draw') (hmemory : draw.SameMemory draw')
    (hcontained : ¬ ReadsBehind s addr bytes draw)
    (h : pass ssl s (.datagram addr bytes) draw = .ok (after, sent))
    (h' : pass ssl s' (.datagram addr bytes) draw' = .ok (after', sent')) :
    (after.core.peer addr).map Node.session = (after'.core.peer addr).map Node.session := by
  obtain ⟨hid, hkeys, hpeers⟩ := hsimilar
  have hrecv := recvfrom_datagram s addr bytes draw
  have hrecv' := recvfrom_datagram s' addr bytes draw'
  have hpassing := passing_of_pass h
  have hpassing' := passing_of_pass h'
  obtain ⟨haccepted, hfront⟩ := screen_sameFront ssl hpeers
    (sameFront_arrivedDatagram s s' addr bytes draw draw') s.core.myId
  have hscreened' : screen ssl s.core.myId (s'.core.peer addr)
      (arrivedDatagram s' addr bytes draw').pkt (arrivedDatagram s addr bytes draw).size =
        screened ssl s' (arrivedDatagram s' addr bytes draw') := by
    rw [screened, hid]
    rfl
  change (screened ssl s (arrivedDatagram s addr bytes draw)).accepted = _ at haccepted
  rw [hscreened'] at haccepted hfront
  cases hscreen : (screened ssl s (arrivedDatagram s addr bytes draw)).accepted with
  | false =>
    obtain ⟨hcore, -⟩ := hpassing.refused hrecv hscreen
    obtain ⟨hcore', -⟩ := hpassing'.refused hrecv' (haccepted.symm.trans hscreen)
    rw [hcore, hcore']
    exact hpeers
  | true =>
    obtain ⟨node, out, hhandled, hafter, -⟩ := hpassing.handled hrecv hscreen
    obtain ⟨node', out', hhandled', hafter', -⟩ :=
      hpassing'.handled hrecv' (haccepted.symm.trans hscreen)
    have hsession : ((handledNode ssl s (arrivedDatagram s addr bytes draw) draw).updateLastContact
          draw.now).session =
        ((handledNode ssl s' (arrivedDatagram s' addr bytes draw') draw').updateLastContact
          draw'.now).session := by
      change (handledNode ssl s _ draw).session = (handledNode ssl s' _ draw').session
      exact session_eq_of_handledNode rfl hpeers hmemory
    change after.core.peer addr = some node at hafter
    change after'.core.peer addr = some node' at hafter'
    rw [hafter, hafter', Option.map_some, Option.map_some]
    rw [← hid, ← hkeys] at hhandled'
    exact congrArg some (session_eq_of_dispatch hsession hfront (size_of_accepted hscreen) hdraw
      hmemory (length_le_of_contained hcontained hscreen) hhandled.dispatch_eq
      hhandled'.dispatch_eq)

/-- The passes over contained inputs satisfy the unwinding conditions for the observer of one
record. -/
theorem unwinding_containedPass (ssl : OpenSSL PKey) (addr : Sockaddr) :
    Unwinding (ContainedPass ssl addr) (fun s ↦ s.core.WellFormed) (SimilarFor addr)
      (IsFrom addr) (fun input input' ↦ SameInput input input' ∧ SameMemory input input') where
  equivalence :=
    { refl := fun _ ↦ ⟨rfl, rfl, rfl⟩
      symm := fun h ↦ ⟨h.1.symm, h.2.1.symm, h.2.2.symm⟩
      trans := fun h h' ↦ ⟨h.1.trans h'.1, h.2.1.trans h'.2.1, h.2.2.trans h'.2.2⟩ }
  good := by
    rintro s ⟨arrival, draw⟩ t hs ⟨-, sent, hpass⟩
    exact (passing_of_pass hpass).wellFormed hs
  frame := by
    rintro s ⟨arrival, draw⟩ t hs hother ⟨⟨hfailed, -, -⟩, sent, hpass⟩
    have hpassing := passing_of_pass hpass
    refine ⟨hpassing.myId_eq.symm, hpassing.keys_eq.symm, ?_⟩
    cases arrival with
    | nothing =>
      cases hpassing with
      | idle => rfl
      | rejected hrecv => cases hrecv
      | known hrecv => cases hrecv
      | new hrecv => cases hrecv
    | failed => exact absurd rfl hfailed
    | datagram sender bytes =>
      have hne : addr ≠ sender := fun heq ↦ hother ⟨bytes, by rw [heq]⟩
      rw [hpassing.peer_of_ne hs (recvfrom_datagram s sender bytes draw) hne]
  consistent := by
    rintro s ⟨arrival, draw⟩ t s' ⟨arrival', draw'⟩ t' - - hsimilar ⟨bytes, harrival⟩ -
      ⟨⟨hsame, hdraw⟩, hmemory⟩ ⟨⟨-, -, hcontained⟩, sent, hpass⟩ ⟨-, sent', hpass'⟩
    dsimp only [SameMemory] at harrival hsame hcontained hpass hpass' hdraw hmemory
    subst hsame harrival
    have hid := (passing_of_pass hpass).myId_eq
    have hkeys := (passing_of_pass hpass).keys_eq
    refine ⟨?_, ?_, session_eq_of_pass hsimilar hdraw hmemory (hcontained bytes rfl) hpass hpass'⟩
    · rw [hid, (passing_of_pass hpass').myId_eq, hsimilar.1]
    · rw [hkeys, (passing_of_pass hpass').keys_eq, hsimilar.2.1]

/-- Lists that match under two relations match under both at once. -/
theorem forall₂_and {Left Right : Type} {R S : Left → Right → Prop} {xs : List Left}
    {ys : List Right} (hR : List.Forall₂ R xs ys) (hS : List.Forall₂ S xs ys) :
    List.Forall₂ (fun x y ↦ R x y ∧ S x y) xs ys := by
  induction hR with
  | nil => exact .nil
  | cons hx _ ih =>
    cases hS with
    | cons hx' hrest => exact .cons ⟨hx, hx'⟩ (ih hrest)

/-- Two runs that start in the same state and receive the same datagrams from `addr`, handled with
the same random key draws, leave the same session in the record of `addr`. Assumes: a reachable
start, that in either run no `recvfrom` fails, every pass is in bounds and no datagram from `addr`
reads behind itself, and that uninitialised memory holds the same in both. -/
theorem isolated_of_contained {start : LoopState PKey} (hreach : Reachable ssl start)
    {addr : Sockaddr} {inputs inputs' : List (Arrival × Draw PKey)}
    (hcontained : RunContained ssl addr start inputs)
    (hcontained' : RunContained ssl addr start inputs')
    (hsame : List.Forall₂ SameInput (inputs.filter (IsFrom addr ·))
      (inputs'.filter (IsFrom addr ·)))
    (hmemory : List.Forall₂ SameMemory (inputs.filter (IsFrom addr ·))
      (inputs'.filter (IsFrom addr ·))) :
    Isolated ssl start addr inputs inputs' := by
  intro final final' hrun hrun'
  have hsimilar : SimilarFor addr start start := ⟨rfl, rfl, rfl⟩
  have hfinal := (unwinding_containedPass ssl addr).similar (hcontained.run (run_of_runLoop hrun))
    (hcontained'.run (run_of_runLoop hrun')) hreach.wellFormed hreach.wellFormed hsimilar
    (forall₂_and hsame hmemory)
  exact hfinal.2.2

/-- `isolated_of_contained` for a `PublicKeyRequest` that arrives alone or behind a `Ping` of
another sender. -/
theorem isolated_of_contained_tagged : Isolated tagged (taggedStart 5 1) ⟨1, 1⟩
    [(.datagram ⟨1, 1⟩ (taggedDatagram .publicKeyRequest 7 []), taggedDraw 9)]
    [(.datagram ⟨2, 2⟩ (taggedDatagram .ping 8 []), taggedDraw 3),
      (.datagram ⟨1, 1⟩ (taggedDatagram .publicKeyRequest 7 []), taggedDraw 9)] := by
  have hempty := empty_taggedStart 5 1
  have hcontained : ∀ {s : LoopState UInt8}, s.core.findNode ⟨1, 1⟩ = none → ∀ bytes,
      Contained tagged ⟨1, 1⟩ s (.datagram ⟨1, 1⟩ bytes, taggedDraw 9) := by
    intro s hfind bytes
    refine ⟨by simp, inBounds_of_unknown hfind _ _, ?_⟩
    rintro - - ⟨node, hnode, -⟩
    rw [Core.peer_of_not_find hfind] at hnode
    cases hnode
  have hfilter :
      [((.datagram ⟨2, 2⟩ (taggedDatagram .ping 8 []), taggedDraw 3) : Arrival × Draw UInt8),
      (.datagram ⟨1, 1⟩ (taggedDatagram .publicKeyRequest 7 []), taggedDraw 9)].filter
        (IsFrom ⟨1, 1⟩ ·) =
      [(.datagram ⟨1, 1⟩ (taggedDatagram .publicKeyRequest 7 []), taggedDraw 9)] := by
    simp [IsFrom]
  refine isolated_of_contained ⟨_, [], hempty, rfl⟩ ?_ ?_ ?_ ?_
  · exact ⟨hcontained (hempty.2.2 _) _, fun _ _ _ ↦ trivial⟩
  · refine ⟨⟨by simp, inBounds_of_unknown (hempty.2.2 _) _ _, by simp⟩, fun next sent hpass ↦
      ⟨hcontained ?_ _, fun _ _ _ ↦ trivial⟩⟩
    rw [(passing_of_pass hpass).findNode_of_ne (recvfrom_datagram _ _ _ _) (by decide)]
    exact hempty.2.2 _
  · rw [hfilter]
    simpa [IsFrom] using SameInput.refl _
  · rw [hfilter]
    simpa [IsFrom] using SameMemory.refl _

/-- A `PublicKeyRequest` and then the bare header of a `PublicKeyReply` that announces two bytes,
both from one sender, and between them a `Ping` of another sender whose data encodes `key`. -/
def borrowingInputs (key : UInt8) : List (Arrival × Draw UInt8) :=
  [(.datagram ⟨1, 1⟩ (taggedDatagram .publicKeyRequest 7 []), taggedDraw 9),
    (.datagram ⟨2, 2⟩ (taggedDatagram .ping 8 [0x30, key]), taggedDraw 9),
    (.datagram ⟨1, 1⟩ (((Packet.construct (fun _ ↦ 0) .publicKeyReply 7
      kapuaIdBroadcast).setLength 2).slice 0 kapuaHeaderSize), taggedDraw 9)]

/-- The public key in the record of the first sender is the one in the datagram of the second: two
runs that differ only there are not isolated, even over the same uninitialised memory. -/
theorem not_isolated : ∃ start, Reachable tagged start ∧
    List.Forall₂ SameInput ((borrowingInputs 2).filter (IsFrom ⟨1, 1⟩ ·))
      ((borrowingInputs 3).filter (IsFrom ⟨1, 1⟩ ·)) ∧
    List.Forall₂ SameMemory ((borrowingInputs 2).filter (IsFrom ⟨1, 1⟩ ·))
      ((borrowingInputs 3).filter (IsFrom ⟨1, 1⟩ ·)) ∧
    ¬ Isolated tagged start ⟨1, 1⟩ (borrowingInputs 2) (borrowingInputs 3) := by
  have hfilter : ∀ key, (borrowingInputs key).filter (IsFrom ⟨1, 1⟩ ·) =
      [(.datagram ⟨1, 1⟩ (taggedDatagram .publicKeyRequest 7 []), taggedDraw 9),
        (.datagram ⟨1, 1⟩ (((Packet.construct (fun _ ↦ 0) .publicKeyReply 7
          kapuaIdBroadcast).setLength 2).slice 0 kapuaHeaderSize), taggedDraw 9)] := by
    intro key
    simp [borrowingInputs, IsFrom]
  have hkey : ∀ key, key = 2 ∨ key = 3 → ∃ final, runLoop tagged (taggedStart 5 1)
      (borrowingInputs key) = .ok final ∧
        (final.core.peer ⟨1, 1⟩).bind (·.keys.publicKey) = some key := by
    intro key hkey
    have hrun : (runLoop tagged (taggedStart 5 1) (borrowingInputs key)).toOption.bind
        (fun s ↦ (s.core.peer ⟨1, 1⟩).bind (·.keys.publicKey)) = some key := by
      rcases hkey with rfl | rfl <;> decide +kernel
    obtain ⟨final, hfinal, hpublic⟩ := Option.bind_eq_some_iff.mp hrun
    exact ⟨final, eq_ok_of_toOption hfinal, hpublic⟩
  refine ⟨taggedStart 5 1, ⟨_, [], empty_taggedStart 5 1, rfl⟩, ?_, ?_, fun hisolated ↦ ?_⟩
  · rw [hfilter, hfilter]
    exact .cons (.refl _) (.cons (.refl _) .nil)
  · rw [hfilter, hfilter]
    exact .cons (.refl _) (.cons (.refl _) .nil)
  · obtain ⟨final, hrun, hpublic⟩ := hkey 2 (Or.inl rfl)
    obtain ⟨final', hrun', hpublic'⟩ := hkey 3 (Or.inr rfl)
    have hsession := congrArg (Option.bind · fun session ↦ session.2.1)
      (hisolated final final' hrun hrun')
    simp only [Option.bind_map] at hsession
    change (final.core.peer ⟨1, 1⟩).bind (·.keys.publicKey) =
      (final'.core.peer ⟨1, 1⟩).bind (·.keys.publicKey) at hsession
    rw [hpublic, hpublic'] at hsession
    exact absurd hsession (by decide)

end Kapua
